import KnowledgeSearch.Api.Problems
import KnowledgeSearch.Application.Documents
import KnowledgeSearch.Application.Queries

/-!
# The routes of documents

A route answers with a document, a job, a page of the listing or an empty response, or with the problem
of the exception its service raises. Storage keys and content hashes are not part of any response.
-/

namespace KnowledgeSearch

structure DocumentResponse where
  id : Uuid
  originalFilename : Text
  mediaType : String
  sizeBytes : ℤ
  status : String
  failureCode : Option Text
  createdAt : Timestamp
  updatedAt : Timestamp
  deriving DecidableEq

/-- `DocumentResponse.from_domain`. -/
def DocumentResponse.fromDomain (document : Document) : DocumentResponse where
  id := document.id
  originalFilename := document.originalFilename
  mediaType := document.mediaType.value
  sizeBytes := document.sizeBytes
  status := document.status.value
  failureCode := document.failureCode
  createdAt := document.createdAt
  updatedAt := document.updatedAt

structure IngestionJobResponse where
  id : Uuid
  documentId : Uuid
  status : String
  attemptCount : ℤ
  failureCode : Option Text
  createdAt : Timestamp
  updatedAt : Timestamp
  startedAt : Option Timestamp
  finishedAt : Option Timestamp
  deriving DecidableEq

/-- `IngestionJobResponse.from_domain`. -/
def IngestionJobResponse.fromDomain (job : IngestionJob) : IngestionJobResponse where
  id := job.id
  documentId := job.documentId
  status := job.status.value
  attemptCount := job.attemptCount
  failureCode := job.failureCode
  createdAt := job.createdAt
  updatedAt := job.updatedAt
  startedAt := job.startedAt
  finishedAt := job.finishedAt

inductive DocumentRouteResponse where
  | submitted (document : DocumentResponse) (ingestionJob : IngestionJobResponse)
  | listed (items : List DocumentResponse) (offset limit : ℕ)
  | document (document : DocumentResponse)
  | ingestionJob (job : IngestionJobResponse)
  | deleted
  | problem (response : ProblemResponse)
  | internalServerError
  deriving DecidableEq

def DocumentRouteResponse.statusCode : DocumentRouteResponse → ℕ
  | submitted _ _ => 202
  | listed _ _ _ | document _ | ingestionJob _ => 200
  | deleted => 204
  | problem response => response.statusCode
  | internalServerError => 500

/-- The problem of the response, if it is one. -/
def DocumentRouteResponse.problem? : DocumentRouteResponse → Option ProblemDetails
  | problem response => some response.problem
  | _ => none

/-- The response to a request whose route raises. -/
def raisedResponse (path : String) (error : AppError) : DocumentRouteResponse :=
  match handleError path (.app error) with
  | some response => .problem response
  | none => .internalServerError

namespace DocumentRoutes

/-- `submit_document`, once its call of `submit` has ended. -/
def submitDocument (path : String) : Submission → Option DocumentRouteResponse
  | .returned document job =>
      some (.submitted (.fromDomain document) (.fromDomain job))
  | .raised error => some (raisedResponse path error)
  | _ => none

/-- `list_documents`. -/
def listDocuments (db : Database) (offset limit : ℕ) : DocumentRouteResponse :=
  .listed ((DocumentQueries.listDocuments db offset limit).map DocumentResponse.fromDomain) offset limit

/-- `get_document`. -/
def getDocument (path : String) (db : Database) (documentId : Uuid) : DocumentRouteResponse :=
  match DocumentQueries.getDocument db documentId with
  | .ok document => .document (.fromDomain document)
  | .error error => raisedResponse path error

/-- `delete_document`, once its call of `delete` has ended. -/
def deleteDocument (path : String) : Deletion → Option DocumentRouteResponse
  | .returned _ => some .deleted
  | .raised error => some (raisedResponse path error)
  | _ => none

/-- `get_ingestion_job`. -/
def getIngestionJob (path : String) (db : Database) (jobId : Uuid) : DocumentRouteResponse :=
  match DocumentQueries.getJob db jobId with
  | .ok job => .ingestionJob (.fromDomain job)
  | .error error => raisedResponse path error

end DocumentRoutes

end KnowledgeSearch
