import KnowledgeSearch.Errors

/-!
# Problems

`register_error_handlers` registers a handler for some of the exceptions a route may raise. A handler
answers with the details of a problem; an exception without a handler is answered by the server itself,
with the status 500.
-/

namespace KnowledgeSearch

/-- An issue of a request that does not validate. -/
structure ValidationIssue where
  location : List String
  message : String
  type : String
  deriving DecidableEq

/-- The exceptions the routes may raise: those of the application, `GenerationError`, and the
`RequestValidationError` of the framework. -/
inductive ApiError where
  | app (error : AppError)
  | generation (message : String)
  | requestValidation (issues : List ValidationIssue)
  deriving DecidableEq

/-- A value of the extensions of a problem. -/
inductive ProblemValue where
  | text (value : String)
  | issues (value : List ValidationIssue)
  deriving DecidableEq

structure ProblemDetails where
  type : String
  title : String
  status : ℕ
  detail : String
  instancePath : String
  code : String
  extensions : Option (List (String × ProblemValue))
  deriving DecidableEq

/-- A response of the media type `application/problem+json`. -/
structure ProblemResponse where
  statusCode : ℕ
  problem : ProblemDetails
  headers : List (String × String)
  deriving DecidableEq

/-- `_problem_response`. -/
def problemResponse (path : String) (statusCode : ℕ) (title detail code : String)
    (extensions : Option (List (String × ProblemValue))) (headers : List (String × String)) :
    ProblemResponse where
  statusCode := statusCode
  problem :=
    { type := "urn:enterprise-knowledge-search:problem:" ++ code
      title
      status := statusCode
      detail
      instancePath := path
      code
      extensions }
  headers := headers

/-- The headers of a response to a request that is worth repeating. -/
def retryAfter : List (String × String) :=
  [("Retry-After", "5")]

/-- The text of an identifier. -/
def idText (id : Uuid) : String :=
  String.ofList id.text

/-! ### The handlers -/

/-- `_ingestion_error`. -/
def ingestionError (path : String) (code : IngestionErrorCode) (message : String) : ProblemResponse :=
  let statusCode :=
    match code with
    | .fileTooLarge => 413
    | .unsupportedMediaType => 415
    | .mediaTypeMismatch => 415
    | _ => 400
  problemResponse path statusCode "Document rejected" message code.value none []

/-- `_duplicate_document`. -/
def duplicateDocument (path : String) (existingDocumentId : Uuid) : ProblemResponse :=
  problemResponse path 409 "Duplicate document" "A document with the same content already exists."
    "duplicate_document" (some [("existing_document_id", .text (idText existingDocumentId))]) []

/-- `_document_not_found`. -/
def documentNotFound (path : String) (documentId : Uuid) : ProblemResponse :=
  problemResponse path 404 "Document not found" ("Document " ++ idText documentId ++ " was not found.")
    "document_not_found" none []

/-- `_job_not_found`. -/
def jobNotFound (path : String) (jobId : Uuid) : ProblemResponse :=
  problemResponse path 404 "Ingestion job not found"
    ("Ingestion job " ++ idText jobId ++ " was not found.") "ingestion_job_not_found" none []

/-- `_queue_unavailable`. -/
def queueUnavailable (path : String) (documentId jobId : Option Uuid) : ProblemResponse :=
  let extensions := [("document_id", documentId), ("ingestion_job_id", jobId)].filterMap fun item =>
    item.2.map fun value => (item.1, ProblemValue.text (idText value))
  problemResponse path 503 "Ingestion queue unavailable"
    "The document was stored but could not be scheduled for processing." "queue_unavailable"
    (if extensions.isEmpty then none else some extensions) retryAfter

/-- `_validation_error`. -/
def validationError (path : String) (issues : List ValidationIssue) : ProblemResponse :=
  problemResponse path 422 "Request validation failed" "One or more request values are invalid."
    "request_validation_failed" (some [("issues", .issues issues)]) []

/-- `_retrieval_unavailable`. -/
def retrievalUnavailable (path : String) : ProblemResponse :=
  problemResponse path 503 "Retrieval dependency unavailable"
    "Semantic retrieval is temporarily unavailable." "retrieval_unavailable" none retryAfter

/-- `_search_query_error`. -/
def searchQueryError (path : String) (message : String) : ProblemResponse :=
  problemResponse path 400 "Search query rejected" message "invalid_search_query" none []

/-- `_generation_unavailable`. -/
def generationUnavailable (path : String) : ProblemResponse :=
  problemResponse path 502 "Answer provider unavailable"
    "Answer generation failed; document search remains available." "generation_unavailable" none []

/-- `_document_deletion_conflict`. -/
def documentDeletionConflict (path : String) (documentId : Uuid) (status : DocumentStatus) :
    ProblemResponse :=
  problemResponse path 409 "Document deletion conflict"
    ("Document " ++ idText documentId ++ " cannot be deleted while its status is " ++ status.value
      ++ ".")
    "document_deletion_conflict" (some [("document_status", .text status.value)]) []

/-- `_document_cleanup_failed`. -/
def documentCleanupFailed (path : String) : ProblemResponse :=
  problemResponse path 503 "Document cleanup incomplete"
    "The document is unavailable to search, but cleanup must be retried." "document_cleanup_incomplete"
    none retryAfter

/-- The response of the handler registered for an exception, if there is one. -/
def handleError (path : String) : ApiError → Option ProblemResponse
  | .app (.ingestion code message) => some (ingestionError path code message)
  | .app (.duplicateDocument existingDocumentId) => some (duplicateDocument path existingDocumentId)
  | .app (.documentNotFound documentId) => some (documentNotFound path documentId)
  | .app (.jobNotFound jobId) => some (jobNotFound path jobId)
  | .app (.queueDispatch _ documentId jobId) => some (queueUnavailable path documentId jobId)
  | .app (.embedding _) => some (retrievalUnavailable path)
  | .app (.vectorIndex _) => some (retrievalUnavailable path)
  | .app (.searchQuery message) => some (searchQueryError path message)
  | .app (.deletionConflict documentId status) => some (documentDeletionConflict path documentId status)
  | .app (.cleanup _) => some (documentCleanupFailed path)
  | .generation _ => some (generationUnavailable path)
  | .requestValidation issues => some (validationError path issues)
  | _ => none

end KnowledgeSearch
