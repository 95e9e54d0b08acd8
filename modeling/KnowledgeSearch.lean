import KnowledgeSearch.Api.Documents
import KnowledgeSearch.Api.Problems
import KnowledgeSearch.Application.Answers
import KnowledgeSearch.Application.Cache
import KnowledgeSearch.Application.Documents
import KnowledgeSearch.Application.Ingestion
import KnowledgeSearch.Application.Queries
import KnowledgeSearch.Application.Search
import KnowledgeSearch.Application.Sessions
import KnowledgeSearch.Application.Stores
import KnowledgeSearch.Domain.Chunks
import KnowledgeSearch.Domain.Documents
import KnowledgeSearch.Domain.Identifiers
import KnowledgeSearch.Domain.Json
import KnowledgeSearch.Domain.Lifecycles
import KnowledgeSearch.Domain.Text
import KnowledgeSearch.Errors
import KnowledgeSearch.Evaluation.Metrics
import KnowledgeSearch.Evaluation.Repetition
import KnowledgeSearch.Foundations.Calls
import KnowledgeSearch.Foundations.Cuts
import KnowledgeSearch.Foundations.Enclosing
import KnowledgeSearch.Foundations.Machine
import KnowledgeSearch.Foundations.Majorization
import KnowledgeSearch.Foundations.Mapper
import KnowledgeSearch.Foundations.Once
import KnowledgeSearch.Foundations.Paging
import KnowledgeSearch.Foundations.Patterns
import KnowledgeSearch.Foundations.PrefixCode
import KnowledgeSearch.Foundations.Scanning
import KnowledgeSearch.Foundations.Sorting
import KnowledgeSearch.Foundations.Table
import KnowledgeSearch.Generation.Chat
import KnowledgeSearch.Generation.Evidence
import KnowledgeSearch.Ingestion.Chunking
import KnowledgeSearch.Ingestion.Coverage
import KnowledgeSearch.Ingestion.Extraction
import KnowledgeSearch.Ingestion.Identity
import KnowledgeSearch.Ingestion.Locators
import KnowledgeSearch.Ingestion.NormalForm
import KnowledgeSearch.Ingestion.Normalization
import KnowledgeSearch.Ingestion.Pages
import KnowledgeSearch.Ingestion.Paths
import KnowledgeSearch.Ingestion.Pipeline
import KnowledgeSearch.Ingestion.Placement
import KnowledgeSearch.Ingestion.Preparation
import KnowledgeSearch.Ingestion.Schedule
import KnowledgeSearch.Ingestion.Sectioning
import KnowledgeSearch.Ingestion.Segments
import KnowledgeSearch.Ingestion.Storage
import KnowledgeSearch.Ingestion.Tokens
import KnowledgeSearch.Ingestion.Windows
import KnowledgeSearch.Persistence.Constraints
import KnowledgeSearch.Persistence.Migrations
import KnowledgeSearch.Persistence.Records
import KnowledgeSearch.Persistence.Repositories
import KnowledgeSearch.Persistence.Revision
import KnowledgeSearch.Persistence.Search
import KnowledgeSearch.Providers.CachedExecution
import KnowledgeSearch.Providers.Collection
import KnowledgeSearch.Providers.Confinement
import KnowledgeSearch.Providers.FastEmbed
import KnowledgeSearch.Providers.FileTree
import KnowledgeSearch.Providers.LocalFiles
import KnowledgeSearch.Providers.QdrantIndex
import KnowledgeSearch.Providers.RedisCache
import KnowledgeSearch.Providers.RedisQueue
import KnowledgeSearch.Providers.Saving
import KnowledgeSearch.Retrieval.Fusion
import KnowledgeSearch.Retrieval.Ranking
import KnowledgeSearch.System.Admission
import KnowledgeSearch.System.Answering
import KnowledgeSearch.System.Attempts
import KnowledgeSearch.System.Authenticity
import KnowledgeSearch.System.Caching
import KnowledgeSearch.System.Clocks
import KnowledgeSearch.System.Concurrency
import KnowledgeSearch.System.Consistency
import KnowledgeSearch.System.Constraints
import KnowledgeSearch.System.Dispatch
import KnowledgeSearch.System.Duplicates
import KnowledgeSearch.System.Exclusion
import KnowledgeSearch.System.Filtering
import KnowledgeSearch.System.Finality
import KnowledgeSearch.System.Freshness
import KnowledgeSearch.System.Hybrid
import KnowledgeSearch.System.Indexing
import KnowledgeSearch.System.Interleaving
import KnowledgeSearch.System.Isolation
import KnowledgeSearch.System.Keeping
import KnowledgeSearch.System.Lifecycle
import KnowledgeSearch.System.Listing
import KnowledgeSearch.System.Messages
import KnowledgeSearch.System.Migrations
import KnowledgeSearch.System.Pages
import KnowledgeSearch.System.Polling
import KnowledgeSearch.System.Provenance
import KnowledgeSearch.System.Publication
import KnowledgeSearch.System.Receipts
import KnowledgeSearch.System.Recovery
import KnowledgeSearch.System.Responses
import KnowledgeSearch.System.Results
import KnowledgeSearch.System.Retries
import KnowledgeSearch.System.Searching
import KnowledgeSearch.System.Sharing
import KnowledgeSearch.System.Soundness
import KnowledgeSearch.System.Steps
import KnowledgeSearch.System.Submissions
import KnowledgeSearch.System.Tickets
import KnowledgeSearch.System.Times
import KnowledgeSearch.System.Transactions
import KnowledgeSearch.System.Uploading
import KnowledgeSearch.System.Withdrawal
