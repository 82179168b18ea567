import AgentMemory.Lib.Table
import AgentMemory.Lib.Prog
import AgentMemory.Domain.Text
import AgentMemory.Domain.Memory
import AgentMemory.Storage.MemoryStore
import AgentMemory.Services.World
import AgentMemory.Consolidation.Similarity
import AgentMemory.Consolidation.Consolidate
import AgentMemory.Consolidation.Contradiction
import AgentMemory.Lib.Succession
import AgentMemory.Services.Indexing
import AgentMemory.Consolidation.Compaction
import AgentMemory.Ingestion.Ingest
import AgentMemory.Ingestion.Replacement
import AgentMemory.Ingestion.Redelivery
import AgentMemory.Forgetting.Interleaving
import AgentMemory.Retrieval.Control
import AgentMemory.Engine.Vault
import AgentMemory.Queue.Progress
import AgentMemory.Redis.Client
import AgentMemory.Redis.Deadlines
import AgentMemory.Redis.Framing
import AgentMemory.Audit.Receipts
import AgentMemory.Engine.TaskClients
import AgentMemory.Consolidation.Scoped
import AgentMemory.Consolidation.Convergence
import AgentMemory.Engine.Facts
import AgentMemory.Engine.Knowledge
import AgentMemory.Engine.Mirror
import AgentMemory.Engine.Rebuild
import AgentMemory.Engine.Inspect
import AgentMemory.Engine.Integrity
import AgentMemory.Engine.Atomic
import AgentMemory.Engine.Proposals
import AgentMemory.Engine.TaskCapture
import AgentMemory.Engine.CaptureAtomic
import AgentMemory.Engine.Work
import AgentMemory.Agentic.Lifecycle
import AgentMemory.Context.Budget
import AgentMemory.Services.Embedding
import AgentMemory.Engine.McpServer
import AgentMemory.Engine.Markdown
import AgentMemory.Engine.Engram
import AgentMemory.Engine.Mobius
import AgentMemory.Engine.Relations
import AgentMemory.Engine.Listing
import AgentMemory.Http.Isolation
import AgentMemory.Http.Retry
import AgentMemory.Storage.Traces
import AgentMemory.Engine.Chains
import AgentMemory.Context.Compression
import AgentMemory.Forgetting.Redaction
import AgentMemory.Forgetting.Coverage
import AgentMemory.Lib.Pages
import AgentMemory.Forgetting.Retention
import AgentMemory.Agentic.Selection
import AgentMemory.Lib.Utf8
import AgentMemory.Agentic.Artifacts
import AgentMemory.Consolidation.Enumeration
import AgentMemory.Retrieval.Ranking
import AgentMemory.Engine.Envelopes
import AgentMemory.Lib.Reservoir
import AgentMemory.Http.RateLimit
import AgentMemory.Engine.Entities
import AgentMemory.Engine.Frames
import AgentMemory.Lib.JsonSize
import AgentMemory.Lib.Layers
import AgentMemory.Lib.Best
import AgentMemory.Engine.Walks
import AgentMemory.Engine.Boxes
import AgentMemory.Engine.Sections
import AgentMemory.Consolidation.Merging
import AgentMemory.Agentic.Steps
import AgentMemory.Engine.Headings
import AgentMemory.Engine.Lifecycles
import AgentMemory.Engine.Packets
import AgentMemory.Engine.CheckpointIds
import AgentMemory.Engine.Extraction
import AgentMemory.Engine.ProposalRuns
import AgentMemory.Engine.Recall
import AgentMemory.Engine.CriticalRecall
import AgentMemory.Storage.Locks
import AgentMemory.Storage.Migrations
import AgentMemory.Queue.Offsets
import AgentMemory.Ingestion.Distillation
import AgentMemory.Retrieval.Credentials
import AgentMemory.Lib.Custody
import AgentMemory.Lib.Parts
import AgentMemory.Services.Requests
import AgentMemory.Services.Tenancy
import AgentMemory.Services.Alone
import AgentMemory.Lib.Gcm
import AgentMemory.Lib.Bm25
import AgentMemory.Lib.Base64
import AgentMemory.Lib.ObjectStores
import AgentMemory.Security.Encryption
import AgentMemory.Audit.Persistence
import AgentMemory.Retrieval.Rerankers
