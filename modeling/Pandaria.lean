import Pandaria.Agent.Call
import Pandaria.Agent.Compaction
import Pandaria.Agent.History
import Pandaria.Agent.Error
import Pandaria.Agent.Loop
import Pandaria.Agent.Session
import Pandaria.Agent.Strategy
import Pandaria.Agent.Summary
import Pandaria.Agent.Tool
import Pandaria.Agent.World
import Pandaria.Agent.EventHub
import Pandaria.Ai.Types
import Pandaria.Ai.Requests
import Pandaria.Comp.Engine
import Pandaria.Comp.Instance
import Pandaria.Comp.Squad
import Pandaria.Comp.Team
import Pandaria.Lib.Pairing
import Pandaria.Lib.Run
import Pandaria.Lib.Search
import Pandaria.Lib.Table
import Pandaria.Lib.Watermark
import Pandaria.Mcp.Sse
import Pandaria.Mcp.Client
import Pandaria.Proofs.Handshake
import Pandaria.Proofs.Abort
import Pandaria.Proofs.Activity
import Pandaria.Proofs.Attempts
import Pandaria.Proofs.CallSteps
import Pandaria.Proofs.Completed
import Pandaria.Proofs.Context
import Pandaria.Proofs.CutPoint
import Pandaria.Proofs.Drained
import Pandaria.Proofs.Driving
import Pandaria.Proofs.Durable
import Pandaria.Proofs.EngineSteps
import Pandaria.Proofs.Execution
import Pandaria.Proofs.Executor
import Pandaria.Proofs.Runnable
import Pandaria.Proofs.Hierarchy
import Pandaria.Proofs.PlanText
import Pandaria.Proofs.Instance
import Pandaria.Proofs.Lifecycle
import Pandaria.Proofs.LoopSteps
import Pandaria.Proofs.Overflow
import Pandaria.Proofs.Pairing
import Pandaria.Proofs.Retries
import Pandaria.Proofs.Rules
import Pandaria.Proofs.Saved
import Pandaria.Proofs.SessionSteps
import Pandaria.Proofs.Merge
import Pandaria.Proofs.Signals
import Pandaria.Proofs.Store
import Pandaria.Proofs.Terminal
import Pandaria.Ai.Sse
import Pandaria.Ai.OpenAi
import Pandaria.Ai.Anthropic
import Pandaria.Ai.Providers
import Pandaria.Proofs.ProviderStreams
import Pandaria.Proofs.StreamEnd
import Pandaria.Proofs.NextRequest
import Pandaria.Proofs.StreamText
import Pandaria.Tenant.Supervisor
import Pandaria.Proofs.Meter
import Pandaria.Lib.Threads
import Pandaria.Proofs.Reservation
import Pandaria.Proofs.Accounting
import Pandaria.Agent.Memory
import Pandaria.Proofs.Isolation
import Pandaria.Agent.PathGuard
import Pandaria.Proofs.Confinement
import Pandaria.Agent.Ssrf
import Pandaria.Proofs.Endpoints
import Pandaria.Agent.CircuitBreaker
import Pandaria.Proofs.Breaker
import Pandaria.Proofs.Slots
import Pandaria.Lib.Feed
import Pandaria.Proofs.Waiting
import Pandaria.Gateway.RateLimit
import Pandaria.Gateway.Auth
import Pandaria.Proofs.RateLimit
import Pandaria.Lib.Caches
import Pandaria.Storage.Store
import Pandaria.Proofs.SessionStores
import Pandaria.Agent.Status
import Pandaria.Proofs.Status
import Pandaria.Tenant.Turns
import Pandaria.Proofs.Turns
import Pandaria.Tenant.Session
import Pandaria.Proofs.SessionMap
import Pandaria.Tenant.Deletion
import Pandaria.Proofs.Deletion
import Pandaria.Gateway.Squads
import Pandaria.Proofs.Squads
import Pandaria.Agent.Background
import Pandaria.Proofs.Background
import Pandaria.Proofs.Prompting
import Pandaria.Agent.Prompt
import Pandaria.Tenant.Copy
import Pandaria.Proofs.Copy
import Pandaria.Comp.Executor
import Pandaria.Proofs.Routing
import Pandaria.Proofs.Responses
import Pandaria.Proofs.Handover
import Pandaria.Observability.Registry
import Pandaria.Proofs.Metrics
import Pandaria.Gateway.Events
import Pandaria.Proofs.Observers
import Pandaria.Lib.Brackets
import Pandaria.Proofs.Listener
import Pandaria.Proofs.Bracketing
import Pandaria.Proofs.CompactionEvents
import Pandaria.Proofs.RunLoop
import Pandaria.Mcp.Adapter
import Pandaria.Proofs.Correlation
import Pandaria.Lib.FileTree
import Pandaria.Toolkit.FileWrite
import Pandaria.Proofs.FileSandbox
import Pandaria.Proofs.TwoGuards
import Pandaria.Lib.Chain
import Pandaria.Agent.Hooks
import Pandaria.Proofs.Combined
import Pandaria.Proofs.SseParse
import Pandaria.Proofs.SseChunks
import Pandaria.Ai.Transform
import Pandaria.Lib.Padding
import Pandaria.Proofs.Padding
import Pandaria.Ai.Overflow
import Pandaria.Proofs.OverflowPath
import Pandaria.Proofs.Steering
import Pandaria.Proofs.CacheLedger
import Pandaria.Comp.Replay
import Pandaria.Proofs.Redaction
import Pandaria.Proofs.BlockIndices
import Pandaria.Proofs.ThinkingBudget
import Pandaria.Ai.Repair
import Pandaria.Proofs.Repair
import Pandaria.Gateway.Subprocess
import Pandaria.Proofs.Excerpts
import Pandaria.Proofs.Attribution
import Pandaria.Proofs.Fragments
import Pandaria.Proofs.ShortIds
import Pandaria.Proofs.Replay
import Pandaria.Proofs.Blocked
import Pandaria.Proofs.ToolBlocks
import Pandaria.Proofs.ToolCalls
import Pandaria.Proofs.CallNames
import Pandaria.Proofs.CallIds
import Pandaria.Proofs.FirstBlock
import Pandaria.Lib.Codec
import Pandaria.Ai.Serde
import Pandaria.Comp.Workflow
import Pandaria.Proofs.MessageCodec
import Pandaria.Ai.Validation
import Pandaria.Proofs.Validation
import Pandaria.Lib.Insertion
import Pandaria.Proofs.Orphans
import Pandaria.Proofs.Partition
import Pandaria.Proofs.Keeping
import Pandaria.Proofs.SummaryText
import Pandaria.Proofs.LiveEstimate
import Pandaria.Proofs.Restoring
import Pandaria.Proofs.Scheduling
import Pandaria.Proofs.WorkflowCheck
import Pandaria.Comp.ExtractJson
import Pandaria.Proofs.ExtractJson
import Pandaria.Proofs.TerminateFlag
import Pandaria.Lib.Timeline
import Pandaria.Tui.Editor
import Pandaria.Proofs.Editor
import Pandaria.Proofs.Undo
import Pandaria.Agent.Skills
import Pandaria.Proofs.Frontmatter
import Pandaria.Proofs.Builder
import Pandaria.Proofs.Skills
import Pandaria.Proofs.ClientEvents
import Pandaria.Proofs.Deltas
import Pandaria.Proofs.Recall
import Pandaria.Proofs.Wire
import Pandaria.Proofs.Auth
import Pandaria.Lib.Retry
import Pandaria.Ai.Sending
import Pandaria.Proofs.Goals
import Pandaria.Lib.Outbox
import Pandaria.Tui.App
import Pandaria.Proofs.App
