import Behest.Effect.Program
import Behest.Compaction.Partition
import Behest.Compaction.Budget
import Behest.Context.Filter
import Behest.Runtime.World
import Behest.Runtime.DoomLoop
import Behest.Runtime.Input
import Behest.Effect.Logged
import Behest.Effect.Machine
import Behest.Machine.Transition
import Behest.Machine.Accounts
import Behest.Effect.Exchange
import Behest.Effect.Linear
import Behest.Compaction.Prompt
import Behest.Compaction.Service
import Behest.Runtime.Calls
import Behest.Compaction.Boundary
import Behest.Compaction.Spec
import Behest.Compaction.Conservation
import Behest.Compaction.Failure
import Behest.Compaction.Chain
import Behest.Compaction.Progress
import Behest.Runtime.StoreFacade
import Behest.Context.Pipeline
import Behest.Context.LatestPair
import Behest.Context.Pairing
import Behest.Context.Markers
import Behest.Context.Limits
import Behest.Tool.Batch
import Behest.Runtime.Settlement
import Behest.RunStore.State
import Behest.RunStore.Memory
import Behest.RunStore.Projection
import Behest.RunStore.Deadlock
import Behest.Tool.Scope
import Behest.Tool.Audit
import Behest.Runtime.Streaming
import Behest.Store.Pairing
import Behest.Compaction.Prune
import Behest.Compaction.Flags
import Behest.Compaction.Protection
import Behest.Runtime.Limits
import Behest.Store.Log
import Behest.Store.Backends
import Behest.Store.Agreement
import Behest.Runtime.Breaker
import Behest.Runtime.Copies
import Behest.Runtime.Unanswered
import Behest.Runtime.Admission
import Behest.Runtime.Refusal
import Behest.Store.Keyed
import Behest.Store.Cascade
import Behest.EventLog.Paging
import Behest.EventLog.Memory
import Behest.EventLog.Redis
import Behest.Effect.Crowd
import Behest.EventLog.Subscription
import Behest.EventLog.Appender
import Behest.EventLog.RedisAppends
import Behest.EventLog.Postgres
import Behest.RunStore.Sequence
import Behest.Store.Sections
import Behest.Store.Careful
import Behest.Store.RedisCommands
import Behest.Store.RedisKept
import Behest.Store.RedisUpdates
import Behest.Journal.Log
import Behest.Journal.Checkpoint
import Behest.Approval.Gate
import Behest.Lifecycle.Shutdown
import Behest.Graph.Kahn
import Behest.Component.Topology
import Behest.Component.Registry
import Behest.Component.Sweep
import Behest.Component.Initialise
import Behest.Component.History
import Behest.Component.Stopping
import Behest.Component.Swap
import Behest.Runtime.HotPlug
import Behest.Json.Merge
import Behest.Json.Codec
import Behest.Json.Layered
import Behest.Config.Placeholder
import Behest.Config.Records
import Behest.Config.Builder
import Behest.Config.Assemble
import Behest.Config.Layers
import Behest.Search.Binary
import Behest.Journal.Offsets
import Behest.Journal.Export
import Behest.SubEngine.Tree
import Behest.SubEngine.Race
import Behest.Memory.Window
import Behest.Tool.BatchLimits
import Behest.Text.Utf8
import Behest.Adapter.Sse
import Behest.Adapter.Answer
import Behest.Adapter.Anthropic
import Behest.Adapter.AnthropicStream
import Behest.Adapter.OpenAi
import Behest.Adapter.OpenAiStream
import Behest.SessionData.Stores
import Behest.SessionData.Linear
import Behest.Compaction.Breakers
import Behest.Text.Slice
import Behest.Adapter.Status
import Behest.Graph.Fifo
import Behest.Component.InitOrder
import Behest.Tool.Shadow
import Behest.Tool.Restore
import Behest.Json.Text
import Behest.Tool.ErrorText
import Behest.Tool.Saved
import Behest.Tool.Truncation
import Behest.Tool.Parallel
import Behest.Tool.Schedule
import Behest.Word.Overflow
import Behest.Core.Budget
import Behest.Journal.OpenCalls
import Behest.Search.Period
import Behest.Runtime.DoomWords
import Behest.Runtime.DoomSpec
import Behest.Runtime.DoomDistinct
import Behest.Adapter.StreamOrder
import Behest.Runtime.Router
import Behest.Effect.Part
import Behest.Runtime.SessionGate
import Behest.Runtime.Unregister
import Behest.Graph.Ring
import Behest.Component.CycleReport
import Behest.SubEngine.Quota
import Behest.Tool.Hooks
import Behest.Tool.ScopedRuntime
import Behest.Memory.Autocompact
import Behest.Memory.Microcompact
import Behest.Text.Find
import Behest.Text.Trim
import Behest.Memory.FullCompact
import Behest.Memory.TierPairing
import Behest.Memory.Facts
import Behest.Adapter.ToolCallTrip
import Behest.Adapter.SseGrammar
import Behest.Adapter.OpenAiContent
import Behest.Adapter.AnthropicRequest
import Behest.Adapter.CacheMarkers
import Behest.Json.Path
import Behest.Config.MergeJson
import Behest.Runtime.CanonicalKeys
import Behest.Config.Expansion
import Behest.Agent.Registry
import Behest.Search.StableSort
import Behest.Event.HookStack
import Behest.Runtime.UsageWords
import Behest.Text.Lines
import Behest.Context.Frontmatter
import Behest.Context.Skills
import Behest.Channel.Broadcast
import Behest.EventLog.Fanout
import Behest.EventLog.Follower
import Behest.EventLog.Delivery
import Behest.Runtime.Listener
import Behest.Runtime.EventOrder
import Behest.Files.Inodes
import Behest.Snapshot.FileStore
import Behest.Snapshot.Published
import Behest.Snapshot.Moments
import Behest.EventLog.Hearing
import Behest.Artifact.ObjectStore
import Behest.Artifact.Visible
import Behest.Artifact.Moments
import Behest.Adapter.Wire
import Behest.Adapter.OpenAiRequest
import Behest.Runtime.Prompts
