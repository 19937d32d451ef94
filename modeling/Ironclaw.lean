import Ironclaw.Pairing.Approved
import Ironclaw.Routines.Engine
import Ironclaw.Routines.Copies
import Ironclaw.Routines.Concurrency
import Ironclaw.Routines.Cooldown
import Ironclaw.Routines.Accounting
import Ironclaw.Llm.Message
import Ironclaw.Workspace.Basic
import Ironclaw.Routines.Execute
import Ironclaw.Routines.Isolation
import Ironclaw.Agent.ToolBatch
import Ironclaw.Agent.ToolAccounting
import Ironclaw.Llm.Reasoning
import Ironclaw.Agent.AgenticLoop
import Ironclaw.Agent.ChatDelegate
import Ironclaw.Agent.Attenuation
import Ironclaw.Lib.Regex
import Ironclaw.Lib.MultiSearch
import Ironclaw.Safety.LeakDetector
import Ironclaw.Safety.Prefilter
import Ironclaw.Lib.RegexLang
import Ironclaw.Lib.Rewrite
import Ironclaw.Safety.Layer
import Ironclaw.Safety.Redaction
import Ironclaw.Safety.ToolOutput
import Ironclaw.Tools.Registry
import Ironclaw.Skills.Parser
import Ironclaw.Skills.Registry
import Ironclaw.Skills.Trust
import Ironclaw.Agent.LoopDiscipline
import Ironclaw.Workspace.Write
import Ironclaw.Workspace.Injection
import Ironclaw.Channels.Router
import Ironclaw.Channels.WebhookGate
import Ironclaw.Orchestrator.JobManager
import Ironclaw.Orchestrator.Lifecycle
import Ironclaw.Lib.Hoare
import Ironclaw.Lib.Net
import Ironclaw.Secrets.Credentials
import Ironclaw.Tools.Http
import Ironclaw.Tools.Pinning
import Ironclaw.Sandbox.Proxy
import Ironclaw.Sandbox.Egress
import Ironclaw.Session.Thread
import Ironclaw.Session.Handlers
import Ironclaw.Session.Approval
import Ironclaw.Session.Queue
import Ironclaw.Lib.Table
import Ironclaw.Context.State
import Ironclaw.Context.Manager
import Ironclaw.Agent.Scheduler
import Ironclaw.Session.Restore
import Ironclaw.Lib.Code
import Ironclaw.Lib.JsonText
import Ironclaw.Llm.CacheKey
import Ironclaw.Llm.ResponseCache
import Ironclaw.Tools.Credentials
import Ironclaw.Llm.CircuitBreaker
import Ironclaw.Agent.Submission
import Ironclaw.Agent.Commands
import Ironclaw.Agent.MainLoop
import Ironclaw.Agent.SilentReply
import Ironclaw.Agent.Shutdown
import Ironclaw.Lib.Window
import Ironclaw.Tools.RateLimiter
import Ironclaw.Llm.Failover
import Ironclaw.Safety.Wrapper
import Ironclaw.Lib.DotSegments
import Ironclaw.Tools.Allowlist
import Ironclaw.Lib.FileTree
import Ironclaw.Tools.PathUtils
import Ironclaw.Session.Manager
import Ironclaw.Session.Resolution
import Ironclaw.Session.Activity
import Ironclaw.Session.Pruning
import Ironclaw.Session.Isolation
import Ironclaw.Session.Coherence
import Ironclaw.Session.Hydration
import Ironclaw.Safety.Unwrap
import Ironclaw.Lib.Splice
import Ironclaw.Safety.Coverage
import Ironclaw.Safety.External
import Ironclaw.Lib.Insertion
import Ironclaw.Safety.Escaping
import Ironclaw.Safety.Markers
import Ironclaw.Llm.Costs
import Ironclaw.Safety.Validator
import Ironclaw.Session.Compaction
import Ironclaw.Agent.CostGuard
import Ironclaw.Agent.Budget
import Ironclaw.Agent.Cleanup
import Ironclaw.Agent.TokenBudget
import Ironclaw.Lib.Lru
import Ironclaw.Llm.ToolMessages
import Ironclaw.Workspace.EmbeddingCache
import Ironclaw.Workspace.Entries
import Ironclaw.Lib.Ranking
import Ironclaw.Workspace.Fusion
import Ironclaw.Workspace.Chunker
import Ironclaw.Tools.LogRedaction
import Ironclaw.Tools.Schema
import Ironclaw.Tools.Coercion
import Ironclaw.Session.Deferred
import Ironclaw.Lib.Glue
import Ironclaw.Tools.Shell
import Ironclaw.Tools.ShellRisk
import Ironclaw.Lib.Lowercase
import Ironclaw.Tools.ShellBlocking
import Ironclaw.Safety.CredentialDetect
import Ironclaw.Tools.Approval
import Ironclaw.Llm.ModelSwitch
import Ironclaw.Routines.ToolResult
import Ironclaw.Routines.Rows
import Ironclaw.Agent.ModelOverride
import Ironclaw.Agent.RetryCompaction
import Ironclaw.Lib.AddressBlocks
import Ironclaw.Skills.Splitting
import Ironclaw.Tools.IpLiterals
import Ironclaw.Lib.Greedy
import Ironclaw.Skills.InstallAtomicity
import Ironclaw.Skills.Selector
import Ironclaw.Lib.RegexLead
import Ironclaw.Skills.ContextBlock
import Ironclaw.Lib.SlidingLog
import Ironclaw.Pairing.Pending
import Ironclaw.Pairing.Races
import Ironclaw.Lib.OrderedMap
import Ironclaw.Lib.Serde
import Ironclaw.Lib.SerdePath
import Ironclaw.Settings.Schema
import Ironclaw.Settings.Access
import Ironclaw.Hooks.Hook
import Ironclaw.Channels.WebHistory
import Ironclaw.Hooks.Registry
import Ironclaw.Lib.Occurrences
import Ironclaw.Workspace.Paths
import Ironclaw.Workspace.ProfileSync
import Ironclaw.Workspace.Profile
import Ironclaw.Workspace.GroupPrompt
import Ironclaw.Workspace.Scoping
import Ironclaw.Workspace.Resolver
import Ironclaw.Agent.UserQuota
import Ironclaw.Secrets.Injector
import Ironclaw.Agent.SelfRepair
import Ironclaw.Agent.Stop
import Ironclaw.Lib.Base64
import Ironclaw.Secrets.Base64
import Ironclaw.Session.ToolCallIds
import Ironclaw.Lib.Word
import Ironclaw.Llm.Backoff
import Ironclaw.Channels.EmitLimiter
import Ironclaw.Channels.FrameQueue
import Ironclaw.Channels.Signature
import Ironclaw.Tools.HostLog
import Ironclaw.Tools.JsonQuery
import Ironclaw.Workspace.Hygiene
import Ironclaw.Lib.JsonMerge
import Ironclaw.Settings.Merge
import Ironclaw.Channels.Sse
import Ironclaw.Lib.JsonLeaves
import Ironclaw.Settings.Layers
import Ironclaw.Channels.LogStream
import Ironclaw.Llm.CodeRegions
import Ironclaw.Orchestrator.Api
import Ironclaw.Agent.JobMonitor
import Ironclaw.Worker.AutonomousRecovery
