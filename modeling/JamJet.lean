import JamJet.Fences
import JamJet.Reattach
import JamJet.Skips
import JamJet.Completion
import JamJet.IncrementalFold
import JamJet.RunOrdering
import JamJet.TerminalRuns
import JamJet.Redispatch
import JamJet.ApprovalOutcomes
import JamJet.SeparateDuties
import JamJet.Snapshots
import JamJet.StateAgreement
import JamJet.Stranding
import JamJet.ToolEffects
import JamJet.BudgetRuns
import JamJet.ApprovalBinding
import JamJet.AgentRuns
import JamJet.ApprovalView
import JamJet.BackendAgreement
import JamJet.ConditionNode
import JamJet.RolloverRuns
import JamJet.TenantIsolation
import JamJet.AuditHash
import JamJet.AuditChain
import JamJet.RejectionRuns
import JamJet.MemoryExport
import JamJet.SemVer
import JamJet.ValidateRules
import JamJet.RankedGraph
import JamJet.StrategyPaths
import JamJet.PyJson
import JamJet.OfflineVerifier
import JamJet.ToolRuntime
import JamJet.StepWorkflow
import JamJet.SatisfiableConditions
import JamJet.TickCoverage
import JamJet.CronNext
import JamJet.TimerRunner
import JamJet.ToolPolicies
import JamJet.LineBuffer
import JamJet.AgentTool
import JamJet.EvalExecutor
import JamJet.PoolExecutors
import JamJet.SdkStrategies
import JamJet.SdkAgreement
import JamJet.McpTransport
import JamJet.McpReplies
import JamJet.LimitRuns
import JamJet.BudgetGate
import JamJet.DispatchPolicy
import JamJet.DispatchGuard
import JamJet.HandlerSpelling
import JamJet.BlockScope
import JamJet.StepResults
import JamJet.ArtifactRefs
import JamJet.ExecuteItem
import JamJet.ApprovalDeadlines
import JamJet.MergePatch
import JamJet.CanonicalJson
import JamJet.FactFilters
import JamJet.RecallBest
import JamJet.ConsolidationCalls
import JamJet.Lineage
import JamJet.ConsolidationTags
import JamJet.ConsolidationMerges
import JamJet.ContextBudget
import JamJet.CurrentStateRuns
import JamJet.Messages
import JamJet.ModelAllowlist
import JamJet.ChainOrder
import JamJet.DurableCache
import JamJet.DurableKeys
import JamJet.GraphRouting
import JamJet.Fleet
import JamJet.Neighborhood
import JamJet.Sessions
import JamJet.Spreading
import JamJet.SpanBatcher
import JamJet.OAuthScopes
import JamJet.PiiMiddleware
import JamJet.EnforcedCalls
import JamJet.TraceHeaders
import JamJet.DurableAgents
import JamJet.AutoAgents
import JamJet.Redaction
import JamJet.Backoff
import JamJet.Conversations
import JamJet.ConflictDetector
import JamJet.Secrets
import JamJet.EvalFailClosed
import JamJet.ActionGate
import JamJet.JavaText
import JamJet.StepWalk
import JamJet.JavaWorkflow
import JamJet.JavaValidator
import JamJet.Coordinator
