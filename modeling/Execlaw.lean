import Execlaw.Sweep
import Execlaw.OutcomeFence
import Execlaw.TakeoverFence
import Execlaw.Handoff
import Execlaw.Cancellation
import Execlaw.RetryBudget
import Execlaw.ChatRequests
import Execlaw.ChildReplays
import Execlaw.MessageArchiveRuns
import Execlaw.AttachmentRuns
import Execlaw.DurablePool
import Execlaw.TurnControlRuns
import Execlaw.Webhooks
import Execlaw.AutomationBusRuns
import Execlaw.AgentSchedule
import Execlaw.RoutineSessions
import Execlaw.RefreshTokens
import Execlaw.MemoryJobRuns
import Execlaw.WorkspaceApplyLocks
import Execlaw.ToolChainEffects
import Execlaw.AutomationResume
import Execlaw.ResearchJobRuns
import Execlaw.PairedHostExchange
import Execlaw.ColdContactAnswers
import Execlaw.HistoryBudget
import Execlaw.EventSigning
import Execlaw.SignedRoles
import Execlaw.Snapshots
import Execlaw.Spotlighting
import Execlaw.OutboundScan
import Execlaw.CanonicalJson
import Execlaw.HttpFetchLimits
import Execlaw.ContextWindow
import Execlaw.RequestFit
import Execlaw.OutboundIsolation
import Execlaw.GroupAudiences
import Execlaw.TransportConversations
import Execlaw.EntityMerges
import Execlaw.DownloadUrls
import Execlaw.BalancedJson
import Execlaw.ThinkBlocks
import Execlaw.MemoryListing
import Execlaw.CheckoutReplays
import Execlaw.IdempotencyKeys
import Execlaw.ToolResultPages
import Execlaw.ResearchEvidence
import Execlaw.LocalEndpoints
import Execlaw.EndpointPolicies
import Execlaw.SkillHistory
