import AgenticIde.Lib.Act
import AgenticIde.Lib.Count
import AgenticIde.Lib.Tally
import AgenticIde.Lib.Machine
import AgenticIde.Lib.Cache
import AgenticIde.Lib.Str
import AgenticIde.Lib.Encoding
import AgenticIde.Lib.HashChain
import AgenticIde.Lib.RowSecurity
import AgenticIde.Permissions
import AgenticIde.Principal
import AgenticIde.Audit
import AgenticIde.PgAudit
import AgenticIde.AuditLog
import AgenticIde.AuditChain
import AgenticIde.AuditVerify
import AgenticIde.AuditRls
import AgenticIde.Context
import AgenticIde.ChatSession
import AgenticIde.ChatBudget
import AgenticIde.World
import AgenticIde.Tools
import AgenticIde.SelfHeal
import AgenticIde.Planner
import AgenticIde.Quest
import AgenticIde.QuestBudget
import AgenticIde.QuestLog
import AgenticIde.QuestAccounting
import AgenticIde.QuestGate
import AgenticIde.QuestRuns
import AgenticIde.QuestAudit
import AgenticIde.Chat
import AgenticIde.Auth
import AgenticIde.Completion
import AgenticIde.Ollama
import AgenticIde.CacheTransparency
import AgenticIde.Server
import AgenticIde.NesBackends
import AgenticIde.QuestEngineering
import AgenticIde.ChatTenants
import AgenticIde.AuditDelivery
import AgenticIde.Craft
import AgenticIde.CraftLifecycle
import AgenticIde.AuditCount
import AgenticIde.AuditOutcomes
import AgenticIde.Lib.Lockstep
import AgenticIde.Lib.Base64
import AgenticIde.Lib.Sort
import AgenticIde.ContextWindow
import AgenticIde.PlannerLockstep
import AgenticIde.PlannerLoops
import AgenticIde.GoalContext
import AgenticIde.FinalAnswer
import AgenticIde.Config
import AgenticIde.AuthSecret
import AgenticIde.Collab
import AgenticIde.CommentTenants
import AgenticIde.Lib.PgTypes
import AgenticIde.PgCollab
import AgenticIde.CommentIds
import AgenticIde.CommentStores
import AgenticIde.CkgParse
import AgenticIde.Ckg
import AgenticIde.PgCkg
import AgenticIde.CkgPersistence
import AgenticIde.GuiVendor
import AgenticIde.GuiVendorRuns
import AgenticIde.Lib.Recent
import AgenticIde.Lib.Fifo
import AgenticIde.Lib.Trace
import AgenticIde.AuthTokens
import AgenticIde.AuthHeader
import AgenticIde.NesCache
import AgenticIde.Batch
import AgenticIde.BatchSchedule
import AgenticIde.NesBatch
import AgenticIde.Lib.RankOrder
import AgenticIde.ContextTrim
import AgenticIde.Lib.Slice
import AgenticIde.ContextCompress
import AgenticIde.ChatStream
import AgenticIde.Lib.Zoom
import AgenticIde.ChatFailures
import AgenticIde.CompressLaws
import AgenticIde.ContextRuns
import AgenticIde.SelfHealRounds
import AgenticIde.Lib.Lines
import AgenticIde.PatchText
import AgenticIde.Subtasks
import AgenticIde.Directive
import AgenticIde.CkgNames
import AgenticIde.Lib.Dedup
import AgenticIde.CkgQuery
import AgenticIde.CkgLines
import AgenticIde.CkgComments
import AgenticIde.CkgCalls
import AgenticIde.CkgScopes
import AgenticIde.CkgHeaders
import AgenticIde.CkgUses
import AgenticIde.HostCraft
import AgenticIde.LockStore
import AgenticIde.CraftOrder
import AgenticIde.GuiStreams
import AgenticIde.Sidecar
import AgenticIde.GuiConfig
import AgenticIde.PermSql
import AgenticIde.AuditHelper
import AgenticIde.Lib.TopK
import AgenticIde.Retrieval
import AgenticIde.Similarity
import AgenticIde.Lib.Buckets
import AgenticIde.Histogram
import AgenticIde.HistogramP95
import AgenticIde.Lib.Retry
import AgenticIde.OllamaRetry
import AgenticIde.Lib.Rounding
import AgenticIde.NesSpeedTest
import AgenticIde.Lib.Bytes
import AgenticIde.CkgScan
import AgenticIde.Admin
import AgenticIde.AdminScrape
import AgenticIde.AuditMutations
import AgenticIde.Lib.Upsert
import AgenticIde.PgSecrets
import AgenticIde.ServerMetrics
import AgenticIde.AdminConsole
import AgenticIde.GuiChat
import AgenticIde.GuiStartup
import AgenticIde.OfflineQuest
import AgenticIde.AuthMint
