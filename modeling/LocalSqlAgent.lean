import LocalSqlAgent.Lib.RoseTree
import LocalSqlAgent.Lib.Checks
import LocalSqlAgent.Lib.Transition
import LocalSqlAgent.Lib.Pool
import LocalSqlAgent.Lib.PyText
import LocalSqlAgent.Lib.Transducer
import LocalSqlAgent.Tsql.Lexing
import LocalSqlAgent.Tsql.Outline
import LocalSqlAgent.Security.EnsureTop
import LocalSqlAgent.Lib.EventLog
import LocalSqlAgent.Sql.Tree
import LocalSqlAgent.Sql.Scope
import LocalSqlAgent.Database.Routing
import LocalSqlAgent.Security.Rejection
import LocalSqlAgent.Security.Dialects
import LocalSqlAgent.Security.TableAllowlist
import LocalSqlAgent.Security.JoinOnly
import LocalSqlAgent.Security.ValidateSql
import LocalSqlAgent.Security.CteScope
import LocalSqlAgent.Security.JoinOnlyScope
import LocalSqlAgent.Database.RouteAgreement
import LocalSqlAgent.Appdb.KeyStore
import LocalSqlAgent.Appdb.KeyCache
import LocalSqlAgent.Appdb.Bootstrap
import LocalSqlAgent.Security.ColumnPolicy
import LocalSqlAgent.Security.ColumnRejections
import LocalSqlAgent.Appdb.AccessRequests
import LocalSqlAgent.Appdb.SubmitRace
import LocalSqlAgent.Appdb.DecisionRace
import LocalSqlAgent.Appdb.Feedback
import LocalSqlAgent.Appdb.FeedbackRace
import LocalSqlAgent.Appdb.TurnMarks
import LocalSqlAgent.Appdb.GoldenPromotion
import LocalSqlAgent.Appdb.Roles
import LocalSqlAgent.Appdb.RoleRace
import LocalSqlAgent.Appdb.ConfigVersions
import LocalSqlAgent.Appdb.ConfigSafety
import LocalSqlAgent.Lib.FileWrites
import LocalSqlAgent.Lib.Generations
import LocalSqlAgent.Appdb.ConfigApply
import LocalSqlAgent.Appdb.ConfigRace
import LocalSqlAgent.Lib.PrefixCode
import LocalSqlAgent.Lib.PyJson
import LocalSqlAgent.Security.ScopeKey
import LocalSqlAgent.Sql.RowClauses
import LocalSqlAgent.Session.Store
import LocalSqlAgent.Session.StoreRuns
import LocalSqlAgent.Session.OwnerIsolation
import LocalSqlAgent.Session.FinalDeletion
import LocalSqlAgent.Session.NoLostTurn
import LocalSqlAgent.Session.TurnOrder
import LocalSqlAgent.Session.TranscriptCap
import LocalSqlAgent.Session.Composer
import LocalSqlAgent.Session.PrevRows
import LocalSqlAgent.Session.RefinementChain
import LocalSqlAgent.Llm.CorrectionSteps
import LocalSqlAgent.Llm.StepRules
import LocalSqlAgent.Session.TurnLoop
import LocalSqlAgent.Llm.AgentLoop
import LocalSqlAgent.Llm.LoopSafety
import LocalSqlAgent.Lib.OrderedDict
import LocalSqlAgent.Lib.TokenBucket
import LocalSqlAgent.Lib.ExpiringCache
import LocalSqlAgent.Api.RateLimit
import LocalSqlAgent.Api.RateLimitRuns
import LocalSqlAgent.Api.QueryCache
import LocalSqlAgent.Api.QueryCacheLaw
import LocalSqlAgent.Api.Concurrency
import LocalSqlAgent.Security.RowCap
import LocalSqlAgent.Observability.AuditLog
import LocalSqlAgent.Lib.Template
import LocalSqlAgent.Lib.TextReplace
import LocalSqlAgent.PromptEngine.Untrusted
import LocalSqlAgent.PromptEngine.Builder
import LocalSqlAgent.PromptEngine.RequestInputs
import LocalSqlAgent.Retrieval.DimensionVocabulary
import LocalSqlAgent.Retrieval.ContextRetriever
import LocalSqlAgent.PromptEngine.Fence
import LocalSqlAgent.Session.StoredDialect
import LocalSqlAgent.SchemaData.Registry
import LocalSqlAgent.SchemaData.Drift
import LocalSqlAgent.SchemaData.SyncPlan
import LocalSqlAgent.SchemaData.DriftAgreement
import LocalSqlAgent.Security.PolicyOrder
import LocalSqlAgent.Session.Memory
import LocalSqlAgent.Session.PrevColumns
import LocalSqlAgent.Security.PolicyNodes
import LocalSqlAgent.Session.RefinementPolicy
import LocalSqlAgent.Api.RunBounded
import LocalSqlAgent.Security.PlainDenial
import LocalSqlAgent.Security.CapTwice
import LocalSqlAgent.Session.Rehydration
import LocalSqlAgent.Security.LimitScope
import LocalSqlAgent.Eval.OrderedVerdict
import LocalSqlAgent.Eval.AlignColumns
import LocalSqlAgent.Eval.Fingerprint
import LocalSqlAgent.Eval.ReferenceOrdering
import LocalSqlAgent.Api.SqlKey
import LocalSqlAgent.Core.RedactionLaw
import LocalSqlAgent.Lib.Insertions
import LocalSqlAgent.Database.TableHints
import LocalSqlAgent.Database.TableHintsLaw
import LocalSqlAgent.Retrieval.LikeEscape
import LocalSqlAgent.SchemaData.Relationships
import LocalSqlAgent.Retrieval.JoinExpansion
import LocalSqlAgent.Core.WizardMerge
import LocalSqlAgent.Retrieval.VocabularyRefresh
import LocalSqlAgent.Retrieval.VocabularyRuns
import LocalSqlAgent.Core.LetterForms
import LocalSqlAgent.SchemaData.DriftSources
import LocalSqlAgent.SchemaData.DriftOutage
import LocalSqlAgent.SchemaData.DriftContained
import LocalSqlAgent.SchemaData.RelationshipProposals
import LocalSqlAgent.SchemaData.KnownRelationships
import LocalSqlAgent.Observability.ResponseCacheWatch
import LocalSqlAgent.Llm.SalvageExact
import LocalSqlAgent.Llm.StreamedResponse
import LocalSqlAgent.Observability.AuditLosses
import LocalSqlAgent.Core.LiteralRedaction
import LocalSqlAgent.Security.ScanLexing
import LocalSqlAgent.Lib.RangeEdits
import LocalSqlAgent.SchemaData.ApplyEdits
import LocalSqlAgent.Sql.QueryRows
import LocalSqlAgent.Eval.CountQuery
import LocalSqlAgent.Eval.CountNames
import LocalSqlAgent.Eval.CountSelect
import LocalSqlAgent.Eval.CountLaw
import LocalSqlAgent.Session.ScanWarning
import LocalSqlAgent.Llm.SourceFallback
import LocalSqlAgent.Database.Connection
import LocalSqlAgent.Api.RunQuery
import LocalSqlAgent.Retrieval.Pruning
import LocalSqlAgent.Retrieval.FilterSpelling
import LocalSqlAgent.Session.RankingFilters
import LocalSqlAgent.Appdb.Migrate
import LocalSqlAgent.Appdb.MigrateRuns
