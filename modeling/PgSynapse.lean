import PgSynapse.OpenAi.Equiv.Payload
import PgSynapse.Pgrx.Equiv.SqlFunctions
import PgSynapse.LoadFile.Equiv.Batches
import PgSynapse.Http.Equiv.Guard
import PgSynapse.Fs.Equiv.Tools
import PgSynapse.Delegate.Equiv.CallAgent
import PgSynapse.Pgrx.Equiv.QueueCeiling
import PgSynapse.Runtime.Equiv.ExecuteWithBudget
import PgSynapse.Executor.Equiv.Progress
import PgSynapse.Pgrx.Equiv.Execute
import PgSynapse.Executor.Equiv.Spend
import PgSynapse.Pgrx.Equiv.Spend
import PgSynapse.Pgrx.Equiv.ProfileSource
import PgSynapse.Pgrx.Equiv.KernelCache
import PgSynapse.Sidecar.Equiv.RebuildRuntime
import PgSynapse.Sidecar.Equiv.ExecuteAsync
import PgSynapse.Config.Equiv.Secrets
import PgSynapse.Providers.Equiv.Response
import PgSynapse.Executor.Equiv.ReAct
import PgSynapse.Llm.Equiv.RecoveryRuns
import PgSynapse.Compaction.Equiv.Shrink
import PgSynapse.Pgrx.Equiv.AlwaysOn
import PgSynapse.Pgrx.Equiv.AgentTriggers
import PgSynapse.Pgrx.Equiv.Schedules
import PgSynapse.Pgrx.Equiv.Apps
import PgSynapse.Config.Equiv.Agents
import PgSynapse.Config.Equiv.Rotation
import PgSynapse.Providers.Equiv.Http
import PgSynapse.Executor.Equiv.ReplyText
import PgSynapse.Providers.Equiv.Payload
import PgSynapse.Runtime.Equiv.Confinement
import PgSynapse.Executor.Equiv.RepeatedCalls
import PgSynapse.Sidecar.Equiv.Db
import PgSynapse.Providers.Equiv.Extraction
import PgSynapse.Executor.Equiv.CostCap
import PgSynapse.Pgrx.Equiv.Iterations
import PgSynapse.Executor.Equiv.Reflection
import PgSynapse.Executor.Equiv.TraceGrammar
import PgSynapse.Providers.Equiv.TaggedCalls
import PgSynapse.Providers.Equiv.Soundness
import PgSynapse.OpenAi.Equiv.ToolSchema
import PgSynapse.Providers.Equiv.GemmaCalls
import PgSynapse.Providers.Equiv.KeywordCalls
import PgSynapse.Fs.Equiv.Session
import PgSynapse.Lib.Numerals
import PgSynapse.Lib.Words
import PgSynapse.LoadFile.Equiv.Columns
import PgSynapse.LoadFile.Equiv.FreshLoad
import PgSynapse.LoadFile.Equiv.RoundTrip
import PgSynapse.Pgrx.BindArgs
import PgSynapse.Pgrx.Equiv.BindArgs
import PgSynapse.Pgrx.Equiv.RowKeys
import PgSynapse.Sidecar.AdminToken
import PgSynapse.Sidecar.Equiv.AdminToken
import PgSynapse.Pgrx.AuditCapability
import PgSynapse.Pgrx.Equiv.AuditCapability
import PgSynapse.Sidecar.BindJson
import PgSynapse.Sidecar.Equiv.BindJson
import PgSynapse.Executor.Equiv.SeededText
import PgSynapse.Clock.Equiv.Offset
import PgSynapse.Lib.Joins
import PgSynapse.Lib.Loops
import PgSynapse.Providers.Equiv.Loops
import PgSynapse.Sql.DescribeSchema
import PgSynapse.Sql.Equiv.DescribeSchema
import PgSynapse.Pgrx.Equiv.TriggerSql
import PgSynapse.Pgrx.Equiv.InlineRuns
import PgSynapse.Pgrx.Equiv.Trajectory
import PgSynapse.Pgrx.Equiv.Ticks
import PgSynapse.Pgrx.Equiv.QueueProgress
import PgSynapse.Pgrx.Equiv.InlineGate
import PgSynapse.Delegate.Equiv.Chain
import PgSynapse.Harness.Equiv.Mcp
