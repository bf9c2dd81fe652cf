import Nasiko.ToolCompact.SizeLimit
import Nasiko.ToolCompact.ReadBack
import Nasiko.Oci.Addressed
import Nasiko.Oci.Catalog
import Nasiko.McpGateway.Guard
import Nasiko.McpGateway.BulkUpdate
import Nasiko.McpGateway.StaleContext
import Nasiko.McpGateway.RawTrace
import Nasiko.McpGateway.Embeddings
import Nasiko.Hitl.Decided
import Nasiko.Hitl.LateOutcome
import Nasiko.Hitl.Mirrors
import Nasiko.Hitl.Continuation
import Nasiko.Flow.Nesting
import Nasiko.Flow.Branches
import Nasiko.Flow.Proxy
import Nasiko.Flow.FailClosed
import Nasiko.Flow.Legs
import Nasiko.LlmRouter.AnthropicFold
import Nasiko.LlmRouter.ResponsesAgree
import Nasiko.LlmRouter.Providers.CallsAgree
import Nasiko.LlmRouter.Sticky
import Nasiko.LlmRouter.Providers.Keys
import Nasiko.LlmRouter.Providers.Sse
import Nasiko.LlmRouter.Providers.ToolNames
import Nasiko.LlmRouter.Compress
import Nasiko.LlmRouter.Providers.EventStream
import Nasiko.LlmRouter.Providers.ToolBudget
import Nasiko.LlmRouter.Cells
import Nasiko.ReactAgent.Context
import Nasiko.ReactAgent.Tools
import Nasiko.Compress.Elided
import Nasiko.Orchestrator.SessionHistory
import Nasiko.Agents.HoursMeter
import Nasiko.Agents.BuildWorker
import Nasiko.Pricing.Cost
