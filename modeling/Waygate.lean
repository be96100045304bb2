import Waygate.Theory.Admin.ReviewDiff
import Waygate.Theory.As.SessionRevoke
import Waygate.Theory.As.SingleUse
import Waygate.Theory.Audit.Retention
import Waygate.Theory.Audit.Rollup
import Waygate.Theory.Authz.Addressing
import Waygate.Theory.Authz.Cache
import Waygate.Theory.Authz.Inference
import Waygate.Theory.Authz.Locality
import Waygate.Theory.Authz.Override
import Waygate.Theory.Changeset.Quorum
import Waygate.Theory.Codemode.Effects
import Waygate.Theory.Codemode.Starts
import Waygate.Theory.Invocation.CloseOut
import Waygate.Theory.Invocation.Replay
import Waygate.Theory.Llm.ChatLift
import Waygate.Theory.Llm.Downcast
import Waygate.Theory.Llm.FinishReasons
import Waygate.Theory.Llm.RequestTrip
import Waygate.Theory.Llm.RoundTrip
import Waygate.Theory.Llm.ToolNames
import Waygate.Theory.Mcp.CatalogChanges
import Waygate.Theory.Mcp.Pii
import Waygate.Theory.Mcp.ToolListPagination
import Waygate.Theory.Quota.Probe
import Waygate.Theory.Transfer.Dpop
import Waygate.Theory.Upstream.AdmissionReads
import Waygate.Theory.Upstream.Breaker
