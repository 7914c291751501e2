import Sapphillon.Delegation
import Sapphillon.MergeLaws
import Sapphillon.NetworkHosts
import Sapphillon.SandboxPaths
import Sapphillon.LeastPrivilege
import Sapphillon.Routing
import Sapphillon.GrantLookup
import Sapphillon.GrantTypes
import Sapphillon.CallArguments
import Sapphillon.WorkflowRuns
import Sapphillon.Stdout
import Sapphillon.SharedData
import Sapphillon.Envelope
import Sapphillon.ShimText
import Sapphillon.ContextLifetime
import Sapphillon.SegmentPrefix
import Sapphillon.MergeShape
import Sapphillon.GrantOrder
import Sapphillon.CoarseCheck
import Sapphillon.UsedPlugins
import Sapphillon.GrantIsolation
import Sapphillon.RemoteCall
import Sapphillon.ScriptCalls
import Sapphillon.EngineCell
import Sapphillon.StagedMerge
import Sapphillon.Revocation
import Sapphillon.ResultHistory
import Sapphillon.ListedRoutes
import Sapphillon.InlinedProcess
import Sapphillon.WholeRun
