import Troe.Memory.FramesTheorems
import Troe.Memory.MappingTheorems
import Troe.Task.SyncTheorems
import Troe.Task.ThreadTheorems
import Troe.Task.WaitWakes
import Troe.Storage.NamespaceTheorems
import Troe.Service.SupervisorEscalation
import Troe.Service.PipeRuns
import Troe.Dispatch.AuthorityTheorems
import Troe.Application.ExecutableTheorems
import Troe.Application.StaticTls
import Troe.Task.CallChain
import Troe.Storage.GptTheorems
import Troe.Storage.IdentityTheorems
import Troe.Task.SchedulerTheorems
import Troe.Net.FrameTheorems
import Troe.Storage.ScfgTheorems
import Troe.Storage.CspkTheorems
import Troe.Device.Subregion
import Troe.Storage.NamespaceMounts
import Troe.Storage.StateFsTheorems
import Troe.Grep.SearchTheorems
import Troe.Task.AdmissionPlan
import Troe.Terminal.Decode
import Troe.Runtime.Calendar
import Troe.Runtime.Random
