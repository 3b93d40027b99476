import ChipletSniper.Interval.BranchResolution
import ChipletSniper.Interchiplet.Fifo
import ChipletSniper.Interchiplet.Relay
import ChipletSniper.Popnet.Ownership
import ChipletSniper.Popnet.Credits
import ChipletSniper.Popnet.Resumption
import ChipletSniper.Popnet.CreditLinks
import ChipletSniper.Popnet.PortRange
import ChipletSniper.Popnet.PowerCalculate
import ChipletSniper.Traces.PartialDelay
import ChipletSniper.Traces.TraceTime
import ChipletSniper.Interchiplet.Fetch
import ChipletSniper.Coherence.Rest
import ChipletSniper.Coherence.DataValue
import ChipletSniper.Threads.SyncSafety
import ChipletSniper.Threads.FutexSafety
import ChipletSniper.Threads.FutexQueues
import ChipletSniper.Threads.Join
import ChipletSniper.Threads.ModeSafety
import ChipletSniper.Threads.SequentialRuns
import ChipletSniper.Threads.TableBounds
import ChipletSniper.Sift.Requests
import ChipletSniper.Sift.TraceRoundTrip
import ChipletSniper.Popnet.VcRequest
import ChipletSniper.Cache.NotRecentlyUsed
import ChipletSniper.Cache.SafeReplacement
import ChipletSniper.TraceFrontend.AddressMapping
import ChipletSniper.TraceFrontend.MirroredOutput
import ChipletSniper.Rob.SmtRuns
import ChipletSniper.Rob.PipelineRuns
import ChipletSniper.Rob.Forwarding
import ChipletSniper.Rob.Squashing
import ChipletSniper.Misc.SubsecondTime
import ChipletSniper.Mesh.MemoryControllers
import ChipletSniper.Mesh.BroadcastTree
import ChipletSniper.Queueing.Grants
import ChipletSniper.Rob.FirstCome
import ChipletSniper.Misc.SpinLoopDetector
import ChipletSniper.Misc.SetLock
import ChipletSniper.Cache.AuxiliaryTagDirectory
import ChipletSniper.Misc.MTCircularQueue
import ChipletSniper.Misc.RoutineTracer
import ChipletSniper.Popnet.RouterTable
import ChipletSniper.Core.MemoryAccess
import ChipletSniper.Coherence.DirectoryCalls
