import Inel.Api.Attempts
import Inel.Api.FileRead
import Inel.Api.FilesOwned
import Inel.Api.Metadata
import Inel.Api.WholeFile
import Inel.Base.Transition
import Inel.Executor.Turns
import Inel.Io.BuffersKept
import Inel.Io.Connection
import Inel.Io.GroupAgreement
import Inel.Io.NestedViews
import Inel.Io.ReaderRuns
import Inel.Io.ShortWrites
import Inel.Io.WriterEnds
import Inel.Op.Advice
import Inel.Op.Allocations
import Inel.Op.Direct
import Inel.Op.File
import Inel.Op.Memory
import Inel.Op.Net
import Inel.Op.Results
import Inel.Reactor.AutoSlots
import Inel.Reactor.CancelledKeys
import Inel.Reactor.Counters
import Inel.Reactor.Descriptors
import Inel.Reactor.GroupIds
import Inel.Reactor.OpOnce
import Inel.Reactor.PolledAgain
import Inel.Reactor.RegisterRuns
import Inel.Reactor.Registration
import Inel.Reactor.Settled
import Inel.Reactor.SlotReuse
import Inel.Reactor.WakersKept
import Inel.Reactor.Waking
import Inel.Runtime.Memory
import Inel.Runtime.Quiescence
import Inel.Runtime.Safety
