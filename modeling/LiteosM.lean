import LiteosM.Port.Resume
import LiteosM.Kernel.RoundRobin
import LiteosM.Kernel.QueueBuffer
import LiteosM.Kernel.Mail
import LiteosM.Kernel.Freeze
import LiteosM.Kernel.MemboxPool
import LiteosM.Kernel.TimeSlice
import LiteosM.Kernel.PoolList
import LiteosM.Kernel.Realloc
import LiteosM.Kernel.SwtmrExpiry
import LiteosM.Kernel.EventRead
import LiteosM.Kernel.Attributes
import LiteosM.Components.ExcHook
import LiteosM.Posix.PipeRouse
import LiteosM.Posix.Mqueue
import LiteosM.Posix.CondBroadcast
import LiteosM.Posix.MutexOwner
import LiteosM.Fs.Readv
import LiteosM.Fs.MpFind
import LiteosM.Fs.References
import LiteosM.Fs.Format
import LiteosM.Components.PmTimed
import LiteosM.Components.PmSleep
import LiteosM.Components.CmdKeyShift
import LiteosM.Components.CpupWindow
import LiteosM.Components.Dynlink
import LiteosM.Components.DynReloc
import LiteosM.Posix.PipeFd
import LiteosM.Components.SignalPending
import LiteosM.Posix.Once
import LiteosM.Posix.MqTimeout
