import NeoProot.Path.DirfdRun
import NeoProot.Path.Substitution
import NeoProot.Syscall.PivotView
import NeoProot.Syscall.RecursiveBind
import NeoProot.Syscall.ExitKept
import NeoProot.Syscall.Readonly
import NeoProot.Syscall.ReadlinkExact
import NeoProot.Syscall.FdCaches
import NeoProot.Tracee.Namespaces
import NeoProot.Extension.CopyErrors
import NeoProot.Extension.NameGrammar
import NeoProot.StatShim.Injection
import NeoProot.Tracee.MemExact
import NeoProot.Extension.Credentials
import NeoProot.Extension.FirstLink
import NeoProot.Extension.PermissionsUndone
import NeoProot.Extension.RouteReplies
import NeoProot.StatShim.Environment
import NeoProot.SysVIpc.Wakeups
import NeoProot.SysVIpc.SemValues
import NeoProot.SysVIpc.MsgSelect
import NeoProot.SysVIpc.MsgWaits
import NeoProot.SysVIpc.ShmatHelper
import NeoProot.SysVIpc.Identifiers
import NeoProot.Lib.Lines
import NeoProot.Execve.AoxpEdits
import NeoProot.Execve.LoadScriptRead
import NeoProot.Execve.ShebangChain
import NeoProot.Path.Budget
import NeoProot.Path.Finality
import NeoProot.Backend.Refusal
import NeoProot.Backend.Binds
import NeoProot.Backend.ResultStream
import NeoProot.Backend.JobIds
import NeoProot.Backend.Connection
import NeoProot.Backend.Kill
import NeoProot.Backend.Terminal
import NeoProot.Backend.Ownership
import NeoProot.Syscall.Netlink
import NeoProot.Syscall.HeapRuns
import NeoProot.Syscall.ChainRuns
import NeoProot.Tracee.LoweringKept
import NeoProot.Tracee.NewChild
import NeoProot.Tracee.Population
import NeoProot.Tracee.PtraceBooks
import NeoProot.Tracee.Signals
import NeoProot.Cli.Parsers
import NeoProot.Extension.GitObjects
import NeoProot.Path.Which
import NeoProot.Extension.PortSwitch
import NeoProot.Extension.HiddenRuns
import NeoProot.Extension.MountinfoTruth
import NeoProot.Cli.GuestCommand
import NeoProot.Backend.WrapperRuns
import NeoProot.Execve.MapSegmentsExact
import NeoProot.Execve.ExtractExact
import NeoProot.Syscall.NetlinkDelivery
