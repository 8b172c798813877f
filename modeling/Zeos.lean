import Zeos.Library.Bus
import Zeos.Library.Meter
import Zeos.Library.Transition
import Zeos.Kernel.Entry
import Zeos.Kernel.System
import Zeos.Schedule.Idle
import Zeos.Schedule.Partition
import Zeos.Schedule.Policies
import Zeos.Schedule.Queues
import Zeos.Schedule.Quiet
import Zeos.Schedule.Waiting
import Zeos.Space.Accounts
import Zeos.Space.Fork
import Zeos.Space.Protection
import Zeos.Space.Reuse
import Zeos.Stacks.ForkReturn
import Zeos.Stacks.Runs
import Zeos.Syscall.RoundTrip
import Zeos.Sockets.BoundServer
import Zeos.Syscall.Dispatch
import Zeos.Syscall.SaveArea
import Zeos.Syscall.Stats
import Zeos.Identity.ForkResult
import Zeos.Identity.ForkFailure
import Zeos.Time.Attribution
import Zeos.Kernel.Copies
import Zeos.Boot.Agreement
import Zeos.Space.Allocator
import Zeos.Syscall.ReadCheck
import Zeos.Syscall.Write
import Zeos.Time.Ticks
import Zeos.Kernel.Io
import Zeos.Sockets.Buffers
import Zeos.Sockets.Overruns
import Zeos.Sockets.Lockstep
import Zeos.Sockets.Servers
import Zeos.Sockets.Launcher
import Zeos.User.Report
import Zeos.Space.Images
import Zeos.Schedule.Lists
import Zeos.Stacks.Sharing
import Zeos.Boot.Gates
import Zeos.Boot.Ports
