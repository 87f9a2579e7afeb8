import BareMetal.Ecall.RoundTrip
import BareMetal.MtvecVectored.Runs
import BareMetal.Preempt.Runs
import BareMetal.Shell.Trap
import BareMetal.Smode.Timer
import BareMetal.Smode.Pending
import BareMetal.Smode.Sched
import BareMetal.Smode.Runs
import BareMetal.CurrentTask
import BareMetal.Coop.Sched
import BareMetal.Coop.RoundRobin
import BareMetal.Machine.Bytes
import BareMetal.VirtioBlk.Matching
import BareMetal.Switch.Stamps
import BareMetal.Preempt.Account
import BareMetal.Smode.Samples
import BareMetal.Preempt.Window
import BareMetal.MstatusSieToggle.Excursion
import BareMetal.MstatusSieToggle.Gate
import BareMetal.Smp.Print
import BareMetal.Smp.Boot
import BareMetal.Smp.Handshake
import BareMetal.VirtioBlk.Wrap
import BareMetal.VirtioBlk.Chain
import BareMetal.VirtioBlk.Init
import BareMetal.Machine.Pmp
import BareMetal.MedelegEcall
import BareMetal.PmpPriority
import BareMetal.Smode.Service
import BareMetal.VirtioBlk.KickWait
import BareMetal.Machine.Sv39
import BareMetal.Sv39Lab
import BareMetal.SfenceVmaRs2Scoped
import BareMetal.Shell.Editor
import BareMetal.Shell.Session
import BareMetal.Checksum
import BareMetal.McounterenTmUGate.Handlers
import BareMetal.McounterenTmUGate.Verdict
import BareMetal.Machine.ArraySort
import BareMetal.Smode.Report
import BareMetal.TimerArm
import BareMetal.Uart.Numbers
import BareMetal.Shell.Dispatch
import BareMetal.ReadMtime
import BareMetal.IrqEntry
import BareMetal.Machine.CallFrame
import BareMetal.MtvecDirect
import BareMetal.StvecVectoredMode
import BareMetal.Machine.Objects
import BareMetal.StvecVectored.Trap
import BareMetal.StvecVectored.Log
import BareMetal.Cycmon
import BareMetal.CycleReadLatency
import BareMetal.CounterAlias
import BareMetal.LatencyLabs.Histogram
import BareMetal.LatencyLabs.Mtimecmp
import BareMetal.LatencyLabs.Wfi
import BareMetal.MidelegSeipClear
import BareMetal.PmpNapotEncode
import BareMetal.UartBaud
import BareMetal.LatencyLabs.FullSave
import BareMetal.LatencyLabs.Statistics
import BareMetal.SpinTasks
import BareMetal.VirtioBlk.Main
import BareMetal.Machine.Tlb
import BareMetal.SfenceVma.Course
import BareMetal.SfenceVma.Remap
import BareMetal.SfenceVma.Rs1Scoped
import BareMetal.SfenceVma.Rs2Scoped
import BareMetal.Machine.PmpLock
import BareMetal.PmpLocks
import BareMetal.MstatusSieToggle.Blocked
