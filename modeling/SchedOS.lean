import SchedOS.Properties.Lifecycle
import SchedOS.Properties.Boot
import SchedOS.Properties.Fairness
import SchedOS.Properties.Share
import SchedOS.Properties.Waiting
import SchedOS.Properties.Loading
import SchedOS.Properties.Turns
import SchedOS.Properties.Inversion
import SchedOS.Properties.SysCalls
import SchedOS.Properties.Lock
import SchedOS.Properties.PrintMethods
import SchedOS.Properties.Fields
import SchedOS.Properties.Screen
import SchedOS.Properties.Numerals
import SchedOS.Properties.Cursor
import SchedOS.Properties.Bootmain
import SchedOS.Properties.Transcript
import SchedOS.Properties.Memmove
import SchedOS.Properties.Digits
import SchedOS.Properties.Completion
import SchedOS.Properties.ShareCounter
import SchedOS.Properties.Lottery
import SchedOS.Properties.Layout
import SchedOS.Properties.Slots
import SchedOS.Properties.Trapframe
import SchedOS.Properties.ShareProgress
import SchedOS.Properties.Processor
import SchedOS.Properties.BootChain
import SchedOS.Properties.AtomicBuild
import SchedOS.Properties.LotteryEnds
import SchedOS.Properties.UnknownAlgorithm
import SchedOS.Properties.PowerOn
import SchedOS.Properties.Bootstart
