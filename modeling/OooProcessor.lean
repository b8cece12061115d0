import OooProcessor.Lib.Clocked
import OooProcessor.Lib.Window
import OooProcessor.Lib.Missing
import OooProcessor.Rtl.Types
import OooProcessor.Rtl.Decoder
import OooProcessor.Rtl.Mips
import OooProcessor.Issue.Capture
import OooProcessor.Rob.InOrder
import OooProcessor.Rob.Redirect
import OooProcessor.Core.Fifo
import OooProcessor.Core.FreeList
import OooProcessor.Core.Dataflow
import OooProcessor.Core.Syscall
import OooProcessor.Core.Allocation
import OooProcessor.Core.Coverage
import OooProcessor.Core.Stall
import OooProcessor.Core.Branch
import OooProcessor.Core.Jump
import OooProcessor.Core.StoreDatum
import OooProcessor.Sim.BigEndian
import OooProcessor.Sim.Unaligned
import OooProcessor.Issue.Eligible
import OooProcessor.Issue.Once
import OooProcessor.Core.Busy
import OooProcessor.Sim.Blocks
import OooProcessor.Sim.Patching
import OooProcessor.Core.Memoryless
import OooProcessor.Core.Ports
import OooProcessor.Core.Arith
import OooProcessor.Core.SetLess
import OooProcessor.Core.Shift
import OooProcessor.Core.HiLo
import OooProcessor.Queue.Bounded
import OooProcessor.Queue.FreeFifo
import OooProcessor.Queue.Rebuild
import OooProcessor.Sim.Space
import OooProcessor.Sim.Break
import OooProcessor.Sim.Segments
import OooProcessor.Sim.Checked
import OooProcessor.Sim.HexLoad
import OooProcessor.Sim.WriteCall
import OooProcessor.Sim.ReadCall
import OooProcessor.Core.Layout
import OooProcessor.Core.Redirect
import OooProcessor.Sim.BootVector
import OooProcessor.Sim.Refinement
import OooProcessor.Sim.Files
import OooProcessor.Sim.Start
import OooProcessor.Sim.Uname
import OooProcessor.Isa.Functions
