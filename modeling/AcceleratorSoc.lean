import AcceleratorSoc.Clocked.Run
import AcceleratorSoc.Clocked.Liveness
import AcceleratorSoc.Clocked.Ledger
import AcceleratorSoc.Clocked.Bank
import AcceleratorSoc.Clocked.Systolic
import AcceleratorSoc.Clocked.Sweep
import AcceleratorSoc.Clocked.OneHot
import AcceleratorSoc.Clocked.Transit
import AcceleratorSoc.Clocked.LastWrite
import AcceleratorSoc.Clocked.Loop
import AcceleratorSoc.Arith.Booth
import AcceleratorSoc.Arith.NonRestoring
import AcceleratorSoc.Arith.Words
import AcceleratorSoc.CnnCore.Gelu
import AcceleratorSoc.CnnCore.PeArray
import AcceleratorSoc.CnnCore.Registers
import AcceleratorSoc.CnnCore.Step
import AcceleratorSoc.CnnCore.Invariants
import AcceleratorSoc.CnnCore.Bus
import AcceleratorSoc.CnnCore.Stability
import AcceleratorSoc.CnnCore.Compute
import AcceleratorSoc.CnnCore.LoadPhase
import AcceleratorSoc.CnnCore.FirstJob
import AcceleratorSoc.CnnCore.Restart
import AcceleratorSoc.CnnCore.StorePhase
import AcceleratorSoc.CnnCore.Progress
import AcceleratorSoc.CnnCore.StoreStream
import AcceleratorSoc.CnnCore.WholeJob
import AcceleratorSoc.CnnCore.LastBeat
import AcceleratorSoc.CnnCore.Completion
import AcceleratorSoc.CnnCore.Confined
import AcceleratorSoc.CnnCore.PackedWords
import AcceleratorSoc.CnnCore.SignedProducts
import AcceleratorSoc.Subsys.SramCtrl
import AcceleratorSoc.Subsys.OutputPath
import AcceleratorSoc.Subsys.Fifo
import AcceleratorSoc.Subsys.MemBus
import AcceleratorSoc.Subsys.MemBusOrder
import AcceleratorSoc.Subsys.OnChip
import AcceleratorSoc.Subsys.ChipJob
import AcceleratorSoc.Subsys.ChipProgress
import AcceleratorSoc.Subsys.SramWindows
import AcceleratorSoc.Subsys.Soc
import AcceleratorSoc.Subsys.HandOver
import AcceleratorSoc.Subsys.SocJob
import AcceleratorSoc.CnnTop.Control
import AcceleratorSoc.CnnTop.Status
import AcceleratorSoc.CnnTop.ConfigPort
import AcceleratorSoc.Adder.Step
import AcceleratorSoc.Adder.Pass
import AcceleratorSoc.Adder.Settle
import AcceleratorSoc.Adder.IcbSlave
import AcceleratorSoc.Hls.SystolicArray
import AcceleratorSoc.Hls.Gemm
import AcceleratorSoc.Hls.InputBounds
import AcceleratorSoc.Hls.Checker
import AcceleratorSoc.Python.Numeral
import AcceleratorSoc.Python.Builtins
import AcceleratorSoc.Software.TestGelu
import AcceleratorSoc.Software.Agreement
import AcceleratorSoc.Software.GeluOrder
import AcceleratorSoc.Software.FixedPoint
import AcceleratorSoc.Software.SwConv
import AcceleratorSoc.E203.Dpath
import AcceleratorSoc.E203.MulDiv
import AcceleratorSoc.E203.MulDivResult
import AcceleratorSoc.E203.Multiply
import AcceleratorSoc.E203.Divide
import AcceleratorSoc.E203.MulDivCycle
import AcceleratorSoc.E203.MulDivRun
