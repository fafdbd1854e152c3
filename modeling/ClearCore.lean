import ClearCore.Mips.Pipelined.Exceptions
import ClearCore.Mips.Pipelined.CycleCount
import ClearCore.Mips.Pipelined.Redirect
import ClearCore.Mips.Pipelined.Diagram
import ClearCore.Mips.Pipelined.Indicators
import ClearCore.Mips.PipelineUnits.Lemmas
import ClearCore.Mips.Pipelined.Drain
import ClearCore.Mips.Pipelined.Execute
import ClearCore.Mips.SingleCycle.Trace
import ClearCore.Mips.SingleCycle.Theorems
import ClearCore.Mips.Reference.Theorems
import ClearCore.Mips.SingleCycle.Footprint
import ClearCore.Library.Simulation
import ClearCore.Library.Escape
import ClearCore.Mips.Semantics
import ClearCore.Isa.Memory.Lemmas
import ClearCore.Mips.SingleCycle
import ClearCore.Mips.Pipelined
import ClearCore.Mips.Decoder.Lemmas
import ClearCore.Qt.SimulatorController
import ClearCore.Mips.Processor.Lemmas
import ClearCore.Qt.SimulatorController.Theorems
import ClearCore.Qt.SimulatorController.Statistics
import ClearCore.Mips.Gdb.Packet.Theorems
import ClearCore.Mips.GdbStub
import ClearCore.Mips.GdbStub.Breakpoints
import ClearCore.Mips.GdbStub.Continue
import ClearCore.Mips.GdbStub.CpuModels
import ClearCore.Mips.GdbStub.ExceptionStops
import ClearCore.Mips.Pipelined.Progress
import ClearCore.Qt.SimulatorController.Breakpoints
import ClearCore.Mips.Processor.BadVaddr
import ClearCore.Mips.GdbStub.WriteReplies
import ClearCore.Mips.GdbStub.Interrupts
import ClearCore.Mips.ElfLoader.Theorems
import ClearCore.Mips.Disassembler.Faithful
import ClearCore.Qt.Assembler.Disassembly
import ClearCore.Nsc.Ui.Telemetry
import ClearCore.Qt.Assembler.Literals
import ClearCore.Qt.Assembler.Labels
import ClearCore.Qt.Assembler.Grammar
import ClearCore.Mips.ElfLoader.Load
import ClearCore.Mips.ProgramLoader.Theorems
import ClearCore.Mips.GdbStub.RegisterRoundTrip
import ClearCore.Isa.Memory.Refinement
import ClearCore.Nsc.Converter.Theorems
import ClearCore.Qt.MemoryWidget.Theorems
import ClearCore.Mips.Pipelined.WellFormed
import ClearCore.Mips.Pipelined.Forwarding
import ClearCore.Mips.Processor.NestedTraps
import ClearCore.Nsc.Ui.ExecTrace
import ClearCore.Qt.PipelineEventsWidget.Theorems
import ClearCore.Qt.PipelineTraceWidget.Theorems
import ClearCore.Quick.QuickSimulator.Theorems
import ClearCore.Qt.Assembler.EndToEnd
import ClearCore.Mips.Pipelined.SelfModification
import ClearCore.Mips.GdbStub.BreakpointSession
import ClearCore.Quick.Simulator.EndToEnd
import ClearCore.Quick.Simulator.Drawing
import ClearCore.Quick.Simulator.Dump
import ClearCore.Mips.GdbStub.TurnTaking
import ClearCore.Qt.MainWindow.Hiding
