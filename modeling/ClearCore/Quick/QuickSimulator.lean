import ClearCore.Qt.Assembler
import ClearCore.Qt.SimulatorController
import ClearCore.Mips.Disassembler
import ClearCore.Mips.Pipelined.Diagram

namespace ClearCore.Quick

open Isa Mips Qt

-- 1 MiB
def kMemorySize : ℕ := 1 <<< 20

def hex32 (v : Word) : List Char :=
  "0x".toList ++ Numeral.zeroPadded 8 (Nat.toDigits 16 v.toNat)

def disasm (raw pc : Word) : List Char :=
  match Decoder.decode raw with
  | some dec => Disassembler.toString dec pc
  | none => ".word ".toList ++ hex32 raw

-- One row of the trace grid, keyed by the instruction's IF entry.
structure TraceRow where
  pc : Word := 0
  startCycle : ℕ := 0
  cells : List String := []
  label : List Char := []
deriving DecidableEq, Repr

namespace TraceRow

def kTraceMaxRows : ℕ := 256

def kTraceMaxCycles : ℕ := 512

-- A row of `pc` is live for its first `cycles` cycles.
def live (row : TraceRow) (cycle cycles : ℕ) : Bool :=
  decide (row.startCycle ≤ cycle) && decide (cycle - row.startCycle < cycles)

-- The body of the loop over the stages.
def tagStage (row : TraceRow) (cycle : ℕ) (tag : String) (s : Fin 5) (st : StageSnapshot) :
    String :=
  if st.valid && decide (st.pc = row.pc) && row.live cycle 16 then
    if s.val = cycle - row.startCycle ∨ tag = "  " then st.name else tag
  else tag

def tag (row : TraceRow) (ps : PipelineState) : String :=
  let tag := (List.finRange 5).foldl
    (fun tag s => row.tagStage ps.cycle tag s (ps.stages.get s)) "  "
  if ps.loadStall && decide (tag = "  ") && row.live ps.cycle 8 then "**" else tag

def mark (row : TraceRow) (ps : PipelineState) : TraceRow :=
  { row with cells := row.cells ++ [row.tag ps] }

end TraceRow

-- A valid IF stage means an instruction entered the pipeline.
def enterRow (trace : List TraceRow) (cycle : ℕ) (ifStage : StageSnapshot) : List TraceRow :=
  if ifStage.valid then
    let trace := trace ++ [
      { pc := ifStage.pc, startCycle := cycle
        label := hex32 ifStage.pc ++ "  ".toList ++ disasm ifStage.raw ifStage.pc }]
    if TraceRow.kTraceMaxRows < trace.length then trace.tail else trace
  else trace

def appendTrace (trace : List TraceRow) (ps : PipelineState) : List TraceRow :=
  if TraceRow.kTraceMaxCycles < ps.cycle then trace
  else (enterRow trace ps.cycle ps.stages.ifs).map fun row => row.mark ps

structure QuickSimulator (P : Type) where
  ctl : SimulatorController P
  trace : List TraceRow := []
  lastProgram : List Word := []
  programLoaded : Bool := false

namespace QuickSimulator

variable {P : Type} [IMipsProcessor P]

-- The simulator as it is built, with a memory of `memBytes` and the default speed.
def create (memBytes : ℕ) : QuickSimulator P :=
  { ctl := (SimulatorController.create memBytes).setExecutionSpeed 60 }

-- onPipeline and the slots without a part in the trace.
def onSignal (sim : QuickSimulator P) : Signal → QuickSimulator P
  | .pipelineStateChanged ps => { sim with trace := appendTrace sim.trace ps }
  | _ => sim

def receive (sim : QuickSimulator P) (emitted : List Signal × SimulatorController P) :
    QuickSimulator P :=
  emitted.1.foldl onSignal { sim with ctl := emitted.2 }

def step (sim : QuickSimulator P) : QuickSimulator P :=
  if !sim.programLoaded then sim else sim.receive sim.ctl.stepCycle

-- A timeout of the controller's run timer.
def timeout (sim : QuickSimulator P) : QuickSimulator P :=
  if sim.ctl.timerActive then sim.receive sim.ctl.doStep else sim

def runPause (sim : QuickSimulator P) : QuickSimulator P :=
  if !sim.programLoaded then sim
  else if sim.ctl.timerActive then { sim with ctl := sim.ctl.stop }
  else { sim with ctl := sim.ctl.run }

def setSpeed (sim : QuickSimulator P) (s : ℤ) : QuickSimulator P :=
  { sim with ctl := sim.ctl.setExecutionSpeed s }

def toggleBreakpoint (sim : QuickSimulator P) (pc : Word) : QuickSimulator P :=
  if pc ∈ sim.ctl.breakpoints then { sim with ctl := sim.ctl.clearBreakpoint pc }
  else { sim with ctl := sim.ctl.setBreakpoint pc }

-- `none` is a failed Expects below, which ends the program.
def reset (sim : QuickSimulator P) : Option (QuickSimulator P) :=
  sim.ctl.stop.reset.map { sim with trace := [] }.receive

-- What assembleAndLoad does with the words of the program.
def load (sim : QuickSimulator P) (words : List Word) : Option (QuickSimulator P) := do
  let sim := sim.receive (← sim.ctl.stop.reset)
  let (ok, emitted) ← sim.ctl.loadProgram words 0
  let sim := sim.receive emitted
  return { sim with trace := [], lastProgram := words, programLoaded := ok }

def assembleAndLoad (sim : QuickSimulator P) (source : List Char) : Option (QuickSimulator P) :=
  let result := Assembler.assemble source
  if !result.ok then some sim else sim.load result.words

end QuickSimulator

-- What happens to a loaded simulator during a run.
inductive Action
  | step
  | timeout
  | runPause
  | setSpeed (s : ℤ)
  | toggleBreakpoint (pc : Word)
deriving DecidableEq, Repr

def QuickSimulator.act {P : Type} [IMipsProcessor P] (sim : QuickSimulator P) :
    Action → QuickSimulator P
  | .step => sim.step
  | .timeout => sim.timeout
  | .runPause => sim.runPause
  | .setSpeed s => sim.setSpeed s
  | .toggleBreakpoint pc => sim.toggleBreakpoint pc

end ClearCore.Quick
