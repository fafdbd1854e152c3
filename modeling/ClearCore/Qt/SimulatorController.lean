import ClearCore.Mips.Processor
import Mathlib.Data.Finset.Basic

namespace ClearCore.Qt

open Isa Mips

structure SimulatorStatistics where
  cyclesExecuted : Nat := 0
  instructionsRetired : Nat := 0
  dataHazards : Nat := 0
  controlHazards : Nat := 0
  forwardingEvents : Nat := 0
  stalls : Nat := 0
  flushes : Nat := 0
deriving DecidableEq, Repr

structure LoadedProgram where
  words : List Word
  addr : Word
deriving DecidableEq, Repr

inductive Signal
  | cycleExecuted (count : Nat)
  | pipelineStateChanged (state : PipelineState)
  | breakpointHit (pc : Word)
  | statisticsUpdated (stats : SimulatorStatistics)
  | programLoaded (instructionCount : Nat)
  | halted
  | faulted
  | exceptionRaised (epc : Word) (name : String)
deriving DecidableEq, Repr

-- The run timer is its active flag and its interval. Every processor here is a MIPS
-- one, so the source's dynamic_cast succeeds.
structure SimulatorController (P : Type) where
  processor : P
  breakpoints : Finset Word := ∅
  stats : SimulatorStatistics := {}
  loaded : Option LoadedProgram := none
  timerActive : Bool := false
  timerInterval : Nat := 0

def accumulateStats (stats : SimulatorStatistics) (ps : PipelineState) : SimulatorStatistics where
  cyclesExecuted := stats.cyclesExecuted + 1
  instructionsRetired := stats.instructionsRetired + if ps.retired then 1 else 0
  dataHazards := stats.dataHazards + if ps.loadStall then 1 else 0
  stalls := stats.stalls + if ps.loadStall then 1 else 0
  controlHazards := stats.controlHazards + if ps.branchFlush then 1 else 0
  flushes := stats.flushes + if ps.branchFlush then 1 else 0
  forwardingEvents :=
    stats.forwardingEvents +
      if ps.fwdExToExA || ps.fwdExToExB || ps.fwdMemToExA || ps.fwdMemToExB then 1 else 0

namespace SimulatorController

variable {P : Type} [IMipsProcessor P]

def create (memBytes : Nat) : SimulatorController P :=
  { processor := IMipsProcessor.create memBytes }

-- `none` is a failed Expects in the processor's load, which ends the program.
def loadProgram (ctl : SimulatorController P) (words : List Word) (addr : Word) :
    Option (Bool × List Signal × SimulatorController P) :=
  let processor := IMipsProcessor.reset ctl.processor true
  (IMipsProcessor.loadProgram processor words addr).map fun (ok, processor) =>
    (ok,
      (if ok then [.programLoaded words.length] else []) ++
        [.pipelineStateChanged (IMipsProcessor.pipelineState processor)],
      { ctl with
        processor, timerActive := false, stats := {}
        loaded := if ok then some { words, addr } else none })

def reset (ctl : SimulatorController P) : Option (List Signal × SimulatorController P) :=
  let processor := IMipsProcessor.reset ctl.processor true
  let finish (processor : P) (loaded : Option LoadedProgram) :
      List Signal × SimulatorController P :=
    ([.pipelineStateChanged (IMipsProcessor.pipelineState processor), .statisticsUpdated {}],
      { ctl with processor, loaded, timerActive := false, stats := {} })
  match ctl.loaded with
  | none => some (finish processor none)
  | some program =>
      (IMipsProcessor.loadProgram processor program.words program.addr).map fun (ok, processor) =>
        finish processor (if ok then ctl.loaded else none)

def doStep (ctl : SimulatorController P) : List Signal × SimulatorController P :=
  let (result, processor) := IMipsProcessor.step ctl.processor
  let ps := IMipsProcessor.pipelineState processor
  let stats := accumulateStats ctl.stats ps
  let cycle := IMipsProcessor.cycleCount processor
  let nextPc := IMipsProcessor.pc processor
  let bpHit := decide (result = .Ok) && decide (nextPc ∈ ctl.breakpoints)
  let timerActive := ctl.timerActive && decide (result = .Ok) && !bpHit
  let excEpc := (IMipsProcessor.cp0 processor).epc
  let excName := exceptionName (IMipsProcessor.cp0 processor).lastExc
  let throttle := timerActive && decide (ctl.timerInterval = 0) && decide (cycle % 5000 ≠ 0)
  let update : List Signal :=
    if !throttle || decide (result ≠ .Ok) || bpHit then
      [.cycleExecuted cycle, .pipelineStateChanged ps, .statisticsUpdated stats]
    else []
  let outcome : List Signal :=
    match result with
    | .Halt => [.halted]
    | .Fault => [.faulted]
    | .Exception => [.exceptionRaised excEpc excName]
    | .Ok => if bpHit then [.breakpointHit nextPc] else []
  (update ++ outcome, { ctl with processor, stats, timerActive })

def stepCycle (ctl : SimulatorController P) : List Signal × SimulatorController P := ctl.doStep

def run (ctl : SimulatorController P) : SimulatorController P := { ctl with timerActive := true }

def stop (ctl : SimulatorController P) : SimulatorController P := { ctl with timerActive := false }

def setBreakpoint (ctl : SimulatorController P) (pc : Word) : SimulatorController P :=
  { ctl with breakpoints := insert pc ctl.breakpoints }

def clearBreakpoint (ctl : SimulatorController P) (pc : Word) : SimulatorController P :=
  { ctl with breakpoints := ctl.breakpoints.erase pc }

-- The speed is clamped to 0..100; 100 gives interval 0.
def setExecutionSpeed (ctl : SimulatorController P) (speed : Int) : SimulatorController P :=
  { ctl with timerInterval := ((100 - max 0 (min speed 100)) * 5).toNat }

end SimulatorController

end ClearCore.Qt
