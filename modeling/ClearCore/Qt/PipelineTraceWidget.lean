import ClearCore.Library.Latest
import ClearCore.Mips.Pipelined.StageCycles

namespace ClearCore.Qt

open Isa Mips

-- One dynamic instance: the cycle in which it occupied each stage, 0 when it was not seen there.
structure InstrRow where
  pc : Word := 0
  raw : Word := 0
  cycleInStage : Fin 5 → ℕ := fun _ => 0
deriving DecidableEq

-- The order of the loops over the stages.
def oldestFirst : List (Fin 5) := (List.finRange 5).reverse

namespace InstrRow

-- `none` is the -1 of the source.
def lastStage (row : InstrRow) : Option (Fin 5) :=
  oldestFirst.find? fun s => row.cycleInStage s != 0

def lastCycle (row : InstrRow) : ℕ :=
  match row.lastStage with
  | none => 0
  | some s => row.cycleInStage s

def see (row : InstrRow) (s : Fin 5) (cycle : ℕ) : InstrRow :=
  { row with cycleInStage := Function.update row.cycleInStage s cycle }

end InstrRow

structure PipelineTraceWidget where
  rows : List InstrRow := []
  lastCycle : ℕ := 0

namespace PipelineTraceWidget

def kMaxCycles : ℕ := 20

theorem stageBefore_lt (s : Fin 5) : s.val - 1 < 5 := by omega

-- s - 1
def stageBefore (s : Fin 5) : Option (Fin 5) :=
  if 0 < s.val then some ⟨s.val - 1, stageBefore_lt s⟩ else none

-- A row of the PC that was last seen in the stage before, in an earlier cycle.
def continues (cycle : ℕ) (s : Fin 5) (snap : StageSnapshot) (row : InstrRow) : Bool :=
  decide (row.pc = snap.pc) && decide (row.lastStage = stageBefore s) &&
    decide (row.lastCycle < cycle)

-- The body of the stage loop.
def recordStage (cycle : ℕ) (s : Fin 5) (snap : StageSnapshot) (rows : List InstrRow) :
    List InstrRow :=
  if !snap.valid || snap.stalled || snap.flushed then rows
  else
    match Latest.search (continues cycle s snap) InstrRow.lastCycle rows with
    | some (i, _) => rows.modify i fun row => row.see s cycle
    | none => rows ++ [InstrRow.see { pc := snap.pc, raw := snap.raw } s cycle]

def recordStages (state : PipelineState) (rows : List InstrRow) : List InstrRow :=
  oldestFirst.foldl (fun rows s => recordStage state.cycle s (state.stages.get s) rows) rows

def firstVisible (cycle : ℕ) : ℕ := if kMaxCycles < cycle then cycle - kMaxCycles + 1 else 1

def updateCycle (w : PipelineTraceWidget) (state : PipelineState) : PipelineTraceWidget :=
  let restart := state.cycle ≤ w.lastCycle ∨ kMaxCycles < state.cycle - w.lastCycle
  let rows := recordStages state (if restart then [] else w.rows)
  { rows := rows.filter fun row => !decide (row.lastCycle < firstVisible state.cycle)
    lastCycle := state.cycle }

-- The widget fed with the first `n` cycles of a run.
def watch (w : PipelineTraceWidget) (cpu : PipelinedCpu) : ℕ → PipelineTraceWidget
  | 0 => w
  | n + 1 => (watch w cpu n).updateCycle (cpu.run (n + 1)).ps

end PipelineTraceWidget

end ClearCore.Qt
