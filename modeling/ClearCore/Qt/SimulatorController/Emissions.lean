import ClearCore.Qt.SimulatorController

-- What a cycle emits: the state of the cycle, unless the run is throttled, and then the
-- signal that ends the run, if it ends.

namespace ClearCore.Qt

open Isa Mips

-- The signals that end a run.
def ends : Signal → Bool
  | .halted | .faulted | .exceptionRaised _ _ | .breakpointHit _ => true
  | .cycleExecuted _ | .pipelineStateChanged _ | .statisticsUpdated _ | .programLoaded _ => false

namespace SimulatorController

variable {P : Type} [IMipsProcessor P]

-- The processor after the next cycle.
def next (ctl : SimulatorController P) : P := (IMipsProcessor.step ctl.processor).2

-- A cycle of a run at full speed, of which only every 5000th is shown.
def throttled (ctl : SimulatorController P) : Bool :=
  ctl.timerActive && decide (ctl.timerInterval = 0) &&
    decide ((IMipsProcessor.step ctl.processor).1 = .Ok) &&
    decide (IMipsProcessor.pc ctl.next ∉ ctl.breakpoints) &&
    decide (IMipsProcessor.cycleCount ctl.next % 5000 ≠ 0)

-- The signal that ends the run.
def ending (ctl : SimulatorController P) : Option Signal :=
  match (IMipsProcessor.step ctl.processor).1 with
  | .Halt => some .halted
  | .Fault => some .faulted
  | .Exception =>
      some (.exceptionRaised (IMipsProcessor.cp0 ctl.next).epc
        (exceptionName (IMipsProcessor.cp0 ctl.next).lastExc))
  | .Ok =>
      if IMipsProcessor.pc ctl.next ∈ ctl.breakpoints then
        some (.breakpointHit (IMipsProcessor.pc ctl.next))
      else none

def cycleStats (ctl : SimulatorController P) : SimulatorStatistics :=
  accumulateStats ctl.stats (IMipsProcessor.pipelineState ctl.next)

-- The announcement of the cycle.
def update (ctl : SimulatorController P) : List Signal :=
  if ctl.throttled then []
  else [.cycleExecuted (IMipsProcessor.cycleCount ctl.next),
    .pipelineStateChanged (IMipsProcessor.pipelineState ctl.next), .statisticsUpdated ctl.cycleStats]

theorem doStep_signals (ctl : SimulatorController P) :
    ctl.doStep.1 = ctl.update ++ ctl.ending.toList := by
  rcases hstep : IMipsProcessor.step ctl.processor with ⟨result, processor⟩
  unfold doStep update ending throttled cycleStats next
  rw [hstep]
  cases result with
  | Ok =>
    by_cases hbp : IMipsProcessor.pc processor ∈ ctl.breakpoints
    · simp [hbp]
    · cases ctl.timerActive <;>
        by_cases hinterval : ctl.timerInterval = 0 <;>
        by_cases hcycle : IMipsProcessor.cycleCount processor % 5000 = 0 <;>
        simp [hbp, hinterval, hcycle]
  | Halt | Fault | Exception => simp

-- The timer stops in the cycles that end the run.
theorem doStep_ctl (ctl : SimulatorController P) :
    ctl.doStep.2 = { ctl with
      processor := ctl.next
      stats := ctl.cycleStats
      timerActive := ctl.timerActive && ctl.ending.isNone } := by
  rcases hstep : IMipsProcessor.step ctl.processor with ⟨result, processor⟩
  unfold doStep ending cycleStats next
  rw [hstep]
  cases result with
  | Ok =>
    by_cases hbp : IMipsProcessor.pc processor ∈ ctl.breakpoints <;> simp [hbp]
  | Halt | Fault | Exception => simp

theorem ending_of_throttled {ctl : SimulatorController P} (h : ctl.throttled = true) :
    ctl.ending = none := by
  simp only [throttled, Bool.and_eq_true, decide_eq_true_eq] at h
  obtain ⟨⟨⟨-, hok⟩, hbp⟩, -⟩ := h
  simp [ending, hok, hbp]

theorem ends_update (ctl : SimulatorController P) : ctl.update.any ends = false := by
  rw [update]
  split <;> rfl

theorem ends_ending (ctl : SimulatorController P) :
    ctl.ending.toList.any ends = ctl.ending.isSome := by
  rw [ending]
  cases (IMipsProcessor.step ctl.processor).1 with
  | Ok => dsimp only; split <;> rfl
  | Halt | Fault | Exception => rfl

theorem ends_doStep (ctl : SimulatorController P) : ctl.doStep.1.any ends = ctl.ending.isSome := by
  rw [doStep_signals, List.any_append, ends_update, ends_ending, Bool.false_or]

-- A cycle goes by the processor and the statistics alone.
theorem doStep_processor {ctl ctl' : SimulatorController P} (h : ctl.processor = ctl'.processor) :
    ctl.doStep.2.processor = ctl'.doStep.2.processor := by
  simp only [doStep_ctl, next, h]

theorem doStep_stats {ctl ctl' : SimulatorController P} (h : ctl.processor = ctl'.processor)
    (hstats : ctl.stats = ctl'.stats) : ctl.doStep.2.stats = ctl'.doStep.2.stats := by
  simp only [doStep_ctl, cycleStats, next, h, hstats]

-- A processor that has been reset, and may hold a program.
def Anew (ctl : SimulatorController P) (processor : P) : Prop :=
  processor = IMipsProcessor.reset ctl.processor true ∨
    ∃ words addr ok, IMipsProcessor.loadProgram (IMipsProcessor.reset ctl.processor true) words addr =
      some (ok, processor)

-- The controller over such a processor.
def anew (ctl : SimulatorController P) (processor : P) (loaded : Option LoadedProgram) :
    SimulatorController P :=
  { ctl with processor, loaded, timerActive := false, stats := {} }

theorem reset_cases {ctl : SimulatorController P}
    {emitted : List Signal × SimulatorController P} (h : ctl.reset = some emitted) :
    ∃ processor loaded, ctl.Anew processor ∧
      emitted =
        ([.pipelineStateChanged (IMipsProcessor.pipelineState processor), .statisticsUpdated {}],
          ctl.anew processor loaded) := by
  unfold reset at h
  dsimp only at h
  split at h
  · exact ⟨_, none, .inl rfl, (Option.some.inj h).symm⟩
  · rename_i program _
    obtain ⟨⟨ok, processor⟩, hload, rfl⟩ := Option.map_eq_some_iff.mp h
    exact ⟨processor, _, .inr ⟨program.words, program.addr, ok, hload⟩, rfl⟩

theorem loadProgram_cases {ctl : SimulatorController P} {words : List Word} {addr : Word}
    {ok : Bool} {emitted : List Signal × SimulatorController P}
    (h : ctl.loadProgram words addr = some (ok, emitted)) :
    ∃ processor loaded,
      IMipsProcessor.loadProgram (IMipsProcessor.reset ctl.processor true) words addr =
        some (ok, processor) ∧
      emitted = ((if ok then [.programLoaded words.length] else []) ++
          [.pipelineStateChanged (IMipsProcessor.pipelineState processor)],
        ctl.anew processor loaded) := by
  obtain ⟨⟨ok', processor⟩, hload, heq⟩ := Option.map_eq_some_iff.mp h
  obtain ⟨rfl, rfl⟩ := Prod.mk.inj heq
  exact ⟨processor, _, hload, rfl⟩

end SimulatorController

end ClearCore.Qt
