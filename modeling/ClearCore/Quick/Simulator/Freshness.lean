import ClearCore.Qt.SimulatorController.Theorems
import ClearCore.Mips.SingleCycle.Theorems
import ClearCore.Quick.Simulator.Running

-- How far the panes are behind the processor.

namespace ClearCore.Mips.SingleCycleCpu

theorem cycle_step (cpu : SingleCycleCpu) : cpu.step.2.cycle = cpu.cycle + 1 := by
  cases hr : cpu.mem.readWord cpu.pc with
  | none => rw [step_fault hr, raise]
  | some raw =>
    cases hd : Decoder.decode raw with
    | none => rw [step_reserved hr hd, raise]
    | some d =>
      rw [step_decoded hr hd]
      cases (cpu.arch.action d).perform cpu.mem cpu.pc <;> rfl

end ClearCore.Mips.SingleCycleCpu

namespace ClearCore.Quick

open Isa Mips Qt

theorem Processor.cycleCount_step (processor : Processor) :
    IMipsProcessor.cycleCount (IMipsProcessor.step processor).2 =
      IMipsProcessor.cycleCount processor + 1 := by
  cases processor with
  | single cpu => exact cpu.cycle_step
  | pipelined cpu => rfl

theorem Processor.regs_loadProgram {processor processor' : Processor} {words : List Word}
    {addr : Word} {ok : Bool}
    (h : IMipsProcessor.loadProgram processor words addr = some (ok, processor')) :
    IMipsProcessor.regs processor' = IMipsProcessor.regs processor := by
  cases processor with
  | single cpu =>
    obtain ⟨loaded, hload, heq⟩ := Option.map_eq_some_iff.mp h
    obtain ⟨⟨fits, mem⟩, -, rfl⟩ := Option.map_eq_some_iff.mp hload
    obtain ⟨-, rfl⟩ := Prod.mk.inj heq
    cases fits <;> rfl
  | pipelined cpu =>
    obtain ⟨loaded, hload, heq⟩ := Option.map_eq_some_iff.mp h
    obtain ⟨⟨fits, mem⟩, -, rfl⟩ := Option.map_eq_some_iff.mp hload
    obtain ⟨-, rfl⟩ := Prod.mk.inj heq
    cases fits <;> rfl

theorem Processor.regs_reset (processor : Processor) (clearMemory : Bool) :
    IMipsProcessor.regs (IMipsProcessor.reset processor clearMemory) = .initial := by
  cases processor <;> rfl

-- What the panes for the registers, the statistics and the pipeline show.
structure Panes where
  regModel : RegisterModel
  stats : SimulatorStatistics
  stages : List StageMap
  hazards : Option HazardMap

def Simulator.panes (sim : Simulator) : Panes := ⟨sim.regModel, sim.stats, sim.stages, sim.hazards⟩

-- It is that of a controller. A new controller has no pipeline to show.
structure Panes.Shows (panes : Panes) (ctl : SimulatorController Processor) : Prop where
  regModel : panes.regModel =
    ⟨(IMipsProcessor.regs ctl.processor).regs, (IMipsProcessor.regs ctl.processor).lastWritten⟩
  stats : panes.stats = ctl.stats
  pipeline :
    panes.stages = stageMaps (IMipsProcessor.pipelineState ctl.processor) ∧
        panes.hazards = some (hazardMap (IMipsProcessor.pipelineState ctl.processor)) ∨
      panes.stages = [] ∧ panes.hazards = none ∧ IMipsProcessor.cycleCount ctl.processor = 0

-- What QML shows of it.
structure Qml.Shows (qml : Qml) (ctl : SimulatorController Processor) : Prop where
  rows : ∀ i, qml.rows i = RegisterModel.data
    ⟨(IMipsProcessor.regs ctl.processor).regs, (IMipsProcessor.regs ctl.processor).lastWritten⟩ i
  stats : qml.stats = ctl.stats
  pipeline :
    qml.stages = stageMaps (IMipsProcessor.pipelineState ctl.processor) ∧
        qml.hazards = some (hazardMap (IMipsProcessor.pipelineState ctl.processor)) ∨
      qml.stages = [] ∧ qml.hazards = none ∧ IMipsProcessor.cycleCount ctl.processor = 0

theorem Panes.Shows.qml {sim : Simulator} {qml : Qml} {ctl : SimulatorController Processor}
    (h : sim.panes.Shows ctl) (hagrees : ∀ p, agrees sim qml p) : qml.Shows ctl where
  rows := fun i => (hagrees (.row i)).trans (congrArg (RegisterModel.data · i) h.regModel)
  stats := (hagrees .stats).trans h.stats
  pipeline := by
    obtain ⟨hstages, hhazards⟩ := hagrees .pipeline
    rw [hstages, hhazards]
    exact h.pipeline

namespace Simulator

variable {sim : Simulator} {ctl : SimulatorController Processor}

theorem panes_onEnding {signal : Signal} (hends : ends signal = true) :
    (sim.onSignal signal).panes = sim.panes := by
  cases signal with
  | halted | faulted | exceptionRaised | breakpointHit => rfl
  | cycleExecuted | pipelineStateChanged | statisticsUpdated | programLoaded => cases hends

-- A cycle that is not throttled is shown.
theorem shows_doStep (hshown : ctl.throttled = false) :
    (ctl.doStep.1.foldl onSignal { sim with ctl := ctl.doStep.2 }).panes.Shows ctl.doStep.2 := by
  have hcycle : ∀ sim : Simulator, sim.ctl.processor = ctl.next →
      (ctl.update.foldl onSignal sim).panes.Shows ctl.doStep.2 := by
    intro sim hprocessor
    rw [SimulatorController.update, hshown, if_neg Bool.false_ne_true,
      SimulatorController.doStep_ctl]
    simp only [List.foldl_cons, List.foldl_nil, onSignal, showing, hprocessor]
    exact ⟨rfl, rfl, .inl ⟨rfl, rfl⟩⟩
  have hprocessor : ctl.doStep.2.processor = ctl.next := by rw [SimulatorController.doStep_ctl]
  rw [SimulatorController.doStep_signals, List.foldl_append]
  have hends := SimulatorController.ends_ending ctl
  cases hending : ctl.ending with
  | none => exact hcycle _ hprocessor
  | some signal =>
    rw [hending, Option.toList_some, List.any_cons, List.any_nil, Bool.or_false] at hends
    change (onSignal _ signal).panes.Shows _
    rw [panes_onEnding hends]
    exact hcycle _ hprocessor

end Simulator

namespace Ui

variable {ui ui' : Ui}

-- The dump is that of the memory as it is.
def DumpFresh (ui : Ui) : Prop :=
  ui.qml.dump = memoryRows ui.sim.memory ui.qml.baseAddress 64

theorem DumpFresh.emit (h : ui.DumpFresh) (signal : Notify) : (ui.emit signal).DumpFresh := by
  cases signal with
  | programLoadedChanged | pipelineChanged => rfl
  | runningChanged | statusChanged | speedChanged | modelChanged | statsChanged | traceChanged
    | dataChanged | modelReset => exact h

theorem dumpFresh_pipelineChanged (ui : Ui) : (ui.emit .pipelineChanged).DumpFresh := rfl

theorem DumpFresh.setStatus (h : ui.DumpFresh) (s : Text) : (ui.setStatus s).DumpFresh := by
  rw [Ui.setStatus]
  split <;> exact h

theorem DumpFresh.emitAll (h : ui.DumpFresh) (signals : List Notify) :
    (ui.emitAll signals).DumpFresh := by
  rw [Ui.emitAll]
  induction signals generalizing ui with
  | nil => exact h
  | cons signal rest ih => exact ih (h.emit signal)

-- The memory pane reads the dump when the pipeline changes and when a program is loaded.
theorem dumpFresh_emitAll {signals : List Notify} {signal : Notify} (hmem : signal ∈ signals)
    (hreads : signal = .pipelineChanged ∨ signal = .programLoadedChanged) (ui : Ui) :
    (ui.emitAll signals).DumpFresh := by
  obtain ⟨before, after, rfl⟩ := List.append_of_mem hmem
  rw [Ui.emitAll, List.foldl_append, List.foldl_cons]
  apply DumpFresh.emitAll
  obtain rfl | rfl := hreads <;> rfl

theorem DumpFresh.onSignal (h : ui.DumpFresh) (signal : Signal) :
    (ui.onSignal signal).DumpFresh := by
  cases signal with
  | pipelineStateChanged ps => exact dumpFresh_pipelineChanged _
  | statisticsUpdated stats => exact h
  | halted | faulted | exceptionRaised | breakpointHit => exact (h.setStatus _).emit _
  | cycleExecuted | programLoaded => exact h

theorem dumpFresh_receive {signals : List Signal} {ps : PipelineState}
    (hmem : .pipelineStateChanged ps ∈ signals) (ui : Ui) (ctl : SimulatorController Processor) :
    (ui.receive (signals, ctl)).DumpFresh := by
  have hkeep : ∀ (signals : List Signal) (ui : Ui), ui.DumpFresh →
      (signals.foldl Ui.onSignal ui).DumpFresh := by
    intro signals
    induction signals with
    | nil => exact fun _ => id
    | cons signal rest ih => exact fun ui h => ih _ (h.onSignal signal)
  obtain ⟨before, after, rfl⟩ := List.append_of_mem hmem
  rw [receive, List.foldl_append, List.foldl_cons]
  exact hkeep after _ (dumpFresh_pipelineChanged _)

variable {past : SimulatorController Processor → Prop} {k : ℕ}

-- What the panes show is that of one controller of the past, `k` cycles ago; the dump may have
-- been read since.
structure Lags (past : SimulatorController Processor → Prop) (ui : Ui) (k : ℕ) : Prop where
  now : past ui.sim.ctl
  lag : ∃ old, past old ∧ ui.sim.panes.Shows old ∧
    ui.sim.ctl.processor = (old.steps k).processor ∧ ui.sim.ctl.stats = (old.steps k).stats ∧
    ∃ j ≤ k, ∃ mid, past mid ∧ mid.processor = (old.steps j).processor ∧
      ui.qml.dump = memoryRows (IMipsProcessor.mem mid.processor) ui.qml.baseAddress 64
  bound : k ≤ IMipsProcessor.cycleCount ui.sim.ctl.processor % 5000
  interval : ui.sim.ctl.timerInterval = ((100 - ui.sim.speed) * 5).toNat
  speed : 0 ≤ ui.sim.speed ∧ ui.sim.speed ≤ 100

theorem Lags.dump (h : ui.Lags past k) (base : Word) :
    Lags past ⟨ui.sim, { ui.qml with
      baseAddress := base, dump := memoryRows ui.sim.memory base 64 }⟩ k := by
  obtain ⟨old, hold, hshows, hprocessor, hstats, -⟩ := h.lag
  exact ⟨h.now, ⟨old, hold, hshows, hprocessor, hstats, k, le_rfl, _, h.now, hprocessor, rfl⟩,
    h.bound, h.interval, h.speed⟩

theorem Lags.emit (h : ui.Lags past k) (signal : Notify) : (ui.emit signal).Lags past k := by
  cases signal with
  | programLoadedChanged | pipelineChanged =>
    obtain ⟨hnow, hlag, hbound, hinterval, hspeed⟩ := h.dump ui.qml.baseAddress
    exact ⟨hnow, hlag, hbound, hinterval, hspeed⟩
  | runningChanged | statusChanged | speedChanged | modelChanged | statsChanged | traceChanged
    | dataChanged | modelReset => exact ⟨h.now, h.lag, h.bound, h.interval, h.speed⟩

theorem Lags.setStatus (h : ui.Lags past k) (s : Text) : (ui.setStatus s).Lags past k := by
  rw [Ui.setStatus]
  split
  · exact h
  · have hstatus : Lags past { ui with sim := { ui.sim with status := s } } k :=
      ⟨h.now, h.lag, h.bound, h.interval, h.speed⟩
    exact hstatus.emit _

theorem Lags.mono {past' : SimulatorController Processor → Prop} (h : ui.Lags past k)
    (hsub : ∀ ctl, past ctl → past' ctl) : ui.Lags past' k := by
  obtain ⟨old, hold, hshows, hprocessor, hstats, j, hj, mid, hmid, hdump⟩ := h.lag
  exact ⟨hsub _ h.now, ⟨old, hsub _ hold, hshows, hprocessor, hstats, j, hj, mid, hsub _ hmid,
    hdump⟩, h.bound, h.interval, h.speed⟩

-- What has just been read is not behind.
theorem lags_zero (hnow : past ui.sim.ctl) (hshows : ui.sim.panes.Shows ui.sim.ctl) (hdump : ui.DumpFresh)
    (hinterval : ui.sim.ctl.timerInterval = ((100 - ui.sim.speed) * 5).toNat)
    (hspeed : 0 ≤ ui.sim.speed ∧ ui.sim.speed ≤ 100) : ui.Lags past 0 :=
  ⟨hnow, ⟨_, hnow, hshows, rfl, rfl, 0, le_rfl, _, hnow, rfl, hdump⟩, Nat.zero_le _, hinterval,
    hspeed⟩

-- A throttled cycle leaves the panes one more cycle behind.
theorem Lags.throttled (h : ui.Lags past k) (hthrottled : ui.sim.ctl.throttled = true)
    (hpast : past ui.sim.ctl.doStep.2) :
    (ui.receive ui.sim.ctl.doStep).Lags past (k + 1) := by
  have hsignals : ui.sim.ctl.doStep.1 = [] := by
    rw [SimulatorController.doStep_signals, SimulatorController.update, if_pos hthrottled,
      SimulatorController.ending_of_throttled hthrottled]
    rfl
  have hreceive : ui.receive ui.sim.ctl.doStep = ui.withCtl ui.sim.ctl.doStep.2 := by
    rw [receive, hsignals]
    rfl
  obtain ⟨old, hold, hshows, hprocessor, hstats, j, hj, hdump⟩ := h.lag
  rw [hreceive]
  refine ⟨hpast, ⟨old, hold, hshows, ?_, ?_, j, Nat.le_succ_of_le hj, hdump⟩, ?_, h.interval,
    h.speed⟩
  · rw [SimulatorController.steps_succ]
    exact SimulatorController.doStep_processor hprocessor
  · rw [SimulatorController.steps_succ]
    exact SimulatorController.doStep_stats hprocessor hstats
  · have hcycle := Processor.cycleCount_step ui.sim.ctl.processor
    have hnot : IMipsProcessor.cycleCount ui.sim.ctl.next % 5000 ≠ 0 := by
      simp only [SimulatorController.throttled, Bool.and_eq_true, decide_eq_true_eq] at hthrottled
      exact hthrottled.2
    have hbound := h.bound
    change _ ≤ IMipsProcessor.cycleCount ui.sim.ctl.doStep.2.processor % 5000
    rw [SimulatorController.doStep_ctl]
    change _ ≤ IMipsProcessor.cycleCount ui.sim.ctl.next % 5000
    rw [SimulatorController.next] at hnot ⊢
    omega

-- Any other cycle brings them up to date.
theorem Lags.shown (h : ui.Lags past k) (hshown : ui.sim.ctl.throttled = false)
    (hpast : past ui.sim.ctl.doStep.2) :
    (ui.receive ui.sim.ctl.doStep).Lags past 0 := by
  have hmem : .pipelineStateChanged (IMipsProcessor.pipelineState ui.sim.ctl.next) ∈
      ui.sim.ctl.doStep.1 := by
    rw [SimulatorController.doStep_signals, SimulatorController.update, hshown,
      if_neg Bool.false_ne_true]
    simp
  apply lags_zero
  · rw [receive_ctl]
    exact hpast
  · rw [receive_ctl, receive_sim]
    exact Simulator.shows_doStep hshown
  · exact dumpFresh_receive hmem ui ui.sim.ctl.doStep.2
  · rw [receive_ctl, receive_speed, SimulatorController.doStep_ctl]
    exact h.interval
  · rw [receive_speed]
    exact h.speed

theorem Lags.doStep (h : ui.Lags past k) (hpast : past ui.sim.ctl.doStep.2) :
    ∃ k', (ui.receive ui.sim.ctl.doStep).Lags past k' ∧
      (ui.sim.ctl.throttled = false → k' = 0) := by
  cases hthrottled : ui.sim.ctl.throttled with
  | false => exact ⟨0, h.shown hthrottled hpast, fun _ => rfl⟩
  | true => exact ⟨k + 1, h.throttled hthrottled hpast, fun hfalse => by cases hfalse⟩

theorem Lags.emitAll (h : ui.Lags past k) (signals : List Notify) :
    (ui.emitAll signals).Lags past k := by
  rw [Ui.emitAll]
  induction signals generalizing ui with
  | nil => exact h
  | cons signal rest ih => exact ih (h.emit signal)

theorem Lags.reset (h : ui.Lags past k) (hreset : ui.reset = some ui')
    (hpast : past ui'.sim.ctl) : ui'.Lags past 0 := by
  obtain ⟨cleared, hcleared, rfl⟩ := reset_cases hreset
  rw [setStatus_sim, emitAll_sim] at hpast
  obtain ⟨processor, loaded, -, rfl⟩ := SimulatorController.reset_cases hcleared
  apply Lags.setStatus
  apply Lags.emitAll
  apply lags_zero hpast
  · rw [receive_ctl, receive_sim]
    exact ⟨rfl, rfl, .inl ⟨rfl, rfl⟩⟩
  · exact dumpFresh_receive List.mem_cons_self _ _
  · rw [receive_ctl, receive_speed]
    exact h.interval
  · rw [receive_speed]
    exact h.speed

theorem regs_anew {ctl : SimulatorController Processor} {processor : Processor}
    (h : ctl.Anew processor) : IMipsProcessor.regs processor = .initial := by
  obtain rfl | ⟨words, addr, ok, hload⟩ := h
  · exact Processor.regs_reset _ _
  · rw [Processor.regs_loadProgram hload, Processor.regs_reset]

theorem reset_interval {ctl : SimulatorController Processor}
    {emitted : List Signal × SimulatorController Processor} (h : ctl.reset = some emitted) :
    emitted.2.timerInterval = ctl.timerInterval := by
  obtain ⟨processor, loaded, -, rfl⟩ := SimulatorController.reset_cases h
  rfl

-- The registers are cleared after a load, as those of the processor are.
theorem lags_finishLoad {ok : Bool} (hpast : past (ui.finishLoad ok).2.sim.ctl)
    (hregs : IMipsProcessor.regs ui.sim.ctl.processor = .initial) (hstats : ui.sim.ctl.stats = {})
    (hstages : ui.sim.stages = stageMaps (IMipsProcessor.pipelineState ui.sim.ctl.processor))
    (hhazards : ui.sim.hazards =
      some (hazardMap (IMipsProcessor.pipelineState ui.sim.ctl.processor)))
    (hinterval : ui.sim.ctl.timerInterval = ((100 - ui.sim.speed) * 5).toNat)
    (hspeed : 0 ≤ ui.sim.speed ∧ ui.sim.speed ≤ 100) : (ui.finishLoad ok).2.Lags past 0 := by
  obtain ⟨status, -, hsim⟩ := finishLoad_sim ui ok
  apply lags_zero hpast
  · rw [hsim]
    refine ⟨?_, hstats.symm, .inl ⟨hstages, hhazards⟩⟩
    change _ = (⟨(IMipsProcessor.regs ui.sim.ctl.processor).regs,
      (IMipsProcessor.regs ui.sim.ctl.processor).lastWritten⟩ : RegisterModel)
    rw [hregs]
    rfl
  · have hdump : ∀ ui : Ui, (ui.emitAll
        [.programLoadedChanged, .statsChanged, .traceChanged, .runningChanged]).DumpFresh :=
      dumpFresh_emitAll List.mem_cons_self (.inr rfl)
    cases ok <;> exact (hdump _).setStatus _
  · rw [hsim]
    exact hinterval
  · rw [hsim]
    exact hspeed

theorem Lags.assembleAndLoad {source : Text} {result : Text × Ui} (h : ui.Lags past k)
    (hload : ui.assembleAndLoad source = some result) (hpast : past result.2.sim.ctl) :
    ∃ k', result.2.Lags past k' := by
  rw [Ui.assembleAndLoad] at hload
  split at hload
  · rw [← Option.some.inj hload]
    exact ⟨k, h⟩
  · obtain ⟨cleared, ok, emitted, hcleared, hemitted, rfl⟩ := load_cases hload
    obtain ⟨processor, loaded, hprogram, rfl⟩ := SimulatorController.loadProgram_cases hemitted
    have hinterval := reset_interval hcleared
    refine ⟨0, lags_finishLoad hpast ?_ ?_ ?_ ?_ ?_ ?_⟩
    · rw [receive_ctl]
      exact regs_anew (.inr ⟨_, _, _, hprogram⟩)
    · rw [receive_ctl]
      rfl
    · rw [receive_ctl, receive_sim, List.foldl_append]
      rfl
    · rw [receive_ctl, receive_sim, List.foldl_append]
      rfl
    · rw [receive_ctl, receive_speed]
      change cleared.2.timerInterval = ((100 - (Ui.receive _ cleared).sim.speed) * 5).toNat
      rw [receive_speed, hinterval]
      exact h.interval
    · rw [receive_speed]
      change 0 ≤ (Ui.receive _ cleared).sim.speed ∧ (Ui.receive _ cleared).sim.speed ≤ 100
      rw [receive_speed]
      exact h.speed

theorem setExecutionSpeed_interval (ctl : SimulatorController Processor) {speed : ℤ}
    (h : 0 ≤ speed ∧ speed ≤ 100) :
    (ctl.setExecutionSpeed speed).timerInterval = ((100 - speed) * 5).toNat := by
  rw [SimulatorController.setExecutionSpeed, min_eq_left h.2, max_eq_right h.1]

theorem Lags.setModel {m : CpuModel} (h : ui.Lags past k) (hset : ui.setModel m = some ui')
    (hpast : past ui'.sim.ctl) : ∃ k', ui'.Lags past k' := by
  obtain ⟨-, rfl⟩ | ⟨rebuilt, -, hrebuilt, rfl⟩ := setModel_cases hset
  · exact ⟨k, h⟩
  · obtain ⟨loaded, hloaded, rfl⟩ := rebuild_cases hrebuilt
    rw [emit_sim, setStatus_sim, emitAll_sim] at hpast
    refine ⟨0, Lags.emit (Lags.setStatus ?_ _) _⟩
    have hinterval := setExecutionSpeed_interval
      { processor := makeProcessor ui.sim.memBytes m } h.speed
    obtain ⟨-, rfl⟩ | ⟨ok, emitted, hemitted, rfl⟩ := hloaded
    · have hdump : ∀ ui : Ui,
          (ui.emitAll [.statsChanged, .traceChanged, .pipelineChanged]).DumpFresh :=
        dumpFresh_emitAll (by simp) (.inl rfl)
      apply lags_zero (by rwa [emitAll_sim]) _ (hdump _) <;> rw [emitAll_sim]
      · exact hinterval
      · exact h.speed
      · cases m <;> exact ⟨rfl, rfl, .inr ⟨rfl, rfl, rfl⟩⟩
    · obtain ⟨processor, program, -, rfl⟩ := SimulatorController.loadProgram_cases hemitted
      apply Lags.emitAll
      apply Lags.emit
      apply lags_zero
      · exact hpast
      · change Panes.Shows (Ui.receive _ _).sim.panes (Ui.receive _ _).sim.ctl
        rw [receive_ctl, receive_sim, List.foldl_append]
        cases ok <;> exact ⟨rfl, rfl, .inl ⟨rfl, rfl⟩⟩
      · exact dumpFresh_receive (List.mem_append_right _ (List.mem_singleton_self _)) _ _
      · change (Ui.receive _ _).sim.ctl.timerInterval = ((100 - (Ui.receive _ _).sim.speed) * 5).toNat
        rw [receive_ctl, receive_speed]
        exact hinterval
      · change 0 ≤ (Ui.receive _ _).sim.speed ∧ (Ui.receive _ _).sim.speed ≤ 100
        rw [receive_speed]
        exact h.speed

theorem Lags.setSpeed (h : ui.Lags past k) {s : ℤ} (hpast : past (ui.setSpeed s).sim.ctl) :
    (ui.setSpeed s).Lags past k := by
  rw [Ui.setSpeed] at hpast ⊢
  dsimp only at hpast ⊢
  by_cases hsame : max 0 (min s 100) = ui.sim.speed
  · rw [if_pos hsame]
    exact h
  · rw [if_neg hsame] at hpast ⊢
    have hspeed : 0 ≤ max 0 (min s 100) ∧ max 0 (min s 100) ≤ 100 := by omega
    have hchange : Lags past { ui with sim := { ui.sim with
        speed := max 0 (min s 100), ctl := ui.sim.ctl.setExecutionSpeed (max 0 (min s 100)) } } k :=
      ⟨hpast, h.lag, h.bound, setExecutionSpeed_interval _ hspeed, hspeed⟩
    exact hchange.emit _

-- The input has the processor do a cycle.
def Advances (ui : Ui) (input : Input) : Prop :=
  input = .step ∧ ui.sim.programLoaded = true ∨ input = .timeout ∧ ui.sim.running = true

-- A cycle after which the timer does not run at full speed is not throttled.
theorem throttled_eq_false (h : ui.Lags past k)
    (hslow : (ui.receive ui.sim.ctl.doStep).sim.running = false ∨ ui.sim.speed < 100) :
    ui.sim.ctl.throttled = false := by
  by_contra hthrottled
  have htrue := Bool.not_eq_false _ ▸ hthrottled
  have hending := SimulatorController.ending_of_throttled htrue
  simp only [SimulatorController.throttled, Bool.and_eq_true, decide_eq_true_eq] at htrue
  obtain ⟨⟨⟨⟨hactive, hfull⟩, -⟩, -⟩, -⟩ := htrue
  rcases hslow with hstop | hspeed
  · rw [Simulator.running, receive_ctl, SimulatorController.doStep_ctl, hending, hactive] at hstop
    cases hstop
  · have hinterval := h.interval
    rw [hfull] at hinterval
    omega

theorem step_cases (ui : Ui) :
    ui.sim.programLoaded = false ∧ ui.step = ui ∨
      ui.step = ui.receive ui.sim.ctl.doStep ∨
      ui.step = (ui.receive ui.sim.ctl.doStep).setStatus "Paused".toList := by
  rw [Ui.step]
  split
  · rename_i hnone
    exact .inl ⟨by simpa using hnone, rfl⟩
  · dsimp only
    split
    · exact .inr (.inr rfl)
    · exact .inr (.inl rfl)

theorem Lags.step (h : ui.Lags past k) (hpast : past ui.step.sim.ctl) :
    ∃ k', ui.step.Lags past k' ∧ (ui.sim.programLoaded = true →
      ui.step.sim.running = false ∨ ui.step.sim.speed < 100 → k' = 0) := by
  rcases ui.step_cases with ⟨hnone, heq⟩ | heq | heq <;> rw [heq] at hpast ⊢
  · refine ⟨k, h, fun hloaded => ?_⟩
    rw [hloaded] at hnone
    cases hnone
  · rw [receive_ctl] at hpast
    obtain ⟨k', hcycle, hzero⟩ := h.doStep hpast
    refine ⟨k', hcycle, fun _ hslow => hzero (throttled_eq_false h ?_)⟩
    rwa [receive_speed] at hslow
  · rw [setStatus_sim] at hpast
    obtain ⟨k', hcycle, hzero⟩ := h.doStep (receive_ctl ui ui.sim.ctl.doStep ▸ hpast)
    refine ⟨k', hcycle.setStatus _, fun _ hslow => hzero (throttled_eq_false h ?_)⟩
    rw [setStatus_sim] at hslow
    change (ui.receive ui.sim.ctl.doStep).sim.running = false ∨
      (ui.receive ui.sim.ctl.doStep).sim.speed < 100 at hslow
    rwa [receive_speed] at hslow

theorem Lags.timeout (h : ui.Lags past k) (hpast : past ui.timeout.sim.ctl) :
    ∃ k', ui.timeout.Lags past k' ∧ (ui.sim.running = true →
      ui.timeout.sim.running = false ∨ ui.timeout.sim.speed < 100 → k' = 0) := by
  rw [Ui.timeout] at hpast ⊢
  by_cases hrunning : ui.sim.ctl.timerActive = true
  · rw [if_pos hrunning] at hpast ⊢
    rw [receive_ctl] at hpast
    obtain ⟨k', hcycle, hzero⟩ := h.doStep hpast
    refine ⟨k', hcycle, fun _ hslow => hzero (throttled_eq_false h ?_)⟩
    rwa [receive_speed] at hslow
  · rw [if_neg hrunning]
    exact ⟨k, h, fun hactive => absurd hactive hrunning⟩

theorem Lags.runPause (h : ui.Lags past k) (hpast : past ui.runPause.sim.ctl) :
    ui.runPause.Lags past k := by
  have htimer : ∀ timerActive, past { ui.sim.ctl with timerActive } →
      Lags past (ui.withCtl { ui.sim.ctl with timerActive }) k :=
    fun _ hpast => ⟨hpast, h.lag, h.bound, h.interval, h.speed⟩
  rw [Ui.runPause] at hpast ⊢
  split_ifs at hpast ⊢
  · exact h
  · rw [emit_sim, setStatus_sim] at hpast
    exact ((htimer _ hpast).setStatus _).emit _
  · rw [emit_sim, setStatus_sim] at hpast
    exact ((htimer _ hpast).setStatus _).emit _

theorem Lags.act {input : Input} (h : ui.Lags past k) (hact : ui.act input = some ui')
    (hpast : past ui'.sim.ctl) :
    ∃ k', ui'.Lags past k' ∧
      (ui.Advances input → ui'.sim.running = false ∨ ui'.sim.speed < 100 → k' = 0) := by
  have hno : ∀ k', ui'.Lags past k' → ¬ui.Advances input → ∃ k', ui'.Lags past k' ∧
      (ui.Advances input → ui'.sim.running = false ∨ ui'.sim.speed < 100 → k' = 0) :=
    fun k' hlags hno => ⟨k', hlags, fun hadvances => absurd hadvances hno⟩
  cases input with
  | step =>
    obtain rfl := Option.some.inj hact
    obtain ⟨k', hlags, hzero⟩ := h.step hpast
    refine ⟨k', hlags, ?_⟩
    rintro (⟨-, hloaded⟩ | ⟨heq, -⟩)
    · exact hzero hloaded
    · cases heq
  | timeout =>
    obtain rfl := Option.some.inj hact
    obtain ⟨k', hlags, hzero⟩ := h.timeout hpast
    refine ⟨k', hlags, ?_⟩
    rintro (⟨heq, -⟩ | ⟨-, hrunning⟩)
    · cases heq
    · exact hzero hrunning
  | runPause =>
    obtain rfl := Option.some.inj hact
    exact hno k (h.runPause hpast) (by simp [Advances])
  | reset => exact hno 0 (h.reset hact hpast) (by simp [Advances])
  | assembleAndLoad source =>
    obtain ⟨result, hload, rfl⟩ := Option.map_eq_some_iff.mp hact
    obtain ⟨k', hlags⟩ := h.assembleAndLoad hload hpast
    exact hno k' hlags (by simp [Advances])
  | setSpeed s =>
    obtain rfl := Option.some.inj hact
    exact hno k (h.setSpeed hpast) (by simp [Advances])
  | setModel m =>
    obtain ⟨k', hlags⟩ := h.setModel hact hpast
    exact hno k' hlags (by simp [Advances])
  | toggleBreakpoint pc =>
    obtain rfl := Option.some.inj hact
    apply hno k _ (by simp [Advances])
    rw [Ui.toggleBreakpoint] at hpast ⊢
    split_ifs at hpast ⊢ <;> exact ⟨hpast, h.lag, h.bound, h.interval, h.speed⟩
  | go base =>
    obtain rfl := Option.some.inj hact
    exact hno k (h.dump base) (by simp [Advances])

theorem lags_create {memBytes : ℕ} (hpast : past (create memBytes).sim.ctl) :
    (create memBytes).Lags past 0 :=
  lags_zero hpast ⟨rfl, rfl, .inr ⟨rfl, rfl, rfl⟩⟩ rfl rfl
    (show (0 : ℤ) ≤ 60 ∧ (60 : ℤ) ≤ 100 by omega)

-- The controllers after some of the inputs.
def Visited (start : Ui) (inputs : List Input) (ctl : SimulatorController Processor) : Prop :=
  ∃ before ui, before <+: inputs ∧ start.run before = some ui ∧ ui.sim.ctl = ctl

theorem Visited.append {start : Ui} {inputs : List Input} {ctl : SimulatorController Processor}
    (h : start.Visited inputs ctl) (more : List Input) : start.Visited (inputs ++ more) ctl := by
  obtain ⟨before, ui, hbefore, hrun, hctl⟩ := h
  exact ⟨before, ui, hbefore.trans (List.prefix_append inputs more), hrun, hctl⟩

theorem run_append (ui : Ui) (front back : List Input) :
    ui.run (front ++ back) = (ui.run front).bind (·.run back) := by
  induction front generalizing ui with
  | nil => rfl
  | cons input rest ih =>
    change (ui.act input).bind _ = ((ui.act input).bind _).bind _
    cases ui.act input with
    | none => rfl
    | some next => exact ih next

theorem Lags.run {inputs : List Input} (h : ui.Lags past k) (hrun : ui.run inputs = some ui')
    (hpast : ∀ ctl, ui.Visited inputs ctl → past ctl) : ∃ k', ui'.Lags past k' := by
  induction inputs generalizing ui k with
  | nil =>
    obtain rfl := Option.some.inj hrun
    exact ⟨k, h⟩
  | cons input rest ih =>
    obtain ⟨next, hact, hrest⟩ := Option.bind_eq_some_iff.mp hrun
    have hvisited : ∀ ctl, next.Visited rest ctl → past ctl := by
      rintro ctl ⟨before, mid, hbefore, hmid, hctl⟩
      refine hpast ctl ⟨input :: before, mid, List.cons_prefix_cons.mpr ⟨rfl, hbefore⟩, ?_, hctl⟩
      rw [Ui.run, hact]
      exact hmid
    obtain ⟨k', hnext, -⟩ := h.act hact (hvisited _ ⟨[], next, List.nil_prefix, rfl, rfl⟩)
    exact ih hnext hrest hvisited

-- What QML shows in its panes was so `k` cycles ago, after some of the inputs, and the dump is of
-- a cycle since.
structure Behind (past : SimulatorController Processor → Prop) (ui : Ui) (k : ℕ) : Prop where
  panes : ∃ old, past old ∧ ui.qml.Shows old ∧
    ui.sim.ctl.processor = (old.steps k).processor ∧ ui.sim.ctl.stats = (old.steps k).stats ∧
    ∃ j ≤ k, ∃ mid, past mid ∧ mid.processor = (old.steps j).processor ∧
      ui.qml.dump = memoryRows (IMipsProcessor.mem mid.processor) ui.qml.baseAddress 64
  bound : k ≤ IMipsProcessor.cycleCount ui.sim.ctl.processor % 5000

theorem Lags.behind (h : ui.Lags past k) (hcoherent : ui.Coherent ∅) : ui.Behind past k := by
  have hagrees : ∀ p, agrees ui.sim ui.qml p := fun p => hcoherent p (Set.notMem_empty p)
  obtain ⟨old, hold, hshows, hrest⟩ := h.lag
  exact ⟨⟨old, hold, hshows.qml hagrees, hrest⟩, h.bound⟩

-- After any inputs QML shows the registers, the statistics and the pipeline of one and the same
-- cycle of the run, less than 5000 cycles ago, and of the last cycle after each that does not
-- leave the timer running at full speed.
theorem panes_behind {memBytes : ℕ} {inputs : List Input} {ui : Ui}
    (hrun : (create memBytes).run inputs = some ui) :
    (∃ k, ui.Behind ((create memBytes).Visited inputs) k) ∧
      ∀ input next, ui.act input = some next → ui.Advances input →
        next.sim.running = false ∨ next.sim.speed < 100 →
        next.Behind ((create memBytes).Visited (inputs ++ [input])) 0 := by
  obtain ⟨hconsistent, -⟩ := (consistent_create memBytes).run (fun hr => by cases hr) hrun
  obtain ⟨k, h⟩ := (lags_create ⟨[], _, List.nil_prefix, rfl, rfl⟩).run hrun fun _ => id
  refine ⟨⟨k, h.behind hconsistent.coherent⟩, fun input next hact hadvances hslow => ?_⟩
  have hall : (create memBytes).run (inputs ++ [input]) = some next := by
    rw [run_append, hrun, Option.bind_some, Ui.run, hact]
    rfl
  have hlonger := h.mono fun _ hvisited => hvisited.append [input]
  obtain ⟨k', hnext, hzero⟩ := hlonger.act hact ⟨_, next, List.prefix_rfl, hall, rfl⟩
  rw [← hzero hadvances hslow]
  exact hnext.behind (hconsistent.act hact).1.coherent

-- A program that runs at full speed, for as many cycles as it takes to store a word.
def storeInputs : List Input :=
  [.assembleAndLoad "addi $1, $0, 7\nsw $1, 8($0)".toList, .setSpeed 100, .runPause, .timeout,
    .timeout, .timeout, .timeout, .timeout, .timeout]

set_option maxRecDepth 8000 in
-- QML has seen none of the six cycles until the run is paused and stepped.
theorem panes_behind_fullSpeed : ∃ ui paused next,
    (create 16).run storeInputs = some ui ∧ ui.sim.ctl.stats.cyclesExecuted = 6 ∧
      ui.qml.stats.cyclesExecuted = 0 ∧
      (∃ k, ui.Behind ((create 16).Visited storeInputs) k) ∧
      (create 16).run (storeInputs ++ [.runPause]) = some paused ∧
      paused.act .step = some next ∧ next.qml.stats.cyclesExecuted = 7 ∧
      next.Behind ((create 16).Visited (storeInputs ++ [.runPause] ++ [.step])) 0 := by
  have hfull : ((create 16).run storeInputs).map (fun ui =>
      (ui.sim.ctl.stats.cyclesExecuted, ui.qml.stats.cyclesExecuted)) = some (6, 0) := by decide
  have hpause : ((create 16).run (storeInputs ++ [.runPause])).map (fun ui =>
      (ui.sim.programLoaded, ui.step.sim.running, ui.step.qml.stats.cyclesExecuted)) =
        some (true, false, 7) := by decide
  obtain ⟨ui, hrun, hcycles⟩ := Option.map_eq_some_iff.mp hfull
  obtain ⟨paused, hpaused, hstep⟩ := Option.map_eq_some_iff.mp hpause
  simp only [Prod.mk.injEq] at hcycles hstep
  obtain ⟨hloaded, hstopped, hshown⟩ := hstep
  exact ⟨ui, paused, paused.step, hrun, hcycles.1, hcycles.2, (panes_behind hrun).1, hpaused, rfl,
    hshown, (panes_behind hpaused).2 .step _ rfl (.inl ⟨rfl, hloaded⟩) (.inl hstopped)⟩

end Ui

end ClearCore.Quick
