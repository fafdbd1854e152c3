import ClearCore.Qt.MainWindow
import ClearCore.Qt.MemoryWidget.Theorems
import ClearCore.Qt.RegisterWidget.Theorems
import ClearCore.Qt.SchematicDatapathWidget.Theorems
import ClearCore.Qt.SimulatorController.Emissions
import ClearCore.Qt.SimulatorController.Theorems

-- What the panels of the window show after any inputs.

namespace ClearCore.Qt.MainWindow

open Isa Mips

variable {w w' : MainWindow} {memBytes : ℕ}

section Receive

def withCtl (w : MainWindow) (ctl : SimulatorController PipelinedCpu) : MainWindow := { w with ctl }

-- Everything that shows the state of the processor is told of it.
def refreshed (w : MainWindow) : MainWindow :=
  (w.onPipelineStateChanged w.cpu.ps).onStatisticsUpdated w.ctl.stats

-- The end of a run: an entry in the log, and the text of the action.
def ended (w : MainWindow) (events : PipelineEventsWidget) : MainWindow :=
  { w with pauseShown := false, events }

theorem setRunState_logEvent (w : MainWindow) (kind : Kind) (cycle : ℕ) (text : List Char) :
    setRunState (w.logEvent kind cycle text) false =
      w.ended (w.events.logEvent kind cycle text) := by
  rw [setRunState, logEvent, ended]

theorem stop_logEvent (h : w.ctl.timerActive = false) (kind : Kind) (cycle : ℕ)
    (text : List Char) :
    w.stop.logEvent kind cycle text = w.ended (w.events.logEvent kind cycle text) := by
  have hstop : w.ctl.stop = w.ctl := by rw [SimulatorController.stop, ← h]
  rw [stop, hstop, logEvent, setRunState, ended]

theorem onSignal_ending {signal : Signal} (hends : ends signal = true)
    (hstopped : w.ctl.timerActive = false) : ∃ events, w.onSignal signal = w.ended events := by
  cases signal with
  | halted => exact ⟨_, stop_logEvent hstopped _ _ _⟩
  | faulted => exact ⟨_, stop_logEvent hstopped _ _ _⟩
  | exceptionRaised epc name => exact ⟨_, stop_logEvent hstopped _ _ _⟩
  | breakpointHit pc => exact ⟨_, setRunState_logEvent w _ _ _⟩
  | cycleExecuted | pipelineStateChanged | statisticsUpdated | programLoaded => cases hends

theorem receive_throttled (h : w.ctl.throttled = true) :
    w.receive w.ctl.doStep = w.withCtl w.ctl.doStep.2 := by
  rw [receive, SimulatorController.doStep_signals, SimulatorController.update, if_pos h,
    SimulatorController.ending_of_throttled h]
  rfl

-- The window after a cycle that is not throttled.
def cycled (w : MainWindow) (pauseShown : Bool) (events : PipelineEventsWidget) : MainWindow :=
  { (w.withCtl w.ctl.doStep.2).refreshed with statusCycles := w.ctl.next.cycle, pauseShown, events }

theorem foldl_update (h : w.ctl.throttled = false) :
    ∃ events, w.ctl.update.foldl onSignal (w.withCtl w.ctl.doStep.2) =
      w.cycled w.pauseShown events := by
  refine ⟨(w.withCtl w.ctl.doStep.2).refreshed.events, ?_⟩
  rw [SimulatorController.update, h, if_neg Bool.false_ne_true, cycled,
    SimulatorController.doStep_ctl]
  rfl

theorem receive_shown (h : w.ctl.throttled = false) :
    ∃ events, w.receive w.ctl.doStep =
      w.cycled (w.pauseShown && w.ctl.ending.isNone) events := by
  obtain ⟨shown, hshown⟩ := foldl_update h
  have hreceive : w.receive w.ctl.doStep =
      w.ctl.ending.toList.foldl onSignal (w.cycled w.pauseShown shown) := by
    rw [← hshown, ← List.foldl_append, ← SimulatorController.doStep_signals]
    rfl
  rw [hreceive]
  have hends := w.ctl.ends_ending
  cases hending : w.ctl.ending with
  | none =>
    rw [Option.isNone_none, Bool.and_true]
    exact ⟨shown, rfl⟩
  | some signal =>
    rw [hending, Option.toList_some, List.any_cons, List.any_nil, Bool.or_false] at hends
    have hstopped : (w.cycled w.pauseShown shown).ctl.timerActive = false := by
      change w.ctl.doStep.2.timerActive = false
      rw [SimulatorController.doStep_ctl, hending]
      exact Bool.and_false _
    obtain ⟨events, hevents⟩ := onSignal_ending hends hstopped
    refine ⟨events, hevents.trans ?_⟩
    rw [Option.isNone_some, Bool.and_false]
    rfl

-- A reset is shown at once.
theorem receive_reset {emitted : List Signal × SimulatorController PipelinedCpu}
    (h : w.ctl.reset = some emitted) :
    ∃ processor loaded, w.ctl.Anew processor ∧
      w.receive emitted = (w.withCtl (w.ctl.anew processor loaded)).refreshed := by
  obtain ⟨processor, loaded, hanew, rfl⟩ := SimulatorController.reset_cases h
  exact ⟨processor, loaded, hanew, rfl⟩

theorem receive_loadProgram {words : List Word} {addr : Word} {ok : Bool}
    {emitted : List Signal × SimulatorController PipelinedCpu}
    (h : w.ctl.loadProgram words addr = some (ok, emitted)) :
    ∃ processor loaded, w.ctl.Anew processor ∧ w.receive emitted =
      (w.withCtl (w.ctl.anew processor loaded)).onPipelineStateChanged processor.ps := by
  obtain ⟨processor, loaded, hload, rfl⟩ := SimulatorController.loadProgram_cases h
  refine ⟨processor, loaded, .inr ⟨words, addr, ok, hload⟩, ?_⟩
  cases ok <;> rfl

theorem onReset_cases (h : w.onReset = some w') :
    ∃ processor loaded, w.ctl.Anew processor ∧
      w' = ((w.stop.withCtl (w.ctl.anew processor loaded)).refreshed).clearPanels := by
  obtain ⟨emitted, hreset, rfl⟩ := Option.map_eq_some_iff.mp h
  obtain ⟨processor, loaded, hanew, hreceive⟩ := receive_reset (w := w.stop) hreset
  exact ⟨processor, loaded, hanew, congrArg clearPanels hreceive⟩

-- What a processor that has been reset starts from.
theorem anew_fresh {ctl : SimulatorController PipelinedCpu} {processor : PipelinedCpu}
    (h : ctl.Anew processor) :
    processor.regs = .initial ∧ processor.ps = {} ∧ processor.cycle = 0 := by
  rcases h with rfl | ⟨words, addr, ok, hload⟩
  · exact ⟨rfl, rfl, rfl⟩
  · obtain ⟨⟨fits, mem⟩, -, heq⟩ := Option.map_eq_some_iff.mp hload
    cases fits <;>
      · obtain ⟨-, rfl⟩ := Prod.mk.inj heq
        exact ⟨rfl, rfl, rfl⟩

end Receive

section Drawn

-- The pictures are those of the models, and the schematic has the breakpoints.
structure Drawn (w : MainWindow) : Prop where
  datapath : w.datapath.Current DatapathFields.picture
  registers : w.registers.Sound
  trace : w.trace.Current TraceFields.table
  breakpoints : w.datapath.model.breakpoints = w.ctl.breakpoints

theorem Drawn.withCtl (h : w.Drawn) {ctl : SimulatorController PipelinedCpu}
    (hbreakpoints : ctl.breakpoints = w.ctl.breakpoints) : (w.withCtl ctl).Drawn :=
  ⟨h.datapath, h.registers, h.trace, h.breakpoints.trans hbreakpoints.symm⟩

theorem Drawn.onPipelineStateChanged (h : w.Drawn) (state : PipelineState) :
    (w.onPipelineStateChanged state).Drawn where
  datapath := LazyView.current_present _ _
  registers := h.registers.updateCycle _ _ _
  trace := LazyView.current_present _ _
  breakpoints := by
    have hmodel : (w.onPipelineStateChanged state).datapath.model =
        { w.datapath.model with state, regValues := w.cpu.regs.read } := LazyView.model_present _ _
    rw [hmodel]
    exact h.breakpoints

theorem Drawn.refreshed (h : w.Drawn) : w.refreshed.Drawn := by
  obtain ⟨hdatapath, hregisters, htrace, hbreakpoints⟩ := h.onPipelineStateChanged w.cpu.ps
  exact ⟨hdatapath, hregisters, htrace, hbreakpoints⟩

theorem Drawn.cycled (h : w.Drawn) (pauseShown : Bool) (events : PipelineEventsWidget) :
    (w.cycled pauseShown events).Drawn := by
  have hctl : w.ctl.doStep.2.breakpoints = w.ctl.breakpoints := by
    rw [SimulatorController.doStep_ctl]
  obtain ⟨hdatapath, hregisters, htrace, hbreakpoints⟩ := (h.withCtl hctl).refreshed
  exact ⟨hdatapath, hregisters, htrace, hbreakpoints⟩

theorem Drawn.clearPanels (h : w.Drawn) : w.clearPanels.Drawn :=
  ⟨h.datapath, h.registers.clear, LazyView.current_draw _ _, h.breakpoints⟩

theorem Drawn.applyColorScheme (h : w.Drawn) (dark : Bool) : (w.applyColorScheme dark).Drawn :=
  ⟨LazyView.current_draw _ _, h.registers.setDarkMode dark, LazyView.current_draw _ _,
    h.breakpoints⟩

theorem Drawn.showPanel (h : w.Drawn) (panel : Panel) : (w.showPanel panel).Drawn := by
  cases panel with
  | datapath =>
    refine ⟨h.datapath.reveal, h.registers, h.trace, ?_⟩
    have hmodel : w.datapath.showEvent.model = w.datapath.model := LazyView.model_reveal _
    exact (congrArg DatapathFields.breakpoints hmodel).trans h.breakpoints
  | registers => exact ⟨h.datapath, h.registers.showEvent, h.trace, h.breakpoints⟩
  | memory => exact ⟨h.datapath, h.registers, h.trace, h.breakpoints⟩
  | trace => exact ⟨h.datapath, h.registers, h.trace.reveal, h.breakpoints⟩

theorem Drawn.hidePanel (h : w.Drawn) (panel : Panel) : (w.hidePanel panel).Drawn := by
  cases panel with
  | datapath => exact ⟨h.datapath.conceal, h.registers, h.trace, h.breakpoints⟩
  | registers => exact ⟨h.datapath, h.registers.hide, h.trace, h.breakpoints⟩
  | memory => exact ⟨h.datapath, h.registers, h.trace, h.breakpoints⟩
  | trace => exact ⟨h.datapath, h.registers, h.trace.conceal, h.breakpoints⟩

end Drawn

section Behind

-- What the panels and the labels hold of the controller.
structure Seen where
  state : PipelineState
  regValues : RegIdx → Word
  values : RegIdx → Word
  marks : SourceRegisters
  traced : ℕ
  stats : Option SimulatorStatistics

def seen (w : MainWindow) : Seen where
  state := w.datapath.model.state
  regValues := w.datapath.model.regValues
  values := w.registers.view.model.values
  marks := ⟨w.registers.view.model.readRs, w.registers.view.model.readRt⟩
  traced := w.trace.model.trace.lastCycle
  stats := w.stats

-- It is all of one cycle. A window whose program has not run has no statistics to show.
structure Seen.Of (seen : Seen) (old : SimulatorController PipelinedCpu) : Prop where
  state : seen.state = old.processor.ps
  regValues : seen.regValues = old.processor.regs.read
  values : seen.values = old.processor.regs.read
  marks : seen.marks = RegisterWidget.readMarks old.processor.ps.stages.id
  traced : seen.traced = old.processor.ps.cycle
  stats : ∀ stats, seen.stats = some stats → stats = old.stats

variable {past : SimulatorController PipelinedCpu → Prop} {k : ℕ}

-- That controller is one of the past, `k` cycles ago; the memory may have been read since.
structure Behind (past : SimulatorController PipelinedCpu → Prop) (w : MainWindow) (k : ℕ) :
    Prop where
  lag : ∃ old, past old ∧ w.seen.Of old ∧ w.cpu = (old.steps k).processor ∧
    w.ctl.stats = (old.steps k).stats ∧ (w.memory.visible = true →
      ∃ j ≤ k, ∃ mid, past mid ∧ mid.processor = (old.steps j).processor ∧
        w.memory.widget.snapshot = some mid.processor.mem.data)
  bound : k ≤ w.cycleCount % 5000

theorem seen_onPipelineStateChanged (w : MainWindow) (state : PipelineState) :
    (w.onPipelineStateChanged state).seen =
      ⟨state, w.cpu.regs.read, w.cpu.regs.read, RegisterWidget.readMarks state.stages.id, state.cycle,
        w.stats⟩ := by
  have hregisters := w.registers.steady_updateCycle w.now state w.cpu.regs.read
  have hvalues := congrArg RegisterFields.values hregisters
  have hmarks := congrArg (fun fields : RegisterFields =>
    SourceRegisters.mk fields.readRs fields.readRt) hregisters
  have hdatapath : ((w.onPipelineStateChanged state).datapath).model =
      { w.datapath.model with state, regValues := w.cpu.regs.read } := LazyView.model_present _ _
  have htrace : ((w.onPipelineStateChanged state).trace).model =
      { w.trace.model with trace := w.trace.model.trace.updateCycle state } :=
    LazyView.model_present _ _
  rw [seen, hdatapath, htrace]
  exact congrArg₂ (fun values marks => Seen.mk state w.cpu.regs.read values marks state.cycle w.stats)
    hvalues hmarks

theorem snapshot_onPipelineStateChanged (w : MainWindow) (state : PipelineState)
    (h : (w.onPipelineStateChanged state).memory.visible = true) :
    (w.onPipelineStateChanged state).memory.widget.snapshot = some w.cpu.mem.data := by
  change (if w.memory.visible = true then _ else w.memory : MemoryPanel).visible = true at h
  change (if w.memory.visible = true then _ else w.memory : MemoryPanel).widget.snapshot = _
  split
  · exact MemoryWidget.snapshot_updateDisplay _ _
  · rename_i hhidden
    rw [if_neg hhidden] at h
    exact absurd h hhidden

-- What has been announced is not behind.
theorem behind_onPipelineStateChanged (w : MainWindow) (hpast : past w.ctl)
    (hstats : ∀ stats, w.stats = some stats → stats = w.ctl.stats) :
    (w.onPipelineStateChanged w.cpu.ps).Behind past 0 := by
  refine ⟨⟨w.ctl, hpast, ?_, rfl, rfl, fun hvisible => ⟨0, le_rfl, w.ctl, hpast, rfl, ?_⟩⟩,
    Nat.zero_le _⟩
  · rw [seen_onPipelineStateChanged]
    exact ⟨rfl, rfl, rfl, rfl, rfl, hstats⟩
  · exact snapshot_onPipelineStateChanged w w.cpu.ps hvisible

theorem behind_refreshed (w : MainWindow) (hpast : past w.ctl) : w.refreshed.Behind past 0 := by
  have hbehind := behind_onPipelineStateChanged { w with stats := some w.ctl.stats } hpast ?_
  · obtain ⟨⟨old, hold, hof, hcpu, hstats, hmemory⟩, hbound⟩ := hbehind
    exact ⟨⟨old, hold, hof, hcpu, hstats, hmemory⟩, hbound⟩
  · rintro _ ⟨⟩
    rfl

theorem Behind.throttled (h : w.Behind past k) (hthrottled : w.ctl.throttled = true) :
    (w.withCtl w.ctl.doStep.2).Behind past (k + 1) := by
  obtain ⟨old, hold, hof, hcpu, hstats, hmemory⟩ := h.lag
  refine ⟨⟨old, hold, hof, ?_, ?_, fun hvisible => ?_⟩, ?_⟩
  · rw [SimulatorController.steps_succ]
    exact SimulatorController.doStep_processor hcpu
  · rw [SimulatorController.steps_succ]
    exact SimulatorController.doStep_stats hcpu hstats
  · obtain ⟨j, hj, hmid⟩ := hmemory hvisible
    exact ⟨j, Nat.le_succ_of_le hj, hmid⟩
  · have hnot : w.ctl.next.cycle % 5000 ≠ 0 := by
      simp only [SimulatorController.throttled, Bool.and_eq_true, decide_eq_true_eq] at hthrottled
      exact hthrottled.2
    have hnext : (w.withCtl w.ctl.doStep.2).cycleCount = w.ctl.next.cycle := by
      change w.ctl.doStep.2.processor.cycle = _
      rw [SimulatorController.doStep_ctl]
    have hcycle : w.ctl.next.cycle = w.cycleCount + 1 := rfl
    have hbound := h.bound
    rw [hnext, hcycle]
    rw [hcycle] at hnot
    omega

theorem behind_cycled (hpast : past w.ctl.doStep.2) (pauseShown : Bool)
    (events : PipelineEventsWidget) : (w.cycled pauseShown events).Behind past 0 := by
  obtain ⟨hlag, hbound⟩ := behind_refreshed (w.withCtl w.ctl.doStep.2) hpast
  exact ⟨hlag, hbound⟩

-- The registers and the trace are cleared after a reset, as those of the processor are.
theorem behind_reset {processor : PipelinedCpu} {loaded : Option LoadedProgram}
    (h : w.ctl.Anew processor) (hpast : past (w.ctl.anew processor loaded)) :
    ((w.withCtl (w.ctl.anew processor loaded)).refreshed).clearPanels.Behind past 0 := by
  obtain ⟨⟨old, hpast, hof, hcpu, hstats, hmemory⟩, hbound⟩ :=
    behind_refreshed (w.withCtl (w.ctl.anew processor loaded)) hpast
  obtain ⟨hregs, hps, -⟩ := anew_fresh h
  have hold : old.processor = processor := hcpu.symm
  refine ⟨⟨old, hpast, ⟨hof.state, hof.regValues, ?_, ?_, ?_, hof.stats⟩, hcpu, hstats, hmemory⟩,
    hbound⟩
  · rw [hold, hregs]
    funext r
    exact (ite_self _).symm
  · rw [hold, hps]
    rfl
  · rw [hold, hps]
    rfl

theorem Behind.showPanel (h : w.Behind past k) (hpast : past w.ctl) (panel : Panel) :
    (w.showPanel panel).Behind past k := by
  obtain ⟨old, hold, hof, hcpu, hstats, hmemory⟩ := h.lag
  have hkept : ∀ w' : MainWindow, w'.seen = w.seen → w'.ctl = w.ctl → w'.memory = w.memory →
      w'.Behind past k := by
    intro w' hseen hctl hmem
    refine ⟨⟨old, hold, hseen ▸ hof, ?_, hctl ▸ hstats, hmem ▸ hmemory⟩, ?_⟩
    · rw [cpu, hctl]
      exact hcpu
    · rw [cycleCount, cpu, hctl]
      exact h.bound
  cases panel with
  | datapath =>
    have hmodel : w.datapath.showEvent.model = w.datapath.model := LazyView.model_reveal _
    refine hkept _ ?_ rfl rfl
    rw [seen, seen, MainWindow.showPanel, hmodel]
  | registers =>
    have hmodel : w.registers.showEvent.view.model = w.registers.view.model :=
      LazyView.model_reveal _
    refine hkept _ ?_ rfl rfl
    rw [seen, seen, MainWindow.showPanel, hmodel]
  | trace =>
    have hmodel : w.trace.showEvent.model = w.trace.model := LazyView.model_reveal _
    refine hkept _ ?_ rfl rfl
    rw [seen, seen, MainWindow.showPanel, hmodel]
  | memory =>
    exact ⟨⟨old, hold, hof, hcpu, hstats, fun _ => ⟨k, le_rfl, w.ctl, hpast, hcpu,
      MemoryWidget.snapshot_updateDisplay _ _⟩⟩, h.bound⟩

theorem Behind.hidePanel (h : w.Behind past k) (panel : Panel) :
    (w.hidePanel panel).Behind past k := by
  obtain ⟨⟨old, hold, hof, hcpu, hstats, hmemory⟩, hbound⟩ := h
  cases panel with
  | datapath | registers | trace => exact ⟨⟨old, hold, hof, hcpu, hstats, hmemory⟩, hbound⟩
  | memory => exact ⟨⟨old, hold, hof, hcpu, hstats, fun hvisible => by cases hvisible⟩, hbound⟩

end Behind

end ClearCore.Qt.MainWindow
