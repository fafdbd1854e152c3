import ClearCore.Qt.SimulatorController.Emissions
import ClearCore.Quick.Simulator.Coherence

-- The run timer, the status line and the run button.

namespace ClearCore.Quick

open Isa Mips Qt

def statusRunning : Text := "Running".toList

-- No other status starts like it.
theorem ne_statusRunning {s : Text} (h : s.head? ≠ some 'R') : s ≠ statusRunning := by
  rintro rfl
  exact h (by decide)

theorem head?_statusException (epc : Word) (name : String) :
    (Ui.statusException epc name).head? = some 'E' := by
  have hhead : ∀ rest, ("Exception ".toList ++ rest).head? = some 'E' := fun _ => rfl
  unfold Ui.statusException
  simp only [List.append_assoc, hhead]

theorem head?_statusBreakpoint (pc : Word) : (Ui.statusBreakpoint pc).head? = some 'B' := by
  have hhead : ∀ rest, ("Breakpoint @ ".toList ++ rest).head? = some 'B' := fun _ => rfl
  unfold Ui.statusBreakpoint
  simp only [hhead]

namespace Simulator

variable {sim : Simulator} {signal : Signal} {signals : List Signal}

theorem onSignal_status_ne (h : ends signal = true) :
    (sim.onSignal signal).status ≠ statusRunning := by
  cases signal with
  | halted =>
    have hne : "Halted".toList ≠ statusRunning := by decide
    exact hne
  | faulted =>
    have hne : "Faulted".toList ≠ statusRunning := by decide
    exact hne
  | exceptionRaised epc name =>
    apply ne_statusRunning
    rw [onSignal, head?_statusException]
    decide
  | breakpointHit pc =>
    apply ne_statusRunning
    rw [onSignal, head?_statusBreakpoint]
    decide
  | cycleExecuted | pipelineStateChanged | statisticsUpdated | programLoaded => cases h

theorem onSignal_status (h : ends signal = false) : (sim.onSignal signal).status = sim.status := by
  cases signal with
  | halted | faulted | exceptionRaised | breakpointHit => cases h
  | cycleExecuted | pipelineStateChanged | statisticsUpdated | programLoaded => rfl

theorem foldl_status (h : signals.any ends = false) (sim : Simulator) :
    (signals.foldl onSignal sim).status = sim.status := by
  induction signals generalizing sim with
  | nil => rfl
  | cons signal rest ih =>
    obtain ⟨hhead, hrest⟩ := Bool.or_eq_false_iff.mp h
    rw [List.foldl_cons, ih hrest, onSignal_status hhead]

-- The status after a cycle: that of before, or that of the signal that ended the run.
theorem foldl_doStep_status (sim : Simulator) (ctl : SimulatorController Processor) :
    (ctl.ending = none → (ctl.doStep.1.foldl onSignal sim).status = sim.status) ∧
      (ctl.ending.isSome = true →
        (ctl.doStep.1.foldl onSignal sim).status ≠ statusRunning) := by
  constructor
  · intro hnone
    apply foldl_status
    rw [SimulatorController.ends_doStep, hnone, Option.isSome_none]
  · intro hsome
    obtain ⟨signal, hsignal⟩ := Option.isSome_iff_exists.mp hsome
    have hends := SimulatorController.ends_ending ctl
    rw [hsignal, Option.toList_some, List.any_cons, List.any_nil, Bool.or_false] at hends
    rw [SimulatorController.doStep_signals, hsignal, List.foldl_append, Option.toList_some,
      List.foldl_cons, List.foldl_nil]
    exact onSignal_status_ne hends

end Simulator

namespace Ui

variable {ui ui' : Ui}

-- The slots leave alone what QML keeps of `running`, unless the run has ended.
theorem refreshRegisters_running (ui : Ui) (regs : RegisterFile) :
    (ui.refreshRegisters regs).qml.running = ui.qml.running := by
  obtain ⟨rows, hqml⟩ := refreshRegisters_qml ui regs
  rw [hqml]

theorem appendTrace_running (ui : Ui) (ps : PipelineState) :
    (ui.appendTrace ps).qml.running = ui.qml.running := by
  rw [Ui.appendTrace]
  split <;> rfl

theorem setStatus_running (ui : Ui) (s : Text) :
    (ui.setStatus s).qml.running = ui.qml.running := by
  rw [setStatus]
  split <;> rfl

theorem onPipeline_running (ui : Ui) (ps : PipelineState) :
    (ui.onPipeline ps).qml.running = ui.qml.running :=
  (appendTrace_running _ ps).trans (refreshRegisters_running _ _)

theorem onSignal_running (ui : Ui) (signal : Signal) :
    (ui.onSignal signal).qml.running =
      if ends signal then ui.sim.running else ui.qml.running := by
  cases signal with
  | pipelineStateChanged ps => exact onPipeline_running ui ps
  | halted | faulted | exceptionRaised | breakpointHit =>
    change (setStatus ui _).sim.running = _
    rw [setStatus_sim]
    rfl
  | statisticsUpdated | cycleExecuted | programLoaded => rfl

theorem receive_running (ui : Ui) (signals : List Signal) (ctl : SimulatorController Processor) :
    (ui.receive (signals, ctl)).qml.running =
      if signals.any ends then ctl.timerActive else ui.qml.running := by
  have hfold : ∀ ui : Ui, (signals.foldl onSignal ui).qml.running =
      if signals.any ends then ui.sim.running else ui.qml.running := by
    induction signals with
    | nil => exact fun _ => rfl
    | cons signal rest ih =>
      intro ui
      have hctl : (ui.onSignal signal).sim.running = ui.sim.running := by
        rw [onSignal_sim]
        cases signal <;> rfl
      rw [List.foldl_cons, ih, onSignal_running, hctl, List.any_cons]
      cases ends signal <;> cases rest.any ends <;> rfl
  exact hfold _

-- What the status line and the trace grid have to do with the simulator.
structure Consistent (ui : Ui) : Prop where
  coherent : ui.Coherent ∅
  cache : ui.sim.traceRowsCache = ui.sim.trace
  status : ui.sim.running = true ↔ ui.sim.status = statusRunning

theorem Consistent.stopped (hcoherent : ui.Coherent ∅)
    (hcache : ui.sim.traceRowsCache = ui.sim.trace) (hstop : ui.sim.running = false)
    (hstatus : ui.sim.status ≠ statusRunning) : ui.Consistent where
  coherent := hcoherent
  cache := hcache
  status := by
    rw [hstop]
    exact ⟨fun hfalse => absurd hfalse Bool.false_ne_true, fun heq => absurd heq hstatus⟩

theorem Consistent.emit (h : ui.Consistent) (signal : Notify) : (ui.emit signal).Consistent where
  coherent := h.coherent.emit (Set.empty_subset _)
  cache := h.cache
  status := h.status

theorem stopped_setStatus (hcoherent : ui.Coherent ∅)
    (hcache : ui.sim.traceRowsCache = ui.sim.trace) (hstop : ui.sim.running = false) {s : Text}
    (hs : s ≠ statusRunning) : (ui.setStatus s).Consistent := by
  apply Consistent.stopped (hcoherent.setStatus s) <;> rw [setStatus_sim]
  · exact hcache
  · exact hstop
  · exact hs

-- QML has heard of the state of the timer, or neither has changed.
def Heard (ui ui' : Ui) : Prop :=
  ui'.qml.running = ui'.sim.running ∨
    ui'.qml.running = ui.qml.running ∧ ui'.sim.running = ui.sim.running

theorem receive_cache {signals : List Signal} {ctl : SimulatorController Processor}
    (h : ui.sim.traceRowsCache = ui.sim.trace) :
    (ui.receive (signals, ctl)).sim.traceRowsCache = (ui.receive (signals, ctl)).sim.trace := by
  have hfold : ∀ sim : Simulator, sim.traceRowsCache = sim.trace →
      (signals.foldl Simulator.onSignal sim).traceRowsCache =
        (signals.foldl Simulator.onSignal sim).trace := by
    induction signals with
    | nil => exact fun _ => id
    | cons signal rest ih =>
      intro sim hcache
      apply ih
      cases signal with
      | pipelineStateChanged ps =>
        simp only [Simulator.onSignal, Simulator.showing, Quick.appendTrace, hcache]
        split <;> rfl
      | _ => exact hcache
  rw [receive_sim]
  exact hfold _ h

theorem Consistent.doStep (h : ui.Consistent) :
    (ui.receive ui.sim.ctl.doStep).Consistent ∧ ui.Heard (ui.receive ui.sim.ctl.doStep) := by
  have hrunning : (ui.receive ui.sim.ctl.doStep).sim.running =
      (ui.sim.running && ui.sim.ctl.ending.isNone) := by
    rw [Simulator.running, receive_ctl, SimulatorController.doStep_ctl]
    rfl
  have hbutton := receive_running ui ui.sim.ctl.doStep.1 ui.sim.ctl.doStep.2
  rw [SimulatorController.ends_doStep] at hbutton
  have hstatus := Simulator.foldl_doStep_status { ui.sim with ctl := ui.sim.ctl.doStep.2 } ui.sim.ctl
  rw [← receive_sim] at hstatus
  cases hending : ui.sim.ctl.ending with
  | none =>
    rw [hending, Option.isNone_none, Bool.and_true] at hrunning
    rw [hending] at hbutton
    refine ⟨⟨h.coherent.receive settled_empty _, receive_cache h.cache, ?_⟩, .inr ⟨hbutton, hrunning⟩⟩
    rw [hrunning, h.status, hstatus.1 hending]
  | some signal =>
    rw [hending, Option.isNone_some, Bool.and_false] at hrunning
    rw [hending] at hbutton
    have hne := hstatus.2 (by rw [hending]; rfl)
    refine ⟨.stopped (h.coherent.receive settled_empty _) (receive_cache h.cache) hrunning hne,
      .inl ?_⟩
    · refine hbutton.trans ?_
      rw [← receive_ctl ui ui.sim.ctl.doStep]
      rfl

theorem Consistent.step (h : ui.Consistent) : ui.step.Consistent ∧ ui.Heard ui.step := by
  have hstep := h.doStep
  rw [Ui.step]
  split
  · exact ⟨h, .inr ⟨rfl, rfl⟩⟩
  · dsimp only
    split
    · rename_i hpaused
      have hne : (ui.receive ui.sim.ctl.doStep).sim.status ≠ statusRunning := by
        intro heq
        rw [SimulatorController.stepCycle, heq] at hpaused
        revert hpaused
        decide
      have hstop : (ui.receive ui.sim.ctl.doStep).sim.running = false :=
        Bool.eq_false_iff.mpr fun hrun => hne (hstep.1.status.mp hrun)
      refine ⟨stopped_setStatus hstep.1.coherent hstep.1.cache hstop (by decide), ?_⟩
      rw [Heard, setStatus_sim, setStatus_running]
      exact hstep.2
    · exact hstep

theorem Consistent.timeout (h : ui.Consistent) :
    ui.timeout.Consistent ∧ ui.Heard ui.timeout := by
  rw [Ui.timeout]
  split
  · exact h.doStep
  · exact ⟨h, .inr ⟨rfl, rfl⟩⟩

theorem Consistent.runPause (h : ui.Consistent) :
    ui.runPause.Consistent ∧ ui.Heard ui.runPause := by
  rw [Ui.runPause]
  split
  · exact ⟨h, .inr ⟨rfl, rfl⟩⟩
  · split
    · have hstop : (Ui.setStatus (ui.withCtl ui.sim.ctl.stop) "Paused".toList).Consistent :=
        stopped_setStatus (h.coherent.withCtl ui.sim.ctl.stop) h.cache rfl (by decide)
      exact ⟨hstop.emit _, .inl rfl⟩
    · have hrun : (Ui.setStatus (ui.withCtl ui.sim.ctl.run) "Running".toList).Consistent := by
        refine ⟨(h.coherent.withCtl _).setStatus _, ?_, ?_⟩ <;> rw [setStatus_sim]
        · exact h.cache
        · exact ⟨fun _ => rfl, fun _ => rfl⟩
      exact ⟨hrun.emit _, .inl rfl⟩

theorem receive_anew_running (ui : Ui) (signals : List Signal)
    (ctl : SimulatorController Processor) (processor : Processor) (loaded : Option LoadedProgram) :
    (ui.receive (signals, ctl.anew processor loaded)).sim.running = false := by
  rw [Simulator.running, receive_ctl]
  rfl

theorem Consistent.reset (h : ui.Consistent) (hreset : ui.reset = some ui') :
    ui'.Consistent ∧ ui.Heard ui' := by
  have hcoherent := h.coherent.reset hreset
  obtain ⟨cleared, hcleared, rfl⟩ := reset_cases hreset
  obtain ⟨processor, loaded, -, rfl⟩ := SimulatorController.reset_cases hcleared
  refine ⟨.stopped hcoherent ?_ ?_ ?_, .inl ?_⟩
  · rw [setStatus_sim, emitAll_sim]
    exact receive_cache rfl
  · rw [setStatus_sim, emitAll_sim]
    exact receive_anew_running _ _ _ _ _
  · rw [setStatus_sim]
    exact ne_statusRunning (s := "Idle".toList) (by decide)
  · rw [setStatus_running, setStatus_sim]
    rfl

theorem finishLoad_sim (ui : Ui) (ok : Bool) :
    ∃ status, status ≠ statusRunning ∧ (ui.finishLoad ok).2.sim =
      { ui.sim with
        programLoaded := ok, stats := {}, trace := [], traceRowsCache := [], regModel := {}
        status } := by
  cases ok with
  | false => exact ⟨tooLarge, by decide, setStatus_sim _ _⟩
  | true =>
    refine ⟨statusLoaded ui.sim.lastProgram.length, ?_, setStatus_sim _ _⟩
    apply ne_statusRunning
    have hhead : ∀ rest, ("Loaded ".toList ++ rest).head? = some 'L' := fun _ => rfl
    unfold statusLoaded
    simp only [List.append_assoc, hhead]
    decide

theorem finishLoad_kept (ui : Ui) (ok : Bool) :
    (ui.finishLoad ok).2.sim.ctl = ui.sim.ctl ∧
      (ui.finishLoad ok).2.sim.memBytes = ui.sim.memBytes ∧
      (ui.finishLoad ok).2.sim.programLoaded = ok := by
  obtain ⟨status, -, hsim⟩ := finishLoad_sim ui ok
  rw [hsim]
  exact ⟨rfl, rfl, rfl⟩

theorem finishLoad_running (ui : Ui) (ok : Bool) :
    (ui.finishLoad ok).2.qml.running = ui.sim.running := by
  cases ok <;> exact setStatus_running _ _

theorem Consistent.finishLoad {ok : Bool} (hcoherent : (ui.finishLoad ok).2.Coherent ∅)
    (hstop : ui.sim.running = false) : (ui.finishLoad ok).2.Consistent := by
  obtain ⟨status, hstatus, hsim⟩ := finishLoad_sim ui ok
  apply Consistent.stopped hcoherent <;> rw [hsim]
  · exact hstop
  · exact hstatus

theorem Consistent.assembleAndLoad {source : Text} {result : Text × Ui} (h : ui.Consistent)
    (hload : ui.assembleAndLoad source = some result) :
    result.2.Consistent ∧ ui.Heard result.2 := by
  have hcoherent := h.coherent.assembleAndLoad hload
  rw [Ui.assembleAndLoad] at hload
  split at hload
  · rw [← Option.some.inj hload]
    exact ⟨h, .inr ⟨rfl, rfl⟩⟩
  · obtain ⟨cleared, ok, emitted, -, hemitted, rfl⟩ := load_cases hload
    obtain ⟨processor, loaded, -, rfl⟩ := SimulatorController.loadProgram_cases hemitted
    refine ⟨.finishLoad hcoherent (receive_anew_running _ _ _ _ _), .inl ?_⟩
    obtain ⟨status, -, hsim⟩ := finishLoad_sim _ ok
    rw [finishLoad_running, hsim]
    rfl

-- A new controller does not run, and QML does not hear of it.
theorem setModel_new {m : CpuModel} (hne : m ≠ ui.sim.model) (hset : ui.setModel m = some ui') :
    ui'.sim.traceRowsCache = ui'.sim.trace ∧ ui'.sim.status = "Idle".toList ∧
      ui'.sim.running = false ∧ ui'.qml.running = ui.qml.running := by
  obtain ⟨heq, -⟩ | ⟨rebuilt, -, hrebuilt, rfl⟩ := setModel_cases hset
  · exact absurd heq hne
  · obtain ⟨loaded, hloaded, rfl⟩ := rebuild_cases hrebuilt
    have hkept : loaded.sim.traceRowsCache = loaded.sim.trace ∧ loaded.sim.running = false ∧
        loaded.qml.running = ui.qml.running := by
      obtain ⟨-, rfl⟩ | ⟨ok, emitted, hemitted, rfl⟩ := hloaded
      · exact ⟨rfl, rfl, rfl⟩
      · obtain ⟨processor, program, -, rfl⟩ := SimulatorController.loadProgram_cases hemitted
        refine ⟨receive_cache rfl, receive_anew_running _ _ _ _ _, ?_⟩
        refine (receive_running _ _ _).trans ?_
        cases ok <;> rfl
    obtain ⟨hcache, hstop, hbutton⟩ := hkept
    rw [emit_sim, setStatus_sim, emitAll_sim]
    exact ⟨hcache, rfl, hstop, (setStatus_running _ _).trans hbutton⟩

-- A change of the CPU model takes the place of a controller that is running.
def ReplacesRunning (ui : Ui) (input : Input) : Prop :=
  ∃ m, input = .setModel m ∧ m ≠ ui.sim.model ∧ ui.sim.running = true

theorem ReplacesRunning.stale {input : Input} (h : ui.ReplacesRunning input)
    (hact : ui.act input = some ui') :
    ui'.sim.running = false ∧ ui'.qml.running = ui.qml.running := by
  obtain ⟨m, rfl, hne, -⟩ := h
  obtain ⟨-, -, hstop, hkept⟩ := setModel_new hne hact
  exact ⟨hstop, hkept⟩

theorem Consistent.setModel {m : CpuModel} (h : ui.Consistent)
    (hset : ui.setModel m = some ui') :
    ui'.Consistent ∧ (¬ui.ReplacesRunning (.setModel m) → ui.Heard ui') := by
  by_cases hne : m ≠ ui.sim.model
  · obtain ⟨hcache, hstatus, hstop, hkept⟩ := setModel_new hne hset
    refine ⟨.stopped (h.coherent.setModel hset) hcache hstop ?_, fun hno => .inr ⟨hkept, ?_⟩⟩
    · rw [hstatus]
      decide
    · have hidle : ui.sim.running ≠ true := fun hrunning => hno ⟨m, rfl, hne, hrunning⟩
      rw [hstop, Bool.eq_false_iff.mpr hidle]
  · rw [Ui.setModel, if_pos (not_not.mp hne)] at hset
    rw [← Option.some.inj hset]
    exact ⟨h, fun _ => .inr ⟨rfl, rfl⟩⟩

theorem Consistent.act {input : Input} (h : ui.Consistent) (hact : ui.act input = some ui') :
    ui'.Consistent ∧ (¬ui.ReplacesRunning input → ui.Heard ui') := by
  cases input with
  | step =>
    obtain rfl := Option.some.inj hact
    exact ⟨h.step.1, fun _ => h.step.2⟩
  | timeout =>
    obtain rfl := Option.some.inj hact
    exact ⟨h.timeout.1, fun _ => h.timeout.2⟩
  | runPause =>
    obtain rfl := Option.some.inj hact
    exact ⟨h.runPause.1, fun _ => h.runPause.2⟩
  | reset => exact ⟨(h.reset hact).1, fun _ => (h.reset hact).2⟩
  | assembleAndLoad source =>
    obtain ⟨result, hload, rfl⟩ := Option.map_eq_some_iff.mp hact
    exact ⟨(h.assembleAndLoad hload).1, fun _ => (h.assembleAndLoad hload).2⟩
  | setSpeed s =>
    obtain rfl := Option.some.inj hact
    have hkept : (ui.setSpeed s).sim.trace = ui.sim.trace ∧
        (ui.setSpeed s).sim.traceRowsCache = ui.sim.traceRowsCache ∧
        (ui.setSpeed s).sim.running = ui.sim.running ∧
        (ui.setSpeed s).sim.status = ui.sim.status ∧
        (ui.setSpeed s).qml.running = ui.qml.running := by
      rw [Ui.setSpeed]
      dsimp only
      split <;> exact ⟨rfl, rfl, rfl, rfl, rfl⟩
    obtain ⟨htrace, hcache, hrunning, hstatus, hbutton⟩ := hkept
    refine ⟨⟨h.coherent.setSpeed s, ?_, ?_⟩, fun _ => .inr ⟨hbutton, hrunning⟩⟩
    · rw [htrace, hcache, h.cache]
    · rw [hrunning, hstatus, h.status]
  | setModel m => exact h.setModel hact
  | toggleBreakpoint pc =>
    obtain rfl := Option.some.inj hact
    rw [toggleBreakpoint]
    split <;> exact ⟨⟨h.coherent.withCtl _, h.cache, h.status⟩, fun _ => .inr ⟨rfl, rfl⟩⟩
  | go base =>
    obtain rfl := Option.some.inj hact
    exact ⟨⟨h.coherent.go base, h.cache, h.status⟩, fun _ => .inr ⟨rfl, rfl⟩⟩

theorem consistent_create (memBytes : ℕ) : (create memBytes).Consistent := by
  apply Consistent.stopped
  · intro p _
    cases p with
    | pipeline => exact ⟨rfl, rfl⟩
    | status | speed | model | programLoaded | stats | trace | row => rfl
  · rfl
  · rfl
  · exact ne_statusRunning (s := "Idle".toList) (by decide)

-- No input of a run replaces a running controller.
def Steady (ui : Ui) : List Input → Prop
  | [] => True
  | input :: rest => ¬ui.ReplacesRunning input ∧ ∀ next, ui.act input = some next → next.Steady rest

-- What holds after any inputs.
theorem Consistent.run {inputs : List Input} (h : ui.Consistent)
    (hbutton : ui.sim.running = true → ui.qml.running = true)
    (hrun : ui.run inputs = some ui') :
    ui'.Consistent ∧ (ui'.sim.running = true → ui'.qml.running = true) ∧
      (ui.qml.running = ui.sim.running → ui.Steady inputs →
        ui'.qml.running = ui'.sim.running) := by
  induction inputs generalizing ui with
  | nil =>
    obtain rfl := Option.some.inj hrun
    exact ⟨h, hbutton, fun heq _ => heq⟩
  | cons input rest ih =>
    obtain ⟨next, hact, hrest⟩ := Option.bind_eq_some_iff.mp hrun
    obtain ⟨hnext, hheard⟩ := h.act hact
    have hbutton' : next.sim.running = true → next.qml.running = true := by
      intro hrunning
      by_cases hreplaces : ui.ReplacesRunning input
      · rw [(hreplaces.stale hact).1] at hrunning
        cases hrunning
      · rcases hheard hreplaces with heq | ⟨hq, hs⟩
        · rw [heq, hrunning]
        · rw [hq]
          exact hbutton (hs ▸ hrunning)
    obtain ⟨hend, hbuttonEnd, hsteady⟩ := ih hnext hbutton' hrest
    refine ⟨hend, hbuttonEnd, ?_⟩
    rintro heq ⟨hno, hthen⟩
    refine hsteady ?_ (hthen next hact)
    rcases hheard hno with heard | ⟨hq, hs⟩
    · exact heard
    · rw [hq, hs, heq]

-- QML is up to date after every input, and its status line says what the run timer does. Only
-- the run button is left behind, and only when the controller of a run has been replaced.
theorem qml_coherent {memBytes : ℕ} {inputs : List Input} {ui : Ui}
    (hrun : (create memBytes).run inputs = some ui) :
    (∀ p, agrees ui.sim ui.qml p) ∧ ui.qml.traceRows = ui.sim.trace ∧
      (ui.sim.running = true ↔ ui.qml.status = "Running".toList) ∧
      ((create memBytes).Steady inputs → ui.qml.running = ui.sim.running) ∧
      ∀ input next, ui.act input = some next → ui.ReplacesRunning input →
        next.qml.running = true ∧ next.sim.running = false := by
  have hcreate := consistent_create memBytes
  obtain ⟨h, hbutton, hsteady⟩ := hcreate.run (fun hr => by cases hr) hrun
  have hall : ∀ p, agrees ui.sim ui.qml p := fun p => h.coherent p (Set.notMem_empty p)
  refine ⟨hall, (hall .trace).trans h.cache, ?_, hsteady rfl, ?_⟩
  · rw [show ui.qml.status = ui.sim.status from hall .status]
    exact h.status
  · intro input next hact hreplaces
    obtain ⟨hstop, hkept⟩ := hreplaces.stale hact
    obtain ⟨-, -, -, hrunning⟩ := hreplaces
    exact ⟨hkept.trans (hbutton hrunning), hstop⟩

set_option maxRecDepth 8000 in
-- The button of a run whose CPU model has been changed.
theorem qml_coherent_replaced :
    ∃ ui next, (create 16).run [.assembleAndLoad "L: j L".toList, .runPause] = some ui ∧
      ui.act (.setModel .single) = some next ∧ ui.qml.status = "Running".toList ∧
      next.qml.running = true ∧ next.sim.running = false := by
  refine ⟨_, _, rfl, rfl, ?_⟩
  obtain ⟨-, -, hstatus, -, hstale⟩ := qml_coherent
    (Eq.refl ((create 16).run [.assembleAndLoad "L: j L".toList, .runPause]))
  exact ⟨hstatus.mp rfl, hstale (.setModel .single) _ rfl ⟨.single, rfl, by decide, rfl⟩⟩

end Ui

end ClearCore.Quick
