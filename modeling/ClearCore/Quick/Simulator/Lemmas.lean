import ClearCore.Quick.Simulator

-- What the slots and the operations of the bridge do to the simulator, whatever QML keeps.

namespace ClearCore.Quick

open Isa Mips Qt

namespace Simulator

-- The simulator with a snapshot of the pipeline and the registers of its processor.
def showing (sim : Simulator) (ps : PipelineState) : Simulator :=
  { sim with
    stages := stageMaps ps
    hazards := some (hazardMap ps)
    regModel :=
      ⟨(IMipsProcessor.regs sim.ctl.processor).regs,
        (IMipsProcessor.regs sim.ctl.processor).lastWritten⟩
    trace := Quick.appendTrace sim.trace ps
    traceRowsCache :=
      if TraceRow.kTraceMaxCycles < ps.cycle then sim.traceRowsCache
      else Quick.appendTrace sim.trace ps }

-- What a signal of the controller leaves in the simulator.
def onSignal (sim : Simulator) : Signal → Simulator
  | .pipelineStateChanged ps => sim.showing ps
  | .statisticsUpdated stats => { sim with stats }
  | .halted => { sim with status := "Halted".toList }
  | .faulted => { sim with status := "Faulted".toList }
  | .exceptionRaised epc name => { sim with status := Ui.statusException epc name }
  | .breakpointHit pc => { sim with status := Ui.statusBreakpoint pc }
  | .cycleExecuted _ | .programLoaded _ => sim

-- The slots leave alone what no signal is about.
theorem foldl_onSignal_kept {α : Type} {f : Simulator → α}
    (hf : ∀ sim signal, f (onSignal sim signal) = f sim) (sim : Simulator)
    (signals : List Signal) : f (signals.foldl onSignal sim) = f sim := by
  induction signals generalizing sim with
  | nil => rfl
  | cons signal rest ih => rw [List.foldl_cons, ih, hf]

theorem foldl_onSignal_ctl (sim : Simulator) (signals : List Signal) :
    (signals.foldl onSignal sim).ctl = sim.ctl :=
  foldl_onSignal_kept (fun _ signal => by cases signal <;> rfl) sim signals

theorem foldl_onSignal_speed (sim : Simulator) (signals : List Signal) :
    (signals.foldl onSignal sim).speed = sim.speed :=
  foldl_onSignal_kept (fun _ signal => by cases signal <;> rfl) sim signals

theorem foldl_onSignal_programLoaded (sim : Simulator) (signals : List Signal) :
    (signals.foldl onSignal sim).programLoaded = sim.programLoaded :=
  foldl_onSignal_kept (fun _ signal => by cases signal <;> rfl) sim signals

theorem foldl_onSignal_memBytes (sim : Simulator) (signals : List Signal) :
    (signals.foldl onSignal sim).memBytes = sim.memBytes :=
  foldl_onSignal_kept (fun _ signal => by cases signal <;> rfl) sim signals

end Simulator

namespace Ui

variable {ui ui' : Ui} {regs : RegisterFile} {prevWritten : Option RegIdx}

@[simp] theorem emit_sim (ui : Ui) (signal : Notify) : (ui.emit signal).sim = ui.sim := rfl

theorem emitAll_eq (ui : Ui) (signals : List Notify) :
    ui.emitAll signals = ⟨ui.sim, signals.foldl (Qml.hear · ui.sim ·) ui.qml⟩ := by
  rw [emitAll]
  induction signals generalizing ui with
  | nil => rfl
  | cons signal rest ih =>
    rw [List.foldl_cons, List.foldl_cons, ih]
    rfl

@[simp] theorem emitAll_sim (ui : Ui) (signals : List Notify) :
    (ui.emitAll signals).sim = ui.sim := by rw [emitAll_eq]

@[simp] theorem setStatus_sim (ui : Ui) (s : Text) :
    (ui.setStatus s).sim = { ui.sim with status := s } := by
  rw [setStatus]
  split
  · rename_i heq
    rw [heq]
  · rfl

section Registers

theorem refreshRow_sim (ui : Ui) (i : RegIdx) :
    (refreshRow regs prevWritten ui i).sim =
      (ui.withRegModel { ui.sim.regModel with
        values := Function.update ui.sim.regModel.values i (regs.regs i) }).sim := by
  rw [refreshRow]
  split <;> rfl

theorem foldl_refreshRow_sim (ui : Ui) (is : List RegIdx) :
    (is.foldl (refreshRow regs prevWritten) ui).sim =
      (ui.withRegModel { ui.sim.regModel with
        values := fun i => if i ∈ is then regs.regs i else ui.sim.regModel.values i }).sim := by
  induction is generalizing ui with
  | nil => simp [withRegModel]
  | cons i is ih =>
    rw [List.foldl_cons, ih, withRegModel, refreshRow_sim]
    simp only [withRegModel, Simulator.mk.injEq, RegisterModel.mk.injEq, true_and, and_true]
    funext j
    by_cases hj : j = i
    · subst hj
      simp
    · simp [hj]

theorem mem_allRows (i : RegIdx) : i ∈ allRows :=
  List.mem_map.mpr ⟨i.toNat, List.mem_range.mpr i.isLt, BitVec.ofNat_toNat 5 i⟩

theorem refreshRegisters_sim (ui : Ui) (regs : RegisterFile) :
    (ui.refreshRegisters regs).sim = (ui.withRegModel ⟨regs.regs, regs.lastWritten⟩).sim := by
  rw [refreshRegisters, foldl_refreshRow_sim]
  simp only [mem_allRows, if_true]
  rfl

-- QML reads the rows of the registers again and nothing else.
theorem foldl_refreshRow_qml (ui : Ui) (is : List RegIdx) :
    ∃ rows, (is.foldl (refreshRow regs prevWritten) ui).qml = { ui.qml with rows } := by
  induction is generalizing ui with
  | nil => exact ⟨ui.qml.rows, rfl⟩
  | cons i is ih =>
    obtain ⟨rows, hrows⟩ := ih (refreshRow regs prevWritten ui i)
    refine ⟨rows, hrows.trans ?_⟩
    rw [refreshRow]
    split <;> rfl

theorem refreshRegisters_qml (ui : Ui) (regs : RegisterFile) :
    ∃ rows, (ui.refreshRegisters regs).qml = { ui.qml with rows } := by
  rw [refreshRegisters]
  exact foldl_refreshRow_qml _ allRows

end Registers

theorem appendTrace_sim (ui : Ui) (ps : PipelineState) :
    (ui.appendTrace ps).sim = { ui.sim with
      trace := Quick.appendTrace ui.sim.trace ps
      traceRowsCache :=
        if TraceRow.kTraceMaxCycles < ps.cycle then ui.sim.traceRowsCache
        else Quick.appendTrace ui.sim.trace ps } := by
  rw [Ui.appendTrace]
  split
  · rename_i hlate
    simp only [Quick.appendTrace, if_pos hlate]
  · rfl

theorem onPipeline_sim (ui : Ui) (ps : PipelineState) :
    (ui.onPipeline ps).sim = ui.sim.showing ps := by
  rw [onPipeline, emit_sim, appendTrace_sim, refreshRegisters_sim]
  rfl

theorem onSignal_sim (ui : Ui) (signal : Signal) :
    (ui.onSignal signal).sim = ui.sim.onSignal signal := by
  cases signal with
  | pipelineStateChanged ps => exact onPipeline_sim ui ps
  | halted | faulted | exceptionRaised | breakpointHit => exact setStatus_sim ui _
  | statisticsUpdated | cycleExecuted | programLoaded => rfl

theorem receive_sim (ui : Ui) (signals : List Signal) (ctl : SimulatorController Processor) :
    (ui.receive (signals, ctl)).sim = signals.foldl Simulator.onSignal { ui.sim with ctl } := by
  have hfold : ∀ ui : Ui, (signals.foldl onSignal ui).sim =
      signals.foldl Simulator.onSignal ui.sim := by
    induction signals with
    | nil => exact fun _ => rfl
    | cons signal rest ih =>
      intro ui
      rw [List.foldl_cons, List.foldl_cons, ih, onSignal_sim]
  exact hfold _

theorem receive_ctl (ui : Ui) (emitted : List Signal × SimulatorController Processor) :
    (ui.receive emitted).sim.ctl = emitted.2 := by
  rw [receive_sim, Simulator.foldl_onSignal_ctl]

theorem receive_speed (ui : Ui) (emitted : List Signal × SimulatorController Processor) :
    (ui.receive emitted).sim.speed = ui.sim.speed := by
  rw [receive_sim, Simulator.foldl_onSignal_speed]

theorem receive_programLoaded (ui : Ui)
    (emitted : List Signal × SimulatorController Processor) :
    (ui.receive emitted).sim.programLoaded = ui.sim.programLoaded := by
  rw [receive_sim, Simulator.foldl_onSignal_programLoaded]

theorem receive_memBytes (ui : Ui) (emitted : List Signal × SimulatorController Processor) :
    (ui.receive emitted).sim.memBytes = ui.sim.memBytes := by
  rw [receive_sim, Simulator.foldl_onSignal_memBytes]

section Cases

variable {cleared : List Signal × SimulatorController Processor}

theorem reset_cases (h : ui.reset = some ui') :
    ∃ cleared, ui.sim.ctl.stop.reset = some cleared ∧
      ui' = Ui.setStatus
        (((ui.withCtl ui.sim.ctl.stop).clear.receive cleared).emitAll
          [.statsChanged, .traceChanged, .pipelineChanged, .runningChanged]) "Idle".toList := by
  obtain ⟨cleared, hcleared, hui⟩ := Option.bind_eq_some_iff.mp h
  exact ⟨cleared, hcleared, (Option.some.inj hui).symm⟩

theorem reset_eq_some (h : ui.sim.ctl.stop.reset = some cleared) :
    ui.reset = some (Ui.setStatus
      (((ui.withCtl ui.sim.ctl.stop).clear.receive cleared).emitAll
        [.statsChanged, .traceChanged, .pipelineChanged, .runningChanged]) "Idle".toList) :=
  Option.bind_eq_some_iff.mpr ⟨cleared, h, rfl⟩

theorem load_eq_some {words : List Word} {ok : Bool}
    {emitted : List Signal × SimulatorController Processor}
    (hreset : ui.sim.ctl.stop.reset = some cleared)
    (hload : cleared.2.loadProgram words 0 = some (ok, emitted)) :
    ui.load words = some
      (((((ui.withCtl ui.sim.ctl.stop).receive cleared).withProgram words).receive
        emitted).finishLoad ok) := by
  refine Option.bind_eq_some_iff.mpr ⟨cleared, hreset,
    Option.bind_eq_some_iff.mpr ⟨(ok, emitted), ?_, rfl⟩⟩
  rw [← hload, ← receive_ctl (ui.withCtl ui.sim.ctl.stop) cleared]
  rfl

theorem load_cases {words : List Word} {result : Text × Ui} (h : ui.load words = some result) :
    ∃ cleared ok emitted, ui.sim.ctl.stop.reset = some cleared ∧
      cleared.2.loadProgram words 0 = some (ok, emitted) ∧
      result = ((((ui.withCtl ui.sim.ctl.stop).receive cleared).withProgram words).receive
        emitted).finishLoad ok := by
  obtain ⟨cleared, hcleared, hload⟩ := Option.bind_eq_some_iff.mp h
  obtain ⟨⟨ok, emitted⟩, hemitted, hresult⟩ := Option.bind_eq_some_iff.mp hload
  refine ⟨cleared, ok, emitted, hcleared, ?_, (Option.some.inj hresult).symm⟩
  rw [← hemitted, ← receive_ctl (ui.withCtl ui.sim.ctl.stop) cleared]
  rfl

-- The new controller, with no program yet.
def fresh (ui : Ui) : Ui :=
  (ui.withCtl (SimulatorController.setExecutionSpeed
    { processor := makeProcessor ui.sim.memBytes ui.sim.model } ui.sim.speed)).clear

theorem rebuild_cases (h : ui.rebuildController = some ui') :
    ∃ loaded, (ui.sim.lastProgram = [] ∧ loaded = ui.fresh ∨
        ∃ ok emitted, ui.fresh.sim.ctl.loadProgram ui.sim.lastProgram 0 = some (ok, emitted) ∧
          loaded = ((ui.fresh.receive emitted).withLoaded ok).emit .programLoadedChanged) ∧
      ui' = Ui.setStatus (loaded.emitAll [.statsChanged, .traceChanged, .pipelineChanged])
        "Idle".toList := by
  obtain ⟨loaded, hreload, hui⟩ := Option.bind_eq_some_iff.mp h
  refine ⟨loaded, ?_, (Option.some.inj hui).symm⟩
  change ui.fresh.reload = some loaded at hreload
  rw [reload] at hreload
  split at hreload
  · rename_i hnil
    exact .inl ⟨hnil, (Option.some.inj hreload).symm⟩
  · obtain ⟨⟨ok, emitted⟩, hemitted, hloaded⟩ := Option.bind_eq_some_iff.mp hreload
    exact .inr ⟨ok, emitted, hemitted, (Option.some.inj hloaded).symm⟩

theorem rebuild_eq_some {loaded : Ui} (h : ui.fresh.reload = some loaded) :
    ui.rebuildController = some (Ui.setStatus (loaded.emitAll
      [.statsChanged, .traceChanged, .pipelineChanged]) "Idle".toList) :=
  Option.bind_eq_some_iff.mpr ⟨loaded, h, rfl⟩

theorem setModel_cases {m : CpuModel} (h : ui.setModel m = some ui') :
    (m = ui.sim.model ∧ ui' = ui) ∨
      ∃ rebuilt, m ≠ ui.sim.model ∧
        Ui.rebuildController { ui with sim := { ui.sim with model := m } } = some rebuilt ∧
        ui' = rebuilt.emit .modelChanged := by
  rw [setModel] at h
  split at h
  · rename_i heq
    exact .inl ⟨heq, (Option.some.inj h).symm⟩
  · rename_i hne
    obtain ⟨rebuilt, hrebuilt, rfl⟩ := Option.map_eq_some_iff.mp h
    exact .inr ⟨rebuilt, hne, hrebuilt, rfl⟩

end Cases

end Ui

end ClearCore.Quick
