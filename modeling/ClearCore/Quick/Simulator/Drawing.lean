import ClearCore.Quick.QuickSimulator.Theorems
import ClearCore.Quick.Simulator.Running

-- With the pipelined model the bridge draws the trace grid of `QuickSimulator`.

namespace ClearCore.Quick

open Isa Mips Qt

-- The controller of a pipelined CPU, behind the pointer of the bridge.
def pointed (ctl : SimulatorController PipelinedCpu) : SimulatorController Processor where
  processor := .pipelined ctl.processor
  breakpoints := ctl.breakpoints
  stats := ctl.stats
  loaded := ctl.loaded
  timerActive := ctl.timerActive
  timerInterval := ctl.timerInterval

section Pointed

variable (ctl : SimulatorController PipelinedCpu)

theorem pointed_doStep : (pointed ctl).doStep = (ctl.doStep.1, pointed ctl.doStep.2) := rfl

theorem reset_load_pointed (words : List Word) (addr : Word) :
    IMipsProcessor.loadProgram (IMipsProcessor.reset (pointed ctl).processor true) words addr =
      (IMipsProcessor.loadProgram (IMipsProcessor.reset ctl.processor true) words addr).map
        fun loaded => (loaded.1, .pipelined loaded.2) := rfl

theorem pointed_loadProgram (words : List Word) (addr : Word) :
    (pointed ctl).loadProgram words addr =
      (ctl.loadProgram words addr).map fun loaded => (loaded.1, loaded.2.1, pointed loaded.2.2) := by
  unfold SimulatorController.loadProgram
  dsimp only
  rw [reset_load_pointed, Option.map_map, Option.map_map]
  rfl

theorem pointed_reset :
    (pointed ctl).reset = ctl.reset.map fun cleared => (cleared.1, pointed cleared.2) := by
  unfold SimulatorController.reset
  have hloaded : (pointed ctl).loaded = ctl.loaded := rfl
  rw [hloaded]
  cases hl : ctl.loaded with
  | none =>
    rw [Option.map_some]
    rfl
  | some program =>
    dsimp only
    rw [reset_load_pointed, Option.map_map, Option.map_map]
    rfl

end Pointed

-- What an input does to the trace grid. The models are the same all along.
def QuickSimulator.input (grid : QuickSimulator PipelinedCpu) :
    Ui.Input → Option (QuickSimulator PipelinedCpu)
  | .step => some grid.step
  | .timeout => some grid.timeout
  | .runPause => some grid.runPause
  | .reset => grid.reset
  | .assembleAndLoad source => grid.assembleAndLoad source
  | .setSpeed s => some (grid.setSpeed s)
  | .toggleBreakpoint pc => some (grid.toggleBreakpoint pc)
  | .setModel _ | .go _ => some grid

-- The interval of the run timer is that of the speed.
structure Draws (sim : Simulator) (grid : QuickSimulator PipelinedCpu) : Prop where
  ctl : sim.ctl = pointed grid.ctl
  interval : grid.ctl.setExecutionSpeed sim.speed = grid.ctl
  model : sim.model = .pipelined
  trace : sim.trace = grid.trace
  programLoaded : sim.programLoaded = grid.programLoaded

section Draws

variable {ui ui' : Ui} {sim : Simulator} {grid : QuickSimulator PipelinedCpu}

theorem Draws.onSignals (h : Draws sim grid) (signals : List Signal) :
    Draws (signals.foldl Simulator.onSignal sim) (signals.foldl QuickSimulator.onSignal grid) := by
  induction signals generalizing sim grid with
  | nil => exact h
  | cons signal rest ih =>
    refine ih ?_
    cases signal with
    | pipelineStateChanged ps =>
      exact ⟨h.ctl, h.interval, h.model, congrArg (appendTrace · ps) h.trace, h.programLoaded⟩
    | _ => exact ⟨h.ctl, h.interval, h.model, h.trace, h.programLoaded⟩

-- What the controller does leaves the interval of the run timer.
theorem Draws.withCtl (h : Draws sim grid) {ctl : SimulatorController PipelinedCpu}
    (hinterval : ctl.timerInterval = grid.ctl.timerInterval) :
    Draws { sim with ctl := pointed ctl } { grid with ctl } := by
  refine ⟨rfl, ?_, h.model, h.trace, h.programLoaded⟩
  have hspeed := congrArg SimulatorController.timerInterval h.interval
  rw [← hinterval] at hspeed
  change { ctl with timerInterval := _ } = ctl
  cases ctl
  exact congrArg _ hspeed

theorem Draws.receive (h : Draws ui.sim grid) {signals : List Signal}
    {ctl : SimulatorController PipelinedCpu}
    (hinterval : ctl.timerInterval = grid.ctl.timerInterval) :
    Draws (ui.receive (signals, pointed ctl)).sim (grid.receive (signals, ctl)) := by
  rw [Ui.receive_sim]
  exact (h.withCtl hinterval).onSignals signals

-- Anything but the controller, the model, the speed, the trace and the flag may change.
theorem Draws.congr (h : Draws sim grid) {sim' : Simulator} (hctl : sim'.ctl = sim.ctl)
    (hspeed : sim'.speed = sim.speed) (hmodel : sim'.model = sim.model)
    (htrace : sim'.trace = sim.trace) (hloaded : sim'.programLoaded = sim.programLoaded) :
    Draws sim' grid :=
  ⟨hctl.trans h.ctl, hspeed ▸ h.interval, hmodel.trans h.model, htrace.trans h.trace,
    hloaded.trans h.programLoaded⟩

theorem Draws.step (h : Draws ui.sim grid) : Draws ui.step.sim grid.step := by
  rw [Ui.step, QuickSimulator.step, h.programLoaded]
  cases grid.programLoaded with
  | false => exact h
  | true =>
    have hnext : Draws (ui.receive ui.sim.ctl.stepCycle).sim (grid.receive grid.ctl.stepCycle) := by
      rw [h.ctl, SimulatorController.stepCycle, pointed_doStep]
      exact h.receive rfl
    simp only [Bool.not_true, Bool.false_eq_true, if_false]
    split
    · rw [Ui.setStatus_sim]
      exact hnext.congr rfl rfl rfl rfl rfl
    · exact hnext

theorem Draws.timeout (h : Draws ui.sim grid) : Draws ui.timeout.sim grid.timeout := by
  have hactive : ui.sim.ctl.timerActive = grid.ctl.timerActive := by rw [h.ctl]; rfl
  rw [Ui.timeout, QuickSimulator.timeout, hactive]
  split
  · rw [h.ctl, pointed_doStep]
    exact h.receive rfl
  · exact h

theorem Draws.runPause (h : Draws ui.sim grid) : Draws ui.runPause.sim grid.runPause := by
  have hactive : ui.sim.running = grid.ctl.timerActive := by rw [Simulator.running, h.ctl]; rfl
  rw [Ui.runPause, QuickSimulator.runPause, h.programLoaded, hactive]
  split
  · exact h
  · split
    · have hstop := h.withCtl (show grid.ctl.stop.timerInterval = grid.ctl.timerInterval from rfl)
      rw [Ui.emit_sim, Ui.setStatus_sim, h.ctl]
      exact hstop.congr rfl rfl rfl rfl rfl
    · have hrun := h.withCtl (show grid.ctl.run.timerInterval = grid.ctl.timerInterval from rfl)
      rw [Ui.emit_sim, Ui.setStatus_sim, h.ctl]
      exact hrun.congr rfl rfl rfl rfl rfl

theorem reset_interval {ctl : SimulatorController PipelinedCpu}
    {cleared : List Signal × SimulatorController PipelinedCpu} (h : ctl.reset = some cleared) :
    cleared.2.timerInterval = ctl.timerInterval := by
  unfold SimulatorController.reset at h
  cases hl : ctl.loaded with
  | none =>
    rw [hl] at h
    obtain rfl := Option.some.inj h
    rfl
  | some program =>
    rw [hl] at h
    obtain ⟨loaded, -, rfl⟩ := Option.map_eq_some_iff.mp h
    rfl

theorem load_interval {ctl : SimulatorController PipelinedCpu} {words : List Word} {addr : Word}
    {ok : Bool} {emitted : List Signal × SimulatorController PipelinedCpu}
    (h : ctl.loadProgram words addr = some (ok, emitted)) :
    emitted.2.timerInterval = ctl.timerInterval := by
  obtain ⟨loaded, -, heq⟩ := Option.map_eq_some_iff.mp h
  obtain ⟨-, rfl⟩ := Prod.mk.inj heq
  rfl

theorem Draws.reset (h : Draws ui.sim grid) (hreset : ui.reset = some ui') :
    ∃ next, grid.reset = some next ∧ Draws ui'.sim next := by
  obtain ⟨cleared, hcleared, rfl⟩ := Ui.reset_cases hreset
  have hstop : ui.sim.ctl.stop = pointed grid.ctl.stop := by rw [h.ctl]; rfl
  rw [hstop, pointed_reset] at hcleared
  obtain ⟨⟨signals, ctl⟩, hctl, rfl⟩ := Option.map_eq_some_iff.mp hcleared
  refine ⟨_, congrArg (Option.map _) hctl, ?_⟩
  rw [Ui.setStatus_sim, Ui.emitAll_sim, hstop]
  have hclear : Draws (ui.withCtl (pointed grid.ctl.stop)).clear.sim
      { grid with trace := [], ctl := grid.ctl.stop } := by
    have hdraws := h.withCtl (show grid.ctl.stop.timerInterval = grid.ctl.timerInterval from rfl)
    exact ⟨hdraws.ctl, hdraws.interval, hdraws.model, rfl, hdraws.programLoaded⟩
  exact (hclear.receive (reset_interval hctl)).congr rfl rfl rfl rfl rfl

theorem Draws.load (h : Draws ui.sim grid) {words : List Word} {result : Text × Ui}
    (hload : ui.load words = some result) :
    ∃ next, grid.load words = some next ∧ Draws result.2.sim next := by
  obtain ⟨cleared, ok, emitted, hcleared, hemitted, rfl⟩ := Ui.load_cases hload
  have hstop : ui.sim.ctl.stop = pointed grid.ctl.stop := by rw [h.ctl]; rfl
  rw [hstop, pointed_reset] at hcleared
  obtain ⟨⟨signals, ctl⟩, hctl, rfl⟩ := Option.map_eq_some_iff.mp hcleared
  rw [pointed_loadProgram] at hemitted
  obtain ⟨⟨ok', signals', loaded⟩, hloaded, heq⟩ := Option.map_eq_some_iff.mp hemitted
  obtain ⟨rfl, rfl⟩ := Prod.mk.inj heq
  have hgrid : (grid.receive (signals, ctl)).ctl.loadProgram words 0 =
      some (ok', signals', loaded) := by
    rw [QuickSimulator.receive_ctl]
    exact hloaded
  refine ⟨_, Option.bind_eq_some_iff.mpr ⟨(signals, ctl), hctl,
    Option.bind_eq_some_iff.mpr ⟨(ok', signals', loaded), hgrid, rfl⟩⟩, ?_⟩
  have hstopped := h.withCtl (show grid.ctl.stop.timerInterval = grid.ctl.timerInterval from rfl)
  have hreset : Draws ((ui.withCtl (pointed grid.ctl.stop)).receive (signals, pointed ctl)).sim
      (grid.receive (signals, ctl)) := by
    have hsame : QuickSimulator.receive { grid with ctl := grid.ctl.stop } (signals, ctl) =
        grid.receive (signals, ctl) := rfl
    rw [← hsame]
    exact Draws.receive hstopped (reset_interval hctl)
  have hprogram := (hreset.congr rfl rfl rfl rfl rfl : Draws (Ui.withProgram _ words).sim _)
  have hfinal : Draws (Ui.receive _ (signals', pointed loaded)).sim _ :=
    hprogram.receive (load_interval hgrid)
  obtain ⟨status, -, hsim⟩ := Ui.finishLoad_sim
    ((((ui.withCtl ui.sim.ctl.stop).receive (signals, pointed ctl)).withProgram words).receive
      (signals', pointed loaded)) ok'
  rw [hsim, hstop]
  exact ⟨hfinal.ctl, hfinal.interval, hfinal.model, rfl, rfl⟩

theorem Draws.setSpeed (h : Draws ui.sim grid) (s : ℤ) :
    Draws (ui.setSpeed s).sim (grid.setSpeed s) := by
  have hclamp : max 0 (min (max 0 (min s 100)) 100) = max 0 (min s 100) := by omega
  have hctl : ∀ ctl : SimulatorController PipelinedCpu,
      ctl.setExecutionSpeed (max 0 (min s 100)) = ctl.setExecutionSpeed s := by
    intro ctl
    rw [SimulatorController.setExecutionSpeed, hclamp]
    rfl
  rw [Ui.setSpeed]
  dsimp only
  split
  · rename_i heq
    have hsame : grid.setSpeed s = grid := by
      rw [QuickSimulator.setSpeed, ← hctl, heq, h.interval]
    rw [hsame]
    exact h
  · refine ⟨?_, ?_, h.model, h.trace, h.programLoaded⟩
    · rw [QuickSimulator.setSpeed, ← hctl, Ui.emit_sim]
      dsimp only
      rw [h.ctl]
      rfl
    · rw [QuickSimulator.setSpeed, Ui.emit_sim]
      exact hctl _

theorem Draws.toggleBreakpoint (h : Draws ui.sim grid) (pc : Word) :
    Draws (ui.toggleBreakpoint pc).sim (grid.toggleBreakpoint pc) := by
  have hbreak : ui.sim.ctl.breakpoints = grid.ctl.breakpoints := by rw [h.ctl]; rfl
  rw [Ui.toggleBreakpoint, QuickSimulator.toggleBreakpoint, hbreak, h.ctl]
  split
  · exact h.withCtl (show (grid.ctl.clearBreakpoint pc).timerInterval = _ from rfl)
  · exact h.withCtl (show (grid.ctl.setBreakpoint pc).timerInterval = _ from rfl)

theorem Draws.act {input : Ui.Input} (h : Draws ui.sim grid) (hmodel : input ≠ .setModel .single)
    (hact : ui.act input = some ui') :
    ∃ next, grid.input input = some next ∧ Draws ui'.sim next := by
  cases input with
  | step =>
    obtain rfl := Option.some.inj hact
    exact ⟨_, rfl, h.step⟩
  | timeout =>
    obtain rfl := Option.some.inj hact
    exact ⟨_, rfl, h.timeout⟩
  | runPause =>
    obtain rfl := Option.some.inj hact
    exact ⟨_, rfl, h.runPause⟩
  | reset => exact h.reset hact
  | assembleAndLoad source =>
    obtain ⟨result, hload, rfl⟩ := Option.map_eq_some_iff.mp hact
    rw [Ui.assembleAndLoad] at hload
    cases herror : (Assembler.assemble source).error with
    | some error =>
      rw [herror] at hload
      obtain rfl := Option.some.inj hload
      exact ⟨grid, by simp [QuickSimulator.input, QuickSimulator.assembleAndLoad,
        Assembler.AssemblerResult.ok, herror], h⟩
    | none =>
      rw [herror] at hload
      obtain ⟨next, hnext, hdraws⟩ := h.load hload
      exact ⟨next, by simpa [QuickSimulator.input, QuickSimulator.assembleAndLoad,
        Assembler.AssemblerResult.ok, herror] using hnext, hdraws⟩
  | setSpeed s =>
    obtain rfl := Option.some.inj hact
    exact ⟨_, rfl, h.setSpeed s⟩
  | setModel m =>
    have hsame : m = ui.sim.model := by
      rw [h.model]
      cases m with
      | pipelined => rfl
      | single => exact absurd rfl hmodel
    obtain ⟨-, rfl⟩ | ⟨_, hne, -⟩ := Ui.setModel_cases hact
    · exact ⟨grid, rfl, h⟩
    · exact absurd hsame hne
  | toggleBreakpoint pc =>
    obtain rfl := Option.some.inj hact
    exact ⟨_, rfl, h.toggleBreakpoint pc⟩
  | go base =>
    obtain rfl := Option.some.inj hact
    exact ⟨grid, rfl, h⟩

-- The trace grid over a list of inputs.
def QuickSimulator.session (grid : QuickSimulator PipelinedCpu) :
    List Ui.Input → Option (QuickSimulator PipelinedCpu)
  | [] => some grid
  | input :: inputs => (grid.input input).bind fun grid => grid.session inputs

theorem Draws.run {inputs : List Ui.Input} (h : Draws ui.sim grid)
    (hmodel : .setModel .single ∉ inputs) (hrun : ui.run inputs = some ui') :
    ∃ next, grid.session inputs = some next ∧ Draws ui'.sim next := by
  induction inputs generalizing ui grid with
  | nil =>
    obtain rfl := Option.some.inj hrun
    exact ⟨grid, rfl, h⟩
  | cons input rest ih =>
    obtain ⟨between, hact, hrest⟩ := Option.bind_eq_some_iff.mp hrun
    rw [List.mem_cons, not_or] at hmodel
    obtain ⟨mid, hmid, hdraws⟩ := h.act (Ne.symm hmodel.1) hact
    obtain ⟨next, hnext, hend⟩ := ih hdraws hmodel.2 hrest
    exact ⟨next, Option.bind_eq_some_iff.mpr ⟨mid, hmid, hnext⟩, hend⟩

theorem draws_create (memBytes : ℕ) : Draws (Ui.create memBytes).sim (.create memBytes) :=
  ⟨rfl, rfl, rfl, rfl, rfl⟩

end Draws

-- As long as the model is not changed QML shows the rows of the trace grid.
theorem draws_run {memBytes : ℕ} {inputs : List Ui.Input} {ui : Ui}
    (hmodel : .setModel .single ∉ inputs) (hrun : (Ui.create memBytes).run inputs = some ui) :
    ∃ grid, (QuickSimulator.create memBytes).session inputs = some grid ∧
      ui.qml.traceRows = grid.trace ∧ ui.sim.ctl = pointed grid.ctl := by
  obtain ⟨grid, hgrid, hdraws⟩ := (draws_create memBytes).run hmodel hrun
  obtain ⟨hconsistent, -⟩ := (Ui.consistent_create memBytes).run (fun hr => by cases hr) hrun
  have hrows : ui.qml.traceRows = ui.sim.traceRowsCache :=
    hconsistent.coherent .trace (Set.notMem_empty _)
  exact ⟨grid, hgrid, hrows.trans (hconsistent.cache.trans hdraws.trace), hdraws.ctl⟩

def Action.input : Action → Ui.Input
  | .step => .step
  | .timeout => .timeout
  | .runPause => .runPause
  | .setSpeed s => .setSpeed s
  | .toggleBreakpoint pc => .toggleBreakpoint pc

namespace QuickSimulator

variable {grid : QuickSimulator PipelinedCpu}

theorem session_append (grid : QuickSimulator PipelinedCpu) (before after : List Ui.Input) :
    grid.session (before ++ after) = (grid.session before).bind fun mid => mid.session after := by
  induction before generalizing grid with
  | nil => rfl
  | cons input rest ih =>
    rw [List.cons_append, session, session, Option.bind_assoc]
    exact congrArg _ (funext ih)

theorem session_actions (grid : QuickSimulator PipelinedCpu) (actions : List Action) :
    grid.session (actions.map Action.input) = some (grid.run actions) := by
  induction actions generalizing grid with
  | nil => rfl
  | cons action rest ih =>
    rw [List.map_cons, session]
    cases action <;> exact ih _

-- A reset and a load of an accepted source start the grid again.
inductive Restarts : Ui.Input → Prop
  | reset : Restarts .reset
  | load {source : Text} (hok : (Assembler.assemble source).ok = true) :
      Restarts (.assembleAndLoad source)

theorem Restarts.fresh {input : Ui.Input} (h : Restarts input) {loaded : QuickSimulator PipelinedCpu}
    (hinput : grid.input input = some loaded) : loaded.Fresh := by
  cases h with
  | reset => exact fresh_reset hinput
  | load hok =>
    rw [QuickSimulator.input, assembleAndLoad, hok] at hinput
    exact fresh_load hinput

end QuickSimulator

-- The rows that QML shows after a reset or a load, if the cycles since then have been clear.
theorem rows_attributed {memBytes : ℕ} {before : List Ui.Input} {restart : Ui.Input}
    {actions : List Action} {ui : Ui} (hmodel : .setModel .single ∉ before)
    (hrestart : QuickSimulator.Restarts restart)
    (hrun : (Ui.create memBytes).run (before ++ restart :: actions.map Action.input) = some ui) :
    ∃ loaded : QuickSimulator PipelinedCpu,
      (QuickSimulator.create memBytes).session (before ++ [restart]) = some loaded ∧
      ui.sim.ctl = pointed (loaded.run actions).ctl ∧
      (loaded.Meets QuickSimulator.Clear actions →
        (loaded.run actions).ctl.processor.cycle ≤ TraceRow.kTraceMaxCycles →
          Attributed loaded.ctl.processor (loaded.run actions).ctl.processor.cycle
            ui.qml.traceRows) := by
  have hnone : .setModel .single ∉ before ++ restart :: actions.map Action.input := by
    intro hmem
    rcases List.mem_append.mp hmem with hmem | hmem
    · exact hmodel hmem
    · rcases List.mem_cons.mp hmem with rfl | hmem
      · cases hrestart
      · obtain ⟨action, -, haction⟩ := List.mem_map.mp hmem
        cases action <;> cases haction
  obtain ⟨grid, hsession, hrows, hctl⟩ := draws_run hnone hrun
  rw [List.append_cons, QuickSimulator.session_append] at hsession
  obtain ⟨loaded, hloaded, hgrid⟩ := Option.bind_eq_some_iff.mp hsession
  rw [QuickSimulator.session_actions] at hgrid
  obtain rfl := Option.some.inj hgrid
  refine ⟨loaded, hloaded, hctl, fun hmeets hmax => ?_⟩
  rw [QuickSimulator.session_append] at hloaded
  obtain ⟨mid, -, hmid⟩ := Option.bind_eq_some_iff.mp hloaded
  obtain ⟨next, hinput, hnext⟩ := Option.bind_eq_some_iff.mp hmid
  obtain rfl := Option.some.inj hnext
  have hfresh := hrestart.fresh hinput
  obtain ⟨m, hshows⟩ := hfresh.shows.run hfresh.empty hfresh.cycle actions hmeets hmax
  rw [hrows]
  exact hshows.attributed hfresh.cycle

set_option maxRecDepth 8000 in
-- A load, and an instruction after it that does not wait for it.
example : ((Ui.create 16).run (.assembleAndLoad "lw $t0, 8($0)\naddi $t1, $0, 7".toList ::
    List.replicate 5 .step)).map (fun ui => ui.qml.traceRows.take 2 |>.map TraceRow.cells) =
      some [["IF", "ID", "EX", "MEM", "WB"], ["IF", "ID", "EX", "MEM"]] := by decide

end ClearCore.Quick
