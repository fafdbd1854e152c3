import ClearCore.Qt.MainWindow.Theorems

-- Hiding a panel changes nothing but what can be seen of it in the meantime.

namespace ClearCore.Qt

open Isa Mips Numeral

namespace MainWindow

-- The texts that are always in sight.
structure Labels where
  statusCycles : ℕ
  statusInstrs : ℕ
  stats : Option SimulatorStatistics
  pauseShown : Bool
  source : List Char
  asmStatus : List Char
  assembledWords : List Word

def labels (w : MainWindow) : Labels :=
  ⟨w.statusCycles, w.statusInstrs, w.stats, w.pauseShown, w.source, w.asmStatus, w.assembledWords⟩

-- Windows that differ at most in which panels are hidden, in the fades and in the snapshot of the
-- memory.
structure Alike (w w' : MainWindow) : Prop where
  ctl : w.ctl = w'.ctl
  datapath : w.datapath.model = w'.datapath.model
  registers : w.registers.steady = w'.registers.steady
  trace : w.trace.model = w'.trace.model
  events : w.events = w'.events
  labels : w.labels = w'.labels

variable {w w' next : MainWindow}

theorem Alike.refl (w : MainWindow) : w.Alike w := ⟨rfl, rfl, rfl, rfl, rfl, rfl⟩

theorem Alike.symm (h : w.Alike w') : w'.Alike w :=
  ⟨h.ctl.symm, h.datapath.symm, h.registers.symm, h.trace.symm, h.events.symm, h.labels.symm⟩

theorem Alike.trans (h : w.Alike w') (h' : w'.Alike next) : w.Alike next :=
  ⟨h.ctl.trans h'.ctl, h.datapath.trans h'.datapath, h.registers.trans h'.registers,
    h.trace.trans h'.trace, h.events.trans h'.events, h.labels.trans h'.labels⟩

theorem Alike.cpu (h : w.Alike w') : w.cpu = w'.cpu := congrArg SimulatorController.processor h.ctl

theorem Alike.withCtl (h : w.Alike w') (ctl : SimulatorController PipelinedCpu) :
    (w.withCtl ctl).Alike (w'.withCtl ctl) :=
  ⟨rfl, h.datapath, h.registers, h.trace, h.events, h.labels⟩

def relabel (w : MainWindow) (labels : Labels) : MainWindow :=
  { w with
    statusCycles := labels.statusCycles
    statusInstrs := labels.statusInstrs
    stats := labels.stats
    pauseShown := labels.pauseShown
    source := labels.source
    asmStatus := labels.asmStatus
    assembledWords := labels.assembledWords }

theorem Alike.relabel (h : w.Alike w') (f : Labels → Labels) :
    (w.relabel (f w.labels)).Alike (w'.relabel (f w'.labels)) :=
  ⟨h.ctl, h.datapath, h.registers, h.trace, h.events, congrArg f h.labels⟩

theorem Alike.status (h : w.Alike w') (asmStatus : List Char) :
    MainWindow.Alike { w with asmStatus } { w' with asmStatus } :=
  h.relabel fun labels => { labels with asmStatus }

theorem Alike.setRunState (h : w.Alike w') (running : Bool) :
    (setRunState w running).Alike (setRunState w' running) :=
  h.relabel fun labels => { labels with pauseShown := running }

theorem Alike.events_set (h : w.Alike w') (events : PipelineEventsWidget) :
    MainWindow.Alike { w with events } { w' with events } :=
  ⟨h.ctl, h.datapath, h.registers, h.trace, rfl, h.labels⟩

theorem Alike.logEvent (h : w.Alike w') (kind : Kind) {cycle cycle' : ℕ} (hcycle : cycle = cycle')
    (text : List Char) : (w.logEvent kind cycle text).Alike (w'.logEvent kind cycle' text) := by
  rw [MainWindow.logEvent, MainWindow.logEvent, hcycle, h.events]
  exact h.events_set _

theorem Alike.cycleCount (h : w.Alike w') : w.cycleCount = w'.cycleCount :=
  congrArg PipelinedCpu.cycle h.cpu

theorem Alike.confirmDiscard (h : w.Alike w') (answer : Bool) :
    w.confirmDiscard answer = w'.confirmDiscard answer := by
  rw [MainWindow.confirmDiscard, MainWindow.confirmDiscard, h.cycleCount]

theorem Alike.source (h : w.Alike w') : w.source = w'.source := congrArg Labels.source h.labels

theorem Alike.assembledWords (h : w.Alike w') : w.assembledWords = w'.assembledWords :=
  congrArg Labels.assembledWords h.labels

theorem Alike.stop (h : w.Alike w') : w.stop.Alike w'.stop := by
  have hctl : (w.withCtl w.ctl.stop).Alike (w'.withCtl w'.ctl.stop) := by
    rw [h.ctl]
    exact h.withCtl _
  exact hctl.setRunState false

theorem Alike.onPipelineStateChanged (h : w.Alike w') (state : PipelineState) :
    (w.onPipelineStateChanged state).Alike (w'.onPipelineStateChanged state) where
  ctl := h.ctl
  datapath := by
    have hmodel : ∀ w : MainWindow, (w.onPipelineStateChanged state).datapath.model =
        { w.datapath.model with state, regValues := w.cpu.regs.read } :=
      fun _ => LazyView.model_present _ _
    rw [hmodel, hmodel, h.datapath, h.cpu]
  registers := by
    have hsteady : ∀ w : MainWindow, (w.onPipelineStateChanged state).registers.steady =
        { w.registers.steady with
          values := w.cpu.regs.read
          readRs := (RegisterWidget.readMarks state.stages.id).a
          readRt := (RegisterWidget.readMarks state.stages.id).b } :=
      fun w => w.registers.steady_updateCycle _ _ _
    rw [hsteady, hsteady, h.registers, h.cpu]
  trace := by
    have hmodel : ∀ w : MainWindow, (w.onPipelineStateChanged state).trace.model =
        { w.trace.model with trace := w.trace.model.trace.updateCycle state } :=
      fun _ => LazyView.model_present _ _
    rw [hmodel, hmodel, h.trace]
  events := congrArg (fun events => PipelineEventsWidget.updateCycle events state) h.events
  labels := h.labels

theorem Alike.onSignal (h : w.Alike w') (signal : Signal) :
    (w.onSignal signal).Alike (w'.onSignal signal) := by
  cases signal with
  | cycleExecuted count => exact h.relabel fun labels => { labels with statusCycles := count }
  | pipelineStateChanged state => exact h.onPipelineStateChanged state
  | statisticsUpdated stats =>
    exact h.relabel fun labels =>
      { labels with stats := some stats, statusInstrs := stats.instructionsRetired }
  | halted => exact h.stop.logEvent _ h.cycleCount _
  | faulted => exact h.stop.logEvent _ h.cycleCount _
  | exceptionRaised epc name => exact h.stop.logEvent _ h.cycleCount _
  | breakpointHit pc => exact (h.logEvent _ h.cycleCount _).setRunState false
  | programLoaded count => exact h

theorem Alike.receive (h : w.Alike w') (emitted : List Signal × SimulatorController PipelinedCpu) :
    (w.receive emitted).Alike (w'.receive emitted) := by
  have hfold : ∀ (signals : List Signal) (w w' : MainWindow), w.Alike w' →
      (signals.foldl MainWindow.onSignal w).Alike (signals.foldl MainWindow.onSignal w') := by
    intro signals
    induction signals with
    | nil => exact fun _ _ => id
    | cons signal rest ih => exact fun _ _ h => ih _ _ (h.onSignal signal)
  exact hfold emitted.1 _ _ (h.withCtl emitted.2)

theorem Alike.doStep (h : w.Alike w') :
    (w.receive w.ctl.doStep).Alike (w'.receive w'.ctl.doStep) := by
  rw [h.ctl]
  exact h.receive _

theorem Alike.onRunTimer (h : w.Alike w') : w.onRunTimer.Alike w'.onRunTimer := by
  rw [MainWindow.onRunTimer, MainWindow.onRunTimer, h.ctl]
  split
  · exact h.receive _
  · exact h

theorem Alike.onRunPause (h : w.Alike w') : w.onRunPause.Alike w'.onRunPause := by
  rw [MainWindow.onRunPause, MainWindow.onRunPause, h.ctl]
  split
  · exact h.stop
  · exact (h.withCtl w'.ctl.run).setRunState true

theorem Alike.clearPanels (h : w.Alike w') : w.clearPanels.Alike w'.clearPanels where
  ctl := h.ctl
  datapath := h.datapath
  registers := congrArg (fun fields : RegisterFields =>
    { fields with
      values := fun _ => 0#32, readRs := none, readRt := none, fadeStartMs := fun _ => -1 }) h.registers
  trace := congrArg (fun fields : TraceFields => { fields with trace := {} }) h.trace
  events := congrArg PipelineEventsWidget.clear h.events
  labels := h.labels

theorem Alike.onReset (h : w.Alike w') (hreset : w.onReset = some next) :
    ∃ next', w'.onReset = some next' ∧ next.Alike next' := by
  obtain ⟨emitted, hemitted, rfl⟩ := Option.map_eq_some_iff.mp hreset
  have hemitted' : w'.stop.ctl.reset = some emitted := h.stop.ctl ▸ hemitted
  exact ⟨_, Option.map_eq_some_iff.mpr ⟨emitted, hemitted', rfl⟩, (h.stop.receive emitted).clearPanels⟩

theorem Alike.loadProgram (h : w.Alike w') {words : List Word} {ok : Bool}
    (hload : w.loadProgram words = some (ok, next)) :
    ∃ next', w'.loadProgram words = some (ok, next') ∧ next.Alike next' := by
  obtain ⟨cleared, hcleared, hrest⟩ := Option.bind_eq_some_iff.mp hload
  obtain ⟨⟨fits, emitted⟩, hemitted, hnext⟩ := Option.bind_eq_some_iff.mp hrest
  obtain ⟨rfl, rfl⟩ := Prod.mk.inj (Option.some.inj hnext)
  obtain ⟨cleared', hcleared', halike⟩ := h.onReset hcleared
  have hemitted' : cleared'.ctl.loadProgram words 0#32 = some (fits, emitted) :=
    halike.ctl ▸ hemitted
  exact ⟨_, Option.bind_eq_some_iff.mpr ⟨cleared', hcleared',
    Option.bind_eq_some_iff.mpr ⟨(fits, emitted), hemitted', rfl⟩⟩, halike.receive emitted⟩

theorem Alike.onOpenFile (h : w.Alike w') {prog : HexProgram} {answer : Bool}
    (hopen : w.onOpenFile prog answer = some next) :
    ∃ next', w'.onOpenFile prog answer = some next' ∧ next.Alike next' := by
  rw [MainWindow.onOpenFile, h.confirmDiscard] at hopen
  rw [MainWindow.onOpenFile]
  by_cases hok : (!prog.ok) = true
  · rw [if_pos hok] at hopen ⊢
    exact ⟨w', rfl, Option.some.inj hopen ▸ h⟩
  rw [if_neg hok] at hopen ⊢
  by_cases hkeep : (!w'.confirmDiscard answer) = true
  · rw [if_pos hkeep] at hopen ⊢
    exact ⟨w', rfl, Option.some.inj hopen ▸ h⟩
  rw [if_neg hkeep] at hopen ⊢
  obtain ⟨⟨ok, loaded⟩, hload, rfl⟩ := Option.map_eq_some_iff.mp hopen
  obtain ⟨loaded', hload', halike⟩ := h.loadProgram hload
  refine ⟨_, Option.map_eq_some_iff.mpr ⟨(ok, loaded'), hload', rfl⟩, ?_⟩
  cases ok with
  | false => exact halike
  | true => exact halike.logEvent _ rfl _

theorem Alike.onLoad (h : w.Alike w') {answer : Bool} (hload : w.onLoad answer = some next) :
    ∃ next', w'.onLoad answer = some next' ∧ next.Alike next' := by
  rw [MainWindow.onLoad, h.confirmDiscard] at hload
  rw [MainWindow.onLoad]
  have hwords := h.assembledWords
  by_cases hnone : w.assembledWords = []
  · rw [if_pos hnone] at hload
    rw [if_pos (hwords ▸ hnone)]
    exact ⟨_, rfl, Option.some.inj hload ▸ h.status "Assemble first.".toList⟩
  rw [if_neg hnone] at hload
  rw [if_neg (hwords ▸ hnone)]
  by_cases hkeep : (!w'.confirmDiscard answer) = true
  · rw [if_pos hkeep] at hload ⊢
    exact ⟨w', rfl, Option.some.inj hload ▸ h⟩
  rw [if_neg hkeep] at hload ⊢
  obtain ⟨⟨ok, loaded⟩, hloaded, rfl⟩ := Option.map_eq_some_iff.mp hload
  obtain ⟨loaded', hloaded', halike⟩ := h.loadProgram hloaded
  refine ⟨_, Option.map_eq_some_iff.mpr ⟨(ok, loaded'), hwords ▸ hloaded', rfl⟩, ?_⟩
  cases ok with
  | false => exact halike.status tooLarge
  | true =>
    have hcount : decimal loaded'.assembledWords.length = decimal loaded.assembledWords.length := by
      rw [halike.assembledWords]
    dsimp only
    rw [hcount]
    exact (halike.status _).logEvent _ rfl _

theorem Alike.onAssemble (h : w.Alike w') : w.onAssemble.Alike w'.onAssemble := by
  have hresult : Assembler.assemble w'.source = Assembler.assemble w.source := by rw [h.source]
  rw [MainWindow.onAssemble, MainWindow.onAssemble, hresult]
  by_cases hempty : w.source = []
  · rw [if_pos hempty, if_pos (h.source ▸ hempty)]
    exact h.status _
  rw [if_neg hempty, if_neg (h.source ▸ hempty)]
  dsimp only
  cases (Assembler.assemble w.source).error with
  | some error =>
    exact h.relabel fun labels => { labels with asmStatus := error, assembledWords := [] }
  | none =>
    exact h.relabel fun labels =>
      { labels with
        assembledWords := (Assembler.assemble w.source).words
        asmStatus := "✓ ".toList ++ decimal (Assembler.assemble w.source).words.length ++
          " instructions assembled".toList }

theorem Alike.onExampleSelected (h : w.Alike w') (name source : List Char) (blank answer : Bool) :
    (w.onExampleSelected name source blank answer).Alike
      (w'.onExampleSelected name source blank answer) := by
  rw [MainWindow.onExampleSelected, MainWindow.onExampleSelected]
  by_cases hkeep : (!blank && !answer) = true
  · rw [if_pos hkeep, if_pos hkeep]
    exact h
  · rw [if_neg hkeep, if_neg hkeep]
    exact h.relabel fun labels =>
      { labels with
        source, assembledWords := [], asmStatus := "Loaded example: ".toList ++ name }

theorem Alike.onBreakpointToggle (h : w.Alike w') (pc : Word) :
    (w.onBreakpointToggle pc).Alike (w'.onBreakpointToggle pc) := by
  have hdatapath : ∀ bps, (w.datapath.setBreakpoints bps).model =
      (w'.datapath.setBreakpoints bps).model := fun bps =>
    congrArg (fun fields : DatapathFields => { fields with breakpoints := bps }) h.datapath
  rw [MainWindow.onBreakpointToggle, MainWindow.onBreakpointToggle, h.ctl]
  exact ⟨rfl, hdatapath _, h.registers, h.trace, h.events, h.labels⟩

theorem Alike.breakpointToggle (h : w.Alike w') (stage : Fin 5) :
    (((w.datapath.breakpointToggle stage).map w.onBreakpointToggle).getD w).Alike
      (((w'.datapath.breakpointToggle stage).map w'.onBreakpointToggle).getD w') := by
  have hpc : w.datapath.breakpointToggle stage = w'.datapath.breakpointToggle stage := by
    rw [SchematicDatapathWidget.breakpointToggle, SchematicDatapathWidget.breakpointToggle,
      h.datapath]
  rw [hpc]
  cases w'.datapath.breakpointToggle stage with
  | none => exact h
  | some pc => exact h.onBreakpointToggle pc

theorem Alike.applyColorScheme (h : w.Alike w') (dark : Bool) :
    (w.applyColorScheme dark).Alike (w'.applyColorScheme dark) where
  ctl := h.ctl
  datapath := congrArg (fun fields : DatapathFields => { fields with darkMode := dark }) h.datapath
  registers := congrArg (fun fields : RegisterFields => { fields with darkMode := dark }) h.registers
  trace := congrArg (fun fields : TraceFields => { fields with darkMode := dark }) h.trace
  events := h.events
  labels := h.labels

theorem Alike.setAliases (h : w.Alike w') (aliases : Bool) :
    MainWindow.Alike { w with registers := w.registers.setShowAliases aliases }
      { w' with registers := w'.registers.setShowAliases aliases } :=
  ⟨h.ctl, h.datapath,
    congrArg (fun fields : RegisterFields => { fields with showAliases := aliases }) h.registers,
    h.trace, h.events, h.labels⟩

-- Hiding and showing a panel, a fade and the passing of time change only what is seen.
def Input.changes : Input → Bool
  | .showPanel _ | .hidePanel _ | .fadeTimer | .clock _ => false
  | _ => true

theorem alike_showPanel (w : MainWindow) (panel : Panel) : w.Alike (w.showPanel panel) := by
  cases panel with
  | datapath => exact ⟨rfl, (LazyView.model_reveal _).symm, rfl, rfl, rfl, rfl⟩
  | registers => exact ⟨rfl, rfl, w.registers.steady_showEvent.symm, rfl, rfl, rfl⟩
  | memory => exact ⟨rfl, rfl, rfl, rfl, rfl, rfl⟩
  | trace => exact ⟨rfl, rfl, rfl, (LazyView.model_reveal _).symm, rfl, rfl⟩

theorem alike_hidePanel (w : MainWindow) (panel : Panel) : w.Alike (w.hidePanel panel) := by
  cases panel <;> exact ⟨rfl, rfl, rfl, rfl, rfl, rfl⟩

theorem act_unchanging (w : MainWindow) {input : Input} (h : input.changes = false) :
    ∃ next, w.act input = some next ∧ w.Alike next := by
  cases input with
  | showPanel panel => exact ⟨_, rfl, w.alike_showPanel panel⟩
  | hidePanel panel => exact ⟨_, rfl, w.alike_hidePanel panel⟩
  | fadeTimer => exact ⟨_, rfl, rfl, rfl, (w.registers.steady_fadeTimeout w.now).symm, rfl, rfl, rfl⟩
  | clock now => exact ⟨_, rfl, rfl, rfl, rfl, rfl, rfl, rfl⟩
  | _ => cases h

theorem Alike.act (h : w.Alike w') {input : Input} (hchanges : input.changes = true)
    (hact : w.act input = some next) : ∃ next', w'.act input = some next' ∧ next.Alike next' := by
  cases input with
  | step => exact ⟨_, rfl, Option.some.inj hact ▸ h.stop.doStep⟩
  | runTimer => exact ⟨_, rfl, Option.some.inj hact ▸ h.onRunTimer⟩
  | runPause => exact ⟨_, rfl, Option.some.inj hact ▸ h.onRunPause⟩
  | stop => exact ⟨_, rfl, Option.some.inj hact ▸ h.stop⟩
  | reset => exact h.onReset hact
  | openFile prog answer => exact h.onOpenFile hact
  | edit source =>
    exact ⟨_, rfl, Option.some.inj hact ▸ h.relabel fun labels => { labels with source }⟩
  | assemble => exact ⟨_, rfl, Option.some.inj hact ▸ h.onAssemble⟩
  | load answer => exact h.onLoad hact
  | «example» name source blank answer =>
    exact ⟨_, rfl, Option.some.inj hact ▸ h.onExampleSelected name source blank answer⟩
  | toggleBreakpoint stage => exact ⟨_, rfl, Option.some.inj hact ▸ h.breakpointToggle stage⟩
  | setSpeed speed =>
    obtain rfl := Option.some.inj hact
    refine ⟨_, rfl, ?_⟩
    rw [setExecutionSpeed, setExecutionSpeed, h.ctl]
    exact h.withCtl _
  | setDark dark => exact ⟨_, rfl, Option.some.inj hact ▸ h.applyColorScheme dark⟩
  | setAliases aliases => exact ⟨_, rfl, Option.some.inj hact ▸ h.setAliases aliases⟩
  | clearEvents =>
    obtain rfl := Option.some.inj hact
    rw [h.events]
    exact ⟨_, rfl, h.events_set _⟩
  | showPanel | hidePanel | fadeTimer | clock => cases hchanges

-- The inputs that change nothing can be left out of a run, and put into one.
theorem Alike.run_filter {inputs : List Input} (h : w.Alike w') (hrun : w.run inputs = some next) :
    ∃ next', w'.run (inputs.filter Input.changes) = some next' ∧ next.Alike next' := by
  induction inputs generalizing w w' with
  | nil => exact ⟨w', rfl, Option.some.inj hrun ▸ h⟩
  | cons input rest ih =>
    obtain ⟨mid, hact, hrest⟩ := Option.bind_eq_some_iff.mp hrun
    cases hchanges : input.changes with
    | true =>
      obtain ⟨mid', hact', halike⟩ := h.act hchanges hact
      obtain ⟨next', hrest', hnext⟩ := ih halike hrest
      rw [List.filter_cons_of_pos hchanges]
      exact ⟨next', Option.bind_eq_some_iff.mpr ⟨mid', hact', hrest'⟩, hnext⟩
    | false =>
      obtain ⟨kept, hkept, halike⟩ := w.act_unchanging hchanges
      obtain rfl := Option.some.inj (hkept.symm.trans hact)
      rw [List.filter_cons_of_neg (Bool.eq_false_iff.mp hchanges)]
      exact ih (halike.symm.trans h) hrest

theorem Alike.run_of_filter {inputs : List Input} (h : w.Alike w')
    (hrun : w.run (inputs.filter Input.changes) = some next) :
    ∃ next', w'.run inputs = some next' ∧ next.Alike next' := by
  induction inputs generalizing w w' with
  | nil => exact ⟨w', rfl, Option.some.inj hrun ▸ h⟩
  | cons input rest ih =>
    cases hchanges : input.changes with
    | true =>
      rw [List.filter_cons_of_pos hchanges] at hrun
      obtain ⟨mid, hact, hrest⟩ := Option.bind_eq_some_iff.mp hrun
      obtain ⟨mid', hact', halike⟩ := h.act hchanges hact
      obtain ⟨next', hrest', hnext⟩ := ih halike hrest
      exact ⟨next', Option.bind_eq_some_iff.mpr ⟨mid', hact', hrest'⟩, hnext⟩
    | false =>
      rw [List.filter_cons_of_neg (Bool.eq_false_iff.mp hchanges)] at hrun
      obtain ⟨mid', hact', halike⟩ := w'.act_unchanging hchanges
      obtain ⟨next', hrest', hnext⟩ := ih (h.trans halike) hrun
      exact ⟨next', Option.bind_eq_some_iff.mpr ⟨mid', hact', hrest'⟩, hnext⟩

-- Two windows that cannot be told apart by a panel that both show, but for what fades in the
-- registers and for how long ago the memory was read.
structure LooksAlike (w w' : MainWindow) : Prop where
  ctl : w.ctl = w'.ctl
  datapath : w.datapath.visible = true → w'.datapath.visible = true →
    w.datapath.picture = w'.datapath.picture
  registers : w.registers.view.visible = true → w'.registers.view.visible = true →
    ∀ r, (w.registers.view.picture r).SameCell (w'.registers.view.picture r)
  trace : w.trace.visible = true → w'.trace.visible = true → w.trace.picture = w'.trace.picture
  events : w.events = w'.events
  labels : w.labels = w'.labels

theorem Alike.looksAlike (h : w.Alike w') (hdrawn : w.Drawn) (hdrawn' : w'.Drawn) :
    w.LooksAlike w' where
  ctl := h.ctl
  datapath := fun hvisible hvisible' => by
    rw [hdrawn.datapath.picture hvisible, hdrawn'.datapath.picture hvisible', h.datapath]
  registers := fun hvisible hvisible' r => by
    rw [hdrawn.registers.current.picture hvisible, hdrawn'.registers.current.picture hvisible']
    exact RegisterFields.sameCell_of_steady h.registers r
  trace := fun hvisible hvisible' => by
    rw [hdrawn.trace.picture hvisible, hdrawn'.trace.picture hvisible', h.trace]
  events := h.events
  labels := h.labels

-- Two series of inputs that differ only in when panels are hidden and shown and in the passing of
-- time leave windows that look alike.
theorem hiding_unseen {memBytes : ℕ} {dark : Bool} {speed : ℤ} {inputs inputs' : List Input}
    (hsame : inputs.filter Input.changes = inputs'.filter Input.changes)
    (hrun : (create memBytes dark speed).run inputs = some w) :
    ∃ w', (create memBytes dark speed).run inputs' = some w' ∧ w.LooksAlike w' := by
  obtain ⟨bare, hbare, halike⟩ := (Alike.refl _).run_filter hrun
  rw [hsame] at hbare
  obtain ⟨w', hrun', halike'⟩ := (Alike.refl _).run_of_filter hbare
  exact ⟨w', hrun',
    (halike.trans halike').looksAlike (sound_run hrun).drawn (sound_run hrun').drawn⟩

-- The schematic is hidden for the first four cycles of a program.
def hiddenInputs : List Input :=
  [.openFile hazardProgram true, .showPanel .datapath, .hidePanel .datapath, .step, .step, .step,
    .step, .showPanel .datapath, .step]

def shownInputs : List Input :=
  [.openFile hazardProgram true, .showPanel .datapath, .step, .step, .step, .step, .step]

theorem hiding_unseen_step : ∃ w w', (create 64 false 60).run hiddenInputs = some w ∧
    (create 64 false 60).run shownInputs = some w' ∧ w.datapath.visible = true ∧
      w.datapath.picture.memoryLit = true ∧ w.datapath.picture.muxA = .memWb ∧ w.LooksAlike w' := by
  have hfifth : ((create 64 false 60).run hiddenInputs).map (fun w =>
      (w.datapath.visible, w.datapath.picture.memoryLit, w.datapath.picture.muxA)) =
        some (true, true, .memWb) := by decide
  obtain ⟨w, hrun, hseen⟩ := Option.map_eq_some_iff.mp hfifth
  simp only [Prod.mk.injEq] at hseen
  have hsame : hiddenInputs.filter Input.changes = shownInputs.filter Input.changes := rfl
  obtain ⟨w', hrun', halike⟩ := hiding_unseen hsame hrun
  exact ⟨w, w', hrun, hrun', hseen.1, hseen.2.1, hseen.2.2, halike⟩

end MainWindow

end ClearCore.Qt
