import ClearCore.Qt.MainWindow.Panels

-- What holds of the window after any inputs.

namespace ClearCore.Qt.MainWindow

open Isa Mips

variable {w w' : MainWindow} {memBytes : ℕ} {past : SimulatorController PipelinedCpu → Prop}

structure Sound (memBytes : ℕ) (past : SimulatorController PipelinedCpu → Prop)
    (w : MainWindow) : Prop where
  reachable : Reachable memBytes w.cpu
  drawn : w.Drawn
  action : w.pauseShown = w.ctl.timerActive
  behind : ∃ k, w.Behind past k

theorem sound_create {dark : Bool} {speed : ℤ} (hpast : past (create memBytes dark speed).ctl) :
    (create memBytes dark speed).Sound memBytes past where
  reachable := .create
  drawn := ⟨LazyView.current_draw _ _, RegisterWidget.sound_create.setDarkMode dark,
    LazyView.current_draw _ _, rfl⟩
  action := rfl
  behind := by
    have hzero : (fun _ => 0#32) = RegisterFile.initial.read := by
      funext r
      exact (ite_self _).symm
    exact ⟨0, ⟨_, hpast, ⟨rfl, hzero, hzero, rfl, rfl, fun _ hsome => by cases hsome⟩, rfl, rfl,
      fun hvisible => by cases hvisible⟩, Nat.zero_le _⟩

-- The log, the labels, the editor and the clock are about nothing that is kept here.
def relabelled (w : MainWindow) (events : PipelineEventsWidget) (source asmStatus : List Char)
    (assembledWords : List Word) (now : ℤ) : MainWindow :=
  { w with events, source, asmStatus, assembledWords, now }

theorem Sound.relabelled (h : w.Sound memBytes past) (events : PipelineEventsWidget)
    (source asmStatus : List Char) (assembledWords : List Word) (now : ℤ) :
    (w.relabelled events source asmStatus assembledWords now).Sound memBytes past := by
  obtain ⟨hreachable, ⟨hdatapath, hregisters, htrace, hbreakpoints⟩, haction, k, hlag, hbound⟩ := h
  exact ⟨hreachable, ⟨hdatapath, hregisters, htrace, hbreakpoints⟩, haction, k, hlag, hbound⟩

-- The timer and the text of the action change together.
theorem Sound.stop (h : w.Sound memBytes past) : w.stop.Sound memBytes past := by
  obtain ⟨hreachable, ⟨hdatapath, hregisters, htrace, hbreakpoints⟩, -, k, hlag, hbound⟩ := h
  exact ⟨hreachable, ⟨hdatapath, hregisters, htrace, hbreakpoints⟩, rfl, k, hlag, hbound⟩

theorem Sound.onRunPause (h : w.Sound memBytes past) : w.onRunPause.Sound memBytes past := by
  rw [MainWindow.onRunPause]
  split
  · exact h.stop
  · obtain ⟨hreachable, ⟨hdatapath, hregisters, htrace, hbreakpoints⟩, -, k, hlag, hbound⟩ := h
    exact ⟨hreachable, ⟨hdatapath, hregisters, htrace, hbreakpoints⟩, rfl, k, hlag, hbound⟩

-- The slots leave the controller as it was when it emitted.
theorem receive_doStep_ctl (w : MainWindow) : (w.receive w.ctl.doStep).ctl = w.ctl.doStep.2 := by
  cases hthrottled : w.ctl.throttled with
  | true =>
    rw [receive_throttled hthrottled]
    rfl
  | false =>
    obtain ⟨events, hreceive⟩ := receive_shown hthrottled
    rw [hreceive]
    rfl

theorem Sound.doStep (h : w.Sound memBytes past) (hpast : past (w.receive w.ctl.doStep).ctl) :
    (w.receive w.ctl.doStep).Sound memBytes past := by
  rw [receive_doStep_ctl] at hpast
  have hctl := w.ctl.doStep_ctl
  have hreachable : Reachable memBytes w.ctl.doStep.2.processor := by
    rw [hctl]
    exact .step h.reachable
  have hactive : w.ctl.doStep.2.timerActive = (w.ctl.timerActive && w.ctl.ending.isNone) := by
    rw [hctl]
  cases hthrottled : w.ctl.throttled with
  | true =>
    obtain ⟨k, hbehind⟩ := h.behind
    rw [receive_throttled hthrottled]
    refine ⟨hreachable, h.drawn.withCtl (by rw [hctl]), ?_, k + 1, hbehind.throttled hthrottled⟩
    change w.pauseShown = w.ctl.doStep.2.timerActive
    rw [hactive, SimulatorController.ending_of_throttled hthrottled, Option.isNone_none,
      Bool.and_true]
    exact h.action
  | false =>
    obtain ⟨events, hreceive⟩ := receive_shown hthrottled
    rw [hreceive]
    refine ⟨hreachable, h.drawn.cycled _ _, ?_, 0, behind_cycled hpast _ _⟩
    change (w.pauseShown && w.ctl.ending.isNone) = w.ctl.doStep.2.timerActive
    rw [hactive, h.action]

theorem Sound.onRunTimer (h : w.Sound memBytes past) (hpast : past w.onRunTimer.ctl) :
    w.onRunTimer.Sound memBytes past := by
  rw [MainWindow.onRunTimer] at hpast ⊢
  by_cases hactive : w.ctl.timerActive = true
  · rw [if_pos hactive] at hpast ⊢
    exact h.doStep hpast
  · rw [if_neg hactive]
    exact h

theorem reachable_anew {ctl : SimulatorController PipelinedCpu} {processor : PipelinedCpu}
    (hreach : Reachable memBytes ctl.processor) (h : ctl.Anew processor) :
    Reachable memBytes processor := by
  rcases h with rfl | ⟨words, addr, ok, hload⟩
  · exact .reset hreach true
  · exact .loadProgram (.reset hreach true) hload

-- What a reset leaves to a load.
theorem Sound.cleared (h : w.Sound memBytes past) (hreset : w.onReset = some w') :
    Reachable memBytes w'.cpu ∧ w'.Drawn ∧ ∀ stats, w'.stats = some stats → stats = {} := by
  obtain ⟨processor, loaded, hanew, rfl⟩ := onReset_cases hreset
  have hdrawn : (w.stop.withCtl (w.ctl.anew processor loaded)).Drawn := h.stop.drawn.withCtl rfl
  refine ⟨reachable_anew h.reachable hanew, hdrawn.refreshed.clearPanels, ?_⟩
  rintro _ ⟨⟩
  rfl

theorem Sound.onReset (h : w.Sound memBytes past) (hreset : w.onReset = some w')
    (hpast : past w'.ctl) : w'.Sound memBytes past := by
  obtain ⟨hreachable, hdrawn, -⟩ := h.cleared hreset
  obtain ⟨processor, loaded, hanew, rfl⟩ := onReset_cases hreset
  have hstopped : w.stop.ctl.Anew processor := hanew
  exact ⟨hreachable, hdrawn, rfl, 0, behind_reset hstopped hpast⟩

theorem Sound.loadProgram (h : w.Sound memBytes past) {words : List Word} {ok : Bool}
    (hload : w.loadProgram words = some (ok, w')) (hpast : past w'.ctl) :
    w'.Sound memBytes past := by
  obtain ⟨cleared, hcleared, hrest⟩ := Option.bind_eq_some_iff.mp hload
  obtain ⟨⟨fits, emitted⟩, hemitted, hw'⟩ := Option.bind_eq_some_iff.mp hrest
  obtain ⟨-, rfl⟩ := Prod.mk.inj (Option.some.inj hw')
  obtain ⟨hreachable, hdrawn, hstats⟩ := h.cleared hcleared
  obtain ⟨processor, loaded, hanew, hreceive⟩ := receive_loadProgram hemitted
  obtain ⟨processor', loaded', -, rfl⟩ := onReset_cases hcleared
  rw [hreceive] at hpast ⊢
  refine ⟨reachable_anew hreachable hanew, ?_, rfl, 0, behind_onPipelineStateChanged _ hpast hstats⟩
  refine Drawn.onPipelineStateChanged ?_ _
  exact hdrawn.withCtl rfl

theorem logEvent_ctl (w : MainWindow) (kind : Kind) (cycle : ℕ) (text : List Char) :
    (w.logEvent kind cycle text).ctl = w.ctl := by
  rw [logEvent]

theorem Sound.onOpenFile (h : w.Sound memBytes past) {prog : HexProgram} {answer : Bool}
    (hopen : w.onOpenFile prog answer = some w') (hpast : past w'.ctl) :
    w'.Sound memBytes past := by
  rw [MainWindow.onOpenFile] at hopen
  split at hopen
  · exact Option.some.inj hopen ▸ h
  · split at hopen
    · exact Option.some.inj hopen ▸ h
    · obtain ⟨⟨ok, loaded⟩, hload, rfl⟩ := Option.map_eq_some_iff.mp hopen
      cases ok with
      | false => exact h.loadProgram hload hpast
      | true =>
        simp only [Bool.not_true, Bool.false_eq_true, if_false, logEvent_ctl] at hpast
        exact (h.loadProgram hload hpast).relabelled _ _ _ _ _

theorem Sound.onLoad (h : w.Sound memBytes past) {answer : Bool}
    (honLoad : w.onLoad answer = some w') (hpast : past w'.ctl) : w'.Sound memBytes past := by
  rw [MainWindow.onLoad] at honLoad
  split at honLoad
  · exact Option.some.inj honLoad ▸ h.relabelled _ _ _ _ _
  · split at honLoad
    · exact Option.some.inj honLoad ▸ h
    · obtain ⟨⟨ok, loaded⟩, hload, rfl⟩ := Option.map_eq_some_iff.mp honLoad
      cases ok with
      | false => exact (h.loadProgram hload hpast).relabelled _ _ _ _ _
      | true =>
        simp only [Bool.not_true, Bool.false_eq_true, if_false, logEvent_ctl] at hpast
        exact (h.loadProgram hload hpast).relabelled _ _ _ _ _

theorem Sound.onAssemble (h : w.Sound memBytes past) : w.onAssemble.Sound memBytes past := by
  rw [MainWindow.onAssemble]
  split
  · exact h.relabelled _ _ _ _ _
  · dsimp only
    split <;> exact h.relabelled _ _ _ _ _

theorem Sound.onBreakpointToggle (h : w.Sound memBytes past) (pc : Word) :
    (w.onBreakpointToggle pc).Sound memBytes past := by
  obtain ⟨hreachable, ⟨hdatapath, hregisters, htrace, hbreakpoints⟩, haction, k, hlag, hbound⟩ := h
  rw [MainWindow.onBreakpointToggle]
  split <;>
    exact ⟨hreachable, ⟨LazyView.current_draw _ _, hregisters, htrace, rfl⟩, haction, k, hlag, hbound⟩

theorem Sound.registers (h : w.Sound memBytes past) {registers : RegisterWidget}
    (hsound : registers.Sound) (hvalues : registers.view.model.values = w.registers.view.model.values)
    (hrs : registers.view.model.readRs = w.registers.view.model.readRs)
    (hrt : registers.view.model.readRt = w.registers.view.model.readRt) :
    MainWindow.Sound memBytes past { w with registers } := by
  obtain ⟨hreachable, ⟨hdatapath, -, htrace, hbreakpoints⟩, haction, k, ⟨old, hold, hof, hrest⟩,
    hbound⟩ := h
  refine ⟨hreachable, ⟨hdatapath, hsound, htrace, hbreakpoints⟩, haction, k,
    ⟨old, hold, ?_, hrest⟩, hbound⟩
  exact ⟨hof.state, hof.regValues, hvalues.trans hof.values,
    (congrArg₂ SourceRegisters.mk hrs hrt).trans hof.marks, hof.traced, hof.stats⟩

theorem Sound.fadeTimeout (h : w.Sound memBytes past) (now : ℤ) :
    MainWindow.Sound memBytes past { w with registers := w.registers.fadeTimeout now } := by
  have hkept := w.registers.steady_fadeTimeout now
  have hvalues := congrArg RegisterFields.values hkept
  have hrs := congrArg RegisterFields.readRs hkept
  have hrt := congrArg RegisterFields.readRt hkept
  exact h.registers (h.drawn.registers.fadeTimeout now) hvalues hrs hrt

theorem Sound.act (h : w.Sound memBytes past) {input : Input} (hact : w.act input = some w')
    (hpast : past w'.ctl) : w'.Sound memBytes past := by
  cases input with
  | step =>
    obtain rfl := Option.some.inj hact
    exact h.stop.doStep hpast
  | runTimer =>
    obtain rfl := Option.some.inj hact
    exact h.onRunTimer hpast
  | runPause => exact Option.some.inj hact ▸ h.onRunPause
  | stop => exact Option.some.inj hact ▸ h.stop
  | reset => exact h.onReset hact hpast
  | openFile prog answer => exact h.onOpenFile hact hpast
  | edit source => exact Option.some.inj hact ▸ h.relabelled _ _ _ _ _
  | assemble => exact Option.some.inj hact ▸ h.onAssemble
  | load answer => exact h.onLoad hact hpast
  | «example» name source blank answer =>
    obtain rfl := Option.some.inj hact
    rw [onExampleSelected]
    split
    · exact h
    · exact h.relabelled _ _ _ _ _
  | toggleBreakpoint stage =>
    obtain rfl := Option.some.inj hact
    cases w.datapath.breakpointToggle stage with
    | none => exact h
    | some pc => exact h.onBreakpointToggle pc
  | setSpeed speed =>
    obtain rfl := Option.some.inj hact
    obtain ⟨hreachable, hdrawn, haction, k, hlag, hbound⟩ := h
    exact ⟨hreachable, hdrawn.withCtl rfl, haction, k, hlag, hbound⟩
  | setDark dark =>
    obtain rfl := Option.some.inj hact
    obtain ⟨hreachable, hdrawn, haction, k, hlag, hbound⟩ := h
    exact ⟨hreachable, hdrawn.applyColorScheme dark, haction, k, hlag, hbound⟩
  | setAliases aliases =>
    obtain rfl := Option.some.inj hact
    exact h.registers (h.drawn.registers.setShowAliases aliases) rfl rfl rfl
  | clearEvents => exact Option.some.inj hact ▸ h.relabelled _ _ _ _ _
  | showPanel panel =>
    obtain rfl := Option.some.inj hact
    obtain ⟨hreachable, hdrawn, haction, k, hbehind⟩ := h
    have hctl : (w.showPanel panel).ctl = w.ctl := by cases panel <;> rfl
    rw [hctl] at hpast
    refine ⟨?_, hdrawn.showPanel panel, ?_, k, hbehind.showPanel hpast panel⟩
    · cases panel <;> exact hreachable
    · cases panel <;> exact haction
  | hidePanel panel =>
    obtain rfl := Option.some.inj hact
    obtain ⟨hreachable, hdrawn, haction, k, hbehind⟩ := h
    refine ⟨?_, hdrawn.hidePanel panel, ?_, k, hbehind.hidePanel panel⟩
    · cases panel <;> exact hreachable
    · cases panel <;> exact haction
  | fadeTimer => exact Option.some.inj hact ▸ h.fadeTimeout w.now
  | clock now => exact Option.some.inj hact ▸ h.relabelled _ _ _ _ _

-- The controllers after some of the inputs.
def Visited (start : MainWindow) (inputs : List Input) (ctl : SimulatorController PipelinedCpu) :
    Prop :=
  ∃ before w, before <+: inputs ∧ start.run before = some w ∧ w.ctl = ctl

theorem Sound.run {inputs : List Input} (h : w.Sound memBytes past) (hrun : w.run inputs = some w')
    (hpast : ∀ ctl, w.Visited inputs ctl → past ctl) : w'.Sound memBytes past := by
  induction inputs generalizing w with
  | nil => exact Option.some.inj hrun ▸ h
  | cons input rest ih =>
    obtain ⟨next, hact, hrest⟩ := Option.bind_eq_some_iff.mp hrun
    have hvisited : ∀ ctl, next.Visited rest ctl → past ctl := by
      rintro ctl ⟨before, mid, hbefore, hmid, hctl⟩
      refine hpast ctl ⟨input :: before, mid, List.cons_prefix_cons.mpr ⟨rfl, hbefore⟩, ?_, hctl⟩
      rw [MainWindow.run, hact]
      exact hmid
    exact ih (h.act hact (hvisited _ ⟨[], next, List.nil_prefix, rfl, rfl⟩)) hrest hvisited

-- The window as it is built, and what follows.
theorem sound_run {dark : Bool} {speed : ℤ} {inputs : List Input}
    (hrun : (create memBytes dark speed).run inputs = some w) :
    w.Sound memBytes ((create memBytes dark speed).Visited inputs) :=
  (sound_create ⟨[], _, List.nil_prefix, rfl, rfl⟩).run hrun fun _ => id

section Shown

variable {dark : Bool} {speed : ℤ} {inputs : List Input}

-- What can be seen of the panels is of the controller `old`; the memory may have been read up to
-- `k` cycles after it. A register that was read is marked unless it is still shown as written.
structure Displays (past : SimulatorController PipelinedCpu → Prop) (w : MainWindow)
    (old : SimulatorController PipelinedCpu) (k : ℕ) : Prop where
  datapath : w.datapath.visible = true → w.datapath.picture =
    DatapathFields.picture ⟨old.processor.ps, old.processor.regs.read, w.ctl.breakpoints,
      w.datapath.model.darkMode⟩
  values : w.registers.view.visible = true → ∀ r,
    (w.registers.view.picture r).value = hexText (old.processor.regs.read r)
  marks : w.registers.view.visible = true → ∀ r,
    (w.registers.view.picture r).highlight ≠ .written →
    ((w.registers.view.picture r).highlight = .read ↔
      r ≠ 0#5 ∧ ((RegisterWidget.readMarks old.processor.ps.stages.id).a = some r ∨
        (RegisterWidget.readMarks old.processor.ps.stages.id).b = some r))
  fades : w.registers.view.visible = true → ∀ r,
    (w.registers.view.picture r).highlight = .written → w.registers.timerActive = true
  trace : w.trace.visible = true → w.trace.picture = TraceFields.table w.trace.model ∧
    w.trace.model.trace.lastCycle = old.processor.ps.cycle
  memory : w.memory.visible = true →
    ∃ j ≤ k, ∃ mid, past mid ∧ mid.processor = (old.steps j).processor ∧
      w.memory.widget.snapshot = some mid.processor.mem.data
  stats : ∀ stats, w.stats = some stats → stats = old.stats

theorem highlight_read_iff {fields : RegisterFields} {r : RegIdx}
    (h : (fields.cell r).highlight ≠ .written) :
    (fields.cell r).highlight = .read ↔
      r ≠ 0#5 ∧ (fields.readRs = some r ∨ fields.readRt = some r) := by
  rw [RegisterFields.cell] at h ⊢
  dsimp only at h ⊢
  split_ifs at h ⊢ with hzero hfading hmarked
  · simp [hzero]
  · exact absurd rfl h
  · simp [hzero, hmarked]
  · simp [hmarked]

theorem Sound.displays (h : w.Sound memBytes past) :
    ∃ old k, past old ∧ k ≤ w.cycleCount % 5000 ∧ w.cpu = (old.steps k).processor ∧
      w.ctl.stats = (old.steps k).stats ∧ w.Displays past old k := by
  obtain ⟨k, ⟨old, hold, hof, hcpu, hstats, hmemory⟩, hbound⟩ := h.behind
  refine ⟨old, k, hold, hbound, hcpu, hstats, ?_⟩
  have hcells : w.registers.view.visible = true → w.registers.view.picture =
      w.registers.view.model.cell := h.drawn.registers.current.picture
  constructor
  case datapath =>
    intro hvisible
    have hmodel : w.datapath.model = ⟨old.processor.ps, old.processor.regs.read,
        w.ctl.breakpoints, w.datapath.model.darkMode⟩ := by
      rw [← hof.state, ← hof.regValues, ← h.drawn.breakpoints]
      rfl
    rw [h.drawn.datapath.picture hvisible]
    exact congrArg DatapathFields.picture hmodel
  case values =>
    intro hvisible r
    rw [hcells hvisible]
    exact congrArg hexText (congrFun hof.values r)
  case marks =>
    intro hvisible r hwritten
    rw [hcells hvisible] at hwritten ⊢
    rw [← hof.marks]
    exact highlight_read_iff hwritten
  case fades =>
    intro hvisible r hwritten
    rw [hcells hvisible, RegisterFields.cell] at hwritten
    dsimp only at hwritten
    split_ifs at hwritten with hzero hfading
    exact h.drawn.registers.fades r hzero hfading
  case trace => exact fun hvisible => ⟨h.drawn.trace.picture hvisible, hof.traced⟩
  case memory => exact hmemory
  case stats => exact hof.stats

-- After any inputs the panels that can be seen show one and the same cycle of the run, less than
-- 5000 cycles ago, whatever was hidden and shown before, and the action says whether the program
-- runs.
theorem panels_show (hrun : (create memBytes dark speed).run inputs = some w) :
    (∃ old k, (create memBytes dark speed).Visited inputs old ∧
      k ≤ w.cycleCount % 5000 ∧ w.cpu = (old.steps k).processor ∧
      w.ctl.stats = (old.steps k).stats ∧
      w.Displays ((create memBytes dark speed).Visited inputs) old k) ∧
    w.pauseShown = w.ctl.timerActive :=
  ⟨(sound_run hrun).displays, (sound_run hrun).action⟩

-- addi $1, $0, 4; sw $0, 32($0); lw $3, 0($1); addu $4, $3, $3
def hazardProgram : HexProgram where
  words := [0x20010004#32, 0xAC000020#32, 0x8C230000#32, 0x00632021#32]

def fullSpeedInputs : List Input :=
  [.openFile hazardProgram true, .setSpeed 100, .showPanel .datapath, .showPanel .registers,
    .showPanel .memory, .runPause, .runTimer, .runTimer, .runTimer]

-- The schematic shows none of the three cycles yet.
theorem panels_show_fullSpeed : ∃ w, (create 64 false 60).run fullSpeedInputs = some w ∧
    w.cycleCount = 3 ∧ w.datapath.visible = true ∧ w.datapath.picture.cycle = 0 ∧
      (∃ old k, (create 64 false 60).Visited fullSpeedInputs old ∧
        k ≤ w.cycleCount % 5000 ∧ w.cpu = (old.steps k).processor ∧
        w.ctl.stats = (old.steps k).stats ∧
        w.Displays ((create 64 false 60).Visited fullSpeedInputs) old k) ∧
      w.pauseShown = w.ctl.timerActive := by
  have hfull : ((create 64 false 60).run fullSpeedInputs).map (fun w =>
      (w.cycleCount, w.datapath.visible, w.datapath.picture.cycle)) = some (3, true, 0) := by decide
  obtain ⟨w, hrun, hcycles⟩ := Option.map_eq_some_iff.mp hfull
  simp only [Prod.mk.injEq] at hcycles
  exact ⟨w, hrun, hcycles.1, hcycles.2.1, hcycles.2.2, panels_show hrun⟩

-- The input has the processor do a cycle that is announced.
def Announces (w : MainWindow) (input : Input) : Prop :=
  input = .step ∨ input = .runTimer ∧ w.ctl.timerActive = true ∧ w.ctl.throttled = false

-- What can be seen of a cycle is what the pipeline does in it.
structure Depicts (w' w : MainWindow) : Prop where
  datapath : w'.datapath.visible = true → w'.datapath.picture.Depicts w.cpu
  registers : w'.registers.view.visible = true → 0 ≤ w.now → ∀ r,
    RegisterWidget.CellShows (w'.registers.view.picture r) w.cpu r
      (w.registers.view.model.fading r)

theorem Sound.depicts_cycled (h : w.Sound memBytes past) (pauseShown : Bool)
    (events : PipelineEventsWidget) : (w.cycled pauseShown events).Depicts w := by
  have hcpu : w.ctl.doStep.2.processor = w.cpu.step.2 := by
    rw [SimulatorController.doStep_ctl]
    rfl
  constructor
  case datapath =>
    intro hvisible
    have hmodel : (w.cycled pauseShown events).datapath.model =
        { w.datapath.model with
          state := w.ctl.doStep.2.processor.ps
          regValues := w.ctl.doStep.2.processor.regs.read } := LazyView.model_present _ _
    rw [(h.drawn.cycled pauseShown events).datapath.picture hvisible, hmodel, hcpu]
    exact DatapathFields.depicts_picture h.reachable rfl rfl
  case registers =>
    intro hvisible hnow r
    have hregisters : (w.cycled pauseShown events).registers =
        w.registers.updateCycle w.now w.cpu.step.2.ps w.cpu.step.2.regs.read := by
      rw [← hcpu]
      rfl
    have hkept : (w.registers.updateCycle w.now w.cpu.step.2.ps
        w.cpu.step.2.regs.read).view.visible = w.registers.view.visible :=
      RegisterWidget.visible_updateCycle _ _ _ _
    rw [hregisters, hkept] at hvisible
    rw [hregisters]
    exact (RegisterWidget.updateCycle_shows (PipelinedCpu.wellFormed_of_reachable h.reachable)
      hvisible hnow r).2

theorem Sound.depicts_doStep (h : w.Sound memBytes past) (hshown : w.ctl.throttled = false) :
    (w.receive w.ctl.doStep).Depicts w := by
  obtain ⟨events, hreceive⟩ := receive_shown hshown
  rw [hreceive]
  exact h.depicts_cycled _ _

-- After any inputs, a step, and each cycle of a run that is not throttled, leaves the schematic
-- and the registers showing what the pipeline has done in it.
theorem cycle_depicted (hrun : (create memBytes dark speed).run inputs = some w) {input : Input}
    (hinput : w.Announces input) (hact : w.act input = some w') : w'.Depicts w := by
  have hsound := sound_run hrun
  rcases hinput with rfl | ⟨rfl, hactive, hshown⟩
  · obtain rfl := Option.some.inj hact
    have hdepicts : w.onStep.Depicts w.stop := hsound.stop.depicts_doStep rfl
    exact ⟨hdepicts.datapath, hdepicts.registers⟩
  · obtain rfl := Option.some.inj hact
    rw [onRunTimer, if_pos hactive]
    exact hsound.depicts_doStep hshown

def stepInputs : List Input :=
  [.openFile hazardProgram true, .showPanel .datapath, .showPanel .registers, .step, .step, .step,
    .step]

-- The cycle in which the addi is in WB, the sw in MEM, the lw in EX and the addu held in ID.
theorem cycle_depicted_step : ∃ w w', (create 64 false 60).run stepInputs = some w ∧
    w.act .step = some w' ∧ w'.datapath.visible = true ∧ w'.registers.view.visible = true ∧
      w'.datapath.picture.memoryLit = true ∧ w'.datapath.picture.muxA = .memWb ∧
      w'.datapath.picture.bars = [.stall, .plain, .plain, .plain] ∧
      (w'.registers.view.picture 1#5).highlight = .written ∧
      (w'.registers.view.picture 3#5).highlight = .read ∧ w'.Depicts w := by
  have hschematic : ((create 64 false 60).run stepInputs).map (fun w =>
      (w.onStep.datapath.visible, w.onStep.datapath.picture.memoryLit,
        w.onStep.datapath.picture.muxA, w.onStep.datapath.picture.bars)) =
      some (true, true, .memWb, [.stall, .plain, .plain, .plain]) := by decide
  have hcells : ((create 64 false 60).run stepInputs).map (fun w =>
      (w.onStep.registers.view.visible, (w.onStep.registers.view.picture 1#5).highlight,
        (w.onStep.registers.view.picture 3#5).highlight)) = some (true, .written, .read) := by decide
  obtain ⟨w, hrun, hdatapath⟩ := Option.map_eq_some_iff.mp hschematic
  rw [hrun, Option.map_some, Option.some.injEq] at hcells
  simp only [Prod.mk.injEq] at hdatapath hcells
  obtain ⟨hvisible, hlit, hmux, hbars⟩ := hdatapath
  obtain ⟨hregisters, hwritten, hread⟩ := hcells
  exact ⟨w, w.onStep, hrun, rfl, hvisible, hregisters, hlit, hmux, hbars, hwritten, hread,
    cycle_depicted hrun (.inl rfl) rfl⟩

end Shown

end ClearCore.Qt.MainWindow
