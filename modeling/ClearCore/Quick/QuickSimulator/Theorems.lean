import ClearCore.Mips.Pipelined.FetchOnly
import ClearCore.Mips.SingleCycle.Theorems
import ClearCore.Quick.QuickSimulator.Trace

-- The trace of a run: the actions of the user and the run timer, cycle by cycle.

namespace ClearCore.Quick

open Isa Mips Qt Occupied

namespace QuickSimulator

section Steps

variable {P : Type} [IMipsProcessor P]

-- The action executes a cycle.
def advances (sim : QuickSimulator P) : Action → Bool
  | .step => sim.programLoaded
  | .timeout => sim.ctl.timerActive
  | _ => false

-- The controller reports the cycle it executes next: it throttles a run at full speed.
def Reports (sim : QuickSimulator P) : Prop :=
  sim.ctl.timerActive = true → sim.ctl.timerInterval = 0 →
    (IMipsProcessor.step sim.ctl.processor).1 = .Ok →
      IMipsProcessor.pc (IMipsProcessor.step sim.ctl.processor).2 ∈ sim.ctl.breakpoints

instance instDecidableReports (sim : QuickSimulator P) : Decidable sim.Reports :=
  inferInstanceAs (Decidable (_ → _ → _ → _))

def run (sim : QuickSimulator P) (actions : List Action) : QuickSimulator P :=
  actions.foldl act sim

-- Every cycle of a run meets a condition on the state before it.
def Meets (condition : QuickSimulator P → Prop) (sim : QuickSimulator P) : List Action → Prop
  | [] => True
  | action :: rest =>
      (sim.advances action = true → condition sim) ∧ Meets condition (sim.act action) rest

instance instDecidableMeets (condition : QuickSimulator P → Prop) [DecidablePred condition] :
    ∀ (sim : QuickSimulator P) (actions : List Action), Decidable (sim.Meets condition actions)
  | _, [] => inferInstanceAs (Decidable True)
  | sim, action :: rest =>
      have := instDecidableMeets condition (sim.act action) rest
      inferInstanceAs (Decidable (_ ∧ _))

-- Apart from the state of the pipeline nothing that is emitted changes the trace.
def Silent (signals : List Signal) : Prop :=
  ∀ signal ∈ signals, ∀ ps, signal ≠ .pipelineStateChanged ps

omit [IMipsProcessor P] in
theorem foldl_silent {signals : List Signal} (h : Silent signals) (sim : QuickSimulator P) :
    signals.foldl onSignal sim = sim := by
  induction signals generalizing sim with
  | nil => rfl
  | cons signal rest ih =>
    rw [List.foldl_cons, ih fun other hother => h other (List.mem_cons_of_mem signal hother)]
    cases signal with
    | pipelineStateChanged ps => exact absurd rfl (h _ List.mem_cons_self ps)
    | _ => rfl

omit [IMipsProcessor P] in
theorem receive_ctl (sim : QuickSimulator P) (emitted : List Signal × SimulatorController P) :
    (sim.receive emitted).ctl = emitted.2 := by
  obtain ⟨signals, ctl⟩ := emitted
  have hfold : ∀ sim : QuickSimulator P, (signals.foldl onSignal sim).ctl = sim.ctl := by
    induction signals with
    | nil => exact fun _ => rfl
    | cons signal rest ih =>
      intro sim
      rw [List.foldl_cons, ih]
      cases signal <;> rfl
  exact hfold _

-- A reported cycle is announced by its state.
theorem doStep_signals {ctl : SimulatorController P} {result : StepResult} {processor : P}
    (hstep : IMipsProcessor.step ctl.processor = (result, processor))
    (h : ctl.timerActive = true → ctl.timerInterval = 0 → result = .Ok →
      IMipsProcessor.pc processor ∈ ctl.breakpoints) :
    ∃ before after, Silent before ∧ Silent after ∧
      ctl.doStep.1 =
        before ++ .pipelineStateChanged (IMipsProcessor.pipelineState processor) :: after := by
  have hreported :
      (!(ctl.timerActive && decide (result = .Ok) &&
          !(decide (result = .Ok) && decide (IMipsProcessor.pc processor ∈ ctl.breakpoints)) &&
        decide (ctl.timerInterval = 0) && decide (IMipsProcessor.cycleCount processor % 5000 ≠ 0)) ||
        decide (result ≠ .Ok) ||
        (decide (result = .Ok) && decide (IMipsProcessor.pc processor ∈ ctl.breakpoints))) =
          true := by
    by_cases hr : result = .Ok
    · by_cases hb : IMipsProcessor.pc processor ∈ ctl.breakpoints
      · simp [hr, hb]
      · cases ha : ctl.timerActive with
        | false => simp
        | true =>
          have hi : ctl.timerInterval ≠ 0 := fun hi => hb (h ha hi hr)
          simp [hi]
    · simp [hr]
  unfold SimulatorController.doStep
  rw [hstep]
  dsimp only
  rw [if_pos hreported]
  refine ⟨[_], _ :: _, ?_, ?_, rfl⟩
  · simp [Silent]
  · cases result with
    | Ok =>
      dsimp only
      split <;> simp [Silent]
    | Halt => simp [Silent]
    | Fault => simp [Silent]
    | Exception => simp [Silent]

-- No state but that of the cycle is announced.
theorem mem_doStep {ctl : SimulatorController P} {ps : PipelineState}
    (h : .pipelineStateChanged ps ∈ ctl.doStep.1) :
    ps = IMipsProcessor.pipelineState (IMipsProcessor.step ctl.processor).2 := by
  rcases hstep : IMipsProcessor.step ctl.processor with ⟨result, processor⟩
  unfold SimulatorController.doStep at h
  rw [hstep] at h
  rcases List.mem_append.mp h with h | h
  · split at h
    · simpa using h
    · cases h
  · cases result with
    | Ok =>
      dsimp only at h
      split at h <;> simp at h
    | Halt => simp at h
    | Fault => simp at h
    | Exception => simp at h

-- A reported cycle is appended to the trace.
theorem receive_doStep {sim : QuickSimulator P} (h : sim.Reports) :
    sim.receive sim.ctl.doStep = { sim with
      ctl := sim.ctl.doStep.2
      trace := appendTrace sim.trace
        (IMipsProcessor.pipelineState (IMipsProcessor.step sim.ctl.processor).2) } := by
  obtain ⟨before, after, hbefore, hafter, hsignals⟩ := doStep_signals rfl h
  rw [receive, hsignals, List.foldl_append, List.foldl_cons, foldl_silent hbefore,
    foldl_silent hafter]
  rfl

theorem act_of_advances {sim : QuickSimulator P} {action : Action}
    (h : sim.advances action = true) : sim.act action = sim.receive sim.ctl.doStep := by
  cases action with
  | step => simp [act, step, SimulatorController.stepCycle, show sim.programLoaded = true from h]
  | timeout => simp [act, timeout, show sim.ctl.timerActive = true from h]
  | runPause => cases h
  | setSpeed s => cases h
  | toggleBreakpoint pc => cases h

theorem act_of_not_advances {sim : QuickSimulator P} {action : Action}
    (h : sim.advances action = false) :
    (sim.act action).ctl.processor = sim.ctl.processor ∧ (sim.act action).trace = sim.trace := by
  cases action with
  | step => simp [act, step, show sim.programLoaded = false from h]
  | timeout => simp [act, timeout, show sim.ctl.timerActive = false from h]
  | runPause =>
    simp only [act, runPause]
    split_ifs <;> exact ⟨rfl, rfl⟩
  | setSpeed s => exact ⟨rfl, rfl⟩
  | toggleBreakpoint pc =>
    simp only [act, toggleBreakpoint]
    split_ifs <;> exact ⟨rfl, rfl⟩

end Steps

-- What a cycle must meet for the trace to show its stages in the right rows.
structure Clear (sim : QuickSimulator PipelinedCpu) : Prop where
  reported : sim.Reports
  held : ¬sim.ctl.processor.Held
  rows : ∀ row ∈ sim.trace, Undisturbed row sim.ctl.processor.step.2.ps

instance instDecidableClear (sim : QuickSimulator PipelinedCpu) : Decidable sim.Clear :=
  decidable_of_iff (sim.Reports ∧ ¬sim.ctl.processor.Held ∧
      ∀ row ∈ sim.trace, Undisturbed row sim.ctl.processor.step.2.ps)
    ⟨fun h => ⟨h.1, h.2.1, h.2.2⟩, fun h => ⟨h.reported, h.held, h.rows⟩⟩

-- A simulator whose program has just been loaded or reset.
structure Fresh (sim : QuickSimulator PipelinedCpu) : Prop where
  empty : sim.ctl.processor.Empty
  cycle : sim.ctl.processor.cycle = 0
  trace : sim.trace = []

section Run

variable {cpu : PipelinedCpu} {n : ℕ} {sim : QuickSimulator PipelinedCpu}

theorem act_processor (sim : QuickSimulator PipelinedCpu) (action : Action) :
    (sim.act action).ctl.processor =
      if sim.advances action then sim.ctl.processor.step.2 else sim.ctl.processor := by
  cases h : sim.advances action with
  | true =>
    rw [act_of_advances h, receive_ctl]
    rfl
  | false => exact (act_of_not_advances h).1

theorem run_processor (sim : QuickSimulator PipelinedCpu) (actions : List Action) :
    ∃ k, (sim.run actions).ctl.processor = sim.ctl.processor.run k := by
  induction actions generalizing sim with
  | nil => exact ⟨0, rfl⟩
  | cons action rest ih =>
    obtain ⟨k, hk⟩ := ih (sim.act action)
    rw [run, List.foldl_cons]
    cases h : sim.advances action with
    | true =>
      rw [act_processor, h, if_pos rfl] at hk
      exact ⟨k + 1, hk⟩
    | false =>
      rw [act_processor, h, if_neg Bool.false_ne_true] at hk
      exact ⟨k, hk⟩

-- The invariant of a run from a fresh simulator with the CPU `cpu`.
structure Shows (cpu : PipelinedCpu) (n : ℕ) (sim : QuickSimulator PipelinedCpu) : Prop where
  processor : sim.ctl.processor = cpu.run n
  grid : Grid cpu n n sim.trace
  held : ∀ b < n, ¬(cpu.run b).Held

theorem Shows.advance (h : Shows cpu n sim) (hempty : cpu.Empty) (hcycle : cpu.cycle = 0)
    (hclear : sim.Clear) (hmax : n < TraceRow.kTraceMaxCycles) :
    Shows cpu (n + 1) (sim.receive sim.ctl.doStep) := by
  have hheld : ∀ b ≤ n, ¬(cpu.run b).Held := by
    intro b hb
    rcases Nat.lt_or_eq_of_le hb with hb | rfl
    · exact h.held b hb
    · rw [← h.processor]
      exact hclear.held
  have hstep : sim.ctl.processor.step.2 = cpu.run (n + 1) := by
    rw [h.processor, PipelinedCpu.run_succ]
  rw [receive_doStep hclear.reported]
  refine ⟨hstep, ?_, fun b hb => hheld b (Nat.le_of_lt_succ hb)⟩
  have hrows := hclear.rows
  rw [hstep] at hrows
  have happend := h.grid.appendTrace hempty hcycle hheld hmax hrows
  rwa [← hstep] at happend

theorem Shows.attributed (h : Shows cpu n sim) (hcycle : cpu.cycle = 0) :
    Attributed cpu sim.ctl.processor.cycle sim.trace := by
  rw [h.processor, PipelinedCpu.run_cycle, hcycle, Nat.zero_add]
  exact h.grid.attributed hcycle h.held

theorem Shows.bound (h : Shows cpu n sim) (hcycle : cpu.cycle = 0) {action : Action}
    {rest : List Action} (hadv : sim.advances action = true)
    (hmax : (sim.run (action :: rest)).ctl.processor.cycle ≤ TraceRow.kTraceMaxCycles) :
    n < TraceRow.kTraceMaxCycles := by
  obtain ⟨k, hk⟩ := run_processor (sim.act action) rest
  have hrun : (sim.run (action :: rest)).ctl.processor = (cpu.run (n + 1)).run k := by
    refine hk.trans ?_
    rw [act_processor, hadv, if_pos rfl, h.processor, PipelinedCpu.run_succ]
  rw [hrun, PipelinedCpu.run_cycle, PipelinedCpu.run_cycle, hcycle] at hmax
  omega

theorem Shows.run (h : Shows cpu n sim) (hempty : cpu.Empty) (hcycle : cpu.cycle = 0)
    (actions : List Action) (hmeets : sim.Meets Clear actions)
    (hmax : (sim.run actions).ctl.processor.cycle ≤ TraceRow.kTraceMaxCycles) :
    ∃ m, Shows cpu m (sim.run actions) := by
  induction actions generalizing sim n with
  | nil => exact ⟨n, h⟩
  | cons action rest ih =>
    obtain ⟨hclear, hmeets⟩ := hmeets
    cases hadv : sim.advances action with
    | true =>
      have hbound := h.bound hcycle hadv hmax
      rw [act_of_advances hadv] at hmeets
      have hnext := ih (h.advance hempty hcycle (hclear hadv) hbound) hmeets
      rw [← act_of_advances hadv] at hnext
      exact hnext hmax
    | false =>
      obtain ⟨hprocessor, htrace⟩ := act_of_not_advances hadv
      exact ih ⟨hprocessor.trans h.processor, htrace ▸ h.grid, h.held⟩ hmeets hmax

-- A cycle that is reported and not clear leaves a trace that is wrong.
theorem Shows.clear (h : Shows cpu n sim) (hempty : cpu.Empty) (hcycle : cpu.cycle = 0)
    (hreports : sim.Reports) (hmax : n < TraceRow.kTraceMaxCycles)
    (hshown : Attributed cpu (n + 1) (sim.receive sim.ctl.doStep).trace) : sim.Clear := by
  have hps : (IMipsProcessor.pipelineState (IMipsProcessor.step sim.ctl.processor).2) =
      (cpu.run (n + 1)).ps := by
    rw [h.processor, PipelinedCpu.run_succ]
    rfl
  have hnow := cpu.run_psCycle hcycle n
  rw [receive_doStep hreports, hps, appendTrace, hnow, if_neg (not_lt.mpr hmax)] at hshown
  have hheld : ¬(cpu.run n).Held := by
    intro hheld
    have hcpu : (cpu.occupied.run n).cpu = cpu.run n := run_cpu _ _
    obtain ⟨d, hif, hid⟩ := (hempty.sound.run n).held_twice
      (by rw [hcpu]; exact hempty.loadDecoded_run n) (by rwa [hcpu])
    -- one cell would have to show two stages
    obtain ⟨i, row, -, hof, hcell, -⟩ := hshown.shown (Nat.lt_succ_self n) hif (hshown.kept rfl hif)
    have hcell' := (hof.cells (Nat.lt_succ_self n)).mpr hid
    rw [hcell, Option.some.injEq] at hcell'
    exact absurd (stageName_injective hcell') (by decide)
  refine ⟨hreports, by rwa [h.processor], fun row hrow hlive s hs => ?_⟩
  rw [show sim.ctl.processor.step.2.ps = _ from hps] at hlive hs ⊢
  by_contra hno
  rw [not_exists] at hno
  -- the row shows a stage that is not its instruction's
  obtain ⟨j, hj, htag⟩ := TraceRow.tag_first (run_named cpu n) hlive
    (fun i hi hd => hno i ⟨hi, hd⟩) hs
  rw [TraceRow.live, hnow, ← TraceRow.live] at hlive
  have hmem := h.grid.mem_of_live hrow hlive (cpu.run (n + 1)).ps.stages.ifs
  obtain ⟨d, hof, -⟩ := hshown.belongs _ (List.mem_map_of_mem hmem)
  have hcell : (row.mark (cpu.run (n + 1)).ps).cell (n + 1) = some (stageName j) := by
    rw [(h.grid.rows row hrow).1.cell_now, htag]
  have hheld' : ∀ b ≤ n, ¬(cpu.run b).Held := by
    intro b hb
    rcases Nat.lt_or_eq_of_le hb with hb | rfl
    · exact h.held b hb
    · exact hheld
  obtain ⟨b, hb, hbn, -⟩ :=
    age_of_occupant hcycle hheld' ((hof.cells (Nat.lt_succ_self n)).mp hcell)
  refine hno j ⟨?_, hj⟩
  have hstart : row.startCycle = d.fetched := hof.startCycle
  omega

theorem Shows.meets (h : Shows cpu n sim) (hempty : cpu.Empty) (hcycle : cpu.cycle = 0)
    (actions : List Action) (hreports : sim.Meets Reports actions)
    (hmax : (sim.run actions).ctl.processor.cycle ≤ TraceRow.kTraceMaxCycles)
    (hshown : ∀ front, front <+: actions →
      Attributed cpu (sim.run front).ctl.processor.cycle (sim.run front).trace) :
    sim.Meets Clear actions := by
  induction actions generalizing sim n with
  | nil => trivial
  | cons action rest ih =>
    obtain ⟨hreport, hreports⟩ := hreports
    have hrest : ∀ front, front <+: rest →
        Attributed cpu ((sim.act action).run front).ctl.processor.cycle
          ((sim.act action).run front).trace :=
      fun front hfront => hshown (action :: front) (List.cons_prefix_cons.mpr ⟨rfl, hfront⟩)
    cases hadv : sim.advances action with
    | true =>
      have hbound := h.bound hcycle hadv hmax
      have hfirst := hrest [] List.nil_prefix
      rw [QuickSimulator.run, List.foldl_nil, act_processor, hadv, if_pos rfl, h.processor,
        ← PipelinedCpu.run_succ, PipelinedCpu.run_cycle, hcycle, Nat.zero_add,
        act_of_advances hadv] at hfirst
      have hclear := h.clear hempty hcycle (hreport hadv) hbound hfirst
      have hnext := h.advance hempty hcycle hclear hbound
      rw [← act_of_advances hadv] at hnext
      exact ⟨fun _ => hclear, ih hnext hreports hmax hrest⟩
    | false =>
      obtain ⟨hprocessor, htrace⟩ := act_of_not_advances hadv
      have hsame : Shows cpu n (sim.act action) :=
        ⟨hprocessor.trans h.processor, htrace ▸ h.grid, h.held⟩
      refine ⟨fun htrue => ?_, ih hsame hreports hmax hrest⟩
      rw [hadv] at htrue
      cases htrue

theorem Fresh.shows (h : sim.Fresh) : Shows sim.ctl.processor 0 sim :=
  ⟨rfl, h.trace ▸ Grid.empty _, fun b hb => absurd hb (Nat.not_lt_zero b)⟩

end Run

section Start

-- A pipeline that is reset and loaded is empty and has run for no cycle.
theorem loadProgram_reset {cpu loaded : PipelinedCpu} {words : List Word} {addr : Word} {ok : Bool}
    (h : (cpu.reset true).loadProgram words addr = some (ok, loaded)) :
    loaded.Empty ∧ loaded.cycle = 0 ∧ loaded.ps = {} := by
  obtain ⟨⟨fits, mem⟩, -, heq⟩ := Option.map_eq_some_iff.mp h
  cases fits <;>
    · obtain ⟨-, rfl⟩ := Prod.mk.inj heq
      exact ⟨⟨rfl, rfl, rfl, rfl⟩, rfl, rfl⟩

theorem fresh_load {sim loaded : QuickSimulator PipelinedCpu} {words : List Word}
    (h : sim.load words = some loaded) : loaded.Fresh := by
  obtain ⟨emitted, -, h⟩ := Option.bind_eq_some_iff.mp h
  obtain ⟨⟨ok, signals, ctl⟩, hload, h⟩ := Option.bind_eq_some_iff.mp h
  obtain rfl := Option.some.inj h
  unfold SimulatorController.loadProgram at hload
  obtain ⟨⟨ok, processor⟩, hprocessor, heq⟩ := Option.map_eq_some_iff.mp hload
  obtain ⟨-, heq⟩ := Prod.mk.inj heq
  obtain ⟨-, rfl⟩ := Prod.mk.inj heq
  obtain ⟨hempty, hcycle, -⟩ := loadProgram_reset hprocessor
  refine ⟨?_, ?_, rfl⟩
  · rw [receive_ctl]
    exact hempty
  · rw [receive_ctl]
    exact hcycle

theorem fresh_reset {sim loaded : QuickSimulator PipelinedCpu} (h : sim.reset = some loaded) :
    loaded.Fresh := by
  obtain ⟨⟨signals, ctl⟩, hreset, rfl⟩ := Option.map_eq_some_iff.mp h
  have hstate : ∃ processor : PipelinedCpu, processor.Empty ∧ processor.cycle = 0 ∧
      processor.ps = {} ∧ ctl.processor = processor ∧
        signals = [.pipelineStateChanged processor.ps, .statisticsUpdated {}] := by
    unfold SimulatorController.reset at hreset
    cases hl : sim.ctl.stop.loaded with
    | none =>
      rw [hl] at hreset
      obtain ⟨rfl, rfl⟩ := Prod.mk.inj (Option.some.inj hreset)
      exact ⟨_, ⟨rfl, rfl, rfl, rfl⟩, rfl, rfl, rfl, rfl⟩
    | some program =>
      rw [hl] at hreset
      obtain ⟨⟨ok, processor⟩, hprocessor, heq⟩ := Option.map_eq_some_iff.mp hreset
      obtain ⟨rfl, rfl⟩ := Prod.mk.inj heq
      obtain ⟨hempty, hcycle, hps⟩ := loadProgram_reset hprocessor
      exact ⟨processor, hempty, hcycle, hps, rfl, rfl⟩
  obtain ⟨processor, hempty, hcycle, hps, hctl, rfl⟩ := hstate
  refine ⟨?_, ?_, ?_⟩
  · rw [receive_ctl, hctl]
    exact hempty
  · rw [receive_ctl, hctl]
    exact hcycle
  · rw [hps]
    rfl

-- The simulator as built, with a program that fits.
theorem load_create {memBytes : ℕ} {words : List Word} (hfit : words.length * 4 ≤ memBytes) :
    ∃ sim : QuickSimulator PipelinedCpu, (create memBytes).load words = some sim ∧
      sim.programLoaded = true ∧ sim.ctl.timerActive = false ∧
      sim.ctl.processor = { PipelinedCpu.create memBytes with
        mem := Memory.loadWordsFrom 0#32 0 words (.ofSize memBytes) } := by
  have hsize : (Memory.ofSize memBytes).reset.reset = .ofSize memBytes := by
    rw [Memory.reset, Memory.reset, Memory.size_ofSize, Memory.size_ofSize]
  have hprogram : (((PipelinedCpu.create memBytes).reset true).reset true).loadProgram words 0#32 =
      some (true, { PipelinedCpu.create memBytes with
        mem := Memory.loadWordsFrom 0#32 0 words (.ofSize memBytes) }) := by
    rw [PipelinedCpu.loadProgram]
    change ((Memory.ofSize memBytes).reset.reset.loadWords 0#32 words).map _ = _
    rw [hsize, Memory.loadWords_ofSize hfit]
    rfl
  let built : QuickSimulator PipelinedCpu := create memBytes
  let afterReset : SimulatorController PipelinedCpu :=
    { built.ctl with processor := (PipelinedCpu.create memBytes).reset true }
  have hreset : built.ctl.stop.reset =
      some ([.pipelineStateChanged {}, .statisticsUpdated {}], afterReset) := rfl
  have hload : ∃ signals ctl, afterReset.loadProgram words 0#32 = some (true, signals, ctl) ∧
      ctl.timerActive = false ∧
      ctl.processor = { PipelinedCpu.create memBytes with
        mem := Memory.loadWordsFrom 0#32 0 words (.ofSize memBytes) } := by
    unfold SimulatorController.loadProgram
    dsimp only
    rw [show IMipsProcessor.loadProgram (IMipsProcessor.reset afterReset.processor true) words 0#32 =
      _ from hprogram]
    exact ⟨_, _, rfl, rfl, rfl⟩
  obtain ⟨signals, ctl, hload, htimer, hprocessor⟩ := hload
  refine ⟨{ ctl, lastProgram := words, programLoaded := true }, ?_, rfl, htimer, hprocessor⟩
  simp only [load, Option.bind_eq_bind, show (create memBytes).ctl.stop.reset = _ from hreset,
    Option.bind_some, receive_ctl]
  rw [show afterReset.loadProgram words 0 = _ from hload]
  rfl

-- The trace of a pipeline that is stepped cycle by cycle.
def tracedSteps (cpu : PipelinedCpu) : ℕ → List TraceRow
  | 0 => []
  | n + 1 => appendTrace (tracedSteps cpu n) (cpu.run (n + 1)).ps

theorem run_steps {sim : QuickSimulator PipelinedCpu} (hloaded : sim.programLoaded = true)
    (htimer : sim.ctl.timerActive = false) (htrace : sim.trace = []) (n : ℕ) :
    (sim.run (List.replicate n .step)).programLoaded = true ∧
      (sim.run (List.replicate n .step)).ctl.timerActive = false ∧
      (sim.run (List.replicate n .step)).ctl.processor = sim.ctl.processor.run n ∧
      (sim.run (List.replicate n .step)).trace = tracedSteps sim.ctl.processor n := by
  induction n with
  | zero => exact ⟨hloaded, htimer, rfl, htrace⟩
  | succ n ih =>
    obtain ⟨hloaded', htimer', hprocessor, htrace'⟩ := ih
    have hnext : sim.run (List.replicate (n + 1) .step) =
        (sim.run (List.replicate n .step)).act .step := by
      rw [run, run, List.replicate_succ', List.foldl_append]
      rfl
    have hreports : (sim.run (List.replicate n .step)).Reports := by
      intro hactive
      rw [htimer'] at hactive
      cases hactive
    have hadvances : (sim.run (List.replicate n .step)).advances .step = true := hloaded'
    rw [hnext, act_of_advances hadvances, receive_doStep hreports]
    refine ⟨hloaded', ?_, ?_, ?_⟩
    · change ((sim.run (List.replicate n .step)).ctl.timerActive && _ && _) = false
      rw [htimer']
      rfl
    · change (sim.run (List.replicate n .step)).ctl.processor.step.2 = _
      rw [hprocessor, PipelinedCpu.run_succ]
    · rw [htrace', tracedSteps, PipelinedCpu.run_succ, ← hprocessor]
      rfl

end Start

section SingleCycle

-- The single-cycle model has no fetch to display.
theorem step_fetchIdle {cpu : SingleCycleCpu} (h : cpu.ps.stages.ifs.valid = false) :
    cpu.step.2.ps.stages.ifs.valid = false := by
  cases hr : cpu.mem.readWord cpu.pc with
  | none =>
    rw [SingleCycleCpu.step_fault hr]
    exact h
  | some raw =>
    cases hd : Decoder.decode raw with
    | none =>
      rw [SingleCycleCpu.step_reserved hr hd]
      exact h
    | some d =>
      rw [SingleCycleCpu.step_decoded hr hd]
      cases (cpu.arch.action d).perform cpu.mem cpu.pc <;> rfl

theorem foldl_fetchIdle {signals : List Signal} {sim : QuickSimulator SingleCycleCpu}
    (hidle : ∀ ps, .pipelineStateChanged ps ∈ signals → ps.stages.ifs.valid = false)
    (htrace : sim.trace = []) : (signals.foldl onSignal sim).trace = [] := by
  induction signals generalizing sim with
  | nil => exact htrace
  | cons signal rest ih =>
    rw [List.foldl_cons]
    refine ih (fun ps hps => hidle ps (List.mem_cons_of_mem signal hps)) ?_
    cases signal with
    | pipelineStateChanged ps =>
      have hps := hidle ps List.mem_cons_self
      simp [onSignal, htrace, appendTrace, enterRow, hps]
    | _ => exact htrace

-- With that model the trace has no row, whatever is executed.
theorem singleCycle_untraced {sim : QuickSimulator SingleCycleCpu} (htrace : sim.trace = [])
    (hidle : sim.ctl.processor.ps.stages.ifs.valid = false) (actions : List Action) :
    (sim.run actions).trace = [] := by
  induction actions generalizing sim with
  | nil => exact htrace
  | cons action rest ih =>
    rw [run, List.foldl_cons]
    cases hadv : sim.advances action with
    | true =>
      rw [act_of_advances hadv]
      refine ih (foldl_fetchIdle ?_ htrace) ?_
      · intro ps hps
        rw [mem_doStep hps]
        exact step_fetchIdle hidle
      · rw [receive_ctl]
        exact step_fetchIdle hidle
    | false =>
      obtain ⟨hprocessor, htrace'⟩ := act_of_not_advances hadv
      exact ih (htrace'.trans htrace) (hprocessor ▸ hidle)

end SingleCycle

section Loop

variable {sim : QuickSimulator PipelinedCpu}

-- addi $t0, $t0, 1; beq $0, $0, -2; nop; nop
def loopWords : List Word := [0x21080001#32, 0x1000FFFE#32, 0x00000000#32, 0x00000000#32]

def loopMemory (memBytes : ℕ) : Memory := Memory.loadWordsFrom 0#32 0 loopWords (.ofSize memBytes)

def loopCpu (mem : Memory) : PipelinedCpu where
  regs := .initial
  mem

theorem loopMemory_words {memBytes : ℕ} (hfit : 16 ≤ memBytes) {j : ℕ} (hj : j < 4) :
    (loopMemory memBytes).readWord (BitVec.ofNat 32 (j * 4)) = loopWords[j]? := by
  have hlen : j < loopWords.length := hj
  have hload : (loopMemory memBytes).readWord (0#32 + BitVec.ofNat 32 ((0 + j) * 4)) =
      some (loopWords.get ⟨j, hlen⟩) :=
    Memory.readWord_loadWordsFrom rfl _ (by rw [Memory.size_ofSize]; exact hfit) (by decide)
      (List.getElem?_eq_getElem hlen)
  rw [BitVec.zero_add, Nat.zero_add] at hload
  exact hload.trans (List.getElem?_eq_getElem hlen).symm

-- Of the memory only the words of the loop matter.
theorem loopCpu_run {mem : Memory}
    (hwords : ∀ {j}, j < 4 → mem.readWord (BitVec.ofNat 32 (j * 4)) = loopWords[j]?) {n : ℕ}
    (hn : n ≤ 6) : (loopCpu mem).run n = { (loopCpu (loopMemory 16)).run n with mem } := by
  have htext : ∀ b < 6, ((loopCpu (loopMemory 16)).run b).FetchesText loopWords := by decide
  exact @PipelinedCpu.run_of_text (loopCpu (loopMemory 16)) mem loopWords n
    (fun b hb => htext b (by omega)) hwords

def loopSimulator : QuickSimulator PipelinedCpu :=
  { ctl := { processor := loopCpu (loopMemory 16) }, lastProgram := loopWords, programLoaded := true }

-- In every run of the pipelined model whose cycles are clear the trace shows each stage in the
-- row of its instruction.
theorem attributed_of_run (hfresh : sim.Fresh) (actions : List Action)
    (hmeets : sim.Meets Clear actions)
    (hmax : (sim.run actions).ctl.processor.cycle ≤ TraceRow.kTraceMaxCycles) :
    Attributed sim.ctl.processor (sim.run actions).ctl.processor.cycle (sim.run actions).trace := by
  obtain ⟨m, hshows⟩ := hfresh.shows.run hfresh.empty hfresh.cycle actions hmeets hmax
  exact hshows.attributed hfresh.cycle

-- Until the sixth cycle the loop meets the condition: the addi has not left the pipeline yet.
theorem attributed_of_run_loop :
    Attributed (loopCpu (loopMemory 16)) 5 (loopSimulator.run (List.replicate 5 .step)).trace ∧
      ¬loopSimulator.Meets Clear (List.replicate 6 .step) :=
  ⟨attributed_of_run (show loopSimulator.Fresh from ⟨⟨rfl, rfl, rfl, rfl⟩, rfl, rfl⟩)
    (List.replicate 5 .step) (by decide) (by decide), by decide⟩

-- The address of the retired addi comes into ID again, and the row of the addi shows it.
theorem trace_wrongRow :
    ∃ sim : QuickSimulator PipelinedCpu, (create kMemorySize).load loopWords = some sim ∧
      (sim.run (List.replicate 6 .step)).ctl.processor.cycle = 6 ∧
      (sim.run (List.replicate 6 .step)).trace.head?.map TraceRow.cells =
        some ["IF", "ID", "EX", "MEM", "WB", "ID"] ∧
      ¬Attributed sim.ctl.processor 6 (sim.run (List.replicate 6 .step)).trace := by
  obtain ⟨sim, hload, hloaded, htimer, hprocessor⟩ :=
    load_create (show loopWords.length * 4 ≤ kMemorySize by decide)
  have hfresh := fresh_load hload
  obtain ⟨-, -, hrun, htrace⟩ := run_steps hloaded htimer hfresh.trace 6
  have hloop : sim.ctl.processor = loopCpu (loopMemory kMemorySize) := hprocessor
  rw [hloop] at htrace
  have hps : ∀ {n}, n ≤ 6 →
      ((loopCpu (loopMemory kMemorySize)).run n).ps = ((loopCpu (loopMemory 16)).run n).ps := by
    intro n hn
    rw [loopCpu_run (loopMemory_words (by decide)) hn]
  have hsmall : tracedSteps (loopCpu (loopMemory kMemorySize)) 6 =
      tracedSteps (loopCpu (loopMemory 16)) 6 := by
    simp only [tracedSteps, hps (show 1 ≤ 6 by decide), hps (show 2 ≤ 6 by decide),
      hps (show 3 ≤ 6 by decide), hps (show 4 ≤ 6 by decide), hps (show 5 ≤ 6 by decide),
      hps (Nat.le_refl 6)]
  refine ⟨sim, hload, ?_, ?_, ?_⟩
  · rw [hrun, PipelinedCpu.run_cycle, hfresh.cycle]
  · rw [htrace, hsmall]
    decide
  · intro h
    rw [hloop, htrace, hsmall] at h
    have hid : Displays ((loopCpu (loopMemory kMemorySize)).run 6).ps 1 0#32 := by
      rw [hps (Nat.le_refl 6)]
      decide
    obtain ⟨d, hd, -⟩ := (displays_iff ⟨rfl, rfl, rfl, rfl⟩).mp hid
    obtain ⟨i, -, -, -, -, hone⟩ := h.shown (by decide) hd (h.kept rfl hd)
    have hcells : ∀ k ∈ [0, 3], ∃ row, (tracedSteps (loopCpu (loopMemory 16)) 6)[k]? = some row ∧
        row.cell 6 = some (stageName 1) := by
      decide
    obtain ⟨retired, hretired, hcell⟩ := hcells 0 (by decide)
    obtain ⟨fetched, hfetched, hcell'⟩ := hcells 3 (by decide)
    cases (hone hretired hcell).trans (hone hfetched hcell').symm

-- Of the runs whose cycles are reported no other ones do so all along.
theorem meets_of_attributed (hfresh : sim.Fresh) (actions : List Action)
    (hreports : sim.Meets Reports actions)
    (hmax : (sim.run actions).ctl.processor.cycle ≤ TraceRow.kTraceMaxCycles)
    (hshown : ∀ front, front <+: actions →
      Attributed sim.ctl.processor (sim.run front).ctl.processor.cycle (sim.run front).trace) :
    sim.Meets Clear actions :=
  hfresh.shows.meets hfresh.empty hfresh.cycle actions hreports hmax hshown

end Loop

end QuickSimulator

end ClearCore.Quick
