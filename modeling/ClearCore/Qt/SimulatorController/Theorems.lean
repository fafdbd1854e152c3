import ClearCore.Mips.Processor.Lemmas
import ClearCore.Qt.SimulatorController
import Mathlib.Logic.Function.Iterate

namespace ClearCore.Qt

open Isa Mips

section Law

variable {P : Type} [IMipsProcessor P] [LawfulProcessor P]

-- Two CPUs that differ at most in the code of the last exception.
def Agree (cpu cpu' : P) : Prop := forget cpu = forget cpu'

theorem Agree.step {cpu cpu' : P} (h : Agree cpu cpu') :
    (IMipsProcessor.step cpu).1 = (IMipsProcessor.step cpu').1 ∧
      Agree (IMipsProcessor.step cpu).2 (IMipsProcessor.step cpu').2 ∧
      ((IMipsProcessor.step cpu).1 = .Exception →
        IMipsProcessor.cp0 (IMipsProcessor.step cpu).2 =
          IMipsProcessor.cp0 (IMipsProcessor.step cpu').2) := by
  obtain ⟨hr, hs, hx⟩ := LawfulProcessor.step_forget cpu
  obtain ⟨hr', hs', hx'⟩ := LawfulProcessor.step_forget cpu'
  rw [show forget cpu = forget cpu' from h] at hr hs hx
  refine ⟨hr.symm.trans hr', hs.symm.trans hs', ?_⟩
  intro he
  rw [← hx he, hx' ((hr'.symm.trans hr).trans he)]

theorem Agree.loadProgram {cpu cpu' : P} (h : Agree cpu cpu') {words : List Word} {addr : Word}
    {fits : Bool} {next : P} (hl : IMipsProcessor.loadProgram cpu words addr = some (fits, next)) :
    ∃ next', IMipsProcessor.loadProgram cpu' words addr = some (fits, next') ∧
      Agree next next' := by
  have hf := LawfulProcessor.loadProgram_forget cpu words addr
  have hf' := LawfulProcessor.loadProgram_forget cpu' words addr
  rw [show forget cpu = forget cpu' from h, hf', hl] at hf
  obtain ⟨⟨fits', next'⟩, hl', he⟩ := Option.map_eq_some_iff.mp hf
  simp only [Prod.map, id_eq, Prod.mk.injEq] at he
  refine ⟨next', ?_, he.2.symm⟩
  rw [hl', he.1]

-- A CPU whose memory has been cleared by a reset is a new one.
theorem agree_reset (cpu : P) :
    Agree (IMipsProcessor.reset cpu true)
      (IMipsProcessor.create (IMipsProcessor.mem cpu).size) := by
  rw [Agree, LawfulProcessor.reset_eq, LawfulProcessor.forget_create]

end Law

namespace SimulatorController

-- What can be read of a controller and its processor between two steps.
structure View where
  regs : RegisterFile
  mem : Memory
  status : Word
  cause : Word
  epc : Word
  badVaddr : Word
  pc : Word
  hi : Word
  lo : Word
  pipelineState : PipelineState
  cycleCount : Nat
  stats : SimulatorStatistics

section Runs

variable {P : Type} [IMipsProcessor P]

def view (ctl : SimulatorController P) : View where
  regs := IMipsProcessor.regs ctl.processor
  mem := IMipsProcessor.mem ctl.processor
  status := (IMipsProcessor.cp0 ctl.processor).status
  cause := (IMipsProcessor.cp0 ctl.processor).cause
  epc := (IMipsProcessor.cp0 ctl.processor).epc
  badVaddr := (IMipsProcessor.cp0 ctl.processor).badVaddr
  pc := IMipsProcessor.pc ctl.processor
  hi := IMipsProcessor.hi ctl.processor
  lo := IMipsProcessor.lo ctl.processor
  pipelineState := IMipsProcessor.pipelineState ctl.processor
  cycleCount := IMipsProcessor.cycleCount ctl.processor
  stats := ctl.stats

def steps (ctl : SimulatorController P) (k : ℕ) : SimulatorController P :=
  (fun c => c.doStep.2)^[k] ctl

def result (ctl : SimulatorController P) : StepResult := (IMipsProcessor.step ctl.processor).1

def lastException (ctl : SimulatorController P) : ExceptionCode :=
  (IMipsProcessor.cp0 ctl.processor).lastExc

theorem steps_succ (ctl : SimulatorController P) (k : ℕ) :
    ctl.steps (k + 1) = (ctl.steps k).doStep.2 := Function.iterate_succ_apply' _ _ _

theorem steps_processor (ctl : SimulatorController P) (k : ℕ) :
    (ctl.steps k).processor = (fun p => (IMipsProcessor.step p).2)^[k] ctl.processor := by
  induction k with
  | zero => rfl
  | succ k ih =>
    rw [steps_succ, Function.iterate_succ_apply', ← ih]
    rfl

-- Any number of steps gives the same results and leaves the same to be read.
structure SameRuns (ctl ctl' : SimulatorController P) : Prop where
  view (k : ℕ) : (ctl.steps k).view = (ctl'.steps k).view
  result (k : ℕ) : (ctl.steps k).result = (ctl'.steps k).result
  lastException (k : ℕ) : (ctl.steps k).result = .Exception →
    (ctl.steps (k + 1)).lastException = (ctl'.steps (k + 1)).lastException

-- What can happen to a controller without a loadProgram.
inductive Follows (ctl : SimulatorController P) : SimulatorController P → Prop
  | refl : Follows ctl ctl
  | doStep {c : SimulatorController P} (h : Follows ctl c) : Follows ctl c.doStep.2
  | reset {c c' : SimulatorController P} {signals : List Signal} (h : Follows ctl c)
      (hreset : c.reset = some (signals, c')) : Follows ctl c'
  | edit {c : SimulatorController P} {processor : P} (h : Follows ctl c)
      (hedit : Edited c.processor processor) : Follows ctl { c with processor }
  | breakpoints {c : SimulatorController P} (h : Follows ctl c) (breakpoints : Finset Word) :
      Follows ctl { c with breakpoints }
  | timer {c : SimulatorController P} (h : Follows ctl c) (timerActive : Bool)
      (timerInterval : Nat) : Follows ctl { c with timerActive, timerInterval }

-- Every history of a controller with a processor of `memBytes` bytes.
inductive History (memBytes : Nat) : SimulatorController P → Prop
  | create : History memBytes (create memBytes)
  | loadProgram {c c' : SimulatorController P} {words : List Word} {addr : Word} {ok : Bool}
      {signals : List Signal} (h : History memBytes c)
      (hload : c.loadProgram words addr = some (ok, signals, c')) : History memBytes c'
  | follows {c c' : SimulatorController P} (h : History memBytes c) (hf : Follows c c') :
      History memBytes c'

end Runs

section Theorems

variable {P : Type} [IMipsProcessor P] [LawfulProcessor P]

theorem view_of_agree {ctl ctl' : SimulatorController P}
    (h : Agree ctl.processor ctl'.processor) (hs : ctl.stats = ctl'.stats) :
    ctl.view = ctl'.view := by
  have hc : (IMipsProcessor.cp0 ctl.processor).forget =
      (IMipsProcessor.cp0 ctl'.processor).forget := by
    rw [← LawfulProcessor.forget_cp0, ← LawfulProcessor.forget_cp0,
      show forget ctl.processor = forget ctl'.processor from h]
  simp only [Cp0.forget, Cp0.mk.injEq, and_true] at hc
  obtain ⟨hstatus, hcause, hepc, hbad⟩ := hc
  simp only [view, hs, hstatus, hcause, hepc, hbad, View.mk.injEq, and_true, true_and]
  rw [← LawfulProcessor.forget_regs ctl.processor, ← LawfulProcessor.forget_mem ctl.processor,
    ← LawfulProcessor.forget_pc ctl.processor, ← LawfulProcessor.forget_hi ctl.processor,
    ← LawfulProcessor.forget_lo ctl.processor,
    ← LawfulProcessor.forget_pipelineState ctl.processor,
    ← LawfulProcessor.forget_cycleCount ctl.processor,
    show forget ctl.processor = forget ctl'.processor from h]
  exact ⟨LawfulProcessor.forget_regs _, LawfulProcessor.forget_mem _,
    LawfulProcessor.forget_pc _, LawfulProcessor.forget_hi _, LawfulProcessor.forget_lo _,
    LawfulProcessor.forget_pipelineState _, LawfulProcessor.forget_cycleCount _⟩

theorem agree_steps {ctl ctl' : SimulatorController P} (h : Agree ctl.processor ctl'.processor)
    (hs : ctl.stats = ctl'.stats) (k : ℕ) :
    Agree (ctl.steps k).processor (ctl'.steps k).processor ∧
      (ctl.steps k).stats = (ctl'.steps k).stats := by
  induction k with
  | zero => exact ⟨h, hs⟩
  | succ k ih =>
    obtain ⟨ha, hst⟩ := ih
    have hnext := ha.step.2.1
    rw [steps_succ, steps_succ]
    refine ⟨hnext, ?_⟩
    have hps : IMipsProcessor.pipelineState (IMipsProcessor.step (ctl.steps k).processor).2 =
        IMipsProcessor.pipelineState (IMipsProcessor.step (ctl'.steps k).processor).2 := by
      rw [← LawfulProcessor.forget_pipelineState, hnext, LawfulProcessor.forget_pipelineState]
    simp only [doStep, hst, hps]

theorem sameRuns_of_agree {ctl ctl' : SimulatorController P}
    (h : Agree ctl.processor ctl'.processor) (hs : ctl.stats = ctl'.stats) :
    SameRuns ctl ctl' := by
  refine ⟨?_, ?_, ?_⟩
  · intro k
    obtain ⟨ha, hst⟩ := agree_steps h hs k
    exact view_of_agree ha hst
  · intro k
    exact (agree_steps h hs k).1.step.1
  · intro k hx
    have hc := (agree_steps h hs k).1.step.2.2 hx
    rw [steps_succ, steps_succ]
    exact congrArg Cp0.lastExc hc

-- The processor a load leaves behind depends on the memory size and the load alone.
theorem loadProgram_agree {memBytes : Nat} {c : SimulatorController P}
    (hsize : (IMipsProcessor.mem c.processor).size = memBytes) {words : List Word} {addr : Word}
    {ok : Bool} {image : P}
    (himage : IMipsProcessor.loadProgram (IMipsProcessor.create memBytes : P) words addr =
      some (ok, image)) :
    ∃ signals c', c.loadProgram words addr = some (ok, signals, c') ∧
      Agree c'.processor image ∧ c'.stats = {} ∧
      c'.loaded = if ok then some { words, addr } else none := by
  have hagree : Agree (IMipsProcessor.create memBytes) (IMipsProcessor.reset c.processor true) := by
    rw [← hsize]
    exact (agree_reset c.processor).symm
  obtain ⟨processor, hload, hp⟩ := hagree.loadProgram himage
  simp only [loadProgram, hload, Option.map_some]
  exact ⟨_, _, rfl, hp.symm, rfl, rfl⟩

theorem reset_agree {memBytes : Nat} {c : SimulatorController P}
    (hsize : (IMipsProcessor.mem c.processor).size = memBytes) {words : List Word} {addr : Word}
    {ok : Bool} {image : P}
    (himage : IMipsProcessor.loadProgram (IMipsProcessor.create memBytes : P) words addr =
      some (ok, image))
    (hloaded : c.loaded = if ok then some { words, addr } else none) :
    ∃ signals c', c.reset = some (signals, c') ∧ Agree c'.processor image ∧ c'.stats = {} ∧
      c'.loaded = c.loaded := by
  have hagree : Agree (IMipsProcessor.create memBytes) (IMipsProcessor.reset c.processor true) := by
    rw [← hsize]
    exact (agree_reset c.processor).symm
  cases ok with
  | true =>
    obtain ⟨processor, hload, hp⟩ := hagree.loadProgram himage
    rw [if_pos rfl] at hloaded
    simp only [reset, hloaded, hload, Option.map_some, if_true]
    exact ⟨_, _, rfl, hp.symm, rfl, rfl⟩
  | false =>
    simp only [Bool.false_eq_true, if_false] at hloaded
    simp only [reset, hloaded]
    refine ⟨_, _, rfl, ?_, rfl, rfl⟩
    rw [LawfulProcessor.loadProgram_misfit himage]
    exact hagree.symm

theorem size_reset {c c' : SimulatorController P} {signals : List Signal}
    (h : c.reset = some (signals, c')) :
    (IMipsProcessor.mem c'.processor).size = (IMipsProcessor.mem c.processor).size := by
  cases hl : c.loaded with
  | none =>
    simp only [reset, hl, Option.some.injEq, Prod.mk.injEq] at h
    rw [← h.2]
    exact LawfulProcessor.size_reset _ _
  | some program =>
    simp only [reset, hl] at h
    obtain ⟨⟨ok, processor⟩, hload, he⟩ := Option.map_eq_some_iff.mp h
    simp only [Prod.mk.injEq] at he
    rw [← he.2]
    exact (LawfulProcessor.size_loadProgram hload).trans (LawfulProcessor.size_reset _ _)

theorem size_follows {c c' : SimulatorController P} (h : Follows c c') :
    (IMipsProcessor.mem c'.processor).size = (IMipsProcessor.mem c.processor).size := by
  induction h with
  | refl => rfl
  | doStep _ ih => exact (LawfulProcessor.size_step _).trans ih
  | reset _ hreset ih => exact (size_reset hreset).trans ih
  | edit _ hedit ih => exact (LawfulProcessor.size_edit hedit).trans ih
  | breakpoints _ _ ih => exact ih
  | timer _ _ _ ih => exact ih

theorem size_history {memBytes : Nat} {c : SimulatorController P} (h : History memBytes c) :
    (IMipsProcessor.mem c.processor).size = memBytes := by
  induction h with
  | create => exact LawfulProcessor.size_create memBytes
  | loadProgram _ hload ih =>
    obtain ⟨⟨ok, processor⟩, hp, he⟩ := Option.map_eq_some_iff.mp hload
    simp only [Prod.mk.injEq] at he
    rw [← he.2.2]
    exact (LawfulProcessor.size_loadProgram hp).trans ((LawfulProcessor.size_reset _ _).trans ih)
  | follows _ hf ih => exact (size_follows hf).trans ih

-- Until the next load the controller remembers what was loaded, and nothing else.
theorem loaded_follows {memBytes : Nat} {c c' : SimulatorController P} (h : Follows c c')
    (hsize : (IMipsProcessor.mem c.processor).size = memBytes) {words : List Word} {addr : Word}
    {ok : Bool} {image : P}
    (himage : IMipsProcessor.loadProgram (IMipsProcessor.create memBytes : P) words addr =
      some (ok, image))
    (hloaded : c.loaded = if ok then some { words, addr } else none) :
    c'.loaded = if ok then some { words, addr } else none := by
  induction h with
  | refl => exact hloaded
  | doStep _ ih => exact ih
  | reset hf hreset ih =>
    obtain ⟨signals, r, hr, -, -, hl⟩ := reset_agree ((size_follows hf).trans hsize) himage ih
    rw [hreset, Option.some.injEq, Prod.mk.injEq] at hr
    rw [hr.2, hl, ih]
  | edit _ _ ih => exact ih
  | breakpoints _ _ ih => exact ih
  | timer _ _ _ ih => exact ih

-- A load, and every reset up to the next load, leaves a controller that behaves like
-- a new one given the same load; if the load does not fit, that is the empty machine.
def ForgetsHistory (memBytes : Nat) (words : List Word) (addr : Word)
    (c : SimulatorController P) : Prop :=
  ∃ ok signals c' signals' fresh,
    ok = decide (addr.toNat + words.length * 4 ≤ memBytes) ∧
    c.loadProgram words addr = some (ok, signals, c') ∧
    (create memBytes).loadProgram words addr = some (ok, signals', fresh) ∧
    SameRuns c' fresh ∧
    (∀ later, Follows c' later → ∃ signals'' r, later.reset = some (signals'', r) ∧
      SameRuns r fresh) ∧
    (ok = false → fresh.view = (create memBytes : SimulatorController P).view)

theorem forgetsHistory {memBytes : Nat} (words : List Word) {addr : Word}
    (ha : addr.toNat % 4 = 0) {c : SimulatorController P} (hc : History memBytes c) :
    ForgetsHistory memBytes words addr c := by
  have hfits := LawfulProcessor.loadProgram_fits (IMipsProcessor.create memBytes : P) words addr
  rw [if_pos ha, LawfulProcessor.size_create] at hfits
  obtain ⟨⟨ok, image⟩, himage, hok⟩ := Option.map_eq_some_iff.mp hfits
  have hsize := size_history hc
  obtain ⟨signals, c', hload, hagree, hstats, hloaded⟩ := loadProgram_agree hsize himage
  obtain ⟨signals', fresh, hload', hagree', hstats', -⟩ :=
    loadProgram_agree (c := create memBytes) (LawfulProcessor.size_create memBytes) himage
  have hsize' : (IMipsProcessor.mem c'.processor).size = memBytes := by
    rw [← size_history (.loadProgram hc hload)]
  refine ⟨ok, signals, c', signals', fresh, hok, hload, hload', ?_, ?_, ?_⟩
  · exact sameRuns_of_agree (hagree.trans hagree'.symm) (hstats.trans hstats'.symm)
  · intro later hf
    have hl := loaded_follows hf hsize' himage hloaded
    obtain ⟨signals'', r, hr, hp, hst, -⟩ :=
      reset_agree ((size_follows hf).trans hsize') himage hl
    exact ⟨signals'', r, hr,
      sameRuns_of_agree (hp.trans hagree'.symm) (hst.trans hstats'.symm)⟩
  · rintro rfl
    rw [LawfulProcessor.loadProgram_misfit himage] at hagree'
    exact view_of_agree hagree' hstats'

end Theorems

-- Load and reset forget history, for both CPU models.
theorem load_and_reset_forget (memBytes : Nat) (words : List Word) (addr : Word)
    (ha : addr.toNat % 4 = 0) :
    (∀ c : SimulatorController SingleCycleCpu, History memBytes c →
      ForgetsHistory memBytes words addr c) ∧
    ∀ c : SimulatorController PipelinedCpu, History memBytes c →
      ForgetsHistory memBytes words addr c :=
  ⟨fun _ hc => forgetsHistory words ha hc, fun _ hc => forgetsHistory words ha hc⟩

theorem load_and_reset_forget_zero :
    ForgetsHistory 16 [0x24010005#32] 0#32 (create 16 : SimulatorController PipelinedCpu).doStep.2 :=
  (load_and_reset_forget 16 [0x24010005#32] 0#32 (by decide)).2 _ (.follows .create (.doStep .refl))

end SimulatorController

end ClearCore.Qt
