import ClearCore.Mips.Pipelined.FetchRun
import ClearCore.Qt.SimulatorController.Theorems

-- The breakpoints hit by a sequence of doStep calls, on either model.

namespace ClearCore.Qt

open Isa Mips

def Signal.hit : Signal → Option Word
  | .breakpointHit pc => some pc
  | _ => none

namespace SimulatorController

section Hits

variable {P : Type} [IMipsProcessor P]

-- The addresses of the breakpointHit signals of the first `k` calls.
def breakpointHits (ctl : SimulatorController P) (k : ℕ) : List Word :=
  Simulation.trace (fun c => c.doStep.2) (fun c => c.doStep.1.filterMap Signal.hit) ctl k

-- Those of the next call.
def callHits (ctl : SimulatorController P) (k : ℕ) : List Word :=
  (ctl.steps k).doStep.1.filterMap Signal.hit

-- No call before the `k`-th has halted or raised an exception.
def RunsOk (ctl : SimulatorController P) (k : ℕ) : Prop := ∀ i < k, (ctl.steps i).result = .Ok

theorem breakpointHits_succ (ctl : SimulatorController P) (k : ℕ) :
    ctl.breakpointHits (k + 1) = ctl.breakpointHits k ++ ctl.callHits k := rfl

theorem steps_breakpoints (ctl : SimulatorController P) (k : ℕ) :
    (ctl.steps k).breakpoints = ctl.breakpoints := by
  induction k with
  | zero => rfl
  | succ k ih => rw [steps_succ, ← ih]; rfl

-- A call that goes well hits the breakpoint at the PC it leaves.
theorem callHits_eq {ctl : SimulatorController P} {k : ℕ} (h : ctl.RunsOk (k + 1)) :
    ctl.callHits k =
      if IMipsProcessor.pc (ctl.steps (k + 1)).processor ∈ ctl.breakpoints then
        [IMipsProcessor.pc (ctl.steps (k + 1)).processor]
      else [] := by
  have hres := h k (Nat.lt_succ_self k)
  rw [callHits, steps_succ, ← ctl.steps_breakpoints k]
  generalize ctl.steps k = c at hres
  rw [result] at hres
  simp only [doStep, hres]
  by_cases hb : IMipsProcessor.pc (IMipsProcessor.step c.processor).2 ∈ c.breakpoints
  · simp only [hb, decide_true, Bool.and_true, Bool.or_true, if_true]
    rfl
  · simp only [hb, decide_false, Bool.and_false, if_false]
    split <;> rfl

end Hits

-- The breakpoints on the first `n` positions of the path behind the start.
def pathHits (s : SingleCycleCpu) (breakpoints : Finset Word) (n : ℕ) : List Word :=
  Simulation.sequence
    (fun i => if (s.run (i + 1)).pc ∈ breakpoints then [(s.run (i + 1)).pc] else []) n

theorem pathHits_succ (s : SingleCycleCpu) (breakpoints : Finset Word) (n : ℕ) :
    pathHits s breakpoints (n + 1) =
      pathHits s breakpoints n ++
        if (s.run (n + 1)).pc ∈ breakpoints then [(s.run (n + 1)).pc] else [] := rfl

theorem pathHits_isPrefix (s : SingleCycleCpu) (breakpoints : Finset Word) {m n : ℕ}
    (h : m ≤ n) : pathHits s breakpoints m <+: pathHits s breakpoints n :=
  Simulation.sequence_isPrefix _ h

section Models

-- Each call of the single-cycle model hits the breakpoint at the next position of the path.
theorem callHits_singleCycle (ctl : SimulatorController SingleCycleCpu) {k : ℕ}
    (hok : ctl.RunsOk (k + 1)) :
    ctl.callHits k = if (ctl.processor.run (k + 1)).pc ∈ ctl.breakpoints then
      [(ctl.processor.run (k + 1)).pc] else [] := by
  have hproc : (ctl.steps (k + 1)).processor = ctl.processor.run (k + 1) :=
    ctl.steps_processor (k + 1)
  rw [callHits_eq hok, hproc]
  rfl

theorem breakpointHits_singleCycle (ctl : SimulatorController SingleCycleCpu) {n : ℕ}
    (hok : ctl.RunsOk n) :
    ctl.breakpointHits n = pathHits ctl.processor ctl.breakpoints n := by
  induction n with
  | zero => rfl
  | succ n ih =>
    rw [breakpointHits_succ, ih fun i hi => hok i (by omega), callHits_singleCycle ctl hok,
      pathHits_succ]

-- No breakpoint is in the shadow of an instruction of the path up to its first trap.
def Unshadowed (s : SingleCycleCpu) (breakpoints : Finset Word) : Prop :=
  ∀ n, (∀ i < n, (s.run i).arch.trapped = false) → ∀ b, s.Shadow n b → b ∉ breakpoints

variable {ctl : SimulatorController PipelinedCpu} {s : SingleCycleCpu} {k : ℕ}

theorem steps_run (ctl : SimulatorController PipelinedCpu) (k : ℕ) :
    (ctl.steps k).processor = ctl.processor.run k := ctl.steps_processor k

theorem RunsOk.step_ok (hok : ctl.RunsOk k) {i : ℕ} (hi : i < k) :
    (ctl.processor.run i).step.1 = .Ok := by
  rw [← steps_run]
  exact hok i hi

theorem RunsOk.trap_none (hok : ctl.RunsOk k) {i : ℕ} (hi : i < k) :
    (ctl.processor.run i).runStages.trap = none := by
  refine PipelinedCpu.trap_of_step ?_
  rw [hok.step_ok hi]
  decide

-- In the call after the first `k` the fetch comes to position `n` of the path, the next behind
-- the instructions that have been in EX and those that are on their way there.
structure Arrives (ctl : SimulatorController PipelinedCpu) (s : SingleCycleCpu) (k n : ℕ) :
    Prop where
  before : ctl.processor.aheadRun s k + 1 = n
  after : ctl.processor.aheadRun s (k + 1) = n
  behind : n = ctl.processor.steps (k + 1) + (ctl.processor.run (k + 1)).inFlight
  pc : (ctl.processor.run (k + 1)).pc = (s.run n).pc

-- A call hits the breakpoint at the position that the fetch comes to, if it comes to one.
def HitsArrivals (ctl : SimulatorController PipelinedCpu) (s : SingleCycleCpu) (k : ℕ) : Prop :=
  ctl.processor.aheadRun s (k + 1) = ctl.processor.aheadRun s k ∧ ctl.callHits k = [] ∨
    ∃ n, ctl.Arrives s k n ∧
      ctl.callHits k = if (s.run n).pc ∈ ctl.breakpoints then [(s.run n).pc] else []

theorem hitsArrivals (hempty : ctl.processor.Empty)
    (hsame : ctl.processor.arch = s.arch) (hfresh : ∀ steps, s.NoSelfModification steps)
    (hclear : Unshadowed s ctl.breakpoints) (hok : ctl.RunsOk (k + 1)) : ctl.HitsArrivals s k := by
  have hbefore : ctl.RunsOk k := fun i hi => hok i (by omega)
  have hfetch := PipelinedCpu.fetching_run hempty hsame hfresh fun i hi => hbefore.trap_none hi
  have htrap := hok.trap_none (Nat.lt_succ_self k)
  have hhits : ctl.callHits k = if (ctl.processor.run (k + 1)).pc ∈ ctl.breakpoints then
      [(ctl.processor.run (k + 1)).pc] else [] := by
    rw [callHits_eq hok, steps_run]
    rfl
  cases hfetch.moves htrap (PipelinedCpu.sim_run hempty hsame hfresh (k + 1)) with
  | arrives hahead hfull _ hpc =>
    rw [hpc] at hhits
    exact .inr ⟨_, ⟨hahead.symm, rfl, hfull, hpc⟩, hhits⟩
  | strays hahead m hm hshadow =>
    have hnot : (ctl.processor.run (k + 1)).pc ∉ ctl.breakpoints := by
      refine hclear m (fun i hi => ?_) _ hshadow
      by_cases hlt : i < ctl.processor.steps k
      · exact hfetch.clear htrap i hlt
      · exact hm i (by omega) hi
    rw [if_neg hnot] at hhits
    exact .inl ⟨hahead, hhits⟩

-- The pipeline hits the breakpoints the fetch has come to on the path.
theorem breakpointHits_pipelined (hempty : ctl.processor.Empty)
    (hsame : ctl.processor.arch = s.arch) (hfresh : ∀ steps, s.NoSelfModification steps)
    (hclear : Unshadowed s ctl.breakpoints) (hok : ctl.RunsOk k) :
    ctl.breakpointHits k = pathHits s ctl.breakpoints (ctl.processor.aheadRun s k) := by
  induction k with
  | zero =>
    have hahead : ctl.processor.aheadRun s 0 = 0 := hempty.aheadRun_zero
    rw [hahead]
    rfl
  | succ k ih =>
    rw [breakpointHits_succ, ih fun i hi => hok i (by omega)]
    rcases hitsArrivals hempty hsame hfresh hclear hok with ⟨hstays, hhits⟩ | ⟨n, harrives, hhits⟩
    · rw [hstays, hhits, List.append_nil]
    · rw [harrives.after, ← harrives.before, pathHits_succ, harrives.before, hhits]

-- Up to a Halt the path holds all breakpoints there are; behind it there are none.
theorem pathHits_live {breakpoints : Finset Word} (hclear : Unshadowed s breakpoints) {w : ℕ}
    (hnt : ∀ i < w, (s.run i).arch.trapped = false) :
    ∃ n, (∀ i < n, (s.run i).step.1 = .Ok) ∧
      pathHits s breakpoints w = pathHits s breakpoints n := by
  induction w with
  | zero => exact ⟨0, fun i hi => absurd hi (Nat.not_lt_zero i), rfl⟩
  | succ w ih =>
    by_cases hok : ∀ i < w + 1, (s.run i).step.1 = .Ok
    · exact ⟨w + 1, hok, rfl⟩
    · push Not at hok
      obtain ⟨i, hi, hstop⟩ := hok
      have hhalt : (s.run i).step.1 = .Halt := by
        cases hres : (s.run i).step.1 with
        | Ok => exact absurd hres hstop
        | Fault => exact absurd hres (s.run i).step_ne_fault
        | Halt => rfl
        | Exception =>
          rw [SingleCycleCpu.trapped_iff, hnt i hi] at hres
          cases hres
      obtain ⟨n, hn, hhits⟩ := ih fun i hi => hnt i (by omega)
      refine ⟨n, hn, ?_⟩
      rw [pathHits_succ, if_neg (hclear (w + 1) hnt _ (.halted i hi hhalt)), List.append_nil, hhits]

-- The pipeline comes to every position the single-cycle CPU does.
theorem aheadRun_reaches (hempty : ctl.processor.Empty) (hsame : ctl.processor.arch = s.arch)
    (hfresh : ∀ steps, s.NoSelfModification steps) {n : ℕ}
    (hn : ∀ i < n, (s.run i).step.1 = .Ok) :
    ∃ k, ctl.RunsOk k ∧ n ≤ ctl.processor.aheadRun s k := by
  by_cases hall : ∀ k, ctl.RunsOk k
  · have htrap : ∀ i, (ctl.processor.run i).runStages.trap = none :=
      fun i => (hall (i + 1)).trap_none (Nat.lt_succ_self i)
    obtain ⟨k, hk⟩ := PipelinedCpu.steps_unbounded htrap n
    exact ⟨k, hall k, hk.trans (PipelinedCpu.le_ahead _ s _ (PipelinedCpu.trap_none (htrap k)).1)⟩
  · push Not at hall
    classical
    obtain ⟨k, hk⟩ : ∃ k, Nat.find hall = k + 1 := by
      refine Nat.exists_eq_succ_of_ne_zero fun hzero => ?_
      have hstop := Nat.find_spec hall
      rw [hzero] at hstop
      exact hstop fun i hi => absurd hi (Nat.not_lt_zero i)
    have hok : ctl.RunsOk k := by
      have hmin := Nat.find_min hall (m := k) (by omega)
      simpa using hmin
    have hstop : (ctl.processor.run k).step.1 ≠ .Ok := by
      intro hres
      have hspec := Nat.find_spec hall
      rw [hk] at hspec
      refine hspec fun i hi => ?_
      rcases (Nat.lt_succ_iff.mp hi).lt_or_eq with hlt | rfl
      · exact hok i hlt
      · rw [result, steps_run]
        exact hres
    have hfetch := PipelinedCpu.fetching_run hempty hsame hfresh fun i hi => hok.trap_none hi
    obtain ⟨m, hm, hne⟩ := PipelinedCpu.stopped_ahead hempty hsame hfresh hfetch hstop
    refine ⟨k, hok, ?_⟩
    by_contra hlt
    exact hne (hn m (by omega))

end Models

-- Every call of the pipeline hits the breakpoint at the position that the fetch comes to and
-- every call of the single-cycle model the one at the next position, and the breakpoints hit up
-- to the first Halt or Exception are the same.
structure SameHits (ctl : SimulatorController PipelinedCpu)
    (ctl' : SimulatorController SingleCycleCpu) : Prop where
  arrivals : ∀ k, ctl.RunsOk (k + 1) → ctl.HitsArrivals ctl'.processor k
  visits : ∀ k, ctl'.RunsOk (k + 1) →
    ctl'.callHits k = if (ctl'.processor.run (k + 1)).pc ∈ ctl'.breakpoints then
      [(ctl'.processor.run (k + 1)).pc] else []
  pipelined : ∀ k, ctl.RunsOk k → ∃ n, ctl'.RunsOk n ∧
    ctl.breakpointHits k = ctl'.breakpointHits n ∧
    ctl.breakpointHits k = pathHits ctl'.processor ctl'.breakpoints n
  singleCycle : ∀ n, ctl'.RunsOk n →
    ctl'.breakpointHits n = pathHits ctl'.processor ctl'.breakpoints n ∧
    ∃ k, ctl.RunsOk k ∧ ctl'.breakpointHits n <+: ctl.breakpointHits k

-- With no breakpoint in the shadow of an instruction both models hit the breakpoints of the
-- path, in its order and once a visit.
theorem breakpoints_sameHits (ctl : SimulatorController PipelinedCpu)
    (ctl' : SimulatorController SingleCycleCpu) (hempty : ctl.processor.Empty)
    (hsame : ctl.processor.arch = ctl'.processor.arch) (hset : ctl.breakpoints = ctl'.breakpoints)
    (hfresh : ∀ steps, ctl'.processor.NoSelfModification steps)
    (hclear : Unshadowed ctl'.processor ctl'.breakpoints) : SameHits ctl ctl' := by
  have hclear' : Unshadowed ctl'.processor ctl.breakpoints := by rwa [hset]
  have hruns : ∀ {n}, ctl'.RunsOk n ↔ ∀ i < n, (ctl'.processor.run i).step.1 = .Ok := by
    intro n
    have hproc : ∀ i, (ctl'.steps i).processor = ctl'.processor.run i := ctl'.steps_processor
    simp only [RunsOk, result, hproc]
    rfl
  constructor
  case arrivals => exact fun k hok => hitsArrivals hempty hsame hfresh hclear' hok
  case visits => exact fun k hok => callHits_singleCycle ctl' hok
  case pipelined =>
    intro k hok
    have hhits := breakpointHits_pipelined hempty hsame hfresh hclear' hok
    have hfetch := PipelinedCpu.fetching_run hempty hsame hfresh fun i hi => hok.trap_none hi
    obtain ⟨n, hn, hpath⟩ := pathHits_live hclear hfetch.reached
    rw [hset, hpath] at hhits
    refine ⟨n, hruns.mpr hn, ?_, hhits⟩
    rw [hhits, breakpointHits_singleCycle ctl' (hruns.mpr hn)]
  case singleCycle =>
    intro n hok
    have hhits := breakpointHits_singleCycle ctl' hok
    obtain ⟨k, hk, hle⟩ := aheadRun_reaches hempty hsame hfresh (hruns.mp hok)
    refine ⟨hhits, k, hk, ?_⟩
    rw [hhits, breakpointHits_pipelined hempty hsame hfresh hclear' hk, hset]
    exact pathHits_isPrefix _ _ hle

-- spinProgram with a breakpoint on its sw.
def spinPipelined : SimulatorController PipelinedCpu where
  processor := { regs := .initial, mem := PipelinedCpu.spinProgram }
  breakpoints := {4#32}

def spinSingleCycle : SimulatorController SingleCycleCpu where
  processor := { regs := .initial, mem := PipelinedCpu.spinProgram }
  breakpoints := {4#32}

theorem spin_arch {n : ℕ} (h : 2 ≤ n) :
    (spinSingleCycle.processor.run n).arch = (spinSingleCycle.processor.run 2).arch := by
  induction n, h using Nat.le_induction with
  | base => rfl
  | succ n _ ih =>
    rw [SingleCycleCpu.arch_run_succ, ih]
    rfl

-- The program falls through to 8, where it spins; nothing on the way traps or stalls.
theorem spin_falls {n : ℕ} (h : (spinSingleCycle.processor.run n).arch.falls = false) :
    2 ≤ n := by
  by_contra hlt
  obtain rfl | rfl : n = 0 ∨ n = 1 := by omega
  · exact absurd h (by decide)
  · exact absurd h (by decide)

theorem spin_pc {n : ℕ} (h : 2 ≤ n) : (spinSingleCycle.processor.run n).pc = 8#32 :=
  congrArg Arch.pc (spin_arch h)

theorem spin_unshadowed : Unshadowed spinSingleCycle.processor spinSingleCycle.breakpoints := by
  intro n _ b hs hb
  obtain hb : b = 4#32 := Finset.mem_singleton.mp hb
  cases hs with
  | next h =>
    rw [spin_pc (spin_falls h)] at hb
    exact absurd hb (by decide)
  | afterNext h hj =>
    rw [spin_arch (spin_falls h)] at hj
    exact absurd hj (by decide)
  | afterTrap h =>
    have hclear : ∀ i ≤ 2, (spinSingleCycle.processor.run i).arch.trapsInMem = false := by decide
    rcases Nat.le_or_le n 2 with hle | hge
    · rw [hclear n hle] at h
      cases h
    · rw [spin_arch hge, hclear 2 le_rfl] at h
      cases h
  | held _ h =>
    have hclear : ∀ i ≤ 2, (spinSingleCycle.processor.run i).arch.stalls
        (spinSingleCycle.processor.run (i + 1)).arch = false := by decide
    rcases Nat.le_or_le n 2 with hle | hge
    · rw [hclear n hle] at h
      cases h
    · rw [spin_arch hge, spin_arch (Nat.le_succ_of_le hge)] at h
      exact absurd h (by decide)
  | halted i hi h =>
    have hnone : ∀ i < 2, (spinSingleCycle.processor.run i).step.1 ≠ .Halt := by decide
    have hlt : 2 ≤ n := by
      by_contra hlt
      exact hnone i (by omega) h
    rw [spin_pc hlt] at hb
    exact absurd hb (by decide)

theorem breakpoints_sameHits_spin : SameHits spinPipelined spinSingleCycle :=
  breakpoints_sameHits spinPipelined spinSingleCycle ⟨rfl, rfl, rfl, rfl⟩ rfl rfl
    PipelinedCpu.spinProgram_noSelfModification spin_unshadowed

-- j 8; nop; j 8, with a breakpoint on the nop, which is fetched but not executed.
def jumpProgram : Memory := Memory.loadWordsFrom 0#32 0 [0x08000002#32, 0#32, 0x08000002#32] (.ofSize 16)

def jumpPipelined : SimulatorController PipelinedCpu where
  processor := { regs := .initial, mem := jumpProgram }
  breakpoints := {4#32}

def jumpSingleCycle : SimulatorController SingleCycleCpu where
  processor := { regs := .initial, mem := jumpProgram }
  breakpoints := {4#32}

theorem breakpoint_wrongPath :
    jumpPipelined.processor.Empty ∧
      jumpPipelined.processor.arch = jumpSingleCycle.processor.arch ∧
      (∀ steps, jumpSingleCycle.processor.NoSelfModification steps) ∧
      ¬SameHits jumpPipelined jumpSingleCycle := by
  refine ⟨⟨rfl, rfl, rfl, rfl⟩, rfl, fun steps => ?_, ?_⟩
  · refine SingleCycleCpu.noSelfModification_of_spins _ (n := 1) ?_ (by decide) steps
    exact ⟨0x08000002#32, by decide, (selfJump_iff _ _).mp (by decide)⟩
  · rintro ⟨-, -, hpipelined, -⟩
    have hok : jumpPipelined.RunsOk 1 := by
      intro i hi
      obtain rfl : i = 0 := by omega
      decide
    obtain ⟨n, hn, hhits, -⟩ := hpipelined 1 hok
    have hhit : jumpPipelined.breakpointHits 1 = [4#32] := by decide
    have hshort : n ≤ 1 := by
      by_contra hlt
      have hhalt := hn 1 (by omega)
      revert hhalt
      decide
    rw [hhit] at hhits
    have hnone : ∀ i ≤ 1, jumpSingleCycle.breakpointHits i = [] := by decide
    rw [hnone n hshort] at hhits
    cases hhits

end SimulatorController

end ClearCore.Qt
