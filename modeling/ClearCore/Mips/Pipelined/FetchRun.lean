import ClearCore.Mips.Pipelined.FetchPath
import ClearCore.Mips.Pipelined.Progress

-- The fetch address over a whole run.

namespace ClearCore.Mips.PipelinedCpu

open Isa

section Run

variable {cpu : PipelinedCpu} {s : SingleCycleCpu} {k : ℕ}

-- How far the fetch has come on the path after `k` cycles.
def aheadRun (cpu : PipelinedCpu) (s : SingleCycleCpu) (k : ℕ) : ℕ :=
  (cpu.run k).ahead s (cpu.steps k)

-- The fetch after `k` cycles without an exception.
structure Fetching (cpu : PipelinedCpu) (s : SingleCycleCpu) (k : ℕ) : Prop where
  sim : (cpu.run k).Sim (s.run (cpu.steps k)).arch
  fetched : (cpu.run k).FetchedFrom s (cpu.steps k)
  trapped : ∀ i < cpu.steps k, (s.run i).arch.trapped = true →
    i + 1 = cpu.steps k ∧ (cpu.run k).pendingTrap ≠ none
  reached : ∀ i < cpu.aheadRun s k, (s.run i).arch.trapped = false

theorem Empty.aheadRun_zero (h : cpu.Empty) : cpu.aheadRun s 0 = 0 := by
  have hp : (cpu.run 0).pendingTrap = none := h.drained.pendingTrap_eq
  have hx : (cpu.run 0).idEx = {} := h.idEx
  have hi : (cpu.run 0).ifId = {} := h.ifId
  rw [aheadRun, ahead_clear hp, hx, hi]
  rfl

theorem Empty.fetching (h : cpu.Empty) (hsame : cpu.arch = s.arch) : cpu.Fetching s 0 := by
  have hi : (cpu.run 0).ifId = {} := h.ifId
  refine ⟨(h.tracks hsame).sim, ?_, fun i hlt => absurd hlt (Nat.not_lt_zero i), ?_⟩
  · intro hv
    rw [hi] at hv
    cases hv
  · intro i hlt
    rw [h.aheadRun_zero] at hlt
    omega

-- No instruction past EX has trapped if the cycle raises no trap.
theorem Fetching.clear (h : cpu.Fetching s k) (ht : (cpu.run k).runStages.trap = none) :
    ∀ i < cpu.steps k, (s.run i).arch.trapped = false := by
  intro i hi
  by_contra htrapped
  exact (h.trapped i hi (by simpa using htrapped)).2 (trap_none ht).1

theorem Fetching.moves (h : cpu.Fetching s k) (ht : (cpu.run k).runStages.trap = none)
    (hsim : (cpu.run (k + 1)).Sim (s.run (cpu.steps (k + 1))).arch) :
    Moves s (cpu.steps k) (cpu.aheadRun s k) (cpu.aheadRun s (k + 1))
      (cpu.steps (k + 1) + (cpu.run (k + 1)).inFlight) (cpu.run (k + 1)).pc := by
  rw [run_succ, steps_succ] at hsim
  rw [aheadRun, aheadRun, run_succ, steps_succ]
  exact fetch_moves h.sim hsim h.fetched ht

theorem Fetching.step (h : cpu.Fetching s k) (ht : (cpu.run k).runStages.trap = none)
    (hsim : (cpu.run (k + 1)).Sim (s.run (cpu.steps (k + 1))).arch) :
    cpu.Fetching s (k + 1) := by
  have hclear := h.clear ht
  refine ⟨hsim, ?_, ?_, ?_⟩
  · rw [run_succ, steps_succ]
    exact h.fetched.step h.sim ht
  · intro i hi htrapped
    rw [steps_succ, advance_eq (trap_none ht).1] at hi ⊢
    by_cases hlt : i < cpu.steps k
    · rw [hclear i hlt] at htrapped
      cases htrapped
    · have hv : (cpu.run k).idEx.valid = true := by
        by_contra hv
        rw [Bool.not_eq_true] at hv
        rw [hv] at hi
        simp at hi
        omega
      rw [hv] at hi ⊢
      obtain rfl : i = cpu.steps k := by
        simp at hi
        omega
      refine ⟨rfl, ?_⟩
      rw [run_succ]
      exact (h.sim.step_pending_iff ht hv).mpr (by rw [h.sim.trapsInMem_eq ht hv, htrapped])
  · intro i hi
    cases h.moves ht hsim with
    | arrives hw _ hnt _ =>
      rw [hw] at hi
      rcases (Nat.lt_succ_iff.mp hi).lt_or_eq with hlt | rfl
      · exact h.reached i hlt
      · exact hnt
    | strays hw m _ _ =>
      rw [hw] at hi
      exact h.reached i hi

theorem sim_run (h : cpu.Empty) (hsame : cpu.arch = s.arch)
    (hfresh : ∀ steps, s.NoSelfModification steps) (k : ℕ) :
    (cpu.run k).Sim (s.run (cpu.steps k)).arch :=
  (tracks_run h hsame (hfresh k) k le_rfl).sim

theorem fetching_run (h : cpu.Empty) (hsame : cpu.arch = s.arch)
    (hfresh : ∀ steps, s.NoSelfModification steps)
    (hok : ∀ i < k, (cpu.run i).runStages.trap = none) : cpu.Fetching s k := by
  induction k with
  | zero => exact h.fetching hsame
  | succ k ih =>
    exact (ih fun i hi => hok i (by omega)).step (hok k (by omega)) (sim_run h hsame hfresh (k + 1))

theorem le_past (s : SingleCycleCpu) (n : ℕ) : n ≤ s.past n := by
  unfold SingleCycleCpu.past
  split <;> omega

theorem le_ahead (cpu : PipelinedCpu) (s : SingleCycleCpu) (n : ℕ)
    (hp : cpu.pendingTrap = none) : n ≤ cpu.ahead s n := by
  rw [ahead_clear hp]
  have h := le_past s n
  have h' := le_past s (n + 1)
  split
  · exact le_rfl
  · exact h
  · exact Nat.le_succ n
  · split <;> omega

-- Without exceptions EX comes to every position.
theorem steps_unbounded (hok : ∀ i, (cpu.run i).runStages.trap = none) (n : ℕ) :
    ∃ k, n ≤ cpu.steps k := by
  have hcross : ∀ {k}, (cpu.run k).idEx.valid = true → cpu.steps (k + 1) = cpu.steps k + 1 := by
    intro k hv
    rw [steps_succ, advance_eq (trap_none (hok k)).1, hv, Bool.toNat_true]
  have hmono : ∀ k, cpu.steps k ≤ cpu.steps (k + 1) := fun k => by rw [steps_succ]; omega
  have hdecoded : ∀ {k}, (cpu.run k).ifId.valid = true → ∃ j, cpu.steps k + 1 ≤ cpu.steps j := by
    intro k hi
    cases hv : (cpu.run k).idEx.valid with
    | true => exact ⟨k + 1, (hcross hv).ge⟩
    | false =>
      obtain ⟨-, hx, -⟩ := step_of_bubble (trap_none (hok k)).1 hv
      have hxv : (cpu.run (k + 1)).idEx.valid = true := by
        rw [run_succ, hx, idStage_valid, hi]
      have hle := hmono k
      exact ⟨k + 2, by rw [hcross hxv]; omega⟩
  induction n with
  | zero => exact ⟨0, Nat.zero_le _⟩
  | succ n ih =>
    obtain ⟨k, hk⟩ := ih
    cases hv : (cpu.run k).idEx.valid with
    | true => exact ⟨k + 1, by rw [hcross hv]; omega⟩
    | false =>
      cases hi : (cpu.run k).ifId.valid with
      | true =>
        obtain ⟨j, hj⟩ := hdecoded hi
        exact ⟨j, by omega⟩
      | false =>
        obtain ⟨-, -, hif⟩ := step_of_bubble (trap_none (hok k)).1 hv
        have hiv : (cpu.run (k + 1)).ifId.valid = true := by
          rw [run_succ, hif hi, fetch_valid]
        obtain ⟨j, hj⟩ := hdecoded hiv
        have hle := hmono k
        exact ⟨j, by omega⟩

-- Where the pipeline stops, the fetch has come past the position at which the single-cycle
-- CPU does.
theorem stopped_ahead (h : cpu.Empty) (hsame : cpu.arch = s.arch)
    (hfresh : ∀ steps, s.NoSelfModification steps) (hk : cpu.Fetching s k)
    (hstop : (cpu.run k).step.1 ≠ .Ok) :
    ∃ n ≤ cpu.aheadRun s k, (s.run n).step.1 ≠ .Ok := by
  have htrapped : ∀ {n}, (s.run n).arch.trapped = true → (s.run n).step.1 ≠ .Ok := by
    intro n htrapped
    rw [(s.run n).trapped_iff.mpr htrapped]
    decide
  cases hres : (cpu.run k).step.1 with
  | Ok => exact absurd hres hstop
  | Fault =>
    have hstep : (cpu.run k).step.1 = stepResult (cpu.run k).runStages := rfl
    rw [hstep, stepResult] at hres
    split_ifs at hres
  | Halt =>
    have hm := marked_run h hsame (hfresh k) (k := k) le_rfl
    obtain ⟨hv, hself⟩ := (hm.halt_iff hk.sim).mp hres
    obtain ⟨hspins, hp⟩ := hm.wbSpins hv hself
    refine ⟨cpu.steps k, le_ahead _ s _ hp, ?_⟩
    rw [SingleCycleCpu.halt_of_spins hspins]
    decide
  | Exception =>
    obtain ⟨n, htrapped', hn, -⟩ := (tracks_run h hsame (hfresh k) k le_rfl).exception hres
    refine ⟨n, ?_, htrapped htrapped'⟩
    cases hp : (cpu.run k).pendingTrap with
    | none =>
      have hle := le_ahead _ s (cpu.steps k) hp
      have hone : (cpu.run k).advance.toNat ≤ 1 := by cases (cpu.run k).advance <;> simp
      rw [aheadRun]
      omega
    | some trap =>
      have hadv : (cpu.run k).advance = false := by simp [advance, hp]
      have hahead : cpu.aheadRun s k = cpu.steps k - 1 := by simp [aheadRun, ahead, hp]
      rw [hadv, Bool.toNat_false] at hn
      omega

end Run

end ClearCore.Mips.PipelinedCpu
