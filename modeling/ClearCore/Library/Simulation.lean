import Mathlib.Logic.Function.Iterate
import Mathlib.Data.List.Infix
import Mathlib.Tactic.Common

-- Simulation of a step sequence by a deterministic system that emits its events
-- late: an event of the sequence may still be held back in the system's state.

namespace Simulation

variable {γ ε : Type*}

-- The events of the first steps of a run.
def trace (step : γ → γ) (emit : γ → List ε) (start : γ) : ℕ → List ε
  | 0 => []
  | k + 1 => trace step emit start k ++ emit (step^[k] start)

-- The first groups of an event sequence.
def sequence (emit : ℕ → List ε) : ℕ → List ε
  | 0 => []
  | n + 1 => sequence emit n ++ emit n

-- How far a run has advanced in the sequence it simulates.
def position (step : γ → γ) (advance : γ → Bool) (start : γ) : ℕ → ℕ
  | 0 => 0
  | k + 1 => position step advance start k + (advance (step^[k] start)).toNat

@[simp] theorem trace_zero (step : γ → γ) (emit : γ → List ε) (start : γ) :
    trace step emit start 0 = [] := rfl

@[simp] theorem sequence_zero (emit : ℕ → List ε) : sequence emit 0 = [] := rfl

@[simp] theorem position_zero (step : γ → γ) (advance : γ → Bool) (start : γ) :
    position step advance start 0 = 0 := rfl

theorem trace_succ (step : γ → γ) (emit : γ → List ε) (start : γ) (k : ℕ) :
    trace step emit start (k + 1) = trace step emit start k ++ emit (step^[k] start) := rfl

theorem sequence_succ (emit : ℕ → List ε) (n : ℕ) :
    sequence emit (n + 1) = sequence emit n ++ emit n := rfl

theorem trace_eq_sequence (step : γ → γ) (emit : γ → List ε) (start : γ) (k : ℕ) :
    trace step emit start k = sequence (fun i => emit (step^[i] start)) k := by
  induction k with
  | zero => rfl
  | succ k ih => rw [trace_succ, sequence_succ, ih]

theorem sequence_congr {emit emit' : ℕ → List ε} {n : ℕ} (h : ∀ i < n, emit i = emit' i) :
    sequence emit n = sequence emit' n := by
  induction n with
  | zero => rfl
  | succ n ih => rw [sequence_succ, sequence_succ, ih fun i hi => h i (by omega), h n (by omega)]

theorem sequence_isPrefix (emit : ℕ → List ε) {m n : ℕ} (h : m ≤ n) :
    sequence emit m <+: sequence emit n := by
  induction n, h using Nat.le_induction with
  | base => exact List.prefix_rfl
  | succ n _ ih => exact ih.trans (List.prefix_append _ _)

-- A prefix of the first groups ends at the end of a group if no group has more
-- than one event.
theorem sequence_of_isPrefix {emit : ℕ → List ε} (hone : ∀ i, (emit i).length ≤ 1) {n : ℕ}
    {events : List ε} (h : events <+: sequence emit n) :
    ∃ m ≤ n, events = sequence emit m := by
  induction n with
  | zero => exact ⟨0, le_rfl, List.prefix_nil.mp h⟩
  | succ n ih =>
    rw [sequence_succ] at h
    by_cases hl : events.length ≤ (sequence emit n).length
    · obtain ⟨m, hm, he⟩ := ih (List.prefix_of_prefix_length_le h (List.prefix_append _ _) hl)
      exact ⟨m, by omega, he⟩
    · refine ⟨n + 1, le_rfl, ?_⟩
      apply h.eq_of_length_le
      have := hone n
      rw [List.length_append]
      omega

-- Equally many events of one sequence are the same events.
theorem sequence_eq_of_length {emit : ℕ → List ε} {m n : ℕ}
    (h : (sequence emit m).length = (sequence emit n).length) :
    sequence emit m = sequence emit n := by
  rcases le_total m n with hmn | hnm
  · exact (sequence_isPrefix emit hmn).eq_of_length h
  · exact ((sequence_isPrefix emit hnm).eq_of_length h.symm).symm

-- The last event of a sequence of groups, each of at most one event, is a group of
-- its own.
theorem sequence_eq_append_singleton {emit : ℕ → List ε} (hone : ∀ i, (emit i).length ≤ 1)
    {n : ℕ} {events : List ε} {e : ε} (h : sequence emit n = events ++ [e]) :
    ∃ m < n, sequence emit m = events ∧ emit m = [e] := by
  induction n with
  | zero => simp at h
  | succ n ih =>
    rw [sequence_succ] at h
    cases hemit : emit n with
    | nil =>
      rw [hemit, List.append_nil] at h
      obtain ⟨m, hm, hrest⟩ := ih h
      exact ⟨m, by omega, hrest⟩
    | cons f rest =>
      have hlen := hone n
      rw [hemit, List.length_cons] at hlen
      obtain rfl : rest = [] := List.eq_nil_of_length_eq_zero (by omega)
      rw [hemit] at h
      obtain ⟨hs, he⟩ := List.append_inj' h rfl
      exact ⟨n, by omega, hs, hemit.trans he⟩

section Invariant

variable (step : γ → γ) (advance : γ → Bool) (inv : ℕ → ℕ → γ → Prop) (limit : ℕ)

-- An invariant of the step number, the position and the state, kept by every step
-- up to a limit, holds along the run.
theorem invariant_run (start : γ) (hinit : inv 0 0 start)
    (hstep : ∀ k n c, k < limit → inv k n c → inv (k + 1) (n + (advance c).toNat) (step c)) :
    ∀ k ≤ limit, inv k (position step advance start k) (step^[k] start) := by
  intro k hk
  induction k with
  | zero => exact hinit
  | succ k ih =>
    rw [Function.iterate_succ_apply']
    exact hstep _ _ _ hk (ih (by omega))

end Invariant

-- If each step moves events between what is emitted, what is pending and the
-- group it consumes, then emitted and pending events together are the groups
-- consumed so far.
theorem trace_append_pending (step : γ → γ) (advance : γ → Bool)
    (emit pending : γ → List ε) (events : ℕ → List ε) (start : γ) (k : ℕ)
    (hevents : ∀ j < k, emit (step^[j] start) ++ pending (step (step^[j] start)) =
      pending (step^[j] start) ++
        if advance (step^[j] start) then events (position step advance start j) else []) :
    trace step emit start k ++ pending (step^[k] start) =
      pending start ++ sequence events (position step advance start k) := by
  induction k with
  | zero => simp
  | succ k ih =>
    have he := hevents k (Nat.lt_succ_self k)
    rw [Function.iterate_succ_apply', trace_succ, List.append_assoc, he, ← List.append_assoc,
      ih fun j hj => hevents j (by omega), List.append_assoc]
    simp only [position]
    cases hadv : advance (step^[k] start) with
    | true => simp [sequence_succ]
    | false => simp

-- A run that cannot stand still for long: while it does not advance, a measure falls.
section Progress

variable (step : γ → γ) (advance : γ → Bool) (lag : γ → ℕ)

theorem position_add (start : γ) (j k : ℕ) :
    position step advance start (j + k) =
      position step advance start j + position step advance (step^[j] start) k := by
  induction k with
  | zero => rfl
  | succ k ih =>
    rw [← Nat.add_assoc, position, position, ih, Nat.add_comm j k, Function.iterate_add_apply,
      Nat.add_assoc]

theorem exists_advance (hlag : ∀ c, advance c = false → lag (step c) < lag c) (start : γ) :
    ∃ j ≤ lag start, advance (step^[j] start) = true := by
  induction hn : lag start using Nat.strong_induction_on generalizing start with
  | _ n ih =>
    cases hadv : advance start with
    | true => exact ⟨0, Nat.zero_le n, hadv⟩
    | false =>
      have hlt := hlag start hadv
      obtain ⟨j, hj, hat⟩ := ih (lag (step start)) (by omega) (step start) rfl
      exact ⟨j + 1, by omega, hat⟩

-- It advances at least once in every `bound` steps.
theorem lt_bound_mul_position {bound : ℕ} (hlag : ∀ c, advance c = false → lag (step c) < lag c)
    (hbound : ∀ c, lag c < bound) (start : γ) (k : ℕ) :
    k < bound * (position step advance start k + 1) := by
  induction k using Nat.strong_induction_on generalizing start with
  | _ k ih =>
    obtain ⟨j, hj, hadv⟩ := exists_advance step advance lag hlag start
    have hlt := hbound start
    by_cases hk : k ≤ j
    · have hle : bound ≤ bound * (position step advance start k + 1) :=
        Nat.le_mul_of_pos_right _ (by omega)
      omega
    · obtain ⟨rest, rfl⟩ : ∃ rest, k = j + 1 + rest := ⟨k - (j + 1), by omega⟩
      have hrest := ih rest (by omega) (step^[j + 1] start)
      have hpos : position step advance start (j + 1 + rest) =
          position step advance start j + 1 + position step advance (step^[j + 1] start) rest := by
        rw [position_add, position, hadv, Bool.toNat_true]
      have hmul : bound * (position step advance (step^[j + 1] start) rest + 1) + bound ≤
          bound * (position step advance start (j + 1 + rest) + 1) := by
        rw [hpos, ← Nat.mul_succ]
        exact Nat.mul_le_mul_left _ (by omega)
      omega

-- A counter that gains at most one in a step passes each number on its way.
theorem exists_crossing (count : ℕ → ℕ) (hstep : ∀ k, count (k + 1) ≤ count k + 1) {n k : ℕ}
    (hstart : count 0 ≤ n) (hend : n < count k) :
    ∃ j < k, count j = n ∧ count (j + 1) = n + 1 ∧ ∀ i ≤ j, count i ≤ n := by
  have hall : (∀ i ≤ k, count i ≤ n) ∨
      ∃ j < k, count j = n ∧ count (j + 1) = n + 1 ∧ ∀ i ≤ j, count i ≤ n := by
    clear hend
    induction k with
    | zero => exact .inl fun i hi => by rwa [Nat.le_zero.mp hi]
    | succ k ih =>
      rcases ih with hbelow | ⟨j, hj, hcross⟩
      · have hle := hstep k
        have hk := hbelow k le_rfl
        by_cases hnext : count (k + 1) ≤ n
        · refine .inl fun i hi => ?_
          rcases Nat.le_succ_iff.mp hi with hi | rfl
          · exact hbelow i hi
          · exact hnext
        · exact .inr ⟨k, by omega, by omega, by omega, hbelow⟩
      · exact .inr ⟨j, by omega, hcross⟩
  rcases hall with hbelow | hcross
  · have hle := hbelow k le_rfl
    omega
  · exact hcross

end Progress

end Simulation
