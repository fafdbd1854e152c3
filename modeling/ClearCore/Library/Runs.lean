import Mathlib.Data.List.Basic
import Mathlib.Tactic.Common

-- The maximal runs of positions below a bound at which a predicate holds, found by a scan.
-- A run is its start and its length.

namespace Runs

structure MaximalRun (p : ℕ → Bool) (n : ℕ) (run : ℕ × ℕ) : Prop where
  pos : 0 < run.2
  inside : run.1 + run.2 ≤ n
  holds : ∀ i, run.1 ≤ i → i < run.1 + run.2 → p i = true
  -- it goes on neither to the left nor to the right
  left : ∀ i, i + 1 = run.1 → p i = false
  right : run.1 + run.2 < n → p (run.1 + run.2) = false

-- A further run, which continues the last one if it starts where that ends.
def extend (runs : List (ℕ × ℕ)) (start len : ℕ) : List (ℕ × ℕ) :=
  match runs.getLast? with
  | none => [(start, len)]
  | some last =>
      if last.1 + last.2 = start then runs.dropLast ++ [(last.1, last.2 + len)]
      else runs ++ [(start, len)]

-- The runs below `n`, one position at a time.
def scan (p : ℕ → Bool) : ℕ → List (ℕ × ℕ)
  | 0 => []
  | n + 1 => if p n then extend (scan p n) n 1 else scan p n

variable {p : ℕ → Bool} {n : ℕ}

-- It continues the last run, or stands alone.
theorem extend_cases (runs : List (ℕ × ℕ)) (start len : ℕ) :
    (∃ front first count, runs = front ++ [(first, count)] ∧ first + count = start ∧
      extend runs start len = front ++ [(first, count + len)]) ∨
    (∀ last ∈ runs.getLast?, last.1 + last.2 ≠ start) ∧
      extend runs start len = runs ++ [(start, len)] := by
  rcases List.eq_nil_or_concat' runs with rfl | ⟨front, ⟨first, count⟩, rfl⟩
  · exact .inr ⟨by simp, rfl⟩
  · rw [extend, List.getLast?_concat]
    dsimp only
    by_cases h : first + count = start
    · rw [if_pos h, List.dropLast_concat]
      exact .inl ⟨front, first, count, rfl, h, rfl⟩
    · rw [if_neg h]
      exact .inr ⟨fun last hlast => by rw [← Option.some.inj hlast]; exact h, rfl⟩

theorem extend_concat (runs : List (ℕ × ℕ)) (start count len : ℕ) :
    extend (runs ++ [(start, count)]) (start + count) len = runs ++ [(start, count + len)] := by
  rw [extend, List.getLast?_concat]
  dsimp only
  rw [if_pos rfl, List.dropLast_concat]

-- A run can be added in two parts.
theorem extend_extend (runs : List (ℕ × ℕ)) (start len len' : ℕ) :
    extend (extend runs start len) (start + len) len' = extend runs start (len + len') := by
  rcases extend_cases runs start len with ⟨front, first, count, rfl, rfl, heq⟩ | ⟨hapart, heq⟩
  · rw [heq, Nat.add_assoc, extend_concat, extend_concat, Nat.add_assoc]
  · rw [heq, extend_concat]
    rcases extend_cases runs start (len + len') with ⟨front, first, count, rfl, hend, -⟩ | ⟨-, heq'⟩
    · exact absurd hend (hapart (first, count) List.getLast?_concat)
    · exact heq'.symm

-- Over positions at which the predicate holds the scan adds one run.
theorem scan_holds {start len : ℕ} (hpos : 0 < len)
    (h : ∀ i, start ≤ i → i < start + len → p i = true) :
    scan p (start + len) = extend (scan p start) start len := by
  induction len with
  | zero => cases hpos
  | succ len ih =>
    have hlast : p (start + len) = true := h _ (by omega) (by omega)
    rw [← Nat.add_assoc, scan, if_pos hlast]
    cases len with
    | zero => rfl
    | succ len =>
      rw [ih (by omega) fun i hi hlt => h i hi (by omega), extend_extend]

-- And over positions at which it does not hold, none.
theorem scan_fails {start len : ℕ} (h : ∀ i, start ≤ i → i < start + len → p i = false) :
    scan p (start + len) = scan p start := by
  induction len with
  | zero => rfl
  | succ len ih =>
    have hlast : p (start + len) = false := h _ (by omega) (by omega)
    rw [← Nat.add_assoc, scan, hlast, if_neg Bool.false_ne_true,
      ih fun i hi hlt => h i hi (by omega)]

-- The runs that have been found lie apart, in order.
structure Separated (n : ℕ) (runs : List (ℕ × ℕ)) : Prop where
  ordered : runs.Pairwise fun a b => a.1 + a.2 < b.1
  below : ∀ run ∈ runs, run.1 + run.2 ≤ n

-- If the last run does not end at `n`, none does.
theorem Separated.apart {runs : List (ℕ × ℕ)} (h : Separated n runs)
    (hlast : ∀ last ∈ runs.getLast?, last.1 + last.2 ≠ n) : ∀ run ∈ runs, run.1 + run.2 ≠ n := by
  rcases List.eq_nil_or_concat' runs with rfl | ⟨front, last, rfl⟩
  · simp
  · intro run hr
    rcases List.mem_append.mp hr with hr | hr
    · obtain ⟨-, -, hbefore⟩ := List.pairwise_append.mp h.ordered
      have hlt := hbefore run hr last (List.mem_singleton_self _)
      have hle := h.below last (by simp)
      omega
    · rw [List.mem_singleton.mp hr]
      exact hlast last List.getLast?_concat

theorem Separated.extend {runs : List (ℕ × ℕ)} (h : Separated n runs) (len : ℕ) :
    Separated (n + len) (extend runs n len) := by
  rcases extend_cases runs n len with ⟨front, first, count, rfl, hend, heq⟩ | ⟨hapart, heq⟩
  · obtain ⟨hfront, -, hlast⟩ := List.pairwise_append.mp h.ordered
    rw [heq]
    constructor
    · refine List.pairwise_append.mpr ⟨hfront, List.pairwise_singleton _ _, fun a ha b hb => ?_⟩
      rw [List.mem_singleton.mp hb]
      exact hlast a ha (first, count) (List.mem_singleton_self _)
    · intro run hr
      rcases List.mem_append.mp hr with hr | hr
      · exact Nat.le_add_right_of_le (h.below run (List.mem_append_left _ hr))
      · rw [List.mem_singleton.mp hr]
        dsimp only
        omega
  · rw [heq]
    constructor
    · refine List.pairwise_append.mpr ⟨h.ordered, List.pairwise_singleton _ _, fun a ha b hb => ?_⟩
      rw [List.mem_singleton.mp hb]
      exact Nat.lt_of_le_of_ne (h.below a ha) (h.apart hapart a ha)
    · intro run hr
      rcases List.mem_append.mp hr with hr | hr
      · exact Nat.le_add_right_of_le (h.below run hr)
      · obtain rfl := List.mem_singleton.mp hr
        exact Nat.le_refl _

theorem scan_separated (p : ℕ → Bool) (n : ℕ) : Separated n (scan p n) := by
  induction n with
  | zero => exact ⟨.nil, by simp [scan]⟩
  | succ n ih =>
    rw [scan]
    split
    · exact ih.extend 1
    · exact ⟨ih.ordered, fun run hr => Nat.le_succ_of_le (ih.below run hr)⟩

-- Every position at which the predicate holds is in a run that was found.
theorem scan_covers {i : ℕ} (hi : i < n) (hp : p i = true) :
    ∃ run ∈ scan p n, run.1 ≤ i ∧ i < run.1 + run.2 := by
  induction n with
  | zero => cases hi
  | succ n ih =>
    by_cases hlast : i = n
    · subst hlast
      rw [scan, if_pos hp]
      rcases extend_cases (scan p i) i 1 with ⟨front, first, count, -, hend, heq⟩ | ⟨-, heq⟩
      · rw [heq]
        exact ⟨(first, count + 1), by simp, by dsimp only; omega, by dsimp only; omega⟩
      · rw [heq]
        exact ⟨(i, 1), by simp, Nat.le_refl _, Nat.lt_succ_self _⟩
    · obtain ⟨run, hr, hle, hlt⟩ := ih (by omega)
      rw [scan]
      split
      · rcases extend_cases (scan p n) n 1 with ⟨front, first, count, hs, -, heq⟩ | ⟨-, heq⟩
        · rw [hs, List.mem_append, List.mem_singleton] at hr
          rw [heq]
          rcases hr with hr | rfl
          · exact ⟨run, List.mem_append_left _ hr, hle, hlt⟩
          · exact ⟨(first, count + 1), by simp, hle, by dsimp only at hlt ⊢; omega⟩
        · rw [heq]
          exact ⟨run, List.mem_append_left _ hr, hle, hlt⟩
      · exact ⟨run, hr, hle, hlt⟩

-- And every run that was found is maximal.
theorem scan_maximal : ∀ run ∈ scan p n, MaximalRun p n run := by
  induction n with
  | zero => simp [scan]
  | succ n ih =>
    have hsep := scan_separated p n
    -- a run that does not go on at `n` stays maximal
    have hkeep : ∀ run ∈ scan p n, run.1 + run.2 < n ∨ p n = false →
        MaximalRun p (n + 1) run := by
      intro run hr hend
      have hmax := ih run hr
      refine ⟨hmax.pos, Nat.le_succ_of_le hmax.inside, hmax.holds, hmax.left, fun hlt => ?_⟩
      rcases hend with hend | hend
      · exact hmax.right hend
      · by_cases heq : run.1 + run.2 = n
        · rwa [heq]
        · exact hmax.right (by omega)
    intro run hr
    rw [scan] at hr
    cases hp : p n with
    | false =>
      rw [hp, if_neg Bool.false_ne_true] at hr
      exact hkeep run hr (.inr hp)
    | true =>
      rw [if_pos hp] at hr
      rcases extend_cases (scan p n) n 1 with ⟨front, first, count, hs, hend, heq⟩ | ⟨hapart, heq⟩
      · obtain ⟨-, -, hbefore⟩ := List.pairwise_append.mp (hs ▸ hsep.ordered)
        rw [heq] at hr
        rcases List.mem_append.mp hr with hr | hr
        · have hlt := hbefore run hr _ (List.mem_singleton_self _)
          exact hkeep run (by rw [hs]; exact List.mem_append_left _ hr) (.inl (by
            dsimp only at hlt
            omega))
        · have hlast := ih (first, count) (by rw [hs]; simp)
          rw [List.mem_singleton.mp hr]
          refine ⟨Nat.succ_pos _, by dsimp only; omega, fun i hle hlt => ?_, hlast.left,
            fun hlt => absurd hlt (by dsimp only; omega)⟩
          by_cases hi : i = n
          · rwa [hi]
          · exact hlast.holds i hle (by dsimp only at hlt ⊢; omega)
      · have hne := hsep.apart hapart
        rw [heq] at hr
        rcases List.mem_append.mp hr with hr | hr
        · exact hkeep run hr (.inl (Nat.lt_of_le_of_ne (hsep.below run hr) (hne run hr)))
        · rw [List.mem_singleton.mp hr]
          refine ⟨Nat.succ_pos _, Nat.le_refl _, fun i hle hlt => ?_, fun i hi => ?_,
            fun hlt => absurd hlt (Nat.lt_irrefl _)⟩
          · obtain rfl : i = n := by
              dsimp only at hle hlt
              omega
            exact hp
          · -- a run that holds at the position before would end at `n`
            by_contra hholds
            dsimp only at hi
            obtain ⟨before, hb, hle, hlt⟩ :=
              scan_covers (n := n) (by omega) (by simpa using hholds : p i = true)
            have hbelow := hsep.below before hb
            exact hne before hb (by omega)

theorem MaximalRun.eq {run run' : ℕ × ℕ} (h : MaximalRun p n run) (h' : MaximalRun p n run')
    {i : ℕ} (hi : run.1 ≤ i ∧ i < run.1 + run.2) (hi' : run'.1 ≤ i ∧ i < run'.1 + run'.2) :
    run = run' := by
  have hside : ∀ a b : ℕ × ℕ, MaximalRun p n a → MaximalRun p n b → a.1 ≤ i → i < b.1 + b.2 →
      b.1 ≤ i → i < a.1 + a.2 → a.1 ≤ b.1 ∧ a.1 + a.2 ≤ b.1 + b.2 := by
    intro a b ha hb hai hib hbi hia
    constructor
    · by_contra hlt
      have hf := ha.left (a.1 - 1) (by omega)
      rw [hb.holds (a.1 - 1) (by omega) (by omega)] at hf
      cases hf
    · by_contra hlt
      have hinside := ha.inside
      have hf := hb.right (by omega)
      rw [ha.holds (b.1 + b.2) (by omega) (by omega)] at hf
      cases hf
  obtain ⟨h1, h2⟩ := hside run run' h h' hi.1 hi'.2 hi'.1 hi.2
  obtain ⟨h3, h4⟩ := hside run' run h' h hi'.1 hi.2 hi.1 hi'.2
  exact Prod.ext (by omega) (by omega)

-- The scan finds the maximal runs, all of them, in order.
theorem mem_scan {run : ℕ × ℕ} : run ∈ scan p n ↔ MaximalRun p n run := by
  refine ⟨scan_maximal run, fun h => ?_⟩
  have hpos := h.pos
  have hinside := h.inside
  obtain ⟨found, hf, hle, hlt⟩ :=
    scan_covers (n := n) (by omega) (h.holds run.1 (Nat.le_refl _) (by omega))
  rwa [h.eq (scan_maximal found hf) ⟨Nat.le_refl _, by omega⟩ ⟨hle, hlt⟩]

end Runs
