import Mathlib.Logic.Basic
import Mathlib.Order.Basic
import Mathlib.Tactic.Common

-- A line of slots that items enter at slot 0 and go along one slot at a time. An item
-- carries the time it entered at.

namespace Conveyor

variable {α : Type*} (entered : α → ℕ)

-- One move: a new item stands in slot 0, the item of a slot that stays where it was, and
-- every other item one slot on or off the line.
def Move (stays : ℕ → Prop) (now : ℕ) (before after : ℕ → Option α) : Prop :=
  ∀ k a, after k = some a →
    (k = 0 ∧ entered a = now) ∨ (stays k ∧ before k = some a) ∨
      ∃ j, k = j + 1 ∧ ¬stays j ∧ before j = some a

-- All items entered before now, and those further along entered earlier.
structure Ordered (now : ℕ) (slots : ℕ → Option α) : Prop where
  past : ∀ {k a}, slots k = some a → entered a < now
  older : ∀ {i j a b}, i < j → slots i = some a → slots j = some b → entered b < entered a

variable {entered} {now : ℕ} {stays : ℕ → Prop} {before after : ℕ → Option α}

-- An item stands in one slot only.
theorem Ordered.unique {slots : ℕ → Option α} (h : Ordered entered now slots) {i j : ℕ} {a : α}
    (hi : slots i = some a) (hj : slots j = some a) : i = j := by
  rcases Nat.lt_trichotomy i j with hlt | heq | hgt
  · exact absurd (h.older hlt hi hj) (Nat.lt_irrefl _)
  · exact heq
  · exact absurd (h.older hgt hj hi) (Nat.lt_irrefl _)

-- Moving on keeps the order: an item that stays lets none behind it pass.
theorem Move.ordered (m : Move entered stays now before after) (h : Ordered entered now before) :
    Ordered entered (now + 1) after where
  past := by
    intro k a ha
    rcases m k a ha with ⟨-, hnow⟩ | ⟨-, hstay⟩ | ⟨j, -, -, hmove⟩
    · omega
    · exact Nat.lt_succ_of_lt (h.past hstay)
    · exact Nat.lt_succ_of_lt (h.past hmove)
  older := by
    intro i j a b hij ha hb
    have hold : ∃ k, (j = k ∨ j = k + 1 ∧ ¬stays k) ∧ before k = some b := by
      rcases m j b hb with ⟨hzero, -⟩ | ⟨-, hstay⟩ | ⟨k, hk, hleaves, hmove⟩
      · omega
      · exact ⟨j, .inl rfl, hstay⟩
      · exact ⟨k, .inr ⟨hk, hleaves⟩, hmove⟩
    obtain ⟨k, hk, hkb⟩ := hold
    rcases m i a ha with ⟨-, hnow⟩ | ⟨hstays, hstay⟩ | ⟨l, hl, -, hmove⟩
    · rw [hnow]
      exact h.past hkb
    · have hlt : i < k := by
        rcases hk with hk | ⟨hk, hleaves⟩
        · omega
        · have hne : i ≠ k := fun heq => hleaves (heq ▸ hstays)
          omega
      exact h.older hlt hstay hkb
    · exact h.older (by omega) hmove hkb

-- An item that neither stays nor stands one slot on has left the line.
theorem Move.leaves (m : Move entered stays now before after) (h : Ordered entered now before)
    {j : ℕ} {a : α} (hj : before j = some a) (hstays : ¬stays j) (hnext : after (j + 1) ≠ some a)
    (k : ℕ) : after k ≠ some a := by
  intro ha
  rcases m k a ha with ⟨-, hnow⟩ | ⟨hstay, hk⟩ | ⟨l, rfl, -, hl⟩
  · have hpast := h.past hj
    omega
  · obtain rfl := h.unique hj hk
    exact hstays hstay
  · obtain rfl := h.unique hj hl
    exact hnext ha

-- An item off the line stays off it.
theorem Move.gone (m : Move entered stays now before after) {a : α} (hold : entered a < now)
    (h : ∀ k, before k ≠ some a) (k : ℕ) : after k ≠ some a := by
  intro ha
  rcases m k a ha with ⟨-, hnow⟩ | ⟨-, hstay⟩ | ⟨j, -, -, hmove⟩
  · omega
  · exact h k hstay
  · exact h j hmove

section Run

variable {slots : ℕ → ℕ → Option α} {stays : ℕ → ℕ → Prop}

theorem gone_run {a : α} (hold : entered a < now) (h : ∀ k, slots 0 k ≠ some a)
    (hmove : ∀ n, Move entered (stays n) (now + n) (slots n) (slots (n + 1))) (n k : ℕ) :
    slots n k ≠ some a := by
  induction n generalizing k with
  | zero => exact h k
  | succ n ih => exact (hmove n).gone (by omega) ih k

-- An item never goes back, and stands still only while it stays.
theorem forward_run (hordered : ∀ n, Ordered entered (now + n) (slots n))
    (hmove : ∀ n, Move entered (stays n) (now + n) (slots n) (slots (n + 1))) {n i j : ℕ} {a : α}
    (hi : slots n i = some a) (m : ℕ) (hj : slots (n + m) j = some a) :
    i < j ∨ i = j ∧ ∀ l < m, stays (n + l) i := by
  induction m generalizing j with
  | zero => exact .inr ⟨(hordered n).unique hi hj, fun l hl => absurd hl (Nat.not_lt_zero l)⟩
  | succ m ih =>
    rcases hmove (n + m) j a hj with ⟨-, hnow⟩ | ⟨hstays, hstay⟩ | ⟨k, rfl, -, hk⟩
    · have hpast := (hordered n).past hi
      omega
    · rcases ih hstay with hlt | ⟨rfl, hall⟩
      · exact .inl hlt
      · refine .inr ⟨rfl, fun l hl => ?_⟩
        rcases Nat.lt_succ_iff_lt_or_eq.mp hl with hl | rfl
        · exact hall l hl
        · exact hstays
    · rcases ih hk with hlt | ⟨rfl, -⟩
      · exact .inl (Nat.lt_succ_of_lt hlt)
      · exact .inl (Nat.lt_succ_self i)

end Run

end Conveyor
