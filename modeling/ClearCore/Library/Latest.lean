import Mathlib.Data.List.Basic
import Mathlib.Order.Defs.PartialOrder
import Mathlib.Tactic.Common

-- The search of a list for its latest candidate: one pass that replaces what it has found by
-- a later candidate only, so that the first of two equally late ones stands.

namespace Latest

variable {α : Type*} (candidate : α → Bool) (time : α → ℕ)

-- The position and the entry found so far, and the position of the entry that comes next.
def searchFrom (found : Option (ℕ × α)) (i : ℕ) : List α → Option (ℕ × α)
  | [] => found
  | a :: rest =>
      let later := found.all fun f => decide (time f.2 < time a)
      searchFrom (if candidate a && later then some (i, a) else found) (i + 1) rest

def search (entries : List α) : Option (ℕ × α) := searchFrom candidate time none 0 entries

-- What has been found in a list: a candidate of its that no other is later than.
def Found (entries : List α) : Option (ℕ × α) → Prop
  | none => ∀ a ∈ entries, candidate a = false
  | some (i, a) =>
      entries[i]? = some a ∧ candidate a = true ∧
        ∀ b ∈ entries, candidate b = true → time b ≤ time a

variable {candidate time} {entries : List α} {a : α} {i : ℕ}

-- One more entry that is no candidate, or not later than the one found.
theorem Found.keep {found : Option (ℕ × α)} (h : Found candidate time entries found)
    (hno : (candidate a && found.all fun f => decide (time f.2 < time a)) = false) :
    Found candidate time (entries ++ [a]) found := by
  cases found with
  | none =>
    have ha : candidate a = false := by simpa using hno
    intro b hb
    rcases List.mem_append.mp hb with hb | hb
    · exact h b hb
    · rw [List.mem_singleton.mp hb]
      exact ha
  | some f =>
    obtain ⟨hi, hc, hmax⟩ := h
    refine ⟨?_, hc, ?_⟩
    · have hlt := (List.getElem?_eq_some_iff.mp hi).1
      rw [List.getElem?_append_left hlt]
      exact hi
    · intro b hb hcb
      rcases List.mem_append.mp hb with hb | hb
      · exact hmax b hb hcb
      · rw [List.mem_singleton.mp hb] at hcb ⊢
        simpa [hcb] using hno

theorem Found.replace {found : Option (ℕ × α)} (h : Found candidate time entries found)
    (hyes : (candidate a && found.all fun f => decide (time f.2 < time a)) = true) :
    Found candidate time (entries ++ [a]) (some (entries.length, a)) := by
  obtain ⟨hc, hlater⟩ := Bool.and_eq_true_iff.mp hyes
  refine ⟨by simp, hc, ?_⟩
  intro b hb hcb
  rcases List.mem_append.mp hb with hb | hb
  · cases found with
    | none =>
      rw [h b hb] at hcb
      cases hcb
    | some f =>
      have hlt : time f.2 < time a := by simpa using hlater
      exact Nat.le_trans (h.2.2 b hb hcb) (Nat.le_of_lt hlt)
  · exact Nat.le_of_eq (congrArg time (List.mem_singleton.mp hb))

theorem searchFrom_found (rest : List α) {found : Option (ℕ × α)}
    (h : Found candidate time entries found) :
    Found candidate time (entries ++ rest)
      (searchFrom candidate time found entries.length rest) := by
  induction rest generalizing entries found with
  | nil => simpa [searchFrom] using h
  | cons a rest ih =>
    have hstep : Found candidate time (entries ++ [a])
        (if candidate a && found.all fun f => decide (time f.2 < time a)
          then some (entries.length, a) else found) := by
      split
      · exact h.replace ‹_›
      · exact h.keep (Bool.eq_false_iff.mpr ‹_›)
    have hrest := ih hstep
    rwa [List.append_assoc, List.singleton_append, List.length_append] at hrest

theorem search_found (candidate : α → Bool) (time : α → ℕ) (entries : List α) :
    Found candidate time entries (search candidate time entries) := by
  have hnone : Found candidate time [] none := fun _ hmem => absurd hmem List.not_mem_nil
  exact searchFrom_found entries hnone

theorem search_eq_none (h : ∀ a ∈ entries, candidate a = false) :
    search candidate time entries = none := by
  have hfound := search_found candidate time entries
  cases hs : search candidate time entries with
  | none => rfl
  | some f =>
    rw [hs] at hfound
    obtain ⟨hi, hc, -⟩ := hfound
    rw [h f.2 (List.mem_of_getElem? hi)] at hc
    cases hc

-- A candidate that all others are earlier than is the one found.
theorem search_eq_some (ha : entries[i]? = some a) (hc : candidate a = true)
    (hlast : ∀ {j b}, entries[j]? = some b → candidate b = true → time a ≤ time b → j = i) :
    search candidate time entries = some (i, a) := by
  have hfound := search_found candidate time entries
  cases hs : search candidate time entries with
  | none =>
    rw [hs] at hfound
    rw [hfound a (List.mem_of_getElem? ha)] at hc
    cases hc
  | some f =>
    obtain ⟨j, b⟩ := f
    rw [hs] at hfound
    obtain ⟨hj, hb, hmax⟩ := hfound
    obtain rfl := hlast hj hb (hmax a (List.mem_of_getElem? ha) hc)
    rw [ha] at hj
    rw [Option.some.inj hj]

-- In a descending list the first entry with a property is the greatest one with it.
theorem find?_eq_some_of_descending {ι : Type*} [Preorder ι] {p : ι → Bool} {s : ι}
    {l : List ι} (hl : l.Pairwise (· > ·)) :
    l.find? p = some s ↔ s ∈ l ∧ p s = true ∧ ∀ i ∈ l, s < i → p i = false := by
  induction l with
  | nil => simp
  | cons a l ih =>
    obtain ⟨hbelow, hl⟩ := List.pairwise_cons.mp hl
    cases hp : p a with
    | false =>
      rw [List.find?_cons_of_neg (by simp [hp]), ih hl]
      constructor
      · rintro ⟨hs, hps, hno⟩
        refine ⟨List.mem_cons_of_mem a hs, hps, fun i hi hlt => ?_⟩
        rcases List.mem_cons.mp hi with rfl | hi
        · exact hp
        · exact hno i hi hlt
      · rintro ⟨hs, hps, hno⟩
        rcases List.mem_cons.mp hs with rfl | hs
        · rw [hp] at hps
          cases hps
        · exact ⟨hs, hps, fun i hi => hno i (List.mem_cons_of_mem a hi)⟩
    | true =>
      rw [List.find?_cons_of_pos (by simp [hp]), Option.some.injEq]
      constructor
      · rintro rfl
        refine ⟨List.mem_cons_self, hp, fun i hi hlt => ?_⟩
        rcases List.mem_cons.mp hi with rfl | hi
        · exact absurd hlt (lt_irrefl _)
        · exact absurd hlt (lt_asymm (hbelow i hi))
      · rintro ⟨hs, -, hno⟩
        rcases List.mem_cons.mp hs with rfl | hs
        · rfl
        · rw [hno a List.mem_cons_self (hbelow s hs)] at hp
          cases hp

end Latest
