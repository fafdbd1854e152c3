import Mathlib.Data.List.Basic

-- The parts of a list between separators. Empty parts are dropped.

namespace ClearCore.Tokens

variable {α : Type} (sep : α → Bool)

-- `cur` is the part read so far.
def splitFrom (cur : List α) : List α → List (List α)
  | [] => if cur.isEmpty then [] else [cur]
  | c :: s =>
      if sep c then
        if cur.isEmpty then splitFrom [] s else cur :: splitFrom [] s
      else splitFrom (cur ++ [c]) s

def split (s : List α) : List (List α) := splitFrom sep [] s

variable {sep}

@[simp] theorem split_nil : split sep [] = [] := rfl

theorem split_cons_sep {c : α} (hc : sep c = true) (s : List α) :
    split sep (c :: s) = split sep s := by
  simp [split, splitFrom, hc]

theorem split_sep_append {gap : List α} (hgap : ∀ c ∈ gap, sep c = true) (s : List α) :
    split sep (gap ++ s) = split sep s := by
  induction gap with
  | nil => rfl
  | cons c gap ih =>
    rw [List.cons_append, split_cons_sep (hgap c List.mem_cons_self)]
    exact ih fun c hc => hgap c (List.mem_cons_of_mem _ hc)

-- Characters that are no separators are added to the open part.
theorem splitFrom_append {tok : List α} (htok : ∀ c ∈ tok, sep c = false) (cur s : List α) :
    splitFrom sep cur (tok ++ s) = splitFrom sep (cur ++ tok) s := by
  induction tok generalizing cur with
  | nil => rw [List.nil_append, List.append_nil]
  | cons c tok ih =>
    have hc : sep c = false := htok c List.mem_cons_self
    have hrest := ih (fun c hc => htok c (List.mem_cons_of_mem _ hc)) (cur ++ [c])
    rw [List.cons_append, splitFrom, hc, if_neg Bool.false_ne_true, hrest, List.append_assoc,
      List.singleton_append]

theorem split_token {tok : List α} (hne : tok ≠ []) (htok : ∀ c ∈ tok, sep c = false) :
    split sep tok = [tok] := by
  have h := splitFrom_append htok [] []
  rw [List.append_nil, List.nil_append] at h
  rw [split, h, splitFrom]
  simp [hne]

-- A part, a gap of separators and what follows.
theorem split_token_append {tok gap : List α} (hne : tok ≠ []) (htok : ∀ c ∈ tok, sep c = false)
    (hgap : ∀ c ∈ gap, sep c = true) (hgap' : gap ≠ []) (s : List α) :
    split sep (tok ++ (gap ++ s)) = tok :: split sep s := by
  obtain ⟨c, gap, rfl⟩ := List.exists_cons_of_ne_nil hgap'
  have hc : sep c = true := hgap c List.mem_cons_self
  rw [split, splitFrom_append htok, List.nil_append, List.cons_append, splitFrom, hc, if_pos rfl]
  simp only [List.isEmpty_iff, hne, if_false]
  rw [← split, split_sep_append fun c hc => hgap c (List.mem_cons_of_mem _ hc)]

-- Parts joined by a gap.
theorem split_intercalate {gap : List α} (hgap : ∀ c ∈ gap, sep c = true) (hgap' : gap ≠ [])
    {toks : List (List α)} (htoks : ∀ tok ∈ toks, tok ≠ [] ∧ ∀ c ∈ tok, sep c = false) :
    split sep (gap.intercalate toks) = toks := by
  induction toks with
  | nil => rfl
  | cons tok toks ih =>
    obtain ⟨hne, htok⟩ := htoks tok List.mem_cons_self
    have hrest := ih fun t ht => htoks t (List.mem_cons_of_mem _ ht)
    cases toks with
    | nil => simpa [List.intercalate] using split_token hne htok
    | cons next rest =>
      rw [List.intercalate_cons_cons, List.append_assoc,
        split_token_append hne htok hgap hgap', hrest]

-- A list is its parts, with separators before, between and after them.
inductive Parts (sep : α → Bool) : List α → List (List α) → Prop
  | nil : Parts sep [] []
  | sep {c : α} {s : List α} {toks : List (List α)} (hc : sep c = true) (h : Parts sep s toks) :
      Parts sep (c :: s) toks
  | token {tok s : List α} {toks : List (List α)} (hne : tok ≠ []) (htok : ∀ c ∈ tok, sep c = false)
      (hs : ∀ c ∈ s.head?, sep c = true) (h : Parts sep s toks) : Parts sep (tok ++ s) (tok :: toks)

theorem splitFrom_parts {cur s : List α} (hcur : ∀ c ∈ cur, sep c = false) :
    Parts sep (cur ++ s) (splitFrom sep cur s) := by
  induction s generalizing cur with
  | nil =>
    rw [splitFrom]
    split
    · rename_i hempty
      rw [List.isEmpty_iff.mp hempty]
      exact .nil
    · rename_i hne
      exact .token (by simpa using hne) hcur nofun .nil
  | cons c s ih =>
    have hrest := ih (by simp : ∀ x ∈ ([] : List α), sep x = false)
    rw [List.nil_append] at hrest
    rw [splitFrom]
    split
    · rename_i hc
      split
      · rename_i hempty
        rw [List.isEmpty_iff.mp hempty]
        exact .sep hc hrest
      · rename_i hne
        exact .token (by simpa using hne) hcur (by simpa using hc) (.sep hc hrest)
    · rename_i hc
      have hopen : ∀ x ∈ cur ++ [c], sep x = false := by
        intro x hx
        rcases List.mem_append.mp hx with hx | hx
        · exact hcur x hx
        · rw [List.mem_singleton.mp hx]
          exact Bool.eq_false_iff.mpr hc
      have hparts := ih hopen
      rwa [List.append_assoc, List.singleton_append] at hparts

theorem split_parts (s : List α) : Parts sep s (split sep s) :=
  splitFrom_parts (by simp : ∀ c ∈ ([] : List α), sep c = false)

theorem Parts.eq_split {s : List α} {toks : List (List α)} (h : Parts sep s toks) :
    toks = split sep s := by
  induction h with
  | nil => rfl
  | sep hc _ ih => rw [split_cons_sep hc, ih]
  | @token tok s toks hne htok hs _ ih =>
    cases s with
    | nil => rw [List.append_nil, split_token hne htok, ih, split_nil]
    | cons c s =>
      have hc : sep c = true := hs c rfl
      have hgap : ∀ d ∈ [c], sep d = true := by simpa using hc
      have hsplit := split_token_append hne htok hgap (List.cons_ne_nil c []) s
      rw [List.singleton_append] at hsplit
      rw [hsplit, ih, split_cons_sep hc]

theorem mem_intercalate {gap : List α} {toks : List (List α)} {c : α}
    (h : c ∈ gap.intercalate toks) : c ∈ gap ∨ ∃ tok ∈ toks, c ∈ tok := by
  induction toks with
  | nil => cases h
  | cons tok toks ih =>
    cases toks with
    | nil =>
      rw [List.intercalate_singleton] at h
      exact .inr ⟨tok, List.mem_cons_self, h⟩
    | cons next rest =>
      rw [List.intercalate_cons_cons, List.append_assoc, List.mem_append, List.mem_append] at h
      rcases h with h | h | h
      · exact .inr ⟨tok, List.mem_cons_self, h⟩
      · exact .inl h
      · rcases ih h with hgap | ⟨t, ht, hc⟩
        · exact .inl hgap
        · exact .inr ⟨t, List.mem_cons_of_mem _ ht, hc⟩

-- Joined parts end with a part.
theorem intercalate_eq_append {gap : List α} {toks : List (List α)} (h : toks ≠ []) :
    ∃ front tok, tok ∈ toks ∧ gap.intercalate toks = front ++ tok := by
  induction toks with
  | nil => exact absurd rfl h
  | cons tok toks ih =>
    cases toks with
    | nil => exact ⟨[], tok, List.mem_cons_self, List.intercalate_singleton⟩
    | cons next rest =>
      obtain ⟨front, last, hlast, heq⟩ := ih (List.cons_ne_nil _ _)
      refine ⟨tok ++ gap ++ front, last, List.mem_cons_of_mem _ hlast, ?_⟩
      rw [List.intercalate_cons_cons, heq, List.append_assoc, List.append_assoc, List.append_assoc]

-- A test of all elements, in a form that evaluates.
theorem forall_of_all {p : α → Bool} {b : Bool} {s : List α}
    (h : s.all (fun c => p c == b) = true) : ∀ c ∈ s, p c = b := by
  intro c hc
  exact eq_of_beq (List.all_eq_true.mp h c hc)

end ClearCore.Tokens
