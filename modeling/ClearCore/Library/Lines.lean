import Mathlib.Data.List.Basic

-- The lines of a text, as std::getline reads them until the stream ends.

namespace ClearCore.Lines

-- A property of every character of a text is decided along the text. An instance that decides it
-- for every character there is would also apply, and cannot be run.
instance decidableForallMem (p : Char → Prop) [DecidablePred p] (s : List Char) :
    Decidable (∀ c ∈ s, p c) :=
  List.decidableBAll p s

-- `cur` is the line read so far.
def getlinesFrom (cur : List Char) : List Char → List (List Char)
  | [] => if cur.isEmpty then [] else [cur]
  | c :: s => if c = '\n' then cur :: getlinesFrom [] s else getlinesFrom (cur ++ [c]) s

def getlines (s : List Char) : List (List Char) := getlinesFrom [] s

-- A line that ends, and the last one, which need not.
theorem getlinesFrom_cons {s : List Char} (h : ∀ c ∈ s, c ≠ '\n') (cur rest : List Char) :
    getlinesFrom cur (s ++ '\n' :: rest) = (cur ++ s) :: getlinesFrom [] rest := by
  induction s generalizing cur with
  | nil => simp [getlinesFrom]
  | cons c s ih =>
    rw [List.cons_append, getlinesFrom, if_neg (h c List.mem_cons_self),
      ih (fun x hx => h x (List.mem_cons_of_mem _ hx)), List.append_assoc, List.singleton_append]

theorem getlinesFrom_append {s : List Char} (h : ∀ c ∈ s, c ≠ '\n') (cur : List Char) :
    getlinesFrom cur s = if (cur ++ s).isEmpty then [] else [cur ++ s] := by
  induction s generalizing cur with
  | nil => simp [getlinesFrom]
  | cons c s ih =>
    have hrest := ih (fun x hx => h x (List.mem_cons_of_mem _ hx)) (cur ++ [c])
    rw [getlinesFrom, if_neg (h c List.mem_cons_self), hrest, List.append_assoc,
      List.singleton_append]

end ClearCore.Lines
