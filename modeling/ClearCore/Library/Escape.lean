import Mathlib.Data.List.Basic
import Mathlib.Tactic.Common

-- Escape codes: a symbol that must not appear is sent as an escape symbol followed
-- by its mask.

namespace Escape

variable {α : Type*}

section Encode

variable (esc : α) (mask : α → α)

def encodeSymbol (special : α → Bool) (symbol : α) : List α :=
  if special symbol then [esc, mask symbol] else [symbol]

def encode (special : α → Bool) (text : List α) : List α :=
  text.flatMap (encodeSymbol esc mask special)

variable {esc mask} {special : α → Bool}

@[simp] theorem encode_nil : encode esc mask special [] = [] := rfl

theorem encode_cons (symbol : α) (rest : List α) :
    encode esc mask special (symbol :: rest) =
      encodeSymbol esc mask special symbol ++ encode esc mask special rest := List.flatMap_cons

end Encode

section Decode

variable [DecidableEq α] (esc : α) (mask : α → α)

-- `none` if the code ends inside an escape.
def decode : List α → Option (List α)
  | [] => some []
  | [symbol] => if symbol = esc then none else some [symbol]
  | symbol :: next :: rest =>
      if symbol = esc then (decode rest).map (mask next :: ·)
      else (decode (next :: rest)).map (symbol :: ·)

variable {esc mask}

@[simp] theorem decode_nil : decode esc mask [] = some [] := rfl

theorem decode_escape (next : α) (rest : List α) :
    decode esc mask (esc :: next :: rest) = (decode esc mask rest).map (mask next :: ·) := by
  simp [decode]

theorem decode_cons {symbol : α} (h : symbol ≠ esc) (rest : List α) :
    decode esc mask (symbol :: rest) = (decode esc mask rest).map (symbol :: ·) := by
  cases rest with
  | nil => simp [decode, h]
  | cons next rest => simp [decode, h]

-- A code that decodes can be followed by any other.
theorem decode_append {front back text : List α} (h : decode esc mask front = some text) :
    decode esc mask (front ++ back) = (decode esc mask back).map (text ++ ·) := by
  induction front using decode.induct esc generalizing text with
  | case1 =>
    obtain rfl : [] = text := by simpa using h
    simp
  | case2 => simp [decode] at h
  | case3 symbol hesc =>
    obtain rfl : [symbol] = text := by simpa [decode, hesc] using h
    simp [decode_cons hesc]
  | case4 next rest ih =>
    rw [decode_escape] at h
    obtain ⟨tail, ht, rfl⟩ := Option.map_eq_some_iff.mp h
    rw [List.cons_append, List.cons_append, decode_escape, ih ht, Option.map_map]
    rfl
  | case5 symbol next rest hesc ih =>
    rw [decode_cons hesc] at h
    obtain ⟨tail, ht, rfl⟩ := Option.map_eq_some_iff.mp h
    rw [List.cons_append, decode_cons hesc, ih ht, Option.map_map]
    rfl

theorem decode_eq_none_iff {code : List α} :
    decode esc mask code = none ↔
      ∃ front, code = front ++ [esc] ∧ (decode esc mask front).isSome = true := by
  constructor
  · intro h
    induction code using decode.induct esc with
    | case1 => simp at h
    | case2 => exact ⟨[], rfl, rfl⟩
    | case3 symbol hesc => simp [decode, hesc] at h
    | case4 next rest ih =>
      rw [decode_escape, Option.map_eq_none_iff] at h
      obtain ⟨front, hfront, hsome⟩ := ih h
      exact ⟨esc :: next :: front, by simp [hfront], by simpa [decode_escape] using hsome⟩
    | case5 symbol next rest hesc ih =>
      rw [decode_cons hesc, Option.map_eq_none_iff] at h
      obtain ⟨front, hfront, hsome⟩ := ih h
      exact ⟨symbol :: front, by simp [hfront], by simpa [decode_cons hesc] using hsome⟩
  · rintro ⟨front, rfl, hsome⟩
    obtain ⟨text, ht⟩ := Option.isSome_iff_exists.mp hsome
    rw [decode_append ht]
    simp [decode]

-- Decoding undoes encoding if the escape symbol is itself escaped.
theorem decode_encode {special : α → Bool} (hesc : special esc = true)
    (hmask : ∀ c, special c = true → mask (mask c) = c) (text : List α) :
    decode esc mask (encode esc mask special text) = some text := by
  induction text with
  | nil => rfl
  | cons symbol rest ih =>
    rw [encode_cons, encodeSymbol]
    by_cases hs : special symbol = true
    · rw [if_pos hs, List.cons_append, List.singleton_append, decode_escape, ih, hmask symbol hs]
      rfl
    · have hne : symbol ≠ esc := by
        rintro rfl
        exact hs hesc
      rw [if_neg hs, List.singleton_append, decode_cons hne, ih]
      rfl

end Decode

end Escape
