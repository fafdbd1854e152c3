import Mathlib.Data.List.Basic
import Mathlib.Data.Nat.Basic

-- A seekable input stream of the C++ standard library: what it holds, the position of
-- the next read, and the state flags, which persist until they are cleared.

namespace ClearCore

structure IStream (α : Type) where
  data : List α
  -- whether a seek past the end fails; implementations disagree
  boundedSeek : Bool
  pos : ℕ := 0
  eof : Bool := false
  fail : Bool := false

namespace IStream

variable {α : Type}

def clear (s : IStream α) : IStream α := { s with eof := false, fail := false }

-- read(): the elements stored, fewer than asked for only if the stream ends or had failed.
def read (s : IStream α) (count : ℕ) : List α × IStream α :=
  if s.eof || s.fail then ([], { s with fail := true })
  else
    let out := (s.data.drop s.pos).take count
    if out.length = count then (out, { s with pos := s.pos + count })
    else (out, { s with pos := s.pos + out.length, eof := true, fail := true })

-- seekg() to an absolute position. It clears eofbit, and does nothing after a failure.
def seek (s : IStream α) (pos : ℕ) : IStream α :=
  if s.fail then { s with eof := false }
  else if s.boundedSeek && decide (s.data.length < pos) then { s with eof := false, fail := true }
  else { s with eof := false, pos }

-- seekg(0, std::ios::end)
def seekEnd (s : IStream α) : IStream α :=
  if s.fail then { s with eof := false } else { s with eof := false, pos := s.data.length }

-- tellg(): `none` is -1.
def tell (s : IStream α) : Option ℕ := if s.fail then none else some s.pos

-- A stream over `data` on which nothing has failed. eofbit may be set: every seek
-- clears it.
structure Sound (s : IStream α) (data : List α) : Prop where
  data : s.data = data
  fail : s.fail = false

theorem Sound.seek {s : IStream α} {data : List α} (h : s.Sound data) (pos : ℕ)
    (hpos : pos ≤ data.length) :
    (s.seek pos).Sound data ∧ (s.seek pos).eof = false ∧ (s.seek pos).pos = pos := by
  have hbound : ¬s.data.length < pos := by rw [h.data]; omega
  have hseek : s.seek pos = { s with eof := false, pos } := by
    rw [IStream.seek, h.fail, decide_eq_false hbound, Bool.and_false]
    rfl
  rw [hseek]
  exact ⟨⟨h.data, h.fail⟩, rfl, rfl⟩

-- A read that the data can satisfy.
theorem Sound.read {s : IStream α} {data : List α} (h : s.Sound data) (heof : s.eof = false)
    {count : ℕ} (hcount : s.pos + count ≤ data.length) :
    (s.read count).1 = (data.drop s.pos).take count ∧ (s.read count).2.Sound data := by
  have hlen : ((s.data.drop s.pos).take count).length = count := by
    rw [List.length_take, List.length_drop, h.data]
    omega
  have hread : s.read count = ((s.data.drop s.pos).take count, { s with pos := s.pos + count }) := by
    simp only [IStream.read, heof, h.fail, Bool.or_self, Bool.false_eq_true, if_false, hlen, if_true]
  rw [hread]
  exact ⟨by rw [h.data], ⟨h.data, h.fail⟩⟩

-- A read that it cannot.
theorem read_short {s : IStream α} {count : ℕ} (hcount : s.data.length < s.pos + count)
    (hpos : 0 < count) : (s.read count).2.fail = true := by
  rw [IStream.read]
  split
  · rfl
  · have hlen : ((s.data.drop s.pos).take count).length ≠ count := by
      rw [List.length_take, List.length_drop]
      omega
    rw [if_neg hlen]

end IStream

end ClearCore
