import Mathlib.Algebra.Ring.Int.Defs
import Mathlib.Algebra.Ring.Nat
import Mathlib.Data.Nat.Digits.Defs
import Mathlib.Tactic.Common

-- A byte array as a map from its addresses, with accesses of any width in little-endian
-- order.

-- The number with these bytes, the least significant one first.
def littleEndian (bytes : List (BitVec 8)) : ℕ := Nat.ofDigits 256 (bytes.map BitVec.toNat)

-- The low bytes of a number.
def bytesOf : ℕ → ℕ → List (BitVec 8)
  | 0, _ => []
  | width + 1, value => BitVec.ofNat 8 value :: bytesOf width (value / 256)

structure ByteMap where
  size : ℕ
  byte : ℕ → BitVec 8

namespace ByteMap

-- An access is aligned, and all its bytes exist.
def Accessible (m : ByteMap) (align addr width : ℕ) : Prop := align ∣ addr ∧ addr + width ≤ m.size

instance (m : ByteMap) (align addr width : ℕ) : Decidable (m.Accessible align addr width) :=
  inferInstanceAs (Decidable (_ ∧ _))

def bytes (m : ByteMap) (addr width : ℕ) : List (BitVec 8) :=
  (List.range width).map fun k => m.byte (addr + k)

-- The byte that `bytes`, put at `addr`, leave at `a`.
def covering (addr : ℕ) (bytes : List (BitVec 8)) (a : ℕ) : Option (BitVec 8) :=
  if addr ≤ a then bytes[a - addr]? else none

def put (m : ByteMap) (addr : ℕ) (bytes : List (BitVec 8)) : ByteMap :=
  { m with byte := fun a => (covering addr bytes a).getD (m.byte a) }

-- A naturally aligned read.
def load (m : ByteMap) (width addr : ℕ) : Option ℕ :=
  if m.Accessible width addr width then some (littleEndian (m.bytes addr width)) else none

def store (m : ByteMap) (align addr : ℕ) (bytes : List (BitVec 8)) : Bool × ByteMap :=
  if m.Accessible align addr bytes.length then (true, m.put addr bytes) else (false, m)

@[simp] theorem size_put (m : ByteMap) (addr : ℕ) (bytes : List (BitVec 8)) :
    (m.put addr bytes).size = m.size := rfl

theorem covering_append (addr : ℕ) (front back : List (BitVec 8)) (a : ℕ) :
    covering addr (front ++ back) a =
      (covering (addr + front.length) back a).or (covering addr front a) := by
  unfold covering
  by_cases ha : addr + front.length ≤ a
  · have hfront : front[a - addr]? = none := List.getElem?_eq_none (by omega)
    rw [if_pos (by omega), if_pos ha, if_pos (by omega), hfront, Option.or_none,
      List.getElem?_append_right (by omega), Nat.sub_sub]
  · rw [if_neg ha, Option.none_or]
    by_cases hle : addr ≤ a
    · rw [if_pos hle, if_pos hle, List.getElem?_append_left (by omega)]
    · rw [if_neg hle, if_neg hle]

-- Bytes can be put one part after the other.
theorem put_append (m : ByteMap) (addr : ℕ) (front back : List (BitVec 8)) :
    m.put addr (front ++ back) = (m.put addr front).put (addr + front.length) back := by
  unfold put
  rw [ByteMap.mk.injEq]
  refine ⟨rfl, funext fun a => ?_⟩
  rw [covering_append]
  cases covering (addr + front.length) back a <;> rfl

theorem put_nil (m : ByteMap) (addr : ℕ) : m.put addr [] = m := by
  have hnone : ∀ a, covering addr [] a = none := by simp [covering]
  simp only [put, hnone, Option.getD_none]

-- A read depends on the bytes it reads.
theorem load_congr {m m' : ByteMap} {width addr : ℕ} (hs : m.size = m'.size)
    (h : width ∣ addr → ∀ k < width, m.byte (addr + k) = m'.byte (addr + k)) :
    m.load width addr = m'.load width addr := by
  have hiff : m.Accessible width addr width ↔ m'.Accessible width addr width := by
    rw [Accessible, Accessible, hs]
  unfold load
  by_cases ha : m.Accessible width addr width
  · have hbytes : m.bytes addr width = m'.bytes addr width :=
      List.map_congr_left fun k hk => h ha.1 k (List.mem_range.mp hk)
    rw [if_pos ha, if_pos (hiff.mp ha), hbytes]
  · rw [if_neg ha, if_neg (mt hiff.mpr ha)]

-- The first byte, then the others.
theorem put_cons (m : ByteMap) (addr : ℕ) (b : BitVec 8) (bytes : List (BitVec 8)) :
    m.put addr (b :: bytes) = (m.put addr [b]).put (addr + 1) bytes :=
  m.put_append addr [b] bytes

theorem put_four (m : ByteMap) (addr : ℕ) (a b c d : BitVec 8) :
    m.put addr [a, b, c, d] =
      (((m.put addr [a]).put (addr + 1) [b]).put (addr + 2) [c]).put (addr + 3) [d] := by
  rw [m.put_cons addr a, (m.put addr [a]).put_cons (addr + 1) b, put_cons _ _ c]

end ByteMap

@[simp] theorem length_bytesOf (width value : ℕ) : (bytesOf width value).length = width := by
  induction width generalizing value with
  | zero => rfl
  | succ width ih => rw [bytesOf, List.length_cons, ih]

@[simp] theorem littleEndian_nil : littleEndian [] = 0 := rfl

@[simp] theorem littleEndian_cons (b : BitVec 8) (bytes : List (BitVec 8)) :
    littleEndian (b :: bytes) = b.toNat + 256 * littleEndian bytes := by
  simp [littleEndian, Nat.ofDigits_cons]
