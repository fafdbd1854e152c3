import ClearCore.Isa.Memory

-- Characters and hexadecimal text of the remote protocol. A char of the source is a
-- byte, a std::string a list of bytes.

namespace ClearCore.Mips.Gdb

open Isa

def byte (c : Char) : Byte := BitVec.ofNat 8 c.toNat

def text (s : String) : List Byte := s.toList.map byte

-- The value of a digit in std::from_chars with base 16.
def hexValue (c : Byte) : Option Nat :=
  if byte '0' ≤ c ∧ c ≤ byte '9' then some (c - byte '0').toNat
  else if byte 'a' ≤ c ∧ c ≤ byte 'f' then some ((c - byte 'a').toNat + 10)
  else if byte 'A' ≤ c ∧ c ≤ byte 'F' then some ((c - byte 'A').toNat + 10)
  else none

-- std::from_chars for a uint32_t in base 16: the value of the leading digits and
-- what follows them. `none` is an error code: no digit, or out of range.
def fromChars (s : List Byte) : Option (Word × List Byte) :=
  let digits := s.takeWhile fun c => (hexValue c).isSome
  let value := digits.foldl (fun v c => v * 16 + (hexValue c).getD 0) 0
  if digits = [] ∨ 2 ^ 32 ≤ value then none
  else some (BitVec.ofNat 32 value, s.drop digits.length)

def parseHex (s : List Byte) : Option Word :=
  if s = [] then none
  else
    match fromChars s with
    | some (v, []) => some v
    | _ => none

def parseHexByte (s : List Byte) (off : Nat) : Option Byte :=
  if off + 2 > s.length then none
  else
    match fromChars ((s.drop off).take 2) with
    | some (v, []) => some (v.setWidth 8)
    | _ => none

-- One digit of printf's "%x".
def hexDigit (n : Nat) : Byte :=
  if n < 10 then byte '0' + BitVec.ofNat 8 n else byte 'a' + BitVec.ofNat 8 (n - 10)

def hexByte (b : Byte) : List Byte := [hexDigit (b.toNat / 16), hexDigit (b.toNat % 16)]

def toHexLe (v : Word) : List Byte :=
  hexByte ((v &&& 0xFF#32).setWidth 8) ++ hexByte (((v >>> 8) &&& 0xFF#32).setWidth 8) ++
    hexByte (((v >>> 16) &&& 0xFF#32).setWidth 8) ++ hexByte (((v >>> 24) &&& 0xFF#32).setWidth 8)

theorem hexValue_hexDigit {n : Nat} (h : n < 16) : hexValue (hexDigit n) = some n := by
  have hall : ∀ m : Fin 16, hexValue (hexDigit m.val) = some m.val := by decide
  exact hall ⟨n, h⟩

theorem fromChars_pair {hi lo : Byte} {h l : Nat} (hh : hexValue hi = some h) (hh' : h < 16)
    (hl : hexValue lo = some l) (hl' : l < 16) :
    fromChars [hi, lo] = some (BitVec.ofNat 32 (h * 16 + l), []) := by
  have hlt : h * 16 + l < 4294967296 := by omega
  simp [fromChars, List.takeWhile, hh, hl, hlt]

end ClearCore.Mips.Gdb
