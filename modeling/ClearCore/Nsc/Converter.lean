import ClearCore.Library.Numeral

namespace ClearCore.Nsc

-- The value of an alphanumeric digit, and -1 for anything else.
def digitValue (c : Char) : ℤ :=
  if '0' ≤ c ∧ c ≤ '9' then c.toNat - '0'.toNat
  else if 'a' ≤ c ∧ c ≤ 'z' then c.toNat - 'a'.toNat + 10
  else if 'A' ≤ c ∧ c ≤ 'Z' then c.toNat - 'A'.toNat + 10
  else -1

-- What parse_base rejects before it calls stoull.
def rejects (base : ℕ) (c : Char) : Bool :=
  decide (digitValue c < 0) || decide (digitValue c ≥ base)

def parseBase (str : List Char) (base : ℕ) : Option (BitVec 64) :=
  if str.isEmpty then none
  else if str.any (rejects base) then none
  else
    match Numeral.stoull base str with
    | none => none
    | some (value, consumed) => if consumed ≠ str.length then none else some value

-- The loop of to_binary, which finds the low bit first.
def binaryLoop (value : BitVec 64) (out : List Char) : List Char :=
  if value = 0#64 then out
  else binaryLoop (value >>> 1) (out ++ [Char.ofNat ('0'.toNat + (value &&& 1#64).toNat)])
termination_by value.toNat
decreasing_by
  rename_i h
  have hpos : value.toNat ≠ 0 := fun hz => h (BitVec.eq_of_toNat_eq hz)
  rw [BitVec.toNat_ushiftRight, Nat.shiftRight_eq_div_pow]
  omega

def toBinary (value : BitVec 64) : List Char :=
  if value = 0#64 then ['0'] else (binaryLoop value []).reverse

def toHex (value : BitVec 64) : List Char := Numeral.upperHex value.toNat

def toDecimal (value : BitVec 64) : List Char := Numeral.decimal value.toNat

-- Zeros in front until the length is a multiple of 4.
def padLeft (bits : List Char) : List Char :=
  if bits.length % 4 ≠ 0 then padLeft ('0' :: bits) else bits
termination_by (4 - bits.length % 4) % 4
decreasing_by
  rw [List.length_cons]
  omega

-- The bits from index `i` on, with a space in front of every fourth one but the first.
def groupFrom : ℕ → List Char → List Char
  | _, [] => []
  | i, b :: bits => (if 0 < i ∧ i % 4 = 0 then [' '] else []) ++ b :: groupFrom (i + 1) bits

def groupBits (value : BitVec 64) : List Char := groupFrom 0 (padLeft (toBinary value))

inductive Base
  | Binary | Decimal | Hex
deriving DecidableEq, Repr

-- The value of an enumerator is its radix.
def Base.radix : Base → ℕ
  | .Binary => 2
  | .Decimal => 10
  | .Hex => 16

structure Converter where
  value : BitVec 64 := 0#64
deriving DecidableEq, Repr

namespace Converter

def update (c : Converter) (text : List Char) (base : Base) : Bool × Converter :=
  match parseBase text base.radix with
  | some value => (true, { value })
  | none => (false, c)

-- as() of the source
def render (c : Converter) : Base → List Char
  | .Binary => toBinary c.value
  | .Decimal => toDecimal c.value
  | .Hex => toHex c.value

def bits (c : Converter) : List Char := groupBits c.value

end Converter

end ClearCore.Nsc
