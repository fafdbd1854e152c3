import Mathlib.Algebra.Ring.Int.Defs
import Mathlib.Algebra.Ring.Nat

namespace ClearCore.Isa

abbrev Byte := BitVec 8
abbrev Half := BitVec 16
abbrev Word := BitVec 32

-- Flat little-endian RAM. `data` is the std::vector behind isa::Memory.
structure Memory where
  data : Array Byte
deriving DecidableEq

namespace Memory

def ofSize (sizeBytes : Nat) : Memory := ⟨Array.replicate sizeBytes 0⟩

def size (mem : Memory) : Nat := mem.data.size

-- The source adds in 64 bits, so `addr + n` never wraps.
def inBounds (mem : Memory) (addr : Word) (n : Nat) : Bool :=
  decide (addr.toNat + n ≤ mem.data.size)

-- `data_[addr]`, used only where the access is known to be in bounds.
def byteAt (mem : Memory) (addr : Word) : Byte := mem.data.getD addr.toNat 0

-- `data_[addr] = value`
def setByte (mem : Memory) (addr : Word) (value : Byte) : Memory :=
  ⟨mem.data.setIfInBounds addr.toNat value⟩

def wordAt (mem : Memory) (addr : Word) : Word :=
  (mem.byteAt addr).setWidth 32 ||| (mem.byteAt (addr + 1)).setWidth 32 <<< 8 |||
    (mem.byteAt (addr + 2)).setWidth 32 <<< 16 ||| (mem.byteAt (addr + 3)).setWidth 32 <<< 24

def setWord (mem : Memory) (addr value : Word) : Memory :=
  (((mem.setByte addr ((value &&& 0xFF).setWidth 8)).setByte (addr + 1)
    (((value >>> 8) &&& 0xFF).setWidth 8)).setByte (addr + 2)
    (((value >>> 16) &&& 0xFF).setWidth 8)).setByte (addr + 3)
    (((value >>> 24) &&& 0xFF).setWidth 8)

def readWord (mem : Memory) (addr : Word) : Option Word :=
  if addr &&& 0x3 ≠ 0 ∨ ¬mem.inBounds addr 4 then none else some (mem.wordAt addr)

def readHalf (mem : Memory) (addr : Word) : Option Half :=
  if addr &&& 0x1 ≠ 0 ∨ ¬mem.inBounds addr 2 then none
  else some ((mem.byteAt addr).setWidth 16 ||| (mem.byteAt (addr + 1)).setWidth 16 <<< 8)

def readByte (mem : Memory) (addr : Word) : Option Byte :=
  if ¬mem.inBounds addr 1 then none else some (mem.byteAt addr)

-- The writes return `none` where the source returns false and writes nothing.
def writeWord (mem : Memory) (addr value : Word) : Option Memory :=
  if addr &&& 0x3 ≠ 0 ∨ ¬mem.inBounds addr 4 then none else some (mem.setWord addr value)

def writeHalf (mem : Memory) (addr : Word) (value : Half) : Option Memory :=
  if addr &&& 0x1 ≠ 0 ∨ ¬mem.inBounds addr 2 then none
  else some ((mem.setByte addr ((value &&& 0xFF).setWidth 8)).setByte (addr + 1)
    (((value >>> 8) &&& 0xFF).setWidth 8))

def writeByte (mem : Memory) (addr : Word) (value : Byte) : Option Memory :=
  if ¬mem.inBounds addr 1 then none else some (mem.setByte addr value)

-- The loop of load_words, from element `i` on. A failed write_word is ignored there.
def loadWordsFrom (addr : Word) : Nat → List Word → Memory → Memory
  | _, [], mem => mem
  | i, word :: words, mem =>
      loadWordsFrom addr (i + 1) words
        ((mem.writeWord (addr + BitVec.ofNat 32 (i * 4)) word).getD mem)

-- What load_words does when it returns: whether the words fit, and the memory.
def loadWordsFits (mem : Memory) (addr : Word) (words : List Word) : Bool × Memory :=
  if ¬mem.inBounds addr (words.length * 4) then (false, mem)
  else (true, loadWordsFrom addr 0 words mem)

-- `none` is the failed Expects on a misaligned base, which ends the program.
def loadWords (mem : Memory) (addr : Word) (words : List Word) : Option (Bool × Memory) :=
  if addr &&& 0x3 ≠ 0 then none else some (mem.loadWordsFits addr words)

def reset (mem : Memory) : Memory := ofSize mem.size

end Memory

end ClearCore.Isa
