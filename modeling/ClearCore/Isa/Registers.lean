import ClearCore.Isa.Memory
import Mathlib.Logic.Function.Basic

namespace ClearCore.Isa

-- A register index. The source keeps it in a uint8_t and masks it with 0x1F.
abbrev RegIdx := BitVec 5

structure RegisterFile where
  regs : RegIdx → Word
  lastWritten : Option RegIdx

namespace RegisterFile

def initial : RegisterFile := ⟨fun _ => 0#32, none⟩

def read (rf : RegisterFile) (idx : RegIdx) : Word :=
  if idx = 0#5 then 0#32 else rf.regs idx

def write (rf : RegisterFile) (idx : RegIdx) (value : Word) : RegisterFile :=
  if idx = 0#5 then rf else ⟨Function.update rf.regs idx value, some idx⟩

def reset (_ : RegisterFile) : RegisterFile := initial

@[simp] theorem read_zero (rf : RegisterFile) : rf.read 0#5 = 0#32 := rfl

@[simp] theorem write_zero (rf : RegisterFile) (value : Word) : rf.write 0#5 value = rf := rfl

theorem read_write_same (rf : RegisterFile) (idx : RegIdx) (value : Word) (hi : idx ≠ 0#5) :
    (rf.write idx value).read idx = value := by
  simp [write, read, hi]

theorem read_write_ne (rf : RegisterFile) (idx other : RegIdx) (value : Word)
    (hne : other ≠ idx) :
    (rf.write idx value).read other = rf.read other := by
  by_cases hi : idx = 0#5
  · simp [write, hi]
  · simp [write, read, hi, Function.update_of_ne hne]

theorem read_write (rf : RegisterFile) (idx other : RegIdx) (value : Word) :
    (rf.write idx value).read other =
      if other = idx ∧ idx ≠ 0#5 then value else rf.read other := by
  by_cases hne : other = idx
  · subst hne
    by_cases hi : other = 0#5
    · simp [hi]
    · simp [hi, read_write_same]
  · simp [hne, read_write_ne]

end RegisterFile

end ClearCore.Isa
