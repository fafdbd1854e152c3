import ClearCore.Quick.Simulator.Freshness

-- The lines of the memory pane can be read back, and what they say is what was in memory.

namespace ClearCore.Quick

open Isa Mips Qt Numeral

-- Where the digits of byte `b` of a line are, and its character.
def hexColumn (b : ℕ) : ℕ := 10 + 3 * b + if 7 < b then 1 else 0

def asciiColumn (b : ℕ) : ℕ := 61 + b

def readAddress (line : Text) : ℕ := ofDigits 16 (line.take 8)

def readCell (line : Text) (b : ℕ) : Option Byte :=
  let digits := (line.drop (hexColumn b)).take 2
  if digits = "--".toList then none else some (BitVec.ofNat 8 (ofDigits 16 digits))

section Cells

variable {byte : Byte} {cell : Option Byte} {b : ℕ}

theorem length_byteDigits (byte : Byte) :
    (zeroPadded 2 (Nat.toDigits 16 byte.toNat)).length = 2 :=
  length_hexPadded (by decide) byte.isLt

theorem length_hexCell (cell : Option Byte) (b : ℕ) :
    (hexCell cell b).length = 3 + if b = 7 then 1 else 0 := by
  have hgap : (if b = 7 then [' '] else []).length = if b = 7 then 1 else 0 := by
    split <;> rfl
  cases cell with
  | none => rw [hexCell, List.length_append, hgap]; rfl
  | some byte =>
    rw [hexCell, List.length_append, List.length_append, length_byteDigits, hgap]
    rfl

-- The digits of a cell are its first two characters.
theorem take_hexCell_some (byte : Byte) (b : ℕ) (rest : Text) :
    (hexCell (some byte) b ++ rest).take 2 = zeroPadded 2 (Nat.toDigits 16 byte.toNat) := by
  rw [hexCell, List.append_assoc, List.append_assoc]
  exact List.take_left' (length_byteDigits byte)

theorem take_hexCell_none (b : ℕ) (rest : Text) :
    (hexCell none b ++ rest).take 2 = "--".toList := rfl

-- No byte looks like a missing one.
theorem byteDigits_ne (byte : Byte) :
    zeroPadded 2 (Nat.toDigits 16 byte.toNat) ≠ "--".toList := by
  intro heq
  have hdigits : ∀ c ∈ zeroPadded 2 (Nat.toDigits 16 byte.toNat), isDigit 16 c = true := by
    apply isDigit_zeroPadded (by decide)
    rw [toDigits_eq (by decide) le_rfl]
    exact DigitStyle.isDigit_digits _ _ _
  rw [heq] at hdigits
  exact absurd (hdigits '-' (by decide)) (by decide)

theorem length_cells (cell : ℕ → Option Byte) (n : ℕ) :
    ((List.range n).flatMap fun b => hexCell (cell b) b).length =
      3 * n + if 7 < n then 1 else 0 := by
  induction n with
  | zero => rfl
  | succ n ih =>
    rw [List.range_succ, List.flatMap_append, List.length_append, ih, List.flatMap_singleton,
      length_hexCell]
    split <;> split <;> split <;> omega

-- The cell of byte `b` with what is behind it.
theorem drop_cells (cell : ℕ → Option Byte) (hb : b < 16) :
    ∃ rest, ((List.range 16).flatMap fun b => hexCell (cell b) b).drop
      (3 * b + if 7 < b then 1 else 0) = hexCell (cell b) b ++ rest := by
  have hsplit : List.range 16 = List.range b ++ (List.range (16 - b)).map (b + ·) := by
    rw [← List.range_add]
    congr 1
    omega
  obtain ⟨m, hm⟩ : ∃ m, 16 - b = m + 1 := ⟨15 - b, by omega⟩
  rw [hsplit, List.flatMap_append, ← length_cells cell b, List.drop_left, hm,
    List.range_succ_eq_map, List.map_cons, List.flatMap_cons]
  exact ⟨_, rfl⟩

end Cells

section Line

variable {mem : Memory} {addr : Word} {b : ℕ}

theorem length_addressDigits (addr : Word) :
    (zeroPadded 8 (Nat.toDigits 16 addr.toNat)).length = 8 :=
  length_hexPadded (by decide) addr.isLt

theorem readAddress_memoryRow (mem : Memory) (addr : Word) :
    readAddress (memoryRow mem addr) = addr.toNat := by
  have htake : (memoryRow mem addr).take 8 = zeroPadded 8 (Nat.toDigits 16 addr.toNat) := by
    rw [memoryRow]
    simp only [List.append_assoc]
    exact List.take_left' (length_addressDigits addr)
  rw [readAddress, htake, ofDigits_hexPadded]

-- A line from its hex columns on.
theorem memoryRow_eq (mem : Memory) (addr : Word) :
    ∃ front, front.length = 10 ∧ memoryRow mem addr = front ++
      (((List.range 16).flatMap fun b => hexCell (mem.readByte (addr + BitVec.ofNat 32 b)) b) ++
        (" |".toList ++ (((List.range 16).map fun b =>
          asciiCell (mem.readByte (addr + BitVec.ofNat 32 b))) ++ "|".toList))) := by
  refine ⟨zeroPadded 8 (Nat.toDigits 16 addr.toNat) ++ "  ".toList, ?_, ?_⟩
  · rw [List.length_append, length_addressDigits]
    rfl
  · rw [memoryRow]
    simp only [List.append_assoc]

theorem readCell_memoryRow (mem : Memory) (addr : Word) (hb : b < 16) :
    readCell (memoryRow mem addr) b = mem.readByte (addr + BitVec.ofNat 32 b) := by
  obtain ⟨front, hfront, hrow⟩ := memoryRow_eq mem addr
  obtain ⟨rest, hrest⟩ := drop_cells (fun b => mem.readByte (addr + BitVec.ofNat 32 b)) hb
  have hin : 3 * b + (if 7 < b then 1 else 0) ≤ ((List.range 16).flatMap fun b =>
      hexCell (mem.readByte (addr + BitVec.ofNat 32 b)) b).length := by
    rw [length_cells]
    split <;> split <;> omega
  rw [readCell, hrow, hexColumn, Nat.add_assoc, ← hfront, List.drop_length_add_append,
    List.drop_append_of_le_length hin, hrest, List.append_assoc]
  cases mem.readByte (addr + BitVec.ofNat 32 b) with
  | none => rw [take_hexCell_none, if_pos rfl]
  | some byte =>
    rw [take_hexCell_some, if_neg (byteDigits_ne byte), ofDigits_hexPadded, BitVec.ofNat_toNat,
      BitVec.setWidth_eq]

theorem getElem?_ascii (mem : Memory) (addr : Word) (hb : b < 16) :
    (memoryRow mem addr)[asciiColumn b]? =
      some (asciiCell (mem.readByte (addr + BitVec.ofNat 32 b))) := by
  obtain ⟨front, hfront, hrow⟩ := memoryRow_eq mem addr
  have hcells := length_cells (fun b => mem.readByte (addr + BitVec.ofNat 32 b)) 16
  rw [if_pos (by decide)] at hcells
  have hcolumn : asciiColumn b = front.length + (3 * 16 + 1 + (2 + b)) := by
    rw [hfront, asciiColumn]
    omega
  rw [hrow, hcolumn, List.getElem?_append_right (Nat.le_add_right _ _), Nat.add_sub_cancel_left,
    ← hcells, List.getElem?_append_right (Nat.le_add_right _ _), Nat.add_sub_cancel_left,
    List.getElem?_append_right (Nat.le_add_right 2 b),
    List.getElem?_append_left (by simpa using hb)]
  simp [hb]

end Line

-- Every byte of the lines is read back from its cell, and the character beside it is its own.
theorem memoryRows_readBack (mem : Memory) (base : Word) {rows i : ℕ} (hi : i < 16 * rows) :
    ∃ row, (memoryRows mem base rows)[i / 16]? = some row ∧
      readAddress row = ((base &&& ~~~0xF#32) + BitVec.ofNat 32 (16 * (i / 16))).toNat ∧
      readCell row (i % 16) = mem.readByte ((base &&& ~~~0xF#32) + BitVec.ofNat 32 i) ∧
      row[asciiColumn (i % 16)]? =
        some (asciiCell (mem.readByte ((base &&& ~~~0xF#32) + BitVec.ofNat 32 i))) := by
  have hlt : i / 16 < rows := by omega
  have hb : i % 16 < 16 := Nat.mod_lt i (by decide)
  have haddr : (base &&& ~~~0xF#32) + BitVec.ofNat 32 (16 * (i / 16)) +
      BitVec.ofNat 32 (i % 16) = (base &&& ~~~0xF#32) + BitVec.ofNat 32 i := by
    rw [BitVec.add_assoc, ← BitVec.ofNat_add, Nat.div_add_mod]
  refine ⟨memoryRow mem ((base &&& ~~~0xF#32) + BitVec.ofNat 32 (16 * (i / 16))), ?_, ?_, ?_, ?_⟩
  · rw [memoryRows, List.getElem?_map, List.getElem?_range hlt]
    rfl
  · exact readAddress_memoryRow mem _
  · rw [readCell_memoryRow mem _ hb, haddr]
  · rw [getElem?_ascii mem _ hb, haddr]

-- In every state the bytes that the memory pane shows are those that were in memory after some of
-- the inputs, less than 5000 cycles ago, line by line from the base address on.
theorem dump_shown {memBytes : ℕ} {inputs : List Ui.Input} {ui : Ui}
    (hrun : (Ui.create memBytes).run inputs = some ui) :
    ∃ (old : SimulatorController Processor) (k : ℕ),
      (Ui.create memBytes).Visited inputs old ∧
      k ≤ IMipsProcessor.cycleCount ui.sim.ctl.processor % 5000 ∧
      ui.sim.ctl.processor = (old.steps k).processor ∧
      ∀ i < 1024, ∃ row, ui.qml.dump[i / 16]? = some row ∧
        readAddress row =
          ((ui.qml.baseAddress &&& ~~~0xF#32) + BitVec.ofNat 32 (16 * (i / 16))).toNat ∧
        readCell row (i % 16) = (IMipsProcessor.mem old.processor).readByte
          ((ui.qml.baseAddress &&& ~~~0xF#32) + BitVec.ofNat 32 i) ∧
        row[asciiColumn (i % 16)]? = some (asciiCell ((IMipsProcessor.mem old.processor).readByte
          ((ui.qml.baseAddress &&& ~~~0xF#32) + BitVec.ofNat 32 i))) := by
  obtain ⟨k, h⟩ := (Ui.lags_create ⟨[], _, List.nil_prefix, rfl, rfl⟩).run hrun fun _ => id
  obtain ⟨old, -, -, hprocessor, -, j, hj, mid, hvisited, hmid, hdump⟩ := h.lag
  have hbound := h.bound
  refine ⟨mid, k - j, hvisited, by omega, ?_, fun i hi => ?_⟩
  · rw [hprocessor, SimulatorController.steps_processor, SimulatorController.steps_processor, hmid,
      SimulatorController.steps_processor, ← Function.iterate_add_apply, Nat.sub_add_cancel hj]
  · rw [hdump]
    exact memoryRows_readBack _ _ (by omega)

set_option maxRecDepth 8000 in
-- The dump does not show yet what has been stored.
theorem dump_shown_fullSpeed : ∃ ui row old,
    (Ui.create 16).run Ui.storeInputs = some ui ∧ ui.sim.memory.readByte 8#32 = some 7#8 ∧
      ui.qml.dump[0]? = some row ∧ readCell row 8 = some 0#8 ∧
      (Ui.create 16).Visited Ui.storeInputs old ∧
      (IMipsProcessor.mem old.processor).readByte 8#32 = some 0#8 := by
  have hfull : ((Ui.create 16).run Ui.storeInputs).map (fun ui =>
      (ui.sim.memory.readByte 8#32, ui.qml.baseAddress, ui.qml.dump[0]?.map (readCell · 8))) =
        some (some 7#8, 0#32, some (some 0#8)) := by decide
  obtain ⟨ui, hrun, hcells⟩ := Option.map_eq_some_iff.mp hfull
  simp only [Prod.mk.injEq] at hcells
  obtain ⟨hstored, hbase, hdump⟩ := hcells
  obtain ⟨old, k, hold, -, -, hshown⟩ := dump_shown hrun
  obtain ⟨row, hrow, -, hcell, -⟩ := hshown 8 (by decide)
  have hzero : readCell row 8 = some 0#8 := by
    rw [hrow] at hdump
    exact Option.some.inj hdump
  refine ⟨ui, row, old, hrun, hstored, hrow, hzero, hold, ?_⟩
  rw [hbase] at hcell
  exact hcell.symm.trans hzero

end ClearCore.Quick
