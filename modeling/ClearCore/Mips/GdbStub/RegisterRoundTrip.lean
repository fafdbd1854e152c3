import ClearCore.Mips.GdbStub.WriteReplies
import Mathlib.Data.List.TakeWhile

-- The register file as g, G and P transfer it.

namespace ClearCore.Mips

open Isa Isa.Memory Gdb

-- Setting what is there changes nothing.
class LawfulRestore (P : Type) [IMipsProcessor P] : Prop where
  setRegs_regs (cpu : P) : IMipsProcessor.setRegs cpu (IMipsProcessor.regs cpu) = cpu
  setRegs_setRegs (cpu : P) (regs regs' : RegisterFile) :
    IMipsProcessor.setRegs (IMipsProcessor.setRegs cpu regs) regs' =
      IMipsProcessor.setRegs cpu regs'
  setCp0_cp0 (cpu : P) : IMipsProcessor.setCp0 cpu (IMipsProcessor.cp0 cpu) = cpu
  setHi_hi (cpu : P) : IMipsProcessor.setHi cpu (IMipsProcessor.hi cpu) = cpu
  setLo_lo (cpu : P) : IMipsProcessor.setLo cpu (IMipsProcessor.lo cpu) = cpu
  setPc_pc (cpu : P) : IMipsProcessor.setPc cpu (IMipsProcessor.pc cpu) = cpu

instance : LawfulRestore SingleCycleCpu where
  setRegs_regs _ := rfl
  setRegs_setRegs _ _ _ := rfl
  setCp0_cp0 _ := rfl
  setHi_hi _ := rfl
  setLo_lo _ := rfl
  setPc_pc _ := rfl

instance : LawfulRestore PipelinedCpu where
  setRegs_regs _ := rfl
  setRegs_setRegs _ _ _ := rfl
  setCp0_cp0 _ := rfl
  setHi_hi _ := rfl
  setLo_lo _ := rfl
  setPc_pc _ := rfl

namespace GdbStub

-- Two digits in either case, the high one first.
def WritesByte (pair : List Byte) (b : Byte) : Prop :=
  ∃ hi lo h l, pair = [hi, lo] ∧ hexValue hi = some h ∧ hexValue lo = some l ∧
    b.toNat = h * 16 + l

-- Eight digits, the lowest byte first.
def WritesWord (digits : List Byte) (v : Word) : Prop :=
  ∃ p0 p1 p2 p3, digits = p0 ++ (p1 ++ (p2 ++ p3)) ∧ WritesByte p0 (wordByte v 0) ∧
    WritesByte p1 (wordByte v 1) ∧ WritesByte p2 (wordByte v 2) ∧ WritesByte p3 (wordByte v 3)

-- The text holds the 38 values, slot after slot.
def Slots (text : List Byte) (values : ℕ → Word) : Prop :=
  ∃ fields : List (List Byte), text = fields.flatten ∧ fields.length = kNumRegs ∧
    ∀ n field, fields[n]? = some field → WritesWord field (values n)

-- The hexadecimal digits of a register number.
def WritesNumber (digits : List Byte) (n : ℕ) : Prop :=
  digits ≠ [] ∧ (∀ c ∈ digits, (hexValue c).isSome = true) ∧
    digits.foldl (fun v c => v * 16 + (hexValue c).getD 0) 0 = n

section Digits

theorem hexValue_lt {c : Byte} {v : ℕ} (h : hexValue c = some v) : v < 16 := by
  have hall : ∀ c : Byte, (hexValue c).all (fun v => decide (v < 16)) = true := by
    decide
  have hc := hall c
  rw [h] at hc
  exact of_decide_eq_true hc

theorem WritesByte.length {pair : List Byte} {b : Byte} (h : WritesByte pair b) :
    pair.length = 2 := by
  obtain ⟨hi, lo, h, l, rfl, -⟩ := h
  rfl

theorem parseHexByte_pair {pair : List Byte} {b : Byte} (h : WritesByte pair b)
    (before after : List Byte) :
    parseHexByte (before ++ (pair ++ after)) before.length = some b := by
  obtain ⟨hi, lo, h, l, rfl, hh, hl, hb⟩ := h
  have hlen : ¬before.length + 2 > (before ++ ([hi, lo] ++ after)).length := by
    simp only [List.length_append, List.length_cons, List.length_nil]
    omega
  have htake : ((before ++ ([hi, lo] ++ after)).drop before.length).take 2 = [hi, lo] := by
    rw [List.drop_left]
    rfl
  rw [parseHexByte, if_neg hlen, htake,
    fromChars_pair hh (hexValue_lt hh) hl (hexValue_lt hl), ← hb]
  simp

theorem parseHexByte_writesWord {digits : List Byte} {v : Word} (h : WritesWord digits v)
    (before after : List Byte) {k : ℕ} (hk : k < 4) :
    parseHexByte (before ++ (digits ++ after)) (before.length + k * 2) = some (wordByte v k) := by
  obtain ⟨p0, p1, p2, p3, rfl, h0, h1, h2, h3⟩ := h
  have hcases : k = 0 ∨ k = 1 ∨ k = 2 ∨ k = 3 := by omega
  rcases hcases with rfl | rfl | rfl | rfl
  · have hpair := parseHexByte_pair h0 before (p1 ++ (p2 ++ (p3 ++ after)))
    simpa using hpair
  · have hpair := parseHexByte_pair h1 (before ++ p0) (p2 ++ (p3 ++ after))
    simpa [h0.length] using hpair
  · have hpair := parseHexByte_pair h2 (before ++ (p0 ++ p1)) (p3 ++ after)
    simpa [h0.length, h1.length] using hpair
  · have hpair := parseHexByte_pair h3 (before ++ (p0 ++ (p1 ++ p2))) after
    simpa [h0.length, h1.length, h2.length] using hpair

theorem WritesWord.length {digits : List Byte} {v : Word} (h : WritesWord digits v) :
    digits.length = 8 := by
  obtain ⟨p0, p1, p2, p3, rfl, h0, h1, h2, h3⟩ := h
  simp only [List.length_append, h0.length, h1.length, h2.length, h3.length]

theorem parseWordLe_writesWord {digits : List Byte} {v : Word} (h : WritesWord digits v)
    (before after : List Byte) :
    parseWordLe (before ++ (digits ++ after)) before.length = some v := by
  have h0 := parseHexByte_writesWord h before after (by decide : 0 < 4)
  have h1 := parseHexByte_writesWord h before after (by decide : 1 < 4)
  have h2 := parseHexByte_writesWord h before after (by decide : 2 < 4)
  have h3 := parseHexByte_writesWord h before after (by decide : 3 < 4)
  rw [Nat.zero_mul, Nat.add_zero] at h0
  have hbytes := wordByte_bytes (wordByte v 0) (wordByte v 1) (wordByte v 2) (wordByte v 3)
  obtain ⟨b0, b1, b2, b3⟩ := hbytes
  simp only [parseWordLe, h0, h1, h2, h3, Option.bind_eq_bind, Option.bind_some, Option.pure_def,
    Option.some.injEq]
  refine eq_of_wordByte fun k hk => ?_
  have hcases : k = 0 ∨ k = 1 ∨ k = 2 ∨ k = 3 := by omega
  rcases hcases with rfl | rfl | rfl | rfl
  · exact b0
  · exact b1
  · exact b2
  · exact b3

theorem writesByte_hexByte (b : Byte) : WritesByte (hexByte b) b := by
  have hb := b.isLt
  exact ⟨_, _, _, _, rfl, hexValue_hexDigit (by omega), hexValue_hexDigit (by omega), by omega⟩

theorem writesWord_toHexLe (v : Word) : WritesWord (toHexLe v) v := by
  have hfirst : wordByte v 0 = (v &&& 0xFF#32).setWidth 8 := by simp [wordByte]
  refine ⟨hexByte (wordByte v 0), hexByte (wordByte v 1), hexByte (wordByte v 2),
    hexByte (wordByte v 3), ?_, writesByte_hexByte _, writesByte_hexByte _, writesByte_hexByte _,
    writesByte_hexByte _⟩
  rw [toHexLe, hfirst, List.append_assoc, List.append_assoc]
  rfl

theorem length_flatten_fields {fields : List (List Byte)} (h : ∀ field ∈ fields, field.length = 8) :
    fields.flatten.length = fields.length * 8 := by
  induction fields with
  | nil => rfl
  | cons field fields ih =>
    obtain ⟨hfield, hrest⟩ := List.forall_mem_cons.mp h
    rw [List.flatten_cons, List.length_append, hfield, ih hrest, List.length_cons]
    omega

-- Slot `n` of a text begins at digit 8n.
theorem parseWordLe_slots {hex : List Byte} {values : ℕ → Word} (h : Slots hex values) {n : ℕ}
    (hn : n < kNumRegs) : parseWordLe hex (n * 8) = some (values n) := by
  obtain ⟨fields, rfl, hlength, hfields⟩ := h
  have hlt : n < fields.length := hlength ▸ hn
  have hlen : ∀ field ∈ fields, field.length = 8 := by
    intro field hfield
    obtain ⟨m, hm⟩ := List.getElem?_of_mem hfield
    exact (hfields m field hm).length
  have hsplit : fields.flatten =
      (fields.take n).flatten ++ (fields[n] ++ (fields.drop (n + 1)).flatten) := by
    rw [← List.flatten_cons, ← List.drop_eq_getElem_cons hlt, ← List.flatten_append,
      List.take_append_drop]
  have hbefore : (fields.take n).flatten.length = n * 8 := by
    rw [length_flatten_fields fun field hfield => hlen field (List.mem_of_mem_take hfield),
      List.length_take, Nat.min_eq_left (Nat.le_of_lt hlt)]
  have hword := parseWordLe_writesWord (hfields n fields[n] (List.getElem?_eq_getElem hlt))
    (fields.take n).flatten (fields.drop (n + 1)).flatten
  rwa [← hsplit, hbefore] at hword

theorem length_slots {hex : List Byte} {values : ℕ → Word} (h : Slots hex values) :
    hex.length = kNumRegs * 8 := by
  obtain ⟨fields, rfl, hlength, hfields⟩ := h
  rw [length_flatten_fields fun field hfield => ?_, hlength]
  obtain ⟨m, hm⟩ := List.getElem?_of_mem hfield
  exact (hfields m field hm).length

theorem leading_all {p : ℕ → Bool} {i count : ℕ} (h : ∀ n, i ≤ n → n < i + count → p n = true) :
    leading p i count = count := by
  induction count generalizing i with
  | zero => rfl
  | succ count ih =>
    rw [leading, if_pos (h i (Nat.le_refl i) (by omega)), ih fun n hn hn' => h n (by omega) (by omega)]

theorem readableRegs_slots {hex : List Byte} {values : ℕ → Word} (h : Slots hex values) :
    readableRegs hex = kNumRegs := by
  refine leading_all fun n _ hn => ?_
  rw [Nat.zero_add] at hn
  rw [parseWordLe_slots h hn]
  rfl

-- The number and the digits of a P packet.
theorem parseWriteReg_writes {num digits : List Byte} {n : ℕ} (hnum : WritesNumber num n)
    (hn : n < kNumRegs) : parseWriteReg (num ++ byte '=' :: digits) = some (n, digits) := by
  obtain ⟨hne, hdigits, hvalue⟩ := hnum
  have hn' : n < 38 := hn
  have hequals : ∀ c ∈ num, decide (c = byte '=') = false := by
    rintro c hc
    refine decide_eq_false ?_
    rintro rfl
    exact absurd (hdigits _ hc) (by decide)
  have hfind : find (num ++ byte '=' :: digits) (byte '=') = some num.length := by
    rw [find, List.findIdx?_append, List.findIdx?_eq_none_iff.mpr hequals, List.findIdx?_cons]
    simp
  have hread : num.takeWhile (fun c => (hexValue c).isSome) = num :=
    List.takeWhile_eq_self_iff.mpr hdigits
  have hparse : parseHex num = some (BitVec.ofNat 32 n) := by
    have hrange : ¬2 ^ 32 ≤ n := by omega
    simp only [parseHex, hne, if_false, fromChars, hread, hvalue, hrange, or_self, List.drop_length]
  have hdrop : (num ++ byte '=' :: digits).drop (num.length + 1) = digits := by
    rw [← List.drop_drop, List.drop_left, List.drop_succ_cons, List.drop_zero]
  have hnat : (BitVec.ofNat 32 n).toNat = n := by
    rw [BitVec.toNat_ofNat]
    omega
  have hlt : ¬n ≥ kNumRegs := Nat.not_le.mpr hn
  simp only [parseWriteReg, hfind, Option.bind_eq_bind, Option.bind_some, List.take_left, hparse,
    hdrop, hnat, hlt, if_false, Option.pure_def]

theorem valueByte_writesWord {digits : List Byte} {v : Word} (h : WritesWord digits v) {k : ℕ}
    (hk : k < 4) : valueByte digits k = wordByte v k := by
  have hbyte : ∀ k < 4, parseHexByte digits (k * 2) = some (wordByte v k) := by
    intro k hk
    have hread := parseHexByte_writesWord h [] [] hk
    rwa [List.nil_append, List.append_nil, List.length_nil, Nat.zero_add] at hread
  have hall : valueBytes digits = 4 := by
    refine leading_all fun n _ hn => ?_
    rw [hbyte n (by omega)]
    rfl
  rw [valueByte, hall, if_pos hk, hbyte k hk]
  rfl

end Digits

section Registers

variable {P : Type} [IMipsProcessor P]

-- What g replies.
theorem slots_handleReadRegs (cpu : P) : Slots (handleReadRegs cpu) (readGdbReg cpu) := by
  refine ⟨(List.range kNumRegs).map fun i => toHexLe (readGdbReg cpu i), ?_, ?_, ?_⟩
  · rw [handleReadRegs, List.flatMap_def]
  · rw [List.length_map, List.length_range]
  · intro n field hfield
    rw [List.getElem?_map, Option.map_eq_some_iff] at hfield
    obtain ⟨m, hm, rfl⟩ := hfield
    obtain ⟨hlt, hget⟩ := List.getElem?_eq_some_iff.mp hm
    rw [List.getElem_range] at hget
    rw [hget]
    exact writesWord_toHexLe _

-- The CPU with `last` as the register written last.
def marked (cpu : P) (last : Option RegIdx) : P :=
  IMipsProcessor.setRegs cpu { IMipsProcessor.regs cpu with lastWritten := last }

variable [LawfulSetters P] [LawfulRestore P]

-- A register set to its own value is marked, and nothing else happens.
theorem writeGdbReg_self (cpu : P) (last : Option RegIdx) {n : ℕ} (hn : n < kNumRegs) :
    writeGdbReg (marked cpu last) n (readGdbReg cpu n) =
      marked cpu (if n = 0 ∨ 32 ≤ n then last else some (BitVec.ofNat 5 n)) := by
  have hn' : n < 38 := hn
  have hset := LawfulSetters.setRegs cpu { IMipsProcessor.regs cpu with lastWritten := last }
  simp only [visible, Visible.mk.injEq] at hset
  obtain ⟨hregs, -, hcp0, hhi, hlo, hpc⟩ := hset
  have hcases : n < 32 ∨ n = 32 ∨ n = 33 ∨ n = 34 ∨ n = 35 ∨ n = 36 ∨ n = 37 := by omega
  rcases hcases with hlt | hlast
  · have hread : readGdbReg cpu n = (IMipsProcessor.regs cpu).read (BitVec.ofNat 5 n) := if_pos hlt
    rw [writeGdbReg, if_pos hlt, marked, hregs, LawfulRestore.setRegs_setRegs, hread, marked]
    congr 1
    by_cases hzero : n = 0
    · subst hzero
      rfl
    · have hidx : BitVec.ofNat 5 n ≠ 0#5 := by
        rw [Ne, ← BitVec.toNat_inj, BitVec.toNat_ofNat]
        simp only [BitVec.toNat_ofNat]
        omega
      rw [if_neg (by omega), RegisterFile.write, if_neg hidx, RegisterFile.read, if_neg hidx,
        Function.update_eq_self]
  · rw [if_pos (by omega)]
    change IMipsProcessor.cp0 (marked cpu last) = IMipsProcessor.cp0 cpu at hcp0
    change IMipsProcessor.hi (marked cpu last) = IMipsProcessor.hi cpu at hhi
    change IMipsProcessor.lo (marked cpu last) = IMipsProcessor.lo cpu at hlo
    change IMipsProcessor.pc (marked cpu last) = IMipsProcessor.pc cpu at hpc
    rcases hlast with rfl | rfl | rfl | rfl | rfl | rfl
    · have hsame : (IMipsProcessor.cp0 (marked cpu last)).write Cp0.kRegStatus
          (IMipsProcessor.cp0 cpu).status = IMipsProcessor.cp0 (marked cpu last) := by
        rw [hcp0]
        rfl
      exact (congrArg _ hsame).trans (LawfulRestore.setCp0_cp0 _)
    · exact (congrArg _ hlo.symm).trans (LawfulRestore.setLo_lo _)
    · exact (congrArg _ hhi.symm).trans (LawfulRestore.setHi_hi _)
    · rfl
    · have hsame : (IMipsProcessor.cp0 (marked cpu last)).write Cp0.kRegCause
          (IMipsProcessor.cp0 cpu).cause = IMipsProcessor.cp0 (marked cpu last) := by
        rw [hcp0]
        rfl
      exact (congrArg _ hsame).trans (LawfulRestore.setCp0_cp0 _)
    · exact (congrArg _ hpc.symm).trans (LawfulRestore.setPc_pc _)

-- The loop of G on what g replies.
theorem writeRegsFrom_self {hex : List Byte} (cpu : P) (hhex : Slots hex (readGdbReg cpu))
    (last : Option RegIdx) (i count : ℕ) (hi : i + count = kNumRegs) :
    writeRegsFrom hex (marked cpu last) i count =
      (true, marked cpu (if i < 32 then some 31#5 else last)) := by
  have hi' : i + count = 38 := hi
  induction count generalizing i last with
  | zero => rw [writeRegsFrom, if_neg (by omega)]
  | succ count ih =>
    rw [writeRegsFrom, parseWordLe_slots hhex (by omega)]
    dsimp only
    rw [writeGdbReg_self cpu last (by omega), ih _ (i + 1) (by omega) (by omega)]
    congr 2
    by_cases hlast : i = 31
    · subst hlast
      rfl
    by_cases hlt : i < 31
    · rw [if_pos (by omega : i + 1 < 32), if_pos (by omega : i < 32)]
    · rw [if_neg (by omega : ¬i + 1 < 32), if_pos (by omega : i = 0 ∨ 32 ≤ i),
        if_neg (by omega : ¬i < 32)]

variable (stub : GdbStub P) (fuel : ℕ)

-- G and then g: the values that were written, but for $0 and BadVAddr.
def WritesBack : Prop :=
  ∀ hex values, Slots hex values → ∃ cpu : P,
    stub.dispatch fuel (byte 'G' :: hex) = some (sendOk { stub with cpu }) ∧
    ∃ reply, (sendOk { stub with cpu }).dispatch fuel [byte 'g'] =
        some ((sendOk { stub with cpu }).sendPacket reply) ∧
      Slots reply fun n => if n = 0 then 0#32
        else if n = 35 then (IMipsProcessor.cp0 stub.cpu).badVaddr else values n

-- g and then G: only the mark of the register written last moves.
def Restores : Prop :=
  ∃ reply, stub.dispatch fuel [byte 'g'] = some (stub.sendPacket reply) ∧
    Slots reply (readGdbReg stub.cpu) ∧
    stub.dispatch fuel (byte 'G' :: reply) =
      some (sendOk { stub with cpu := marked stub.cpu (some 31#5) })

-- P and then g: one slot has the value, and the others and the memory are as they were.
def WritesOne : Prop :=
  ∀ n < kNumRegs, ∀ v num digits, WritesNumber num n → WritesWord digits v → ∃ cpu : P,
    stub.dispatch fuel (byte 'P' :: (num ++ byte '=' :: digits)) = some (sendOk { stub with cpu }) ∧
    IMipsProcessor.mem cpu = IMipsProcessor.mem stub.cpu ∧
    ∃ reply, (sendOk { stub with cpu }).dispatch fuel [byte 'g'] =
        some ((sendOk { stub with cpu }).sendPacket reply) ∧
      Slots reply fun m => if m = n ∧ n ≠ 0 ∧ n ≠ 35 then v else readGdbReg stub.cpu m

theorem Slots.congr {hex : List Byte} {values values' : ℕ → Word} (h : Slots hex values)
    (hvalues : ∀ n < kNumRegs, values n = values' n) : Slots hex values' := by
  obtain ⟨fields, rfl, hlength, hfields⟩ := h
  refine ⟨fields, rfl, hlength, fun n field hfield => ?_⟩
  obtain ⟨hn, -⟩ := List.getElem?_eq_some_iff.mp hfield
  rw [← hvalues n (hlength ▸ hn)]
  exact hfields n field hfield

-- The register file survives the way out and back.
theorem registers_roundTrip :
    WritesBack stub fuel ∧ Restores stub fuel ∧ WritesOne stub fuel := by
  refine ⟨fun hex values hhex => ?_, ?_, fun n hn v num digits hnum hdigits => ?_⟩
  · obtain ⟨-, hG⟩ := dispatch_writeRegs stub fuel hex
    obtain ⟨cpu, hdispatch, hset⟩ := hG (Nat.le_of_eq (length_slots hhex).symm)
    rw [readableRegs_slots hhex] at hdispatch hset
    refine ⟨cpu, hdispatch, _, rfl, (slots_handleReadRegs cpu).congr fun n hn => ?_⟩
    rw [hset.regs]
    by_cases hzero : n = 0
    · subst hzero
      rfl
    by_cases hbad : n = 35
    · subst hbad
      rfl
    · rw [if_neg (by omega), if_pos hn, parseWordLe_slots hhex hn, if_neg hzero, if_neg hbad]
      rfl
  · have hhex := slots_handleReadRegs stub.cpu
    refine ⟨_, rfl, hhex, ?_⟩
    have hlength := length_slots hhex
    have hself : marked stub.cpu (IMipsProcessor.regs stub.cpu).lastWritten = stub.cpu :=
      LawfulRestore.setRegs_regs stub.cpu
    have hloop := writeRegsFrom_self stub.cpu hhex (IMipsProcessor.regs stub.cpu).lastWritten 0
      kNumRegs rfl
    rw [hself] at hloop
    have hwrite : handleWriteRegs stub.cpu (handleReadRegs stub.cpu) =
        (true, marked stub.cpu (some 31#5)) := by
      rw [handleWriteRegs, if_neg (by omega), hloop]
      rfl
    have hdispatch : stub.dispatch fuel (byte 'G' :: handleReadRegs stub.cpu) =
        some (okOrError
          { stub with cpu := (handleWriteRegs stub.cpu (handleReadRegs stub.cpu)).2 }
          (handleWriteRegs stub.cpu (handleReadRegs stub.cpu)).1) := rfl
    rw [hdispatch, hwrite]
    rfl
  · obtain ⟨-, hP⟩ := dispatch_writeReg stub fuel (num ++ byte '=' :: digits)
    obtain ⟨cpu, value, hdispatch, hvalue, hset⟩ := hP n digits (parseWriteReg_writes hnum hn)
    obtain rfl : value = v := eq_of_wordByte fun k hk => by
      rw [hvalue k hk, valueByte_writesWord hdigits hk]
    refine ⟨cpu, hdispatch, hset.mem, _, rfl, (slots_handleReadRegs cpu).congr fun m hm => ?_⟩
    rw [hset.regs]
    by_cases hm : m = n
    · subst hm
      by_cases hfixed : m = 0 ∨ m = 35
      · rw [if_pos hfixed, if_neg (by omega)]
      · rw [if_neg hfixed, if_pos rfl, if_pos (by omega)]
        rfl
    · have hother : ¬(m = n ∧ n ≠ 0 ∧ n ≠ 35) := fun h => hm h.1
      rw [if_neg hm, if_neg hother, Option.getD_none, ite_self]

end Registers

theorem registers_roundTrip_fresh :
    let stub : GdbStub PipelinedCpu := { cpu := PipelinedCpu.create 16 }
    WritesBack stub 0 ∧ Restores stub 0 ∧ WritesOne stub 0 :=
  registers_roundTrip _ 0

-- The registers keep their values, but the last one counts as written.
theorem restore_marks_register :
    let cpu := SingleCycleCpu.create 16
    cpu.regs.lastWritten = none ∧
      (dispatch 0 { cpu } (byte 'G' :: handleReadRegs cpu)).map (·.cpu.regs.lastWritten) =
        some (some 31#5) := by
  decide +kernel

end GdbStub

end ClearCore.Mips
