import ClearCore.Mips.Decoder.Lemmas

-- A word is determined by its fields, and a decoded one by its operation and operands.

namespace ClearCore.Mips

open Isa

-- The enumerators' values.
def Opcode.code : Opcode → BitVec 6
  | .SPECIAL => 0x00#6
  | .J => 0x02#6
  | .JAL => 0x03#6
  | .BEQ => 0x04#6
  | .BNE => 0x05#6
  | .ADDI => 0x08#6
  | .ADDIU => 0x09#6
  | .SLTI => 0x0A#6
  | .SLTIU => 0x0B#6
  | .ANDI => 0x0C#6
  | .ORI => 0x0D#6
  | .XORI => 0x0E#6
  | .LUI => 0x0F#6
  | .COP0 => 0x10#6
  | .LW => 0x23#6
  | .LBU => 0x24#6
  | .LHU => 0x25#6
  | .SW => 0x2B#6
  | .unnamed code => code

def FunctCode.code : FunctCode → BitVec 6
  | .SLL => 0x00#6
  | .SRL => 0x02#6
  | .SRA => 0x03#6
  | .SLLV => 0x04#6
  | .SRLV => 0x06#6
  | .JR => 0x08#6
  | .JALR => 0x09#6
  | .SYSCALL => 0x0C#6
  | .BREAK => 0x0D#6
  | .ADD => 0x20#6
  | .ADDU => 0x21#6
  | .SUB => 0x22#6
  | .SUBU => 0x23#6
  | .AND => 0x24#6
  | .OR => 0x25#6
  | .XOR => 0x26#6
  | .NOR => 0x27#6
  | .SLT => 0x2A#6
  | .SLTU => 0x2B#6
  | .ERET => 0x18#6
  | .unnamed code => code

theorem Opcode.code_ofBits (code : BitVec 6) : (ofBits code).code = code := by
  revert code
  decide

theorem FunctCode.code_ofBits (code : BitVec 6) : (ofBits code).code = code := by
  revert code
  decide

-- The operation a decoded instruction performs. COP0 words have none of their own in the
-- opcode and the function field.
inductive Operation
  | special (funct : FunctCode)
  | cop0
  | other (op : Opcode)
deriving DecidableEq, Repr

def DecodedInstr.operation (d : DecodedInstr) : Operation :=
  if d.opcode = .SPECIAL then .special d.r.funct
  else if d.opcode = .COP0 then .cop0
  else .other d.opcode

-- The operation names the opcode, and the function of a SPECIAL word.
theorem opcode_of_operation {d e : DecodedInstr} (h : d.operation = e.operation) :
    d.opcode = e.opcode := by
  unfold DecodedInstr.operation at h
  split_ifs at h with hd he he' hd' he he' he he'
  · rw [hd, he]
  · rw [hd', he']
  · exact Operation.other.inj h

namespace Decoder

theorem toInt_signExtend (imm : Half) : (signExtend imm).toInt = imm.toInt :=
  BitVec.toInt_signExtend_of_le (by decide)

theorem toNat_bits (word : Word) {hi lo : ℕ} (hhi : hi - lo < 31) :
    (bits word hi lo).toNat = word.toNat / 2 ^ lo % 2 ^ (hi - lo + 1) := by
  have hmask : ((1#32 <<< (hi - lo + 1)) - 1#32).toNat = 2 ^ (hi - lo + 1) - 1 := by
    have hlt : 2 ^ (hi - lo + 1) < 2 ^ 32 := Nat.pow_lt_pow_right (by decide) (by omega)
    have hpos : 0 < 2 ^ (hi - lo + 1) := Nat.two_pow_pos _
    have hshift : (1#32 <<< (hi - lo + 1)).toNat = 2 ^ (hi - lo + 1) := by
      have hone : (1#32).toNat = 1 := rfl
      rw [BitVec.toNat_shiftLeft, Nat.shiftLeft_eq, hone, Nat.one_mul, Nat.mod_eq_of_lt hlt]
    rw [BitVec.toNat_sub, hshift]
    simp only [BitVec.toNat_ofNat]
    omega
  rw [bits, BitVec.toNat_and, BitVec.toNat_ushiftRight, hmask, Nat.and_two_pow_sub_one_eq_mod,
    Nat.shiftRight_eq_div_pow]

theorem toNat_field (word : Word) {hi lo width : ℕ} (hhi : hi - lo < 31)
    (hwidth : width = hi - lo + 1) :
    ((bits word hi lo).setWidth width).toNat = word.toNat / 2 ^ lo % 2 ^ width := by
  rw [BitVec.toNat_setWidth, toNat_bits word hhi, ← hwidth, Nat.mod_mod]

theorem field_congr {v w : Word} {hi lo width : ℕ}
    (h : (bits v hi lo).setWidth width = (bits w hi lo).setWidth width) (hhi : hi - lo < 31)
    (hwidth : width = hi - lo + 1) :
    v.toNat / 2 ^ lo % 2 ^ width = w.toNat / 2 ^ lo % 2 ^ width := by
  rw [← toNat_field v hhi hwidth, ← toNat_field w hhi hwidth, h]

-- The fields of a format make up the word.
theorem eq_of_fields_R {v w : Word} (hop : (bits v 31 26).setWidth 6 = (bits w 31 26).setWidth 6)
    (hrs : (bits v 25 21).setWidth 5 = (bits w 25 21).setWidth 5)
    (hrt : (bits v 20 16).setWidth 5 = (bits w 20 16).setWidth 5)
    (hrd : (bits v 15 11).setWidth 5 = (bits w 15 11).setWidth 5)
    (hshamt : (bits v 10 6).setWidth 5 = (bits w 10 6).setWidth 5)
    (hfunct : (bits v 5 0).setWidth 6 = (bits w 5 0).setWidth 6) : v = w := by
  apply BitVec.eq_of_toNat_eq
  have hop := field_congr hop (by decide) rfl
  have hrs := field_congr hrs (by decide) rfl
  have hrt := field_congr hrt (by decide) rfl
  have hrd := field_congr hrd (by decide) rfl
  have hshamt := field_congr hshamt (by decide) rfl
  have hfunct := field_congr hfunct (by decide) rfl
  omega

theorem eq_of_fields_I {v w : Word} (hop : (bits v 31 26).setWidth 6 = (bits w 31 26).setWidth 6)
    (hrs : (bits v 25 21).setWidth 5 = (bits w 25 21).setWidth 5)
    (hrt : (bits v 20 16).setWidth 5 = (bits w 20 16).setWidth 5)
    (himm : (bits v 15 0).setWidth 16 = (bits w 15 0).setWidth 16) : v = w := by
  apply BitVec.eq_of_toNat_eq
  have hop := field_congr hop (by decide) rfl
  have hrs := field_congr hrs (by decide) rfl
  have hrt := field_congr hrt (by decide) rfl
  have himm := field_congr himm (by decide) rfl
  omega

theorem rawOpcode_congr {v w : Word} (h : rawOpcode v = rawOpcode w) :
    (bits v 31 26).setWidth 6 = (bits w 31 26).setWidth 6 := by
  have hcode := congrArg Opcode.code h
  rwa [rawOpcode, rawOpcode, Opcode.code_ofBits, Opcode.code_ofBits] at hcode

theorem funct_congr {a b : BitVec 6} (h : FunctCode.ofBits a = FunctCode.ofBits b) : a = b := by
  have hcode := congrArg FunctCode.code h
  rwa [FunctCode.code_ofBits, FunctCode.code_ofBits] at hcode

-- The fields that decode() reads.
theorem fields_of_special {word : Word} {d : DecodedInstr} (h : decode word = some d)
    (hop : d.opcode = .SPECIAL) :
    d.format = .R ∧ implementedSpecial d.r.funct = true ∧
      d.r = { rs := (bits word 25 21).setWidth 5, rt := (bits word 20 16).setWidth 5
              rd := (bits word 15 11).setWidth 5, shamt := (bits word 10 6).setWidth 5
              funct := .ofBits ((bits word 5 0).setWidth 6) } := by
  have hraw : rawOpcode word = .SPECIAL := by rw [← decode_opcode h, hop]
  rw [decode] at h
  simp only [hraw, formatOf] at h
  split at h
  · cases h
  · rename_i himpl
    have himpl : implementedSpecial (.ofBits ((bits word 5 0).setWidth 6)) = true := by
      simpa using himpl
    obtain rfl := Option.some.inj h
    exact ⟨rfl, himpl, rfl⟩

theorem fields_of_immediate {word : Word} {d : DecodedInstr} (h : decode word = some d)
    (hformat : d.format = .I) :
    d.i = { rs := (bits word 25 21).setWidth 5, rt := (bits word 20 16).setWidth 5
            imm := (bits word 15 0).setWidth 16 } := by
  unfold decode at h
  cases hf : formatOf (rawOpcode word) with
  | Unknown => simp [hf] at h
  | I =>
    simp only [hf] at h
    obtain rfl := Option.some.inj h
    rfl
  | J =>
    simp only [hf] at h
    obtain rfl := Option.some.inj h
    cases hformat
  | R =>
    simp only [hf] at h
    split at h
    · cases h
    · obtain rfl := Option.some.inj h
      cases hformat

theorem eq_of_special {v w : Word} {d e : DecodedInstr} (hd : decode v = some d)
    (he : decode w = some e) (hd' : d.opcode = .SPECIAL) (he' : e.opcode = .SPECIAL)
    (h : d.r = e.r) : v = w := by
  rw [(fields_of_special hd hd').2.2, (fields_of_special he he').2.2, RFields.mk.injEq] at h
  obtain ⟨hrs, hrt, hrd, hshamt, hfunct⟩ := h
  have hop : rawOpcode v = rawOpcode w := by
    rw [← decode_opcode hd, ← decode_opcode he, hd', he']
  exact eq_of_fields_R (rawOpcode_congr hop) hrs hrt hrd hshamt (funct_congr hfunct)

theorem eq_of_immediate {v w : Word} {d e : DecodedInstr} (hd : decode v = some d)
    (he : decode w = some e) (hd' : d.format = .I) (he' : e.format = .I)
    (hop : d.opcode = e.opcode) (h : d.i = e.i) : v = w := by
  rw [fields_of_immediate hd hd', fields_of_immediate he he', IFields.mk.injEq] at h
  obtain ⟨hrs, hrt, himm⟩ := h
  rw [decode_opcode hd, decode_opcode he] at hop
  exact eq_of_fields_I (rawOpcode_congr hop) hrs hrt himm

end Decoder

end ClearCore.Mips
