import ClearCore.Library.Numeral
import ClearCore.Mips.Decoder

-- A decoded instruction as assembly text. Texts are lists of characters.

namespace ClearCore.Mips

open Isa Numeral

-- The table of register_abi_name.
def kNames : List String :=
  ["zero", "at", "v0", "v1", "a0", "a1", "a2", "a3", "t0", "t1", "t2", "t3", "t4", "t5", "t6", "t7",
    "s0", "s1", "s2", "s3", "s4", "s5", "s6", "s7", "t8", "t9", "k0", "k1", "gp", "sp", "fp", "ra"]

def registerAbiName (idx : RegIdx) : List Char := ((kNames[idx.toNat]?).getD "??").toList

-- The format is tested first, so the COP0 case is for an instruction that is not R-type.
def Decoder.mnemonic (instr : DecodedInstr) : String :=
  if instr.format = .R then
    match instr.r.funct with
    | .ADD => "ADD"
    | .ADDU => "ADDU"
    | .SUB => "SUB"
    | .SUBU => "SUBU"
    | .AND => "AND"
    | .OR => "OR"
    | .XOR => "XOR"
    | .NOR => "NOR"
    | .SLT => "SLT"
    | .SLTU => "SLTU"
    | .SLL => "SLL"
    | .SRL => "SRL"
    | .SRA => "SRA"
    | .SLLV => "SLLV"
    | .SRLV => "SRLV"
    | .JR => "JR"
    | .JALR => "JALR"
    | .SYSCALL => "SYSCALL"
    | .BREAK => "BREAK"
    | _ => "???"
  else if instr.opcode = .COP0 then
    let rs := instr.r.rs
    if rs = 0x00#5 then "MFC0"
    else if rs = 0x04#5 then "MTC0"
    else if rs = 0x10#5 ∧ instr.r.funct = .ERET then "ERET"
    else "COP0"
  else
    match instr.opcode with
    | .J => "J"
    | .JAL => "JAL"
    | .BEQ => "BEQ"
    | .BNE => "BNE"
    | .ADDI => "ADDI"
    | .ADDIU => "ADDIU"
    | .SLTI => "SLTI"
    | .SLTIU => "SLTIU"
    | .ANDI => "ANDI"
    | .ORI => "ORI"
    | .XORI => "XORI"
    | .LUI => "LUI"
    | .LW => "LW"
    | .LBU => "LBU"
    | .LHU => "LHU"
    | .SW => "SW"
    | _ => "???"

namespace Disassembler

def lowerMnemonic (dec : DecodedInstr) : List Char := (Decoder.mnemonic dec).toList.map Char.toLower

def toString (dec : DecodedInstr) (pc : Word) : List Char :=
  let mn := lowerMnemonic dec
  match dec.format with
  | .R =>
      let r := dec.r
      let rd := registerAbiName r.rd
      let rs := registerAbiName r.rs
      let rt := registerAbiName r.rt
      match r.funct with
      | .SLL | .SRL | .SRA =>
          mn ++ " $".toList ++ rd ++ ", $".toList ++ rt ++ ", ".toList ++ decimal r.shamt.toNat
      | .SLLV | .SRLV => mn ++ " $".toList ++ rd ++ ", $".toList ++ rt ++ ", $".toList ++ rs
      | .JR => mn ++ " $".toList ++ rs
      | .JALR => mn ++ " $".toList ++ rd ++ ", $".toList ++ rs
      | _ => mn ++ " $".toList ++ rd ++ ", $".toList ++ rs ++ ", $".toList ++ rt
  | .I =>
      let i := dec.i
      let rs := registerAbiName i.rs
      let rt := registerAbiName i.rt
      let simm := (Decoder.signExtend i.imm).toInt
      match dec.opcode with
      | .LW | .LBU | .LHU | .SW =>
          mn ++ " $".toList ++ rt ++ ", ".toList ++ signed simm ++ "($".toList ++ rs ++ ")".toList
      | .LUI =>
          mn ++ " $".toList ++ rt ++ ", 0x".toList ++ zeroPadded 4 (upperHex i.imm.toNat)
      | .BEQ | .BNE =>
          mn ++ " $".toList ++ rs ++ ", $".toList ++ rt ++ ", ".toList ++ explicitlySigned simm
      | _ => mn ++ " $".toList ++ rt ++ ", $".toList ++ rs ++ ", ".toList ++ explicitlySigned simm
  | .J =>
      let jaddr := ((pc + 4#32) &&& 0xF0000000#32) ||| (dec.j.target <<< 2)
      mn ++ " 0x".toList ++ zeroPadded 8 (upperHex jaddr.toNat)
  | .Unknown => mn ++ " ???".toList

end Disassembler

end ClearCore.Mips
