import ClearCore.Isa.Registers

namespace ClearCore.Mips

open Isa

inductive InstrFormat
  | R
  | I
  | J
  | Unknown
deriving DecidableEq, Repr

-- The opcode field. `unnamed` is a field value with no enumerator, which the
-- static_cast of the source can produce.
inductive Opcode
  | SPECIAL | J | JAL | BEQ | BNE | ADDI | ADDIU | SLTI | SLTIU | ANDI | ORI | XORI | LUI
  | COP0 | LW | LBU | LHU | SW
  | unnamed (code : BitVec 6)
deriving DecidableEq, Repr

def Opcode.ofBits (code : BitVec 6) : Opcode :=
  match code with
  | 0x00#6 => .SPECIAL
  | 0x02#6 => .J
  | 0x03#6 => .JAL
  | 0x04#6 => .BEQ
  | 0x05#6 => .BNE
  | 0x08#6 => .ADDI
  | 0x09#6 => .ADDIU
  | 0x0A#6 => .SLTI
  | 0x0B#6 => .SLTIU
  | 0x0C#6 => .ANDI
  | 0x0D#6 => .ORI
  | 0x0E#6 => .XORI
  | 0x0F#6 => .LUI
  | 0x10#6 => .COP0
  | 0x23#6 => .LW
  | 0x24#6 => .LBU
  | 0x25#6 => .LHU
  | 0x2B#6 => .SW
  | code => .unnamed code

inductive FunctCode
  | SLL | SRL | SRA | SLLV | SRLV | JR | JALR | SYSCALL | BREAK | ADD | ADDU | SUB | SUBU
  | AND | OR | XOR | NOR | SLT | SLTU | ERET
  | unnamed (code : BitVec 6)
deriving DecidableEq, Repr

def FunctCode.ofBits (code : BitVec 6) : FunctCode :=
  match code with
  | 0x00#6 => .SLL
  | 0x02#6 => .SRL
  | 0x03#6 => .SRA
  | 0x04#6 => .SLLV
  | 0x06#6 => .SRLV
  | 0x08#6 => .JR
  | 0x09#6 => .JALR
  | 0x0C#6 => .SYSCALL
  | 0x0D#6 => .BREAK
  | 0x20#6 => .ADD
  | 0x21#6 => .ADDU
  | 0x22#6 => .SUB
  | 0x23#6 => .SUBU
  | 0x24#6 => .AND
  | 0x25#6 => .OR
  | 0x26#6 => .XOR
  | 0x27#6 => .NOR
  | 0x2A#6 => .SLT
  | 0x2B#6 => .SLTU
  | 0x18#6 => .ERET
  | code => .unnamed code

-- The register, shift and function fields hold five and six bits, so their types do too.
structure RFields where
  rs : RegIdx := 0#5
  rt : RegIdx := 0#5
  rd : RegIdx := 0#5
  shamt : BitVec 5 := 0#5
  funct : FunctCode := .SLL
deriving DecidableEq, Repr

structure IFields where
  rs : RegIdx := 0#5
  rt : RegIdx := 0#5
  imm : Half := 0#16
deriving DecidableEq, Repr

structure JFields where
  target : Word := 0#32
deriving DecidableEq, Repr

-- std::variant<RFields, IFields, JFields>
inductive Fields
  | r (fields : RFields)
  | i (fields : IFields)
  | j (fields : JFields)
deriving DecidableEq, Repr

structure DecodedInstr where
  raw : Word := 0#32
  opcode : Opcode := .SPECIAL
  format : InstrFormat := .Unknown
  fields : Fields := .r {}
deriving DecidableEq, Repr

namespace DecodedInstr

-- The accessors of the source throw on the wrong variant. Here they return the
-- empty fields; no decoded instruction reaches that case (`Decoder.decode_fields`).
def r (instr : DecodedInstr) : RFields :=
  match instr.fields with
  | .r fields => fields
  | _ => {}

def i (instr : DecodedInstr) : IFields :=
  match instr.fields with
  | .i fields => fields
  | _ => {}

def j (instr : DecodedInstr) : JFields :=
  match instr.fields with
  | .j fields => fields
  | _ => {}

end DecodedInstr

namespace Decoder

def bits (word : Word) (hi lo : Nat) : Word :=
  (word >>> lo) &&& ((1#32 <<< (hi - lo + 1)) - 1#32)

def implementedSpecial : FunctCode → Bool
  | .SLL | .SRL | .SRA | .SLLV | .SRLV | .JR | .JALR | .SYSCALL | .BREAK | .ADD | .ADDU
  | .SUB | .SUBU | .AND | .OR | .XOR | .NOR | .SLT | .SLTU => true
  | _ => false

def formatOf : Opcode → InstrFormat
  | .SPECIAL | .COP0 => .R
  | .J | .JAL => .J
  | .BEQ | .BNE | .ADDI | .ADDIU | .SLTI | .SLTIU | .ANDI | .ORI | .XORI | .LUI | .LW | .LBU
  | .LHU | .SW => .I
  | .unnamed _ => .Unknown

def rawOpcode (instr : Word) : Opcode := .ofBits ((bits instr 31 26).setWidth 6)

def decode (instr : Word) : Option DecodedInstr :=
  let rawOp := rawOpcode instr
  match formatOf rawOp with
  | .Unknown => none
  | .R =>
      let funct := FunctCode.ofBits ((bits instr 5 0).setWidth 6)
      let cop0 := decide (rawOp = .COP0)
      if !cop0 && !implementedSpecial funct then none
      else some {
        raw := instr, opcode := rawOp, format := .R,
        fields := .r {
          rs := (bits instr 25 21).setWidth 5
          rt := (bits instr 20 16).setWidth 5
          rd := (bits instr 15 11).setWidth 5
          shamt := if cop0 then 0#5 else (bits instr 10 6).setWidth 5
          funct := funct } }
  | .I => some {
      raw := instr, opcode := rawOp, format := .I,
      fields := .i {
        rs := (bits instr 25 21).setWidth 5
        rt := (bits instr 20 16).setWidth 5
        imm := (bits instr 15 0).setWidth 16 } }
  | .J => some {
      raw := instr, opcode := rawOp, format := .J, fields := .j { target := bits instr 25 0 } }

def signExtend (imm : Half) : Word := imm.signExtend 32

end Decoder

end ClearCore.Mips
