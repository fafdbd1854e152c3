import ClearCore.Mips.Decoder

namespace ClearCore.Mips

inductive Ext
  | Sign
  | Zero
deriving DecidableEq, Repr

structure Control where
  regWrite : Bool := false
  memRead : Bool := false
  memWrite : Bool := false
  memToReg : Bool := false
  aluSrc : Bool := false
  regDst : Bool := false
  branch : Bool := false
  jump : Bool := false
  ext : Ext := .Sign
deriving DecidableEq, Repr

namespace Control

def rTypeControl (instr : DecodedInstr) : Control :=
  if instr.opcode = .COP0 then {}
  else match instr.r.funct with
    | .JR => {}
    | .JALR => { regWrite := true }
    | .SYSCALL | .BREAK => {}
    | _ => { regWrite := true, regDst := true }

def iTypeControl : Opcode → Control
  | .ADDI | .ADDIU | .SLTI | .SLTIU => { regWrite := true, aluSrc := true, ext := .Sign }
  | .ANDI | .ORI | .XORI | .LUI => { regWrite := true, aluSrc := true, ext := .Zero }
  | .LW | .LBU | .LHU =>
      { regWrite := true, memRead := true, memToReg := true, aluSrc := true, ext := .Sign }
  | .SW => { memWrite := true, aluSrc := true, ext := .Sign }
  | .BEQ | .BNE => { branch := true, ext := .Sign }
  | _ => {}

end Control

def deriveControl (instr : DecodedInstr) : Control :=
  match instr.format with
  | .R => Control.rTypeControl instr
  | .I => Control.iTypeControl instr.opcode
  | .J => { jump := true, regWrite := decide (instr.opcode = .JAL) }
  | .Unknown => {}

end ClearCore.Mips
