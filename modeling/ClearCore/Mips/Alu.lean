import ClearCore.Mips.Decoder

namespace ClearCore.Mips

open Isa

inductive AluOp
  | ADD | ADDU | SUB | SUBU | AND | OR | XOR | NOR | SLT | SLTU | SLL | SRL | SRA | LUI | PASS_A
deriving DecidableEq, Repr

structure AluResult where
  value : Word := 0#32
  zero : Bool := false
  overflow : Bool := false
  negative : Bool := false
deriving DecidableEq, Repr

namespace Alu

def rTypeOp : FunctCode → Option AluOp
  | .ADD => some .ADD
  | .ADDU => some .ADDU
  | .SUB => some .SUB
  | .SUBU => some .SUBU
  | .AND => some .AND
  | .OR => some .OR
  | .XOR => some .XOR
  | .NOR => some .NOR
  | .SLT => some .SLT
  | .SLTU => some .SLTU
  | .SLL | .SLLV => some .SLL
  | .SRL | .SRLV => some .SRL
  | .SRA => some .SRA
  | .JR | .JALR => some .PASS_A
  | _ => none

def iTypeOp : Opcode → Option AluOp
  | .ADDI => some .ADD
  | .ADDIU => some .ADDU
  | .SLTI => some .SLT
  | .SLTIU => some .SLTU
  | .ANDI => some .AND
  | .ORI => some .OR
  | .XORI => some .XOR
  | .LUI => some .LUI
  | .LW | .LBU | .LHU | .SW => some .ADDU
  | .BEQ | .BNE => some .SUBU
  | _ => none

def control (instr : DecodedInstr) : Option AluOp :=
  match instr.format with
  | .R => rTypeOp instr.r.funct
  | .I => iTypeOp instr.opcode
  | .J | .Unknown => none

def overflowAdd (a b r : Word) : Bool := decide ((~~~(a ^^^ b) &&& (a ^^^ r)) >>> 31 ≠ 0#32)

def overflowSub (a b r : Word) : Bool := decide (((a ^^^ b) &&& (a ^^^ r)) >>> 31 ≠ 0#32)

-- The shift amount is masked to five bits in the source, which its type does here.
def value (op : AluOp) (a b : Word) (shamt : BitVec 5) : Word :=
  match op with
  | .ADD | .ADDU => a + b
  | .SUB | .SUBU => a - b
  | .AND => a &&& b
  | .OR => a ||| b
  | .XOR => a ^^^ b
  | .NOR => ~~~(a ||| b)
  | .SLT => if a.slt b then 1#32 else 0#32
  | .SLTU => if a < b then 1#32 else 0#32
  | .SLL => b <<< shamt.toNat
  | .SRL => b >>> shamt.toNat
  | .SRA => b.sshiftRight shamt.toNat
  | .LUI => b <<< 16
  | .PASS_A => a

def execute (op : AluOp) (a b : Word) (shamt : BitVec 5) : AluResult :=
  let result := value op a b shamt
  { value := result
    zero := decide (result = 0#32)
    overflow :=
      match op with
      | .ADD => overflowAdd a b result
      | .SUB => overflowSub a b result
      | _ => false
    negative := decide (result >>> 31 ≠ 0#32) }

end Alu

end ClearCore.Mips
