import ClearCore.Mips.Alu
import ClearCore.Mips.Control
import ClearCore.Mips.Cp0
import ClearCore.Mips.DataMemory

-- The implemented subset of the ISA, one instruction at a time and without a
-- datapath. Both CPU models are proved against this machine.

namespace ClearCore.Mips

open Isa

inductive Cp0Access
  | none
  | write (reg : RegIdx) (value : Word)
  | eret
deriving DecidableEq, Repr

def Cp0Access.apply : Cp0Access → Cp0 → Cp0
  | .none, cp0 => cp0
  | .write reg value, cp0 => cp0.write reg value
  | .eret, cp0 => cp0.eret

-- The programmer-visible state.
structure Arch where
  regs : RegisterFile
  mem : Memory
  cp0 : Cp0
  pc : Word

-- What an instruction asks for once its operands are known.
inductive Action
  | trap (code : ExceptionCode)
  | load (op : Opcode) (addr : Word) (dst : RegIdx)
  | store (op : Opcode) (addr value : Word)
  | done (gpr : Option (RegIdx × Word)) (cp0 : Cp0Access) (next : Word)
deriving DecidableEq

-- What it then does: a trap, or its effects and the next PC.
inductive Outcome
  | trap (code : ExceptionCode) (badAddr : Word)
  | done (gpr : Option (RegIdx × Word)) (store : Option (Word × Word)) (mem : Memory)
      (cp0 : Cp0Access) (next : Word)

-- A write to register 0 is no write.
def gprWrite (dst : RegIdx) (value : Word) : Option (RegIdx × Word) :=
  if dst = 0#5 then none else some (dst, value)

namespace DecodedInstr

-- The register fields an instruction reads its operands through.
def rsIdx (d : DecodedInstr) : RegIdx :=
  if d.format = .R then d.r.rs else if d.format = .I then d.i.rs else 0#5

def rtIdx (d : DecodedInstr) : RegIdx :=
  if d.format = .R then d.r.rt else if d.format = .I then d.i.rt else 0#5

end DecodedInstr

namespace Action

def jumpTarget (pc target : Word) : Word :=
  ((pc + 4#32) &&& 0xF0000000#32) ||| (target <<< 2)

def branchTarget (pc : Word) (imm : Half) : Word :=
  pc + 4#32 + (Decoder.signExtend imm <<< 2)

def ofAlu (pc : Word) (dst : RegIdx) (res : AluResult) (isSigned : Bool) : Action :=
  if res.overflow && isSigned then .trap .Ov else .done (gprWrite dst res.value) .none (pc + 4#32)

def ofSpecial (r : RFields) (pc a b : Word) : Action :=
  match r.funct with
  | .SYSCALL => .trap .Sys
  | .BREAK => .trap .Bp
  | .JR => .done none .none a
  | .JALR => .done (gprWrite r.rd (pc + 4#32)) .none a
  | funct =>
      match Alu.rTypeOp funct with
      | none => .trap .RI
      | some op =>
          let shamt :=
            if funct = .SLLV ∨ funct = .SRLV then (a &&& 0x1F#32).setWidth 5 else r.shamt
          ofAlu pc r.rd (Alu.execute op a b shamt) (decide (funct = .ADD ∨ funct = .SUB))

def ofCop0 (r : RFields) (cp0 : Cp0) (pc b : Word) : Action :=
  if r.rs = 0x00#5 then .done (gprWrite r.rt (cp0.read r.rd)) .none (pc + 4#32)
  else if r.rs = 0x04#5 then .done none (.write r.rd b) (pc + 4#32)
  else if r.rs = 0x10#5 ∧ r.funct = .ERET then .done none .eret cp0.epc
  else .done none .none (pc + 4#32)

def ofImmediate (op : Opcode) (i : IFields) (pc a b : Word) : Action :=
  match op with
  | .BEQ => .done none .none (if a = b then branchTarget pc i.imm else pc + 4#32)
  | .BNE => .done none .none (if a = b then pc + 4#32 else branchTarget pc i.imm)
  | .LW | .LBU | .LHU => .load op (a + Decoder.signExtend i.imm) i.rt
  | .SW => .store op (a + Decoder.signExtend i.imm) b
  | _ =>
      match Alu.iTypeOp op with
      | none => .trap .RI
      | some aluop =>
          let imm := if (Control.iTypeControl op).ext = .Sign then Decoder.signExtend i.imm
            else i.imm.setWidth 32
          ofAlu pc i.rt (Alu.execute aluop a imm 0#5) (decide (op = .ADDI))

-- The action of a decoded instruction at `pc` whose operands are `a` and `b`.
def ofInstr (d : DecodedInstr) (cp0 : Cp0) (pc a b : Word) : Action :=
  match d.format with
  | .R => if d.opcode = .COP0 then ofCop0 d.r cp0 pc b else ofSpecial d.r pc a b
  | .I => ofImmediate d.opcode d.i pc a b
  | .J => .done (if d.opcode = .JAL then some (31#5, pc + 4#32) else none) .none
      (jumpTarget pc d.j.target)
  | .Unknown => .trap .RI

def perform (mem : Memory) (pc : Word) : Action → Outcome
  | .trap code => .trap code 0#32
  | .load op addr dst =>
      match loadData mem op addr with
      | none => .trap .AdEL addr
      | some value => .done (gprWrite dst value) none mem .none (pc + 4#32)
  | .store op addr value =>
      match storeData mem op addr value with
      | none => .trap .AdES addr
      | some mem => .done none (some (addr, value)) mem .none (pc + 4#32)
  | .done gpr cp0 next => .done gpr none mem cp0 next

end Action

-- One completed instruction, with everything it changed.
structure Retirement where
  pc : Word
  raw : Word
  gpr : Option (RegIdx × Word)
  store : Option (Word × Word)
  cp0 : Cp0Access
deriving DecidableEq

-- One trap, with the CP0 registers right after it.
structure TrapRecord where
  code : ExceptionCode
  pc : Word
  epc : Word
  cause : Word
  status : Word
  badVaddr : Word
deriving DecidableEq

def TrapRecord.ofCp0 (pc : Word) (cp0 : Cp0) : TrapRecord where
  code := cp0.lastExc
  pc := pc
  epc := cp0.epc
  cause := cp0.cause
  status := cp0.status
  badVaddr := cp0.badVaddr

def commitGpr (regs : RegisterFile) : Option (RegIdx × Word) → RegisterFile
  | none => regs
  | some (dst, value) => regs.write dst value

namespace Arch

def operandA (arch : Arch) (d : DecodedInstr) : Word := arch.regs.read d.rsIdx

def operandB (arch : Arch) (d : DecodedInstr) : Word := arch.regs.read d.rtIdx

def action (arch : Arch) (d : DecodedInstr) : Action :=
  .ofInstr d arch.cp0 arch.pc (arch.operandA d) (arch.operandB d)

-- The raw word (0 if the fetch failed) and the outcome of the instruction at PC.
def outcome (arch : Arch) : Word × Outcome :=
  match arch.mem.readWord arch.pc with
  | none => (0#32, .trap .AdEL arch.pc)
  | some raw =>
      match Decoder.decode raw with
      | none => (raw, .trap .RI 0#32)
      | some d => (raw, (arch.action d).perform arch.mem arch.pc)

def finish (arch : Arch) : Outcome → Arch
  | .trap code badAddr =>
      { arch with cp0 := arch.cp0.raise code arch.pc badAddr, pc := kExceptionVector }
  | .done gpr _ mem cp0 next =>
      { regs := commitGpr arch.regs gpr, mem, cp0 := cp0.apply arch.cp0, pc := next }

def step (arch : Arch) : Arch := arch.finish arch.outcome.2

def trapped (arch : Arch) : Bool :=
  match arch.outcome.2 with
  | .trap _ _ => true
  | .done .. => false

def retirement (arch : Arch) : Option Retirement :=
  match arch.outcome with
  | (_, .trap _ _) => none
  | (raw, .done gpr store _ cp0 _) => some { pc := arch.pc, raw, gpr, store, cp0 }

def trapRecord (arch : Arch) : Option TrapRecord :=
  if arch.trapped then some (.ofCp0 arch.pc arch.step.cp0) else none

-- The word a step stores to.
def storeAddr (arch : Arch) : Option Word := (arch.retirement.bind (·.store)).map (·.1)

end Arch

end ClearCore.Mips
