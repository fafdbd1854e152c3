import ClearCore.Mips.Reference
import ClearCore.Qt.Assembler.Notation

-- A source text as a program: a machine that executes its instruction lines one by one. A
-- label is the line after it, and a number is what parseImm reads, modulo 2^32; no word is
-- encoded or decoded.

namespace ClearCore.Qt.Assembler

open Isa Mips
open Mips.Reference (set setSigned goto load store next wrap)

-- What the operands of an instruction line say.
structure Operands where
  rd : RegIdx := 0#5
  rs : RegIdx := 0#5
  rt : RegIdx := 0#5
  number : Word := 0#32
  -- the instruction line that a branch or jump goes to
  target : ℤ := 0
deriving DecidableEq, Repr

-- The number of the instruction line that the last definition of `lbl` stands for, where
-- `count` instruction lines come before.
def labelFrom (lbl : Text) (count : ℕ) : List SourceLine → Option ℕ
  | [] => none
  | line :: lines =>
      (labelFrom lbl (count + (instructions [line]).length) lines).or
        (if line.label = some lbl then some count else none)

def labelLine (lines : List SourceLine) (lbl : Text) : Option ℕ := labelFrom lbl 0 lines

-- A number is a distance from the next line for a branch and a line number for a jump.
def branchTo (lines : List SourceLine) (idx : ℕ) (tok : Text) : Option ℤ :=
  ((parseImm tok).map fun distance => (idx + 1 + distance.toInt : ℤ)).or
    ((labelLine lines tok).map Int.ofNat)

def jumpTo (lines : List SourceLine) (tok : Text) : Option ℤ :=
  ((parseImm tok).map BitVec.toInt).or ((labelLine lines tok).map Int.ofNat)

def Role.read (lines : List SourceLine) (idx : ℕ) (role : Role) (tok : Text) (o : Operands) :
    Option Operands :=
  match role with
  | .rd => (parseReg tok).map fun rd => { o with rd }
  | .rs => (parseReg tok).map fun rs => { o with rs }
  | .rt => (parseReg tok).map fun rt => { o with rt }
  | .shamt | .uimm | .simm => (parseImm tok).map fun number => { o with number }
  | .mem => (parseMemOperand tok).map fun p => { o with number := p.1, rs := p.2 }
  | .offset => (branchTo lines idx tok).map fun target => { o with target }
  | .target => (jumpTo lines tok).map fun target => { o with target }

-- Tokens after the last role are not looked at, which only NOP allows.
def readOperands (lines : List SourceLine) (idx : ℕ) :
    List Role → List Text → Operands → Option Operands
  | [], _, o => some o
  | role :: roles, tok :: toks, o =>
      (role.read lines idx tok o).bind (readOperands lines idx roles toks)
  | _ :: _, [], _ => none

section Execute

variable (s : Arch) (o : Operands)

def executeSpecial (a b : Word) : FunctCode → Option Outcome
  | .SLL => some (set s o.rd (b.toNat * 2 ^ o.number.toNat))
  | .SRL => some (set s o.rd (b.toNat / 2 ^ o.number.toNat))
  | .SRA => some (set s o.rd (b.toInt / 2 ^ o.number.toNat))
  | .SLLV => some (set s o.rd (b.toNat * 2 ^ (a.toNat % 32)))
  | .SRLV => some (set s o.rd (b.toNat / 2 ^ (a.toNat % 32)))
  | .JR => some (goto s a.toNat)
  | .JALR => some (.done (gprWrite o.rd (next s)) none s.mem .none a)
  | .ADD => some (setSigned s o.rd (a.toInt + b.toInt))
  | .ADDU => some (set s o.rd (a.toNat + b.toNat))
  | .SUB => some (setSigned s o.rd (a.toInt - b.toInt))
  | .SUBU => some (set s o.rd (a.toNat - b.toNat))
  | .AND => some (set s o.rd (a.toNat &&& b.toNat : ℕ))
  | .OR => some (set s o.rd (a.toNat ||| b.toNat : ℕ))
  | .XOR => some (set s o.rd (a.toNat ^^^ b.toNat : ℕ))
  | .NOR => some (set s o.rd (2 ^ 32 - 1 - (a.toNat ||| b.toNat : ℕ)))
  | .SLT => some (set s o.rd (if a.toInt < b.toInt then 1 else 0))
  | .SLTU => some (set s o.rd (if a.toNat < b.toNat then 1 else 0))
  | _ => none

def executeOther (a b : Word) : Opcode → Option Outcome
  | .J => some (goto s (4 * o.target))
  | .JAL => some (.done (some (31#5, next s)) none s.mem .none (wrap (4 * o.target)))
  | .BEQ => some (if a = b then goto s (4 * o.target) else goto s (next s).toNat)
  | .BNE => some (if a = b then goto s (next s).toNat else goto s (4 * o.target))
  | .ADDI => some (setSigned s o.rt (a.toInt + o.number.toInt))
  | .ADDIU => some (set s o.rt (a.toInt + o.number.toInt))
  | .SLTI => some (set s o.rt (if a.toInt < o.number.toInt then 1 else 0))
  | .SLTIU => some (set s o.rt (if a.toNat < o.number.toNat then 1 else 0))
  | .ANDI => some (set s o.rt (a.toNat &&& o.number.toNat : ℕ))
  | .ORI => some (set s o.rt (a.toNat ||| o.number.toNat : ℕ))
  | .XORI => some (set s o.rt (a.toNat ^^^ o.number.toNat : ℕ))
  | .LUI => some (set s o.rt (o.number.toNat * 2 ^ 16))
  | .LW => some (load s o.rt (wrap (a.toNat + o.number.toInt)) 4)
  | .LBU => some (load s o.rt (wrap (a.toNat + o.number.toInt)) 1)
  | .LHU => some (load s o.rt (wrap (a.toNat + o.number.toInt)) 2)
  | .SW => some (store s (wrap (a.toNat + o.number.toInt)) b)
  | _ => none

-- What an operation does with its operands, over exact integers.
def execute : Operation → Option Outcome
  | .special funct => executeSpecial s o (s.regs.read o.rs) (s.regs.read o.rt) funct
  | .other op => executeOther s o (s.regs.read o.rs) (s.regs.read o.rt) op
  | .cop0 => none

end Execute

section Run

variable (lines : List SourceLine)

-- The instruction line at `pc`, where the first one is at address 0.
def lineAt (pc : Word) : Option (Text × List Text) :=
  if pc.toNat % 4 = 0 then (instructions lines)[pc.toNat / 4]? else none

def sourceOutcome (s : Arch) : Option Outcome :=
  (lineAt lines s.pc).bind fun line => (find forms line.1).bind fun form =>
    (readOperands lines (s.pc.toNat / 4) form.roles line.2 {}).bind fun o =>
      execute s o form.operation

-- An outcome that stores nothing into the text.
def sparesText : Outcome → Bool
  | .done _ (some (addr, _)) _ _ _ => decide (4 * (instructions lines).length ≤ addr.toNat)
  | _ => true

-- The machine stops at a PC that is no instruction line and at a store into the text.
def sourceStep (s : Arch) : Option Arch :=
  (sourceOutcome lines s).bind fun out => if sparesText lines out then some (s.finish out) else none

def sourceRun (s : Arch) : ℕ → Option Arch
  | 0 => some s
  | n + 1 => (sourceRun s n).bind (sourceStep lines)

end Run

end ClearCore.Qt.Assembler
