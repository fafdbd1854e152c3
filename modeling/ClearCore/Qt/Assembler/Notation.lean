import ClearCore.Mips.Decoder.Fields
import ClearCore.Mips.Disassembler
import ClearCore.Qt.Assembler

-- What a source text says: its lines, the operands of each mnemonic, and the numbers and
-- registers that are written. The tables here are those of the ISA, not of the assembler.

namespace ClearCore.Mips

open Isa

inductive FieldName
  | rs | rt | rd | shamt | imm | target
deriving DecidableEq, Repr

-- A field of a decoded instruction, zero-extended. A format has a 0 where it has no field.
def DecodedInstr.field (d : DecodedInstr) (name : FieldName) : Word :=
  match d.format, name with
  | .R, .rs => d.r.rs.setWidth 32
  | .R, .rt => d.r.rt.setWidth 32
  | .R, .rd => d.r.rd.setWidth 32
  | .R, .shamt => d.r.shamt.setWidth 32
  | .I, .rs => d.i.rs.setWidth 32
  | .I, .rt => d.i.rt.setWidth 32
  | .I, .imm => d.i.imm.setWidth 32
  | .J, .target => d.j.target
  | _, _ => 0#32

end ClearCore.Mips

namespace ClearCore.Qt.Assembler

open Isa Lines Mips Numeral

-- One line of the source. The mnemonic is in lower case.
structure SourceLine where
  label : Option Text := none
  instruction : Option (Text × List Text) := none
deriving DecidableEq, Repr

def readInstruction (text : Text) : Option (Text × List Text) :=
  match tokenise text with
  | [] => none
  | mn :: ops => some (mn.map Char.toLower, ops)

def readLabel (lbl : Text) : Option Text := if (trim lbl).isEmpty then none else some (trim lbl)

def sourceLine (raw : Text) : SourceLine :=
  let text := trim (stripComment raw)
  match splitLabel text with
  | none => { instruction := readInstruction text }
  | some (lbl, rest) => { label := readLabel lbl, instruction := readInstruction (trim rest) }

def sourceLines (source : Text) : List SourceLine := (getlines source).map sourceLine

-- The instruction lines, in order.
def instructions (lines : List SourceLine) : List (Text × List Text) :=
  lines.filterMap (·.instruction)

-- `k` instructions precede the last definition of `lbl`.
def Defines (lines : List SourceLine) (lbl : Text) (k : ℕ) : Prop :=
  ∃ before line after, lines = before ++ line :: after ∧ line.label = some lbl ∧
    (∀ l ∈ after, l.label ≠ some lbl) ∧ (instructions before).length = k

-- A numeral: decimal or hexadecimal digits after any minus signs.
inductive Denotes : Text → ℤ → Prop
  | decimal {digits : Text} (hne : digits ≠ []) (hdigits : ∀ c ∈ digits, isDigit 10 c = true) :
      Denotes digits (ofDigits 10 digits)
  | hex {x : Char} {digits : Text} (hx : x = 'x' ∨ x = 'X') (hne : digits ≠ [])
      (hdigits : ∀ c ∈ digits, isDigit 16 c = true) :
      Denotes ('0' :: x :: digits) (ofDigits 16 digits)
  | neg {tok : Text} {v : ℤ} (h : Denotes tok v) : Denotes ('-' :: tok) (-v)

-- A numeral read as a 32-bit number.
def Literal (tok : Text) (value : Word) : Prop := ∃ v, Denotes tok v ∧ value = BitVec.ofInt 32 v

-- A numeral that is the number itself.
def Exactly (tok : Text) (value : Word) : Prop := Denotes tok value.toInt

-- A register by its ABI name or its number.
def NamesReg (tok : Text) (value : Word) : Prop :=
  ∃ idx : RegIdx, value = idx.setWidth 32 ∧ (tok = '$' :: registerAbiName idx ∨
    ∃ digits, tok = '$' :: digits ∧ digits ≠ [] ∧ (∀ c ∈ digits, isDigit 10 c = true) ∧
      ofDigits 10 digits = idx.toNat)

-- The part an operand plays: a field, or the way its number fills the field.
inductive Role
  | rd | rs | rt | shamt | uimm | simm | mem | offset | target
deriving DecidableEq, Repr

def Role.fields : Role → List FieldName
  | .rd => [.rd]
  | .rs => [.rs]
  | .rt => [.rt]
  | .shamt => [.shamt]
  | .uimm | .simm | .offset => [.imm]
  | .mem => [.imm, .rs]
  | .target => [.target]

-- The operand `tok` of the instruction with index `idx` is what the fields of `d` hold, where
-- `number` is how a numeral is read. What is no number is a label.
def Role.Written (number : Text → Word → Prop) (lines : List SourceLine) (idx : ℕ) (role : Role)
    (tok : Text) (d : DecodedInstr) : Prop :=
  match role with
  | .rd => NamesReg tok (d.field .rd)
  | .rs => NamesReg tok (d.field .rs)
  | .rt => NamesReg tok (d.field .rt)
  | .shamt => number tok (d.field .shamt)
  | .uimm => number tok (d.field .imm)
  | .simm => number tok (Decoder.signExtend d.i.imm)
  | .mem => ∃ imm reg rest, tok = imm ++ '(' :: (reg ++ ')' :: rest) ∧
      number imm (Decoder.signExtend d.i.imm) ∧ NamesReg reg (d.field .rs)
  | .offset =>
      if (parseImm tok).isSome then number tok (Decoder.signExtend d.i.imm)
      else ∃ k, Defines lines tok k ∧
        Decoder.signExtend d.i.imm = BitVec.ofNat 32 k - BitVec.ofNat 32 (idx + 1)
  | .target =>
      if (parseImm tok).isSome then number tok (d.field .target)
      else ∃ k, Defines lines tok k ∧ d.field .target = BitVec.ofNat 32 k

structure Form where
  operation : Operation
  roles : List Role
deriving DecidableEq, Repr

def forms : List (String × Form) :=
  [("nop", ⟨.special .SLL, []⟩),
    ("add", ⟨.special .ADD, [.rd, .rs, .rt]⟩),
    ("addu", ⟨.special .ADDU, [.rd, .rs, .rt]⟩),
    ("sub", ⟨.special .SUB, [.rd, .rs, .rt]⟩),
    ("subu", ⟨.special .SUBU, [.rd, .rs, .rt]⟩),
    ("and", ⟨.special .AND, [.rd, .rs, .rt]⟩),
    ("or", ⟨.special .OR, [.rd, .rs, .rt]⟩),
    ("xor", ⟨.special .XOR, [.rd, .rs, .rt]⟩),
    ("nor", ⟨.special .NOR, [.rd, .rs, .rt]⟩),
    ("slt", ⟨.special .SLT, [.rd, .rs, .rt]⟩),
    ("sltu", ⟨.special .SLTU, [.rd, .rs, .rt]⟩),
    ("sll", ⟨.special .SLL, [.rd, .rt, .shamt]⟩),
    ("srl", ⟨.special .SRL, [.rd, .rt, .shamt]⟩),
    ("sra", ⟨.special .SRA, [.rd, .rt, .shamt]⟩),
    ("sllv", ⟨.special .SLLV, [.rd, .rt, .rs]⟩),
    ("srlv", ⟨.special .SRLV, [.rd, .rt, .rs]⟩),
    ("jr", ⟨.special .JR, [.rs]⟩),
    ("jalr", ⟨.special .JALR, [.rd, .rs]⟩),
    ("addi", ⟨.other .ADDI, [.rt, .rs, .simm]⟩),
    ("addiu", ⟨.other .ADDIU, [.rt, .rs, .simm]⟩),
    ("slti", ⟨.other .SLTI, [.rt, .rs, .simm]⟩),
    ("sltiu", ⟨.other .SLTIU, [.rt, .rs, .simm]⟩),
    ("andi", ⟨.other .ANDI, [.rt, .rs, .uimm]⟩),
    ("ori", ⟨.other .ORI, [.rt, .rs, .uimm]⟩),
    ("xori", ⟨.other .XORI, [.rt, .rs, .uimm]⟩),
    ("lui", ⟨.other .LUI, [.rt, .uimm]⟩),
    ("lw", ⟨.other .LW, [.rt, .mem]⟩),
    ("lbu", ⟨.other .LBU, [.rt, .mem]⟩),
    ("lhu", ⟨.other .LHU, [.rt, .mem]⟩),
    ("sw", ⟨.other .SW, [.rt, .mem]⟩),
    ("beq", ⟨.other .BEQ, [.rs, .rt, .offset]⟩),
    ("bne", ⟨.other .BNE, [.rs, .rt, .offset]⟩),
    ("j", ⟨.other .J, [.target]⟩),
    ("jal", ⟨.other .JAL, [.target]⟩)]

-- `d` is what the instruction line with index `idx` says. NOP is the SLL of zeros, and its
-- operands, if any, are not looked at.
def Means (number : Text → Word → Prop) (lines : List SourceLine) (idx : ℕ) (mn : Text)
    (ops : List Text) (d : DecodedInstr) : Prop :=
  ∃ form, find forms mn = some form ∧ d.operation = form.operation ∧
    (ops.length = form.roles.length ∨ mn = "nop".toList) ∧
    (∀ p ∈ form.roles.zip ops, p.1.Written number lines idx p.2 d) ∧
    ∀ name, name ∉ form.roles.flatMap Role.fields → d.field name = 0#32

end ClearCore.Qt.Assembler
