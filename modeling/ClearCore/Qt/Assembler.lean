import ClearCore.Isa.Registers
import ClearCore.Library.Lines
import ClearCore.Library.Numeral
import ClearCore.Library.Tokens
import Mathlib.Data.List.DropRight

-- The assembler of the code editor. A text is a list of characters.

namespace ClearCore.Qt.Assembler

open Isa Lines Numeral

abbrev Text := List Char

-- find() on one of the tables, whose keys are distinct.
def find {β : Type} (table : List (String × β)) (key : Text) : Option β :=
  (table.find? fun entry => decide (entry.1.toList = key)).map (·.2)

def kRegMap : List (String × RegIdx) :=
  [("zero", 0), ("at", 1), ("v0", 2), ("v1", 3), ("a0", 4), ("a1", 5), ("a2", 6), ("a3", 7),
    ("t0", 8), ("t1", 9), ("t2", 10), ("t3", 11), ("t4", 12), ("t5", 13), ("t6", 14), ("t7", 15),
    ("s0", 16), ("s1", 17), ("s2", 18), ("s3", 19), ("s4", 20), ("s5", 21), ("s6", 22), ("s7", 23),
    ("t8", 24), ("t9", 25), ("k0", 26), ("k1", 27), ("gp", 28), ("sp", 29), ("fp", 30), ("ra", 31)]

-- $name or $N
def parseReg (tok : Text) : Option RegIdx :=
  match tok with
  | '$' :: name =>
      if name.head?.any (isDigit 10) then
        match fromCharsInt32 name with
        | some (n, []) => if 0 ≤ n ∧ n < 32 then some (BitVec.ofInt 5 n) else none
        | _ => none
      else find kRegMap name
  | _ => none

-- The int32_t after a minus sign, if any: hexadecimal digits are read as a uint32_t.
def parseMagnitude (tok : Text) : Option Word :=
  if 2 < tok.length ∧ tok[0]? = some '0' ∧ (tok[1]? = some 'x' ∨ tok[1]? = some 'X') then
    match fromCharsUInt32 16 (tok.drop 2) with
    | some (u, []) => some (BitVec.ofNat 32 u)
    | _ => none
  else
    match fromCharsInt32 tok with
    | some (v, []) => some (BitVec.ofInt 32 v)
    | _ => none

def parseImm (tok : Text) : Option Word :=
  match tok with
  | [] => none
  | '-' :: tok => (parseMagnitude tok).map fun v => 0#32 - v
  | tok => parseMagnitude tok

-- imm($rs). What follows the first closing parenthesis is not looked at.
def parseMemOperand (tok : Text) : Option (Word × RegIdx) :=
  match tok.findIdx? (fun c => decide (c = '(')), tok.findIdx? (fun c => decide (c = ')')) with
  | some lp, some rp =>
      if rp < lp then none
      else
        match parseImm (tok.take lp), parseReg ((tok.drop (lp + 1)).take (rp - lp - 1)) with
        | some imm, some reg => some (imm, reg)
        | _, _ => none
  | _, _ => none

def kJumpTargetMax : Word := 0x03FFFFFF#32

def fitsSimm16 (v : Word) : Bool := decide (-32768 ≤ v.toInt ∧ v.toInt ≤ 32767)

def fitsUimm16 (v : Word) : Bool := decide (0 ≤ v.toInt ∧ v.toInt ≤ 0xFFFF)

-- The masks of the source are the widths of the fields here.
def encR (rs rt rd : RegIdx) (shamt : BitVec 5) (funct : BitVec 6) : Word :=
  rs.setWidth 32 <<< 21 ||| rt.setWidth 32 <<< 16 ||| rd.setWidth 32 <<< 11 |||
    shamt.setWidth 32 <<< 6 ||| funct.setWidth 32

def encI (op : BitVec 6) (rs rt : RegIdx) (imm : Half) : Word :=
  op.setWidth 32 <<< 26 ||| rs.setWidth 32 <<< 21 ||| rt.setWidth 32 <<< 16 ||| imm.setWidth 32

def encJ (op : BitVec 6) (target : Word) : Word :=
  op.setWidth 32 <<< 26 ||| (target &&& 0x03FFFFFF#32)

def kR3Map : List (String × BitVec 6) :=
  [("add", 0x20), ("addu", 0x21), ("sub", 0x22), ("subu", 0x23), ("and", 0x24), ("or", 0x25),
    ("xor", 0x26), ("nor", 0x27), ("slt", 0x2A), ("sltu", 0x2B)]

def kShiftMap : List (String × BitVec 6) := [("sll", 0x00), ("srl", 0x02), ("sra", 0x03)]

def kVShiftMap : List (String × BitVec 6) := [("sllv", 0x04), ("srlv", 0x06)]

def kIArithMap : List (String × BitVec 6) :=
  [("addi", 0x08), ("addiu", 0x09), ("slti", 0x0A), ("sltiu", 0x0B), ("andi", 0x0C), ("ori", 0x0D),
    ("xori", 0x0E)]

def zeroExtendsImm (mn : Text) : Bool :=
  decide (mn = "andi".toList ∨ mn = "ori".toList ∨ mn = "xori".toList)

def kMemMap : List (String × BitVec 6) := [("lw", 0x23), ("lbu", 0x24), ("lhu", 0x25), ("sw", 0x2B)]

def kBranchMap : List (String × BitVec 6) := [("beq", 0x04), ("bne", 0x05)]

def kJumpMap : List (String × BitVec 6) := [("j", 0x02), ("jal", 0x03)]

def isSpace (c : Char) : Bool := c = ' ' || c = '\t' || c = '\r' || c = '\n'

def trim (s : Text) : Text := (s.dropWhile isSpace).rdropWhile isSpace

def tokenise (line : Text) : List Text := Tokens.split (fun c => c = ',' || c = ' ' || c = '\t') line

structure Line where
  lineno : ℕ := 0
  mnemonic : Text := []
  operands : List Text := []
deriving DecidableEq, Repr

structure AssemblerResult where
  words : List Word := []
  error : Option Text := none
deriving DecidableEq, Repr

def AssemblerResult.ok (result : AssemblerResult) : Bool := result.error.isNone

def makeError (lineno : ℕ) (msg : Text) : Text :=
  "line ".toList ++ decimal lineno ++ ": ".toList ++ msg

-- What pass 1 has collected. The latest definition of a label comes first.
structure Pass1 where
  labels : List (Text × Word) := []
  lines : List Line := []
deriving DecidableEq, Repr

-- The part of a line before its comment.
def stripComment (raw : Text) : Text := raw.takeWhile fun c => decide (c ≠ '#')

-- The text before the first colon and the rest.
def splitLabel (raw : Text) : Option (Text × Text) :=
  (raw.findIdx? fun c => decide (c = ':')).map fun colon => (raw.take colon, raw.drop (colon + 1))

-- The line without its label, if it has one.
def Pass1.addInstruction (p : Pass1) (lineno : ℕ) (raw : Text) : Pass1 :=
  match tokenise raw with
  | [] => p
  | mn :: operands =>
      { p with lines := p.lines ++ [{ lineno, mnemonic := mn.map Char.toLower, operands }] }

def Pass1.readLine (p : Pass1) (lineno : ℕ) (raw : Text) : Pass1 :=
  let raw := trim (stripComment raw)
  if raw.isEmpty then p
  else
    match splitLabel raw with
    | none => p.addInstruction lineno raw
    | some (lbl, rest) =>
        let lbl := trim lbl
        let p := if lbl.isEmpty then p
          else { p with labels := (lbl, BitVec.ofNat 32 p.lines.length) :: p.labels }
        let raw := trim rest
        if raw.isEmpty then p else p.addInstruction lineno raw

-- The loop of pass 1. `lineno` is the number of the last line read.
def Pass1.readLines (p : Pass1) (lineno : ℕ) : List Text → Pass1
  | [] => p
  | raw :: raws => Pass1.readLines (p.readLine (lineno + 1) raw) (lineno + 1) raws

def pass1 (source : Text) : Pass1 := Pass1.readLines {} 0 (getlines source)

-- The blocks of pass 2, each for the mnemonics of one table. An error is a message.
def encodeR3 (funct : BitVec 6) : List Text → Except Text Word
  | [op0, op1, op2] =>
      match parseReg op0, parseReg op1, parseReg op2 with
      | some rd, some rs, some rt => .ok (encR rs rt rd 0#5 funct)
      | _, _, _ => .error "bad register".toList
  | _ => .error "expected $rd, $rs, $rt".toList

def encodeShift (funct : BitVec 6) : List Text → Except Text Word
  | [op0, op1, op2] =>
      match parseReg op0, parseReg op1, parseImm op2 with
      | some rd, some rt, some imm =>
          if imm.toInt < 0 ∨ 31 < imm.toInt then .error "shift amount out of range".toList
          else .ok (encR 0#5 rt rd (imm.setWidth 5) funct)
      | _, _, _ => .error "bad operands".toList
  | _ => .error "expected $rd, $rt, shamt".toList

def encodeVShift (funct : BitVec 6) : List Text → Except Text Word
  | [op0, op1, op2] =>
      match parseReg op0, parseReg op1, parseReg op2 with
      | some rd, some rt, some rs => .ok (encR rs rt rd 0#5 funct)
      | _, _, _ => .error "bad register".toList
  | _ => .error "expected $rd, $rt, $rs".toList

def encodeJr : List Text → Except Text Word
  | [op0] =>
      match parseReg op0 with
      | some rs => .ok (encR rs 0#5 0#5 0#5 0x08#6)
      | none => .error "bad register".toList
  | _ => .error "expected $rs".toList

def encodeJalr : List Text → Except Text Word
  | [op0, op1] =>
      match parseReg op0, parseReg op1 with
      | some rd, some rs => .ok (encR rs 0#5 rd 0#5 0x09#6)
      | _, _ => .error "bad register".toList
  | _ => .error "expected $rd, $rs".toList

def encodeIArith (mn : Text) (op : BitVec 6) : List Text → Except Text Word
  | [op0, op1, op2] =>
      match parseReg op0, parseReg op1, parseImm op2 with
      | some rt, some rs, some imm =>
          if zeroExtendsImm mn then
            if !fitsUimm16 imm then .error "immediate out of range (0 to 65535)".toList
            else .ok (encI op rs rt (imm.setWidth 16))
          else if !fitsSimm16 imm then
            .error "immediate out of range (-32768 to 32767)".toList
          else .ok (encI op rs rt (imm.setWidth 16))
      | _, _, _ => .error "bad operands".toList
  | _ => .error "expected $rt, $rs, imm".toList

def encodeLui : List Text → Except Text Word
  | [op0, op1] =>
      match parseReg op0, parseImm op1 with
      | some rt, some imm =>
          if !fitsUimm16 imm then .error "immediate out of range (0 to 65535)".toList
          else .ok (encI 0x0F#6 0#5 rt (imm.setWidth 16))
      | _, _ => .error "bad operands".toList
  | _ => .error "expected $rt, imm".toList

def encodeMem (op : BitVec 6) : List Text → Except Text Word
  | [op0, op1] =>
      match parseReg op0 with
      | none => .error "bad register".toList
      | some rt =>
          match parseMemOperand op1 with
          | none => .error "expected imm($rs)".toList
          | some (imm, rs) =>
              if !fitsSimm16 imm then .error "offset out of range (-32768 to 32767)".toList
              else .ok (encI op rs rt (imm.setWidth 16))
  | _ => .error "expected $rt, imm($rs)".toList

def undefinedLabel (label : Text) : Text := "undefined label '".toList ++ label ++ "'".toList

-- A number, or a label as a distance from the next instruction.
def branchOffset (labels : List (Text × Word)) (idx : ℕ) (tok : Text) : Option Word :=
  match parseImm tok with
  | some imm => some imm
  | none => (labels.lookup tok).map fun target => target - BitVec.ofNat 32 (idx + 1)

def encodeBranch (labels : List (Text × Word)) (idx : ℕ) (op : BitVec 6) :
    List Text → Except Text Word
  | [op0, op1, op2] =>
      match parseReg op0, parseReg op1 with
      | some rs, some rt =>
          match branchOffset labels idx op2 with
          | none => .error (undefinedLabel op2)
          | some offset =>
              if !fitsSimm16 offset then
                .error "branch offset out of range (-32768 to 32767 instructions)".toList
              else .ok (encI op rs rt (offset.setWidth 16))
      | _, _ => .error "bad register".toList
  | _ => .error "expected $rs, $rt, label".toList

def encodeJump (labels : List (Text × Word)) (op : BitVec 6) : List Text → Except Text Word
  | [op0] =>
      match parseImm op0 with
      | some imm =>
          if imm.toInt < 0 ∨ kJumpTargetMax.toInt < imm.toInt then
            .error "jump target out of range (0 to 0x3FFFFFF)".toList
          else .ok (encJ op imm)
      | none =>
          match labels.lookup op0 with
          | none => .error (undefinedLabel op0)
          | some target =>
              if kJumpTargetMax < target then
                .error "jump target out of range (0 to 0x3FFFFFF)".toList
              else .ok (encJ op target)
  | _ => .error "expected target".toList

-- The body of the loop of pass 2, on the line with index `idx`.
def encodeLine (labels : List (Text × Word)) (idx : ℕ) (mn : Text) (ops : List Text) :
    Except Text Word :=
  if mn = "nop".toList then .ok 0#32
  else if let some funct := find kR3Map mn then encodeR3 funct ops
  else if let some funct := find kShiftMap mn then encodeShift funct ops
  else if let some funct := find kVShiftMap mn then encodeVShift funct ops
  else if mn = "jr".toList then encodeJr ops
  else if mn = "jalr".toList then encodeJalr ops
  else if let some op := find kIArithMap mn then encodeIArith mn op ops
  else if mn = "lui".toList then encodeLui ops
  else if let some op := find kMemMap mn then encodeMem op ops
  else if let some op := find kBranchMap mn then encodeBranch labels idx op ops
  else if let some op := find kJumpMap mn then encodeJump labels op ops
  else .error ("unknown instruction '".toList ++ mn ++ "'".toList)

-- The loop of pass 2. An error drops the words before it.
def encodeLines (labels : List (Text × Word)) (idx : ℕ) (words : List Word) :
    List Line → AssemblerResult
  | [] => { words }
  | ln :: lns =>
      match encodeLine labels idx ln.mnemonic ln.operands with
      | .ok word => encodeLines labels (idx + 1) (words ++ [word]) lns
      | .error msg => { error := some (makeError ln.lineno msg) }

def assemble (source : Text) : AssemblerResult :=
  let p := pass1 source
  if p.lines.isEmpty then { error := some "no instructions found".toList }
  else encodeLines p.labels 0 [] p.lines

end ClearCore.Qt.Assembler
