import ClearCore.Qt.Assembler.Labels
import ClearCore.Qt.Assembler.Literals

-- The texts that assemble() accepts, and the line it names when it does not.

namespace ClearCore.Qt.Assembler

open Isa Lines Mips Numeral

-- `inner` is the text without the blanks around it.
structure Trims (text inner : Text) : Prop where
  around : ∃ front back, text = front ++ (inner ++ back) ∧ (∀ c ∈ front, isSpace c = true) ∧
    ∀ c ∈ back, isSpace c = true
  head : ∀ c ∈ inner.head?, isSpace c = false
  last : ∀ c ∈ inner.getLast?, isSpace c = false

-- A mnemonic and its operands, with blanks and commas between them.
def InstructionReads (text : Text) (instruction : Option (Text × List Text)) : Prop :=
  ∃ inner toks, Trims text inner ∧ Tokens.Parts (fun c => c = ',' || c = ' ' || c = '\t') inner toks ∧
    instruction = match toks with
      | [] => none
      | mn :: ops => some (mn.map Char.toLower, ops)

-- A label is any text but blanks before a colon; without one the colon defines nothing.
def LabelReads (text : Text) (label : Option Text) : Prop :=
  ∃ name, Trims text name ∧ label = if name = [] then none else some name

-- `label: instruction # comment`, where each of the three may be missing.
def LineReads (raw : Text) (line : SourceLine) : Prop :=
  ∃ text comment, raw = text ++ comment ∧ (∀ c ∈ text, c ≠ '#') ∧ (∀ c ∈ comment.head?, c = '#') ∧
    ((∀ c ∈ text, c ≠ ':') ∧ line.label = none ∧ InstructionReads text line.instruction ∨
      ∃ lbl rest, text = lbl ++ ':' :: rest ∧ (∀ c ∈ lbl, c ≠ ':') ∧ LabelReads lbl line.label ∧
        InstructionReads rest line.instruction)

-- The lines of the source, each read by the grammar.
def Reads (source : Text) (lines : List SourceLine) : Prop :=
  List.Forall₂ LineReads (getlines source) lines

section Reading

theorem trim_append_left {front : Text} (h : ∀ c ∈ front, isSpace c = true) (s : Text) :
    trim (front ++ s) = trim s := by
  rw [trim, List.dropWhile_append_of_pos h, ← trim]

theorem trims_trim (s : Text) : Trims s (trim s) where
  around := by
    refine ⟨s.takeWhile isSpace, (s.dropWhile isSpace).rtakeWhile isSpace, ?_,
      fun c hc => List.mem_takeWhile_imp hc, fun c hc => List.mem_rtakeWhile_imp hc⟩
    rw [trim, List.rdropWhile_append_rtakeWhile, List.takeWhile_append_dropWhile]
  head := by
    intro c hc
    obtain ⟨tail, htail⟩ := List.rdropWhile_prefix isSpace (s.dropWhile isSpace)
    have hhead : c ∈ (s.dropWhile isSpace).head? := by
      rw [← htail]
      exact List.mem_head?_append_of_mem_head? hc
    have hstop := List.head?_dropWhile_not isSpace s
    rwa [Option.mem_def.mp hhead] at hstop
  last := by
    intro c hc
    obtain ⟨hne, rfl⟩ := List.mem_getLast?_eq_getLast hc
    exact Bool.eq_false_iff.mpr (List.rdropWhile_last_not isSpace _ hne)

theorem Trims.eq_trim {text inner : Text} (h : Trims text inner) : inner = trim text := by
  obtain ⟨front, back, rfl, hfront, hback⟩ := h.around
  rw [trim_append_left hfront, trim]
  cases inner with
  | nil =>
    rw [List.nil_append, List.dropWhile_eq_nil_iff.mpr hback]
    rfl
  | cons c tail =>
    have hc : isSpace c = false := h.head c rfl
    have hdrop : (c :: tail ++ back).dropWhile isSpace = c :: tail ++ back := by
      rw [List.cons_append, List.dropWhile_cons_of_neg (Bool.eq_false_iff.mp hc)]
    have hback' : ∀ c ∈ back.reverse, isSpace c = true := fun c hc => hback c (List.mem_reverse.mp hc)
    rw [hdrop, List.rdropWhile, List.reverse_append, List.dropWhile_append_of_pos hback',
      ← List.rdropWhile]
    refine (List.rdropWhile_eq_self_iff.mpr fun hne => ?_).symm
    rw [h.last _ (List.getLast?_eq_some_getLast hne)]
    exact Bool.false_ne_true

theorem instructionReads_iff {text : Text} {instruction : Option (Text × List Text)} :
    InstructionReads text instruction ↔ instruction = readInstruction (trim text) := by
  constructor
  · rintro ⟨inner, toks, htrims, hparts, rfl⟩
    rw [readInstruction, tokenise, ← htrims.eq_trim, ← hparts.eq_split]
    cases toks <;> rfl
  · rintro rfl
    exact ⟨trim text, tokenise (trim text), trims_trim text, Tokens.split_parts _, rfl⟩

theorem labelReads_iff {text : Text} {label : Option Text} :
    LabelReads text label ↔ label = readLabel text := by
  have hread : readLabel text = if trim text = [] then none else some (trim text) := by
    rw [readLabel]
    simp only [List.isEmpty_iff]
  rw [hread]
  constructor
  · rintro ⟨name, htrims, rfl⟩
    rw [htrims.eq_trim]
  · rintro rfl
    exact ⟨trim text, trims_trim text, rfl⟩

-- The text before the first of a character.
theorem takeWhile_ne {front rest : Text} {stop : Char} (hfront : ∀ c ∈ front, c ≠ stop)
    (hrest : ∀ c ∈ rest.head?, c = stop) :
    (front ++ rest).takeWhile (fun c => decide (c ≠ stop)) = front := by
  rw [List.takeWhile_append_of_pos fun c hc => decide_eq_true (hfront c hc)]
  cases rest with
  | nil => rw [List.takeWhile_nil, List.append_nil]
  | cons c rest =>
    obtain rfl := hrest c rfl
    simp

theorem stripComment_spec (raw : Text) : ∃ comment, raw = stripComment raw ++ comment ∧
    (∀ c ∈ stripComment raw, c ≠ '#') ∧ ∀ c ∈ comment.head?, c = '#' := by
  have hfront : ∀ c ∈ stripComment raw, c ≠ '#' := by
    intro c hc
    rw [stripComment] at hc
    simpa using List.mem_takeWhile_imp hc
  refine ⟨raw.dropWhile fun c => decide (c ≠ '#'), List.takeWhile_append_dropWhile.symm, hfront,
    fun c hc => ?_⟩
  have hstop := List.head?_dropWhile_not (fun c => decide (c ≠ '#')) raw
  rw [Option.mem_def.mp hc] at hstop
  simpa using hstop

theorem splitLabel_eq_some {text lbl rest : Text} (h : splitLabel text = some (lbl, rest)) :
    text = lbl ++ ':' :: rest ∧ ∀ c ∈ lbl, c ≠ ':' := by
  obtain ⟨colon, hcolon, hparts⟩ := Option.map_eq_some_iff.mp h
  obtain ⟨rfl, rfl⟩ := Prod.mk.inj hparts
  refine ⟨eq_take_cons_drop (getElem?_of_findIdx? hcolon), fun c hc => ?_⟩
  obtain ⟨i, hi, rfl⟩ := List.mem_iff_getElem.mp hc
  obtain ⟨_, _, hbefore⟩ := List.findIdx?_eq_some_iff_getElem.mp hcolon
  rw [List.length_take] at hi
  rw [List.getElem_take]
  simpa using hbefore i (by omega)

theorem ne_colon_of_isSpace {s : Text} (h : ∀ c ∈ s, isSpace c = true) : ∀ c ∈ s, c ≠ ':' := by
  rintro c hc rfl
  exact absurd (h _ hc) (by decide)

theorem trim_trim_append {front back s : Text} (hfront : ∀ c ∈ front, isSpace c = true)
    (hback : ∀ c ∈ back, isSpace c = true) : trim (front ++ (trim s ++ back)) = trim s :=
  Eq.symm (Trims.eq_trim ⟨⟨front, back, rfl, hfront, hback⟩, (trims_trim s).head, (trims_trim s).last⟩)

-- Every line is read,
theorem sourceLine_reads (raw : Text) : LineReads raw (sourceLine raw) := by
  obtain ⟨comment, hraw, hhash, hcomment⟩ := stripComment_spec raw
  obtain ⟨front, back, htext, hfront, hback⟩ := (trims_trim (stripComment raw)).around
  refine ⟨stripComment raw, comment, hraw, hhash, hcomment, ?_⟩
  rw [sourceLine]
  cases hsplit : splitLabel (trim (stripComment raw)) with
  | none =>
    have hnocolon : ∀ c ∈ trim (stripComment raw), c ≠ ':' := fun c hc =>
      of_decide_eq_false (List.findIdx?_eq_none_iff.mp (Option.map_eq_none_iff.mp hsplit) c hc)
    refine .inl ⟨?_, rfl, instructionReads_iff.mpr rfl⟩
    rw [htext, List.forall_mem_append, List.forall_mem_append]
    exact ⟨ne_colon_of_isSpace hfront, hnocolon, ne_colon_of_isSpace hback⟩
  | some parts =>
    obtain ⟨lbl, rest⟩ := parts
    obtain ⟨hparts, hlbl⟩ := splitLabel_eq_some hsplit
    obtain ⟨front', back', hrest, hfront', hback'⟩ := (trims_trim rest).around
    refine .inr ⟨front ++ lbl, rest ++ back, ?_, ?_, labelReads_iff.mpr ?_,
      instructionReads_iff.mpr ?_⟩
    · rw [htext, hparts]
      simp
    · rw [List.forall_mem_append]
      exact ⟨ne_colon_of_isSpace hfront, hlbl⟩
    · simp only [readLabel, trim_append_left hfront]
    · have hspaces : ∀ c ∈ back' ++ back, isSpace c = true :=
        List.forall_mem_append.mpr ⟨hback', hback⟩
      have htrim := trim_trim_append (s := rest) hfront' hspaces
      rw [← List.append_assoc, ← List.append_assoc, List.append_assoc front', ← hrest] at htrim
      rw [htrim]

-- and in one way.
theorem LineReads.unique {raw : Text} {line line' : SourceLine} (h : LineReads raw line)
    (h' : LineReads raw line') : line = line' := by
  obtain ⟨text, comment, rfl, hhash, hcomment, hreads⟩ := h
  obtain ⟨text', comment', heq, hhash', hcomment', hreads'⟩ := h'
  obtain rfl : text = text' := by
    rw [← takeWhile_ne hhash hcomment, heq, takeWhile_ne hhash' hcomment']
  have hcolon : ∀ {lbl rest : Text}, ¬∀ c ∈ lbl ++ ':' :: rest, c ≠ ':' :=
    fun hall => hall ':' (by simp) rfl
  obtain ⟨label, instruction⟩ := line
  obtain ⟨label', instruction'⟩ := line'
  rcases hreads with ⟨hplain, hlabel, hinstr⟩ | ⟨lbl, rest, rfl, hlbl, hlabel, hinstr⟩
  · rcases hreads' with ⟨-, hlabel', hinstr'⟩ | ⟨lbl', rest', rfl, -⟩
    · rw [SourceLine.mk.injEq]
      exact ⟨hlabel.trans hlabel'.symm, (instructionReads_iff.mp hinstr).trans
        (instructionReads_iff.mp hinstr').symm⟩
    · exact absurd hplain hcolon
  · rcases hreads' with ⟨hplain, -⟩ | ⟨lbl', rest', htext, hlbl', hlabel', hinstr'⟩
    · exact absurd hplain hcolon
    · have hstop : ∀ {rest : Text}, ∀ c ∈ (':' :: rest).head?, c = ':' := by simp
      obtain rfl : lbl = lbl' := by rw [← takeWhile_ne hlbl hstop, htext, takeWhile_ne hlbl' hstop]
      obtain rfl : rest = rest' := by simpa using htext
      rw [SourceLine.mk.injEq]
      exact ⟨(labelReads_iff.mp hlabel).trans (labelReads_iff.mp hlabel').symm,
        (instructionReads_iff.mp hinstr).trans (instructionReads_iff.mp hinstr').symm⟩

theorem reads_iff {source : Text} {lines : List SourceLine} :
    Reads source lines ↔ lines = sourceLines source := by
  rw [Reads, sourceLines]
  generalize getlines source = raws
  constructor
  · intro h
    induction h with
    | nil => rfl
    | @cons raw line raws lines hline _ ih =>
      rw [List.map_cons, hline.unique (sourceLine_reads raw), ih]
  · rintro rfl
    induction raws with
    | nil => exact .nil
    | cons raw raws ih => exact .cons (sourceLine_reads raw) ih

end Reading

-- A numeral with one minus sign at most.
def WritesNumber (tok : Text) (v : ℤ) : Prop := Denotes tok v ∧ ¬['-', '-'] <+: tok

-- A label of the source, which is no numeral.
def WritesLabel (lines : List SourceLine) (tok : Text) (k : ℕ) : Prop :=
  (∀ v, ¬Denotes tok v) ∧ Defines lines tok k

-- The number that an operand of the instruction with index `idx` stands for.
def Role.Stands (lines : List SourceLine) (idx : ℕ) (role : Role) (tok : Text) (v : ℤ) : Prop :=
  match role with
  | .rd | .rs | .rt => ∃ reg : RegIdx, NamesReg tok (reg.setWidth 32) ∧ v = reg.toNat
  | .shamt | .uimm | .simm => WritesNumber tok v
  | .mem => ∃ imm reg value, tok = imm ++ '(' :: (reg ++ [')']) ∧ WritesNumber imm v ∧
      NamesReg reg value
  | .offset => WritesNumber tok v ∨ ∃ k, WritesLabel lines tok k ∧ v = (k : ℤ) - (idx + 1)
  | .target => WritesNumber tok v ∨ ∃ k, WritesLabel lines tok k ∧ v = k

def Conforms (lines : List SourceLine) (idx : ℕ) (mn : Text) (ops : List Text) : Prop :=
  ∃ form, find forms mn = some form ∧ ops.length = form.roles.length ∧
    ∀ p ∈ form.roles.zip ops, ∃ v, p.1.Stands lines idx p.2 v

def InRange (lines : List SourceLine) (idx : ℕ) (mn : Text) (ops : List Text) : Prop :=
  ∀ form, find forms mn = some form → ∀ p ∈ form.roles.zip ops,
    ∀ v, p.1.Stands lines idx p.2 v → p.1.range.1 ≤ v ∧ v ≤ p.1.range.2

-- What the parsers let pass: a second minus sign, and characters after a closing parenthesis.
def Role.Loose (role : Role) (tok : Text) : Prop :=
  match role with
  | .rd | .rs | .rt => False
  | .shamt | .uimm | .simm | .offset | .target => ['-', '-'] <+: tok
  | .mem => ['-', '-'] <+: tok ∨ ∃ front rest, tok = front ++ ')' :: rest ∧ rest ≠ []

-- NOP takes any operands.
def Loose (mn : Text) (ops : List Text) : Prop :=
  mn = "nop".toList ∧ ops ≠ [] ∨
    ∃ form, find forms mn = some form ∧ ∃ p ∈ form.roles.zip ops, p.1.Loose p.2

-- The instructions before line `n`.
def lineIndex (lines : List SourceLine) (n : ℕ) : ℕ := (instructions (lines.take n)).length

-- Some line is an instruction, and every instruction follows the grammar.
def Accepted (lines : List SourceLine) : Prop :=
  instructions lines ≠ [] ∧
    ∀ n line mn ops, lines[n]? = some line → line.instruction = some (mn, ops) →
      Conforms lines (lineIndex lines n) mn ops ∨ Loose mn ops

-- The error names a line that does not follow the grammar or has a number out of range.
def Rejected (lines : List SourceLine) (error : Text) : Prop :=
  instructions lines = [] ∧ error = "no instructions found".toList ∨
    ∃ n line mn ops msg, lines[n]? = some line ∧ line.instruction = some (mn, ops) ∧
      error = makeError (n + 1) msg ∧
      ¬(Conforms lines (lineIndex lines n) mn ops ∧ InRange lines (lineIndex lines n) mn ops)

-- The check of pass 2 on an operand.
def Role.accepts (labels : List (Text × Word)) (idx : ℕ) (role : Role) (tok : Text) : Bool :=
  match role with
  | .rd | .rs | .rt => (parseReg tok).isSome
  | .shamt => (parseImm tok).any fun v => decide (¬(v.toInt < 0 ∨ 31 < v.toInt))
  | .uimm => (parseImm tok).any fitsUimm16
  | .simm => (parseImm tok).any fitsSimm16
  | .mem => (parseMemOperand tok).any fun operand => fitsSimm16 operand.1
  | .offset => (branchOffset labels idx tok).any fitsSimm16
  | .target =>
      match parseImm tok with
      | some v => decide (¬(v.toInt < 0 ∨ kJumpTargetMax.toInt < v.toInt))
      | none => (labels.lookup tok).any fun target => decide (¬kJumpTargetMax < target)

def acceptsAll (labels : List (Text × Word)) (idx : ℕ) : List Role → List Text → Bool
  | [], [] => true
  | role :: roles, op :: ops => role.accepts labels idx op && acceptsAll labels idx roles ops
  | _, _ => false

theorem acceptsAll_iff {labels : List (Text × Word)} {idx : ℕ} {roles : List Role}
    {ops : List Text} :
    acceptsAll labels idx roles ops = true ↔
      ops.length = roles.length ∧ ∀ p ∈ roles.zip ops, p.1.accepts labels idx p.2 = true := by
  induction roles generalizing ops with
  | nil => cases ops <;> simp [acceptsAll]
  | cons role roles ih =>
    cases ops with
    | nil => simp [acceptsAll]
    | cons op ops =>
      simp only [acceptsAll, Bool.and_eq_true, ih, List.length_cons, List.zip_cons_cons,
        List.forall_mem_cons, Nat.add_right_cancel_iff]
      tauto

section Blocks

variable {labels : List (Text × Word)} {idx : ℕ}

-- A range check before the result decides whether there is one.
theorem isOk_checked (p : Prop) [Decidable p] (msg : Text) (word : Word) :
    (if p then Except.error msg else Except.ok word).isOk = decide (¬p) := by
  by_cases h : p
  · rw [if_pos h, decide_eq_false (not_not_intro h)]
    rfl
  · rw [if_neg h, decide_eq_true h]
    rfl

theorem isOk_error (msg : Text) : (Except.error msg : Except Text Word).isOk = false := rfl

-- The blocks of pass 2 check the operands one by one.
theorem encodeR3_isOk (funct : BitVec 6) :
    ∀ ops, (encodeR3 funct ops).isOk = acceptsAll labels idx [.rd, .rs, .rt] ops
  | [] | [_] | [_, _] | _ :: _ :: _ :: _ :: _ => by simp [encodeR3, acceptsAll, isOk_error]
  | [a, b, c] => by
    simp only [encodeR3, acceptsAll, Role.accepts]
    cases parseReg a <;> cases parseReg b <;> cases parseReg c <;> rfl

theorem encodeShift_isOk (funct : BitVec 6) :
    ∀ ops, (encodeShift funct ops).isOk = acceptsAll labels idx [.rd, .rt, .shamt] ops
  | [] | [_] | [_, _] | _ :: _ :: _ :: _ :: _ => by simp [encodeShift, acceptsAll, isOk_error]
  | [a, b, c] => by
    simp only [encodeShift, acceptsAll, Role.accepts]
    cases parseReg a <;> cases parseReg b <;> cases parseImm c <;> try rfl
    simp only [isOk_checked, Option.isSome_some, Option.any_some, Bool.true_and, Bool.and_true]

theorem encodeVShift_isOk (funct : BitVec 6) :
    ∀ ops, (encodeVShift funct ops).isOk = acceptsAll labels idx [.rd, .rt, .rs] ops
  | [] | [_] | [_, _] | _ :: _ :: _ :: _ :: _ => by simp [encodeVShift, acceptsAll, isOk_error]
  | [a, b, c] => by
    simp only [encodeVShift, acceptsAll, Role.accepts]
    cases parseReg a <;> cases parseReg b <;> cases parseReg c <;> rfl

theorem encodeJr_isOk : ∀ ops, (encodeJr ops).isOk = acceptsAll labels idx [.rs] ops
  | [] | _ :: _ :: _ => by simp [encodeJr, acceptsAll, isOk_error]
  | [a] => by
    simp only [encodeJr, acceptsAll, Role.accepts]
    cases parseReg a <;> rfl

theorem encodeJalr_isOk : ∀ ops, (encodeJalr ops).isOk = acceptsAll labels idx [.rd, .rs] ops
  | [] | [_] | _ :: _ :: _ :: _ => by simp [encodeJalr, acceptsAll, isOk_error]
  | [a, b] => by
    simp only [encodeJalr, acceptsAll, Role.accepts]
    cases parseReg a <;> cases parseReg b <;> rfl

theorem encodeIArith_isOk (mn : Text) (op : BitVec 6) :
    ∀ ops, (encodeIArith mn op ops).isOk =
      acceptsAll labels idx [.rt, .rs, if zeroExtendsImm mn then .uimm else .simm] ops
  | [] | [_] | [_, _] | _ :: _ :: _ :: _ :: _ => by simp [encodeIArith, acceptsAll, isOk_error]
  | [a, b, c] => by
    simp only [encodeIArith, acceptsAll]
    cases zeroExtendsImm mn with
    | true =>
      simp only [Role.accepts, if_true]
      cases parseReg a <;> cases parseReg b <;> cases parseImm c <;> try rfl
      simp only [isOk_checked, Option.isSome_some, Option.any_some, Bool.not_eq_true', Bool.true_and,
        Bool.and_true, Bool.not_eq_false, Bool.decide_eq_true]
    | false =>
      simp only [Role.accepts, Bool.false_eq_true, if_false]
      cases parseReg a <;> cases parseReg b <;> cases parseImm c <;> try rfl
      simp only [isOk_checked, Option.isSome_some, Option.any_some, Bool.not_eq_true', Bool.true_and,
        Bool.and_true, Bool.not_eq_false, Bool.decide_eq_true]

theorem encodeLui_isOk : ∀ ops, (encodeLui ops).isOk = acceptsAll labels idx [.rt, .uimm] ops
  | [] | [_] | _ :: _ :: _ :: _ => by simp [encodeLui, acceptsAll, isOk_error]
  | [a, b] => by
    simp only [encodeLui, acceptsAll, Role.accepts]
    cases parseReg a <;> cases parseImm b <;> try rfl
    simp only [isOk_checked, Option.isSome_some, Option.any_some, Bool.not_eq_true', Bool.true_and,
      Bool.and_true, Bool.not_eq_false, Bool.decide_eq_true]

theorem encodeMem_isOk (op : BitVec 6) :
    ∀ ops, (encodeMem op ops).isOk = acceptsAll labels idx [.rt, .mem] ops
  | [] | [_] | _ :: _ :: _ :: _ => by simp [encodeMem, acceptsAll, isOk_error]
  | [a, b] => by
    simp only [encodeMem, acceptsAll, Role.accepts]
    cases parseReg a <;> cases parseMemOperand b <;> try rfl
    simp only [isOk_checked, Option.isSome_some, Option.any_some, Bool.not_eq_true', Bool.true_and,
      Bool.and_true, Bool.not_eq_false, Bool.decide_eq_true]

theorem encodeBranch_isOk (op : BitVec 6) :
    ∀ ops, (encodeBranch labels idx op ops).isOk = acceptsAll labels idx [.rs, .rt, .offset] ops
  | [] | [_] | [_, _] | _ :: _ :: _ :: _ :: _ => by simp [encodeBranch, acceptsAll, isOk_error]
  | [a, b, c] => by
    simp only [encodeBranch, acceptsAll, Role.accepts]
    cases parseReg a <;> cases parseReg b <;> cases branchOffset labels idx c <;> try rfl
    simp only [isOk_checked, Option.isSome_some, Option.any_some, Bool.not_eq_true', Bool.true_and,
      Bool.and_true, Bool.not_eq_false, Bool.decide_eq_true]

theorem encodeJump_isOk (op : BitVec 6) :
    ∀ ops, (encodeJump labels op ops).isOk = acceptsAll labels idx [.target] ops
  | [] | _ :: _ :: _ => by simp [encodeJump, acceptsAll, isOk_error]
  | [a] => by
    simp only [encodeJump, acceptsAll, Role.accepts]
    cases parseImm a with
    | some v => simp only [isOk_checked, Bool.and_true]
    | none =>
      cases labels.lookup a with
      | none => rfl
      | some target => simp only [isOk_checked, Option.any_some, Bool.and_true]

theorem Block.isOk {mn : Text} {ops : List Text} {form : Form} {result : Except Text Word}
    (h : Block labels idx mn ops form result) (hnop : mn ≠ "nop".toList) :
    result.isOk = acceptsAll labels idx form.roles ops := by
  cases h with
  | nop hmn => exact absurd hmn hnop
  | r3 => exact encodeR3_isOk _ ops
  | shift => exact encodeShift_isOk _ ops
  | vshift => exact encodeVShift_isOk _ ops
  | jr => exact encodeJr_isOk ops
  | jalr => exact encodeJalr_isOk ops
  | iArith => exact encodeIArith_isOk mn _ ops
  | lui => exact encodeLui_isOk ops
  | mem => exact encodeMem_isOk _ ops
  | branch => exact encodeBranch_isOk _ ops
  | jump => exact encodeJump_isOk _ ops

-- An instruction is encoded if the ISA has it and its operands pass.
theorem encodeLine_isOk {mn : Text} {ops : List Text} :
    (encodeLine labels idx mn ops).isOk = true ↔
      ∃ form, find forms mn = some form ∧
        (mn = "nop".toList ∨ acceptsAll labels idx form.roles ops = true) := by
  by_cases hnop : mn = "nop".toList
  · subst hnop
    exact ⟨fun _ => ⟨_, rfl, .inl rfl⟩, fun _ => rfl⟩
  rcases encodeLine_block labels idx mn ops with ⟨form, hform, hblock⟩ | ⟨hform, msg, herror⟩
  · simp only [hform, hnop, hblock.isOk hnop, false_or, Option.some.injEq, exists_eq_left']
  · simp only [hform, herror, isOk_error, Bool.false_eq_true, reduceCtorEq, false_and,
      exists_false]

end Blocks

-- The operand checks against the grammar.

section Operands

variable {source tok : Text} {idx : ℕ} {v : ℤ}

theorem writesNumber_or_loose {w : Word} (h : parseImm tok = some w) :
    (∃ v, WritesNumber tok v) ∨ ['-', '-'] <+: tok := by
  obtain ⟨v, hv, -⟩ := parseImm_literal h
  by_cases hloose : ['-', '-'] <+: tok
  · exact .inr hloose
  · exact .inl ⟨v, hv, hloose⟩

theorem parseImm_of_writesNumber (h : WritesNumber tok v) (hlow : -(2 ^ 31) < v)
    (hhigh : v < 2 ^ 31) : parseImm tok = some (BitVec.ofInt 32 v) := by
  -- without a sign
  have hmagnitude : ∀ {tok : Text} {v : ℤ}, Denotes tok v → tok.head? ≠ some '-' → v < 2 ^ 31 →
      parseMagnitude tok = some (BitVec.ofInt 32 v) := by
    intro tok v h hsign hhigh
    cases h with
    | decimal hne hdigits =>
      rw [parseMagnitude_digits hne hdigits (by omega), BitVec.ofInt_natCast]
    | hex hx hne hdigits =>
      rw [parseMagnitude_hex hx hne hdigits (by omega), BitVec.ofInt_natCast]
    | neg => exact absurd rfl hsign
  obtain ⟨hv, hsigns⟩ := h
  by_cases hsign : tok.head? = some '-'
  · cases hv with
    | decimal hne hdigits =>
      exact absurd (hdigits _ (List.mem_of_mem_head? hsign)) (by decide)
    | hex => simp at hsign
    | @neg tok v hv =>
      have hsign' : tok.head? ≠ some '-' := by
        intro hminus
        obtain ⟨rest, rfl⟩ := List.head?_eq_some_iff.mp hminus
        exact hsigns ⟨rest, rfl⟩
      simp only [parseImm, hmagnitude hv hsign' (by omega), Option.map_some, BitVec.ofInt_neg,
        BitVec.zero_sub]
  · have hmag := hmagnitude hv hsign hhigh
    obtain ⟨c, rest, rfl⟩ : ∃ c rest, tok = c :: rest := by
      cases tok with
      | nil => cases hv with
        | decimal hne => exact absurd rfl hne
      | cons c rest => exact ⟨c, rest, rfl⟩
    have hc : c ≠ '-' := fun hc => hsign (congrArg some hc)
    rw [parseImm_of_ne_minus hc, hmag]

theorem parseImm_eq_none (h : ∀ v, ¬Denotes tok v) : parseImm tok = none := by
  cases himm : parseImm tok with
  | none => rfl
  | some w =>
    obtain ⟨v, hv, -⟩ := parseImm_literal himm
    exact absurd hv (h v)

theorem toInt_of_range (hlow : -(2 ^ 31) < v) (hhigh : v < 2 ^ 31) :
    (BitVec.ofInt 32 v).toInt = v := by
  rw [BitVec.toInt_ofInt, Int.bmod_eq_of_le (by omega) (by omega)]

theorem stands_of_parseReg (h : (parseReg tok).isSome = true) :
    ∃ v : ℤ, ∃ reg : RegIdx, NamesReg tok (reg.setWidth 32) ∧ v = reg.toNat := by
  obtain ⟨reg, hreg⟩ := Option.isSome_iff_exists.mp h
  exact ⟨_, reg, parseReg_names hreg, rfl⟩

theorem stands_of_parseImm {check : Word → Bool} (h : (parseImm tok).any check = true) :
    (∃ v, WritesNumber tok v) ∨ ['-', '-'] <+: tok := by
  obtain ⟨w, hw, -⟩ := (Option.any_eq_true ..).mp h
  exact writesNumber_or_loose hw

-- What is no number is a label that pass 1 has collected.
theorem stands_of_lookup {w : Word} (h : (pass1 source).labels.lookup tok = some w) :
    ((∃ v, WritesNumber tok v) ∨ ['-', '-'] <+: tok) ∨ ∃ k, WritesLabel (sourceLines source) tok k := by
  obtain ⟨k, hk, -⟩ := (pass1_collected source).resolves tok w h
  by_cases hv : ∃ v, Denotes tok v
  · obtain ⟨v, hv⟩ := hv
    by_cases hloose : ['-', '-'] <+: tok
    · exact .inl (.inr hloose)
    · exact .inl (.inl ⟨v, hv, hloose⟩)
  · exact .inr ⟨k, not_exists.mp hv, hk⟩

-- An operand that passes has the form of the grammar, or is loose.
theorem stands_of_accepts (role : Role)
    (h : role.accepts (pass1 source).labels idx tok = true) :
    (∃ v, role.Stands (sourceLines source) idx tok v) ∨ role.Loose tok := by
  cases role with
  | rd | rs | rt => exact .inl (stands_of_parseReg h)
  | shamt | uimm | simm => exact stands_of_parseImm h
  | mem =>
    obtain ⟨⟨w, reg⟩, hoperand, -⟩ := (Option.any_eq_true ..).mp h
    obtain ⟨imm, reg, rest, rfl, ⟨v, hv, -⟩, hreg⟩ := parseMemOperand_spec hoperand
    by_cases hrest : rest = []
    · subst hrest
      by_cases hloose : ['-', '-'] <+: imm
      · exact .inr (.inl (hloose.trans (List.prefix_append ..)))
      · exact .inl ⟨v, imm, reg, _, rfl, ⟨hv, hloose⟩, hreg⟩
    · exact .inr (.inr ⟨imm ++ '(' :: reg, rest, by simp, hrest⟩)
  | offset =>
    rw [Role.accepts, branchOffset] at h
    cases hnum : parseImm tok with
    | some w =>
      rcases writesNumber_or_loose hnum with ⟨v, hv⟩ | hloose
      · exact .inl ⟨v, .inl hv⟩
      · exact .inr hloose
    | none =>
      rw [hnum] at h
      obtain ⟨w, hw, -⟩ := (Option.any_eq_true ..).mp h
      obtain ⟨target, htarget, -⟩ := Option.map_eq_some_iff.mp hw
      rcases stands_of_lookup htarget with (⟨v, hv⟩ | hloose) | ⟨k, hk⟩
      · exact .inl ⟨v, .inl hv⟩
      · exact .inr hloose
      · exact .inl ⟨_, .inr ⟨k, hk, rfl⟩⟩
  | target =>
    rw [Role.accepts] at h
    cases hnum : parseImm tok with
    | some w =>
      rcases writesNumber_or_loose hnum with ⟨v, hv⟩ | hloose
      · exact .inl ⟨v, .inl hv⟩
      · exact .inr hloose
    | none =>
      simp only [hnum] at h
      obtain ⟨target, htarget, -⟩ := (Option.any_eq_true ..).mp h
      rcases stands_of_lookup htarget with (⟨v, hv⟩ | hloose) | ⟨k, hk⟩
      · exact .inl ⟨v, .inl hv⟩
      · exact .inr hloose
      · exact .inl ⟨_, .inr ⟨k, hk, rfl⟩⟩

theorem lookup_of_writesLabel {k : ℕ} (h : WritesLabel (sourceLines source) tok k) :
    parseImm tok = none ∧ (pass1 source).labels.lookup tok = some (BitVec.ofNat 32 k) := by
  refine ⟨parseImm_eq_none h.1, ?_⟩
  rcases (pass1_collected source).labels tok with ⟨-, hnone⟩ | ⟨k', hk', hdefines⟩
  · obtain ⟨before, line, after, heq, hline, -⟩ := h.2
    exact absurd hline (hnone line (by simp [heq]))
  · rw [hk', hdefines.unique h.2]

theorem ofNat_sub (m n : ℕ) :
    BitVec.ofNat 32 m - BitVec.ofNat 32 (n + 1) = BitVec.ofInt 32 ((m : ℤ) - (n + 1)) := by
  rw [Int.sub_eq_add_neg, BitVec.ofInt_add, BitVec.ofInt_neg, BitVec.sub_eq_add_neg,
    ← BitVec.ofInt_natCast, ← BitVec.ofInt_natCast, Int.natCast_succ]

-- An operand of the grammar passes if its number is in range.
theorem accepts_of_stands (role : Role) (h : role.Stands (sourceLines source) idx tok v)
    (hlow : role.range.1 ≤ v) (hhigh : v ≤ role.range.2) :
    role.accepts (pass1 source).labels idx tok = true := by
  have hrange : -32768 ≤ role.range.1 ∧ role.range.2 ≤ 0x3FFFFFF := by
    cases role <;> decide
  have hint := toInt_of_range (v := v) (by omega) (by omega)
  cases role with
  | rd | rs | rt =>
    obtain ⟨reg, hreg, -⟩ := h
    rw [Role.accepts, parseReg_of_names hreg]
    rfl
  | shamt =>
    have hnum := parseImm_of_writesNumber h (by omega) (by omega)
    simp only [Role.range] at hlow hhigh
    simp only [Role.accepts, hnum, Option.any_some, hint]
    exact decide_eq_true (by omega)
  | uimm =>
    have hnum := parseImm_of_writesNumber h (by omega) (by omega)
    simp only [Role.range] at hlow hhigh
    simp only [Role.accepts, hnum, Option.any_some, fitsUimm16, hint]
    exact decide_eq_true (by omega)
  | simm =>
    have hnum := parseImm_of_writesNumber h (by omega) (by omega)
    simp only [Role.range] at hlow hhigh
    simp only [Role.accepts, hnum, Option.any_some, fitsSimm16, hint]
    exact decide_eq_true (by omega)
  | mem =>
    obtain ⟨imm, reg, value, rfl, himm, hreg⟩ := h
    have hnum := parseImm_of_writesNumber himm (by omega) (by omega)
    obtain ⟨idx', rfl, hname⟩ := hreg
    have hclose : ∀ c ∈ reg, c ≠ ')' := by
      rcases hname with rfl | ⟨digits, rfl, -, hdigits, -⟩
      · exact abiName_ne_paren idx'
      · rintro c hc rfl
        rcases List.mem_cons.mp hc with hc | hc
        · exact absurd hc (by decide)
        · exact absurd (hdigits _ hc) (by decide)
    have hoperand := parseMemOperand_eq (himm.1.ne_paren (.inl rfl)) (himm.1.ne_paren (.inr rfl))
      hclose [] hnum (parseReg_of_names ⟨idx', rfl, hname⟩)
    simp only [Role.range] at hlow hhigh
    simp only [Role.accepts, hoperand, Option.any_some, fitsSimm16, hint]
    exact decide_eq_true (by omega)
  | offset =>
    simp only [Role.range] at hlow hhigh
    have hoffset : branchOffset (pass1 source).labels idx tok = some (BitVec.ofInt 32 v) := by
      rcases h with hnum | ⟨k, hk, rfl⟩
      · rw [branchOffset, parseImm_of_writesNumber hnum (by omega) (by omega)]
      · obtain ⟨hnone, hlookup⟩ := lookup_of_writesLabel hk
        simp only [branchOffset, hnone, hlookup, Option.map_some, ofNat_sub]
    simp only [Role.accepts, hoffset, Option.any_some, fitsSimm16, hint]
    exact decide_eq_true (by omega)
  | target =>
    simp only [Role.range] at hlow hhigh
    have hmax : kJumpTargetMax.toInt = 0x03FFFFFF := rfl
    rcases h with hnum | ⟨k, hk, rfl⟩
    · simp only [Role.accepts, parseImm_of_writesNumber hnum (by omega) (by omega), hint]
      exact decide_eq_true (by omega)
    · obtain ⟨hnone, hlookup⟩ := lookup_of_writesLabel hk
      simp only [Role.accepts, hnone, hlookup, Option.any_some]
      refine decide_eq_true ?_
      rw [BitVec.not_lt, BitVec.le_def, BitVec.toNat_ofNat]
      have hmax' : kJumpTargetMax.toNat = 0x03FFFFFF := rfl
      omega

end Operands

-- The lines that pass 1 numbers.

theorem getElem?_instructions (lines : List SourceLine) {n : ℕ} {line : SourceLine}
    (hline : lines[n]? = some line) {instr : Text × List Text} (h : line.instruction = some instr) :
    (instructions lines)[(instructions (lines.take n)).length]? = some instr := by
  obtain ⟨hn, rfl⟩ := List.getElem?_eq_some_iff.mp hline
  have hsplit : instructions lines =
      instructions (lines.take n) ++ instr :: instructions (lines.drop (n + 1)) := by
    conv_lhs => rw [← List.take_append_drop n lines, List.drop_eq_getElem_cons hn]
    rw [instructions_append]
    exact congrArg _ (List.filterMap_cons_some h)
  rw [hsplit, List.getElem?_append_right (Nat.le_refl _), Nat.sub_self]
  rfl

def Numbered (p : Pass1) (lines : List SourceLine) : Prop :=
  ∀ i ln, p.lines[i]? = some ln → ∃ n line, lines[n]? = some line ∧ ln.lineno = n + 1 ∧
    line.instruction = some (ln.mnemonic, ln.operands) ∧ i = (instructions (lines.take n)).length

theorem Numbered.readLine {p : Pass1} {lines : List SourceLine} (h : Numbered p lines)
    (hp : Collected p lines) (raw : Text) :
    Numbered (p.readLine (lines.length + 1) raw) (lines ++ [sourceLine raw]) := by
  have hold : ∀ i ln, p.lines[i]? = some ln → ∃ n line, (lines ++ [sourceLine raw])[n]? = some line ∧
      ln.lineno = n + 1 ∧ line.instruction = some (ln.mnemonic, ln.operands) ∧
      i = (instructions ((lines ++ [sourceLine raw]).take n)).length := by
    intro i ln hln
    obtain ⟨n, line, hline, hlineno, hinstr, hi⟩ := h i ln hln
    obtain ⟨hn, -⟩ := List.getElem?_eq_some_iff.mp hline
    refine ⟨n, line, by rw [List.getElem?_append_left hn, hline], hlineno, hinstr, ?_⟩
    rw [List.take_append_of_le_length (Nat.le_of_lt hn), hi]
  have hlines : ∀ label, (p.define label).lines = p.lines := by
    intro label
    cases label <;> rfl
  intro i ln hln
  rw [readLine_eq] at hln
  cases hinstr : (sourceLine raw).instruction with
  | none =>
    rw [hinstr, Pass1.append, hlines] at hln
    exact hold i ln hln
  | some instr =>
    rw [hinstr, Pass1.append, hlines] at hln
    by_cases hi : i < p.lines.length
    · rw [List.getElem?_append_left hi] at hln
      exact hold i ln hln
    · obtain ⟨hlt, hget⟩ := List.getElem?_eq_some_iff.mp hln
      rw [List.length_append, List.length_singleton] at hlt
      obtain rfl : i = p.lines.length := by omega
      rw [List.getElem_append_right (Nat.le_refl _)] at hget
      simp only [Nat.sub_self, List.getElem_cons_zero] at hget
      subst hget
      have hlength : p.lines.length = (instructions lines).length := by
        rw [← hp.instructions, List.length_map]
      refine ⟨lines.length, sourceLine raw, by simp, rfl, hinstr, ?_⟩
      rw [List.take_left, hlength]

theorem Numbered.readLines {p : Pass1} {lines : List SourceLine} (h : Numbered p lines)
    (hp : Collected p lines) (raws : List Text) :
    Numbered (p.readLines lines.length raws) (lines ++ raws.map sourceLine) := by
  induction raws generalizing p lines with
  | nil =>
    rw [List.map_nil, List.append_nil]
    exact h
  | cons raw raws ih =>
    have hrest := ih (h.readLine hp raw) (hp.readLine (lines.length + 1) raw)
    rw [List.append_assoc, List.length_append] at hrest
    exact hrest

theorem pass1_numbered (source : Text) : Numbered (pass1 source) (sourceLines source) := by
  have hstart : Numbered {} [] := by
    intro i ln hln
    simp at hln
  exact hstart.readLines ⟨rfl, fun lbl => .inl ⟨rfl, nofun⟩⟩ (getlines source)

-- An error is that of a line, and drops all words.
theorem encodeLines_error {labels : List (Text × Word)} {idx : ℕ} {words : List Word}
    {lns : List Line} {error : Text} (h : (encodeLines labels idx words lns).error = some error) :
    (encodeLines labels idx words lns).words = [] ∧ ∃ i ln msg, lns[i]? = some ln ∧
      encodeLine labels (idx + i) ln.mnemonic ln.operands = .error msg ∧
      error = makeError ln.lineno msg := by
  induction lns generalizing idx words with
  | nil => cases h
  | cons ln lns ih =>
    rw [encodeLines] at h ⊢
    cases hline : encodeLine labels idx ln.mnemonic ln.operands with
    | error msg =>
      rw [hline] at h
      exact ⟨rfl, 0, ln, msg, rfl, hline, (Option.some.inj h).symm⟩
    | ok word =>
      rw [hline] at h
      obtain ⟨hwords, i, ln', msg, hln, hencode, herror⟩ := ih h
      refine ⟨hwords, i + 1, ln', msg, hln, ?_, herror⟩
      rwa [Nat.add_right_comm] at hencode

section Lines

variable {source : Text} {idx : ℕ} {mn : Text} {ops : List Text}

-- A line that is encoded follows the grammar up to the loose ends.
theorem conforms_of_isOk (h : (encodeLine (pass1 source).labels idx mn ops).isOk = true) :
    Conforms (sourceLines source) idx mn ops ∨ Loose mn ops := by
  obtain ⟨form, hform, hok⟩ := encodeLine_isOk.mp h
  rcases hok with rfl | hok
  · by_cases hops : ops = []
    · obtain rfl := Option.some.inj ((by decide : find forms "nop".toList =
        some ⟨.special .SLL, []⟩).symm.trans hform)
      subst hops
      exact .inl ⟨_, hform, rfl, nofun⟩
    · exact .inr (.inl ⟨rfl, hops⟩)
  · obtain ⟨hlength, hall⟩ := acceptsAll_iff.mp hok
    by_cases hloose : ∃ p ∈ form.roles.zip ops, p.1.Loose p.2
    · exact .inr (.inr ⟨form, hform, hloose⟩)
    · refine .inl ⟨form, hform, hlength, fun p hp => ?_⟩
      rcases stands_of_accepts p.1 (hall p hp) with h | h
      · exact h
      · exact absurd ⟨p, hp, h⟩ hloose

-- A line of the grammar with its numbers in range is encoded.
theorem isOk_of_conforms (h : Conforms (sourceLines source) idx mn ops)
    (hrange : InRange (sourceLines source) idx mn ops) :
    (encodeLine (pass1 source).labels idx mn ops).isOk = true := by
  obtain ⟨form, hform, hlength, hall⟩ := h
  refine encodeLine_isOk.mpr ⟨form, hform, .inr (acceptsAll_iff.mpr ⟨hlength, fun p hp => ?_⟩)⟩
  obtain ⟨v, hv⟩ := hall p hp
  obtain ⟨hlow, hhigh⟩ := hrange form hform p hp v hv
  exact accepts_of_stands p.1 hv hlow hhigh

end Lines

theorem instructions_eq_nil_iff {source : Text} :
    instructions (sourceLines source) = [] ↔ (pass1 source).lines = [] := by
  rw [← (pass1_collected source).instructions, List.map_eq_nil_iff]

-- The lines of a source are read in one way. What assemble() accepts follows the grammar, and
-- what it rejects does not.
theorem assemble_grammar (source : Text) :
    ∃ lines, (∀ lines', Reads source lines' ↔ lines' = lines) ∧
      match (assemble source).error with
      | none => Accepted lines
      | some error => (assemble source).words = [] ∧ Rejected lines error := by
  refine ⟨sourceLines source, fun lines' => reads_iff, ?_⟩
  split
  · rename_i hnone
    have hok : (assemble source).ok = true := by rw [AssemblerResult.ok, hnone]; rfl
    obtain ⟨hlength, hall⟩ := assemble_encodes hok
    refine ⟨fun hempty => ?_, fun n line mn ops hline hinstr => ?_⟩
    · rw [assemble, if_pos (List.isEmpty_iff.mpr (instructions_eq_nil_iff.mp hempty))] at hnone
      cases hnone
    · have hget := getElem?_instructions _ hline hinstr
      obtain ⟨hidx, -⟩ := List.getElem?_eq_some_iff.mp hget
      have hword := List.getElem?_eq_getElem (hlength ▸ hidx)
      apply conforms_of_isOk
      rw [lineIndex, hall _ mn ops _ hget hword]
      rfl
  · rename_i error herror
    rw [assemble] at herror ⊢
    split at herror
    · rename_i hempty
      rw [if_pos hempty]
      have hlines := instructions_eq_nil_iff.mpr (List.isEmpty_iff.mp hempty)
      exact ⟨rfl, .inl ⟨hlines, (Option.some.inj herror).symm⟩⟩
    · rename_i hne
      rw [if_neg hne]
      obtain ⟨hwords, i, ln, msg, hln, hencode, rfl⟩ := encodeLines_error herror
      obtain ⟨n, line, hline, hlineno, hinstr, rfl⟩ := pass1_numbered source i ln hln
      refine ⟨hwords, .inr ⟨n, line, _, _, msg, hline, hinstr, by rw [hlineno], ?_⟩⟩
      rintro ⟨hconforms, hrange⟩
      have hok := isOk_of_conforms hconforms hrange
      rw [Nat.zero_add] at hencode
      rw [lineIndex, hencode] at hok
      cases hok

-- A label may be defined twice, and a number out of range is reported before a later line that
-- is no instruction.
theorem redefined_label_accepted :
    ((assemble "a: nop\na: j a".toList).ok = true ∧
      (sourceLines "a: nop\na: j a".toList).map (·.label) = [some "a".toList, some "a".toList] ∧
      (sourceLines "a: nop\na: j a".toList).map (·.instruction) =
        [some ("nop".toList, []), some ("j".toList, ["a".toList])]) ∧
    (assemble "lui $t0, 65536\nfoo".toList).error =
        some (makeError 1 "immediate out of range (0 to 65535)".toList) ∧
      Conforms (sourceLines "lui $t0, 65536\nfoo".toList) 0 "lui".toList
        ["$t0".toList, "65536".toList] ∧ find forms "foo".toList = none := by
  refine ⟨⟨by decide, by decide, by decide⟩, by decide, ?_,
    by decide⟩
  refine ⟨⟨.other .LUI, [.rt, .uimm]⟩, by decide, rfl, ?_⟩
  simp only [List.zip_cons_cons, List.zip_nil_left, List.forall_mem_cons]
  refine ⟨⟨8, 8#5, parseReg_names (by decide), rfl⟩, ⟨65536, ?_, by decide⟩, nofun⟩
  exact Denotes.decimal (by decide : "65536".toList ≠ []) (by decide)

end ClearCore.Qt.Assembler
