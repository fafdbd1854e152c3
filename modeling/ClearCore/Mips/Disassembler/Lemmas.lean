import ClearCore.Library.Tokens
import ClearCore.Mips.Decoder.Fields
import ClearCore.Mips.Disassembler
import Mathlib.Data.List.Nodup

-- The text of an instruction is its mnemonic and its operands, and both can be read off it.

namespace ClearCore.Mips.Disassembler

open Isa Numeral Tokens

def reg (idx : RegIdx) : List Char := '$' :: registerAbiName idx

-- imm($rs)
def memOperand (offset : ℤ) (idx : RegIdx) : List Char :=
  signed offset ++ '(' :: (reg idx ++ [')'])

def jumpAddress (pc target : Word) : Word := ((pc + 4#32) &&& 0xF0000000#32) ||| (target <<< 2)

def operandsR (r : RFields) : List (List Char) :=
  match r.funct with
  | .SLL | .SRL | .SRA => [reg r.rd, reg r.rt, decimal r.shamt.toNat]
  | .SLLV | .SRLV => [reg r.rd, reg r.rt, reg r.rs]
  | .JR => [reg r.rs]
  | .JALR => [reg r.rd, reg r.rs]
  | _ => [reg r.rd, reg r.rs, reg r.rt]

def operandsI (op : Opcode) (i : IFields) : List (List Char) :=
  let simm := (Decoder.signExtend i.imm).toInt
  match op with
  | .LW | .LBU | .LHU | .SW => [reg i.rt, memOperand simm i.rs]
  | .LUI => [reg i.rt, '0' :: 'x' :: zeroPadded 4 (upperHex i.imm.toNat)]
  | .BEQ | .BNE => [reg i.rs, reg i.rt, explicitlySigned simm]
  | _ => [reg i.rt, reg i.rs, explicitlySigned simm]

def operands (dec : DecodedInstr) (pc : Word) : List (List Char) :=
  match dec.format with
  | .R => operandsR dec.r
  | .I => operandsI dec.opcode dec.i
  | .J => ['0' :: 'x' :: zeroPadded 8 (upperHex (jumpAddress pc dec.j.target).toNat)]
  | .Unknown => ["???".toList]

theorem toString_eq (dec : DecodedInstr) (pc : Word) :
    toString dec pc =
      lowerMnemonic dec ++ ' ' :: List.intercalate ", ".toList (operands dec pc) := by
  cases hf : dec.format with
  | R =>
    simp only [toString, operands, operandsR, hf]
    cases dec.r.funct <;> simp [reg, List.intercalate]
  | I =>
    simp only [toString, operands, operandsI, hf]
    cases dec.opcode <;> simp [reg, memOperand, List.intercalate]
  | J | Unknown => simp [toString, operands, hf, jumpAddress, List.intercalate]

-- The characters between the parts of a text.
def isGap (c : Char) : Bool := c = ',' || c = ' ' || c = '\t'

-- The characters that no part of a text holds.
def isReserved (c : Char) : Bool := isGap c || c = '\r' || c = '\n' || c = '#' || c = ':'

-- A part of a text.
def Plain (tok : List Char) : Prop := tok ≠ [] ∧ ∀ c ∈ tok, isReserved c = false

instance : DecidablePred Plain := fun tok =>
  decidable_of_iff (tok ≠ [] ∧ tok.all (fun c => isReserved c == false) = true) <| by
    rw [Plain, List.all_eq_true]
    simp

theorem isGap_of_not_isReserved {c : Char} (h : isReserved c = false) : isGap c = false := by
  simp only [isReserved, Bool.or_eq_false_iff] at h
  exact h.1.1.1.1

theorem plain_append {tok tok' : List Char} (h : Plain tok)
    (h' : ∀ c ∈ tok', isReserved c = false) : Plain (tok ++ tok') := by
  refine ⟨fun he => h.1 (List.append_eq_nil_iff.mp he).1, fun c hc => ?_⟩
  rcases List.mem_append.mp hc with hc | hc
  · exact h.2 c hc
  · exact h' c hc

theorem plain_cons {c : Char} {tok : List Char} (hc : isReserved c = false)
    (h : ∀ c ∈ tok, isReserved c = false) : Plain (c :: tok) := by
  refine ⟨List.cons_ne_nil _ _, fun x hx => ?_⟩
  rcases List.mem_cons.mp hx with rfl | hx
  · exact hc
  · exact h x hx

theorem isReserved_of_isDigit {base : ℕ} {c : Char} (h : isDigit base c = true) :
    isReserved c = false := by
  cases hc : isReserved c with
  | false => rfl
  | true =>
    simp only [isReserved, isGap, Bool.or_eq_true, decide_eq_true_eq] at hc
    rcases hc with (((((rfl | rfl) | rfl) | rfl) | rfl) | rfl) | rfl <;>
      exact absurd h Bool.false_ne_true

theorem plain_decimal (n : ℕ) : Plain (decimal n) :=
  ⟨decimal_ne_nil n, fun c hc => isReserved_of_isDigit (isDigit_decimal n c hc)⟩

theorem plain_signed (n : ℤ) : Plain (signed n) := by
  rw [signed]
  split
  · exact plain_cons rfl (plain_decimal _).2
  · exact plain_decimal _

theorem plain_explicitlySigned (n : ℤ) : Plain (explicitlySigned n) := by
  rw [explicitlySigned]
  split <;> exact plain_cons rfl (plain_decimal _).2

theorem plain_hex (width n : ℕ) : Plain ('0' :: 'x' :: zeroPadded width (upperHex n)) := by
  have hdigits : ∀ c ∈ zeroPadded width (upperHex n), isReserved c = false := fun c hc =>
    isReserved_of_isDigit (isDigit_zeroPadded (by decide) (isDigit_upperHex n) c hc)
  exact plain_cons rfl (plain_cons rfl hdigits).2

theorem isReserved_registerAbiName (idx : RegIdx) :
    ∀ c ∈ registerAbiName idx, isReserved c = false := by
  apply forall_of_all
  revert idx
  decide

theorem plain_reg (idx : RegIdx) : Plain (reg idx) := plain_cons rfl (isReserved_registerAbiName idx)

theorem plain_memOperand (offset : ℤ) (idx : RegIdx) : Plain (memOperand offset idx) := by
  refine plain_append (plain_signed offset) (plain_cons rfl ?_).2
  exact (plain_append (plain_reg idx) (forall_of_all (by decide))).2

theorem plain_operands (dec : DecodedInstr) (pc : Word) : ∀ tok ∈ operands dec pc, Plain tok := by
  cases hf : dec.format with
  | R =>
    simp only [operands, operandsR, hf]
    cases dec.r.funct <;> simp [plain_reg, plain_decimal]
  | I =>
    simp only [operands, operandsI, hf]
    cases dec.opcode <;>
      simp [plain_reg, plain_hex, plain_explicitlySigned, plain_memOperand]
  | J => simp [operands, hf, plain_hex]
  | Unknown =>
    simp only [operands, hf, List.mem_singleton, forall_eq]
    decide

-- The texts Decoder::mnemonic returns.
def kMnemonics : List String :=
  ["ADD", "ADDU", "SUB", "SUBU", "AND", "OR", "XOR", "NOR", "SLT", "SLTU", "SLL", "SRL", "SRA",
    "SLLV", "SRLV", "JR", "JALR", "SYSCALL", "BREAK", "???", "MFC0", "MTC0", "ERET", "COP0", "J",
    "JAL", "BEQ", "BNE", "ADDI", "ADDIU", "SLTI", "SLTIU", "ANDI", "ORI", "XORI", "LUI", "LW",
    "LBU", "LHU", "SW"]

theorem mnemonic_mem (dec : DecodedInstr) : Decoder.mnemonic dec ∈ kMnemonics := by
  unfold Decoder.mnemonic
  split
  · cases dec.r.funct <;> simp [kMnemonics]
  · split
    · dsimp only
      split
      · decide
      · split
        · decide
        · split <;> decide
    · cases dec.opcode <;> simp [kMnemonics]

theorem plain_lowerMnemonic (dec : DecodedInstr) : Plain (lowerMnemonic dec) := by
  have hall : ∀ name ∈ kMnemonics, Plain (name.toList.map Char.toLower) := by decide
  exact hall _ (mnemonic_mem dec)

-- The parts of a text.
theorem split_toString (dec : DecodedInstr) (pc : Word) :
    split isGap (toString dec pc) = lowerMnemonic dec :: operands dec pc := by
  obtain ⟨hne, hmn⟩ := plain_lowerMnemonic dec
  have hops : split isGap (List.intercalate ", ".toList (operands dec pc)) = operands dec pc :=
    split_intercalate (forall_of_all (by decide)) (by decide) fun tok htok =>
      ⟨(plain_operands dec pc tok htok).1, fun c hc =>
        isGap_of_not_isReserved ((plain_operands dec pc tok htok).2 c hc)⟩
  have hgap : ∀ c ∈ [' '], isGap c = true := forall_of_all (by decide)
  have hsplit := split_token_append hne (fun c hc => isGap_of_not_isReserved (hmn c hc)) hgap
    (by decide) (List.intercalate ", ".toList (operands dec pc))
  rw [toString_eq, ← List.singleton_append, hsplit, hops]

-- The mnemonic of an operation.
def name : Operation → List Char
  | .special funct =>
      lowerMnemonic { opcode := .SPECIAL, format := .R, fields := .r { funct := funct } }
  | .cop0 => "cop0".toList
  | .other op => lowerMnemonic { opcode := op, format := Decoder.formatOf op, fields := .i {} }

-- The operations of decoded words that are not COP0.
def kOperations : List Operation :=
  [.ADD, .ADDU, .SUB, .SUBU, .AND, .OR, .XOR, .NOR, .SLT, .SLTU, .SLL, .SRL, .SRA, .SLLV, .SRLV,
    .JR, .JALR, .SYSCALL, .BREAK].map Operation.special ++
  [.J, .JAL, .BEQ, .BNE, .ADDI, .ADDIU, .SLTI, .SLTIU, .ANDI, .ORI, .XORI, .LUI, .LW, .LBU, .LHU,
    .SW].map Operation.other

theorem operation_mem {word : Word} {d : DecodedInstr} (h : Decoder.decode word = some d)
    (hcop : d.opcode ≠ .COP0) :
    d.operation ∈ kOperations ∧ lowerMnemonic d = name d.operation := by
  cases Decoder.decode_decoded h with
  | special r himpl =>
    refine ⟨?_, rfl⟩
    simp only [DecodedInstr.operation, DecodedInstr.r, if_true]
    cases hf : r.funct <;> simp [hf, Decoder.implementedSpecial] at himpl <;> simp [kOperations]
  | cop0 r => exact absurd rfl hcop
  | immediate op i hop =>
    cases op with
    | SPECIAL | COP0 | J | JAL | unnamed => simp [Decoder.formatOf] at hop
    | _ => exact ⟨by simp [DecodedInstr.operation, kOperations], rfl⟩
  | jump op hop =>
    rcases Decoder.formatOf_eq_J hop with rfl | rfl
    · exact ⟨by simp [DecodedInstr.operation, kOperations], rfl⟩
    · exact ⟨by simp [DecodedInstr.operation, kOperations], rfl⟩

theorem name_inj {op op' : Operation} (h : op ∈ kOperations) (h' : op' ∈ kOperations)
    (heq : name op = name op') : op = op' := by
  have hnodup : (kOperations.map name).Nodup := by decide
  exact List.inj_on_of_nodup_map hnodup h h' heq

-- Each way to print an operand can be undone.
theorem reg_inj {idx idx' : RegIdx} (h : reg idx = reg idx') : idx = idx' := by
  have hnodup : ((List.ofFn fun k : Fin 32 => BitVec.ofFin k).map registerAbiName).Nodup := by
    decide
  have hmem : ∀ idx : RegIdx, idx ∈ List.ofFn fun k : Fin 32 => BitVec.ofFin k := by decide
  exact List.inj_on_of_nodup_map hnodup (hmem idx) (hmem idx') (List.cons.inj h).2

theorem hex_inj {width m n : ℕ} (h : '0' :: 'x' :: zeroPadded width (upperHex m) =
    '0' :: 'x' :: zeroPadded width (upperHex n)) : m = n := by
  have hdigits := (List.cons.inj (List.cons.inj h).2).2
  have hvalue := congrArg (ofDigits 16) hdigits
  rwa [ofDigits_zeroPadded, ofDigits_zeroPadded, ofDigits_upperHex, ofDigits_upperHex] at hvalue

theorem ne_of_mem_signed {n : ℤ} {x : Char} (hminus : x ≠ '-') (hdigit : isDigit 10 x = false) :
    ∀ c ∈ signed n, c ≠ x := by
  rintro c hc rfl
  rcases mem_signed hc with heq | hd
  · exact hminus heq
  · rw [hdigit] at hd
    cases hd

theorem memOperand_inj {m n : ℤ} {idx idx' : RegIdx}
    (h : memOperand m idx = memOperand n idx') : m = n ∧ idx = idx' := by
  have htake : ∀ (k : ℤ) (s : List Char),
      (signed k ++ '(' :: s).takeWhile (fun c => decide (c ≠ '(')) = signed k := by
    intro k s
    rw [List.takeWhile_append_of_pos fun c hc =>
      decide_eq_true (ne_of_mem_signed (by decide) rfl c hc)]
    simp
  have hsigned : signed m = signed n := by
    rw [← htake m (reg idx ++ [')']), ← htake n (reg idx' ++ [')'])]
    exact congrArg _ h
  rw [memOperand, memOperand, hsigned] at h
  have htail := (List.cons.inj (List.append_cancel_left h)).2
  exact ⟨signed_inj hsigned, reg_inj (List.append_cancel_right htail)⟩

end ClearCore.Mips.Disassembler
