import ClearCore.Mips.Disassembler.Lemmas
import ClearCore.Qt.Assembler.Theorems

-- Words of the assembler, disassembled and assembled again.

namespace ClearCore.Qt.Assembler

open Isa Lines Mips Numeral Mips.Disassembler

-- The operand parsers on what the disassembler prints.

theorem parseReg_reg (idx : RegIdx) : parseReg (reg idx) = some idx := parseReg_abiName idx

theorem decimal_eq_cons (n : ℕ) : ∃ c rest, decimal n = c :: rest ∧ isDigit 10 c = true := by
  obtain ⟨c, rest, hcons⟩ := List.exists_cons_of_ne_nil (decimal_ne_nil n)
  exact ⟨c, rest, hcons, isDigit_decimal n c (hcons ▸ List.mem_cons_self)⟩

theorem parseMagnitude_decimal {n : ℕ} (h : n < 2 ^ 31) :
    parseMagnitude (decimal n) = some (BitVec.ofNat 32 n) := by
  have hvalue := ofDigits_decimal n
  rw [parseMagnitude_digits (decimal_ne_nil n) (isDigit_decimal n) (by omega), hvalue]

theorem parseMagnitude_upperHex {width n : ℕ} (h : n < 2 ^ 32) :
    parseMagnitude ('0' :: 'x' :: zeroPadded width (upperHex n)) = some (BitVec.ofNat 32 n) := by
  have hvalue : ofDigits 16 (zeroPadded width (upperHex n)) = n := by
    rw [ofDigits_zeroPadded, ofDigits_upperHex]
  have hne : zeroPadded width (upperHex n) ≠ [] := fun he =>
    upperHex_ne_nil n (List.append_eq_nil_iff.mp he).2
  rw [parseMagnitude_hex (.inl rfl) hne (isDigit_zeroPadded (by decide) (isDigit_upperHex n))
    (by omega), hvalue]

theorem parseImm_decimal {n : ℕ} (h : n < 2 ^ 31) :
    parseImm (decimal n) = some (BitVec.ofNat 32 n) := by
  obtain ⟨c, rest, hcons, hdigit⟩ := decimal_eq_cons n
  have hc : c ≠ '-' := by
    rintro rfl
    exact absurd hdigit (by decide)
  rw [← parseMagnitude_decimal h, hcons, parseImm_of_ne_minus hc]

theorem parseImm_minus {n : ℤ} (hneg : n < 0) (h : -(2 ^ 31) < n) :
    parseImm ('-' :: decimal n.natAbs) = some (BitVec.ofInt 32 n) := by
  have hn : n = -(n.natAbs : ℤ) := by omega
  have hmag := parseMagnitude_decimal (n := n.natAbs) (by omega)
  simp only [parseImm, hmag, Option.map_some]
  conv_rhs => rw [hn]
  rw [BitVec.ofInt_neg, BitVec.ofInt_natCast, BitVec.zero_sub]

theorem parseImm_signed {n : ℤ} (hlow : -(2 ^ 31) < n) (hhigh : n < 2 ^ 31) :
    parseImm (signed n) = some (BitVec.ofInt 32 n) := by
  rw [signed]
  split
  · rename_i hneg
    exact parseImm_minus hneg hlow
  · rename_i hneg
    have hn : n = (n.natAbs : ℤ) := by omega
    rw [parseImm_decimal (by omega)]
    conv_rhs => rw [hn, BitVec.ofInt_natCast]

-- A plus sign is no part of a numeral.
theorem parseImm_plus (digits : Text) : parseImm ('+' :: digits) = none := by
  rw [parseImm_of_ne_minus (by decide), parseMagnitude, if_neg (by simp)]
  have hread : fromCharsInt32 ('+' :: digits) = none := by
    simp [fromCharsInt32, fromChars, isDigit, digitValue]
  rw [hread]

theorem parseImm_explicitlySigned {n : ℤ} (hlow : -(2 ^ 31) < n) :
    parseImm (explicitlySigned n) = if n < 0 then some (BitVec.ofInt 32 n) else none := by
  rw [explicitlySigned]
  split
  · rename_i hneg
    exact parseImm_minus hneg hlow
  · exact parseImm_plus _

theorem parseMemOperand_memOperand {n : ℤ} (hlow : -(2 ^ 31) < n) (hhigh : n < 2 ^ 31)
    (idx : RegIdx) :
    parseMemOperand (memOperand n idx) = some (BitVec.ofInt 32 n, idx) := by
  exact parseMemOperand_eq (ne_of_mem_signed (by decide) rfl) (ne_of_mem_signed (by decide) rfl)
    (abiName_ne_paren idx) [] (parseImm_signed hlow hhigh) (parseReg_reg idx)

-- The text of an instruction is one line, without a comment or a label.

theorem mem_toString {d : DecodedInstr} {pc : Word} {c : Char} (h : c ∈ toString d pc) :
    isReserved c = false ∨ c = ' ' ∨ c = ',' := by
  rw [toString_eq, List.mem_append, List.mem_cons] at h
  rcases h with h | rfl | h
  · exact .inl ((plain_lowerMnemonic d).2 c h)
  · exact .inr (.inl rfl)
  · rcases Tokens.mem_intercalate h with hgap | ⟨tok, htok, hc⟩
    · have hall : ∀ c ∈ ", ".toList, decide (c = ' ' ∨ c = ',') = true :=
        Tokens.forall_of_all (by decide)
      exact .inr (of_decide_eq_true (hall c hgap))
    · exact .inl ((plain_operands d pc tok htok).2 c hc)

theorem ne_of_mem_toString {d : DecodedInstr} {pc : Word} {x : Char} (hx : isReserved x = true)
    (hspace : x ≠ ' ') (hcomma : x ≠ ',') : ∀ c ∈ toString d pc, c ≠ x := by
  rintro c hc rfl
  rcases mem_toString hc with h | h | h
  · rw [hx] at h
    cases h
  · exact hspace h
  · exact hcomma h

theorem isSpace_of_not_isReserved {c : Char} (h : isReserved c = false) : isSpace c = false := by
  simp only [isReserved, isGap, Bool.or_eq_false_iff] at h
  obtain ⟨⟨⟨⟨⟨⟨-, hspace⟩, htab⟩, hcr⟩, hnl⟩, -⟩, -⟩ := h
  simp only [isSpace, hspace, htab, hcr, hnl, Bool.or_self]

theorem operands_ne_nil (d : DecodedInstr) (pc : Word) : operands d pc ≠ [] := by
  rw [operands]
  cases d.format with
  | R =>
    simp only [operandsR]
    cases d.r.funct <;> simp
  | I =>
    simp only [operandsI]
    cases d.opcode <;> simp
  | J | Unknown => simp

theorem trim_toString (d : DecodedInstr) (pc : Word) : trim (toString d pc) = toString d pc := by
  obtain ⟨hne, hmn⟩ := plain_lowerMnemonic d
  obtain ⟨c, rest, hcons⟩ := List.exists_cons_of_ne_nil hne
  have hfirst : isSpace c = false :=
    isSpace_of_not_isReserved (hmn c (hcons ▸ List.mem_cons_self))
  have hdrop : (toString d pc).dropWhile isSpace = toString d pc := by
    rw [toString_eq, hcons, List.cons_append, List.dropWhile_cons_of_neg (by simp [hfirst])]
  obtain ⟨front, tok, htok, heq⟩ : ∃ front tok, tok ∈ operands d pc ∧
      List.intercalate ", ".toList (operands d pc) = front ++ tok :=
    Tokens.intercalate_eq_append (operands_ne_nil d pc)
  obtain ⟨hne', hplain⟩ := plain_operands d pc tok htok
  rw [trim, hdrop, List.rdropWhile_eq_self_iff]
  intro hl
  have hlast : (toString d pc).getLast hl = tok.getLast hne' := by
    have htext : toString d pc = (lowerMnemonic d ++ ' ' :: front) ++ tok := by
      rw [toString_eq, heq]
      simp
    simp only [htext, List.getLast_append_of_ne_nil _ hne']
  rw [hlast, isSpace_of_not_isReserved (hplain _ (List.getLast_mem hne'))]
  exact Bool.false_ne_true

theorem toLower_lowerMnemonic (d : DecodedInstr) :
    (lowerMnemonic d).map Char.toLower = lowerMnemonic d := by
  have hall : ∀ s ∈ kMnemonics, (s.toList.map Char.toLower).map Char.toLower =
      s.toList.map Char.toLower := by decide
  exact hall _ (mnemonic_mem d)

theorem assemble_toString (d : DecodedInstr) (pc : Word) :
    assemble (toString d pc) =
      match encodeLine [] 0 (lowerMnemonic d) (operands d pc) with
      | .ok w => { words := [w] }
      | .error msg => { error := some (makeError 1 msg) } := by
  have hne : toString d pc ≠ [] := by
    rw [toString_eq]
    simp
  have hlines : getlines (toString d pc) = [toString d pc] := by
    rw [getlines, getlinesFrom_append (ne_of_mem_toString rfl (by decide) (by decide)),
      List.nil_append]
    simp [hne]
  have hcomment : stripComment (toString d pc) = toString d pc :=
    List.takeWhile_eq_self_iff.mpr fun c hc =>
      decide_eq_true (ne_of_mem_toString rfl (by decide) (by decide) c hc)
  have hlabel : splitLabel (toString d pc) = none := by
    rw [splitLabel, List.findIdx?_eq_none_iff.mpr, Option.map_none]
    exact fun c hc => decide_eq_false (ne_of_mem_toString rfl (by decide) (by decide) c hc)
  have htokens : tokenise (toString d pc) = lowerMnemonic d :: operands d pc := split_toString d pc
  have hpass : pass1 (toString d pc) =
      { lines := [{ lineno := 1, mnemonic := lowerMnemonic d, operands := operands d pc }] } := by
    simp only [pass1, hlines, Pass1.readLines, Pass1.readLine, hcomment, trim_toString, hlabel,
      Pass1.addInstruction, htokens, toLower_lowerMnemonic]
    simp [hne]
  rw [assemble, hpass]
  simp only [encodeLines]
  cases encodeLine [] 0 (lowerMnemonic d) (operands d pc) <;> rfl

-- The words that assemble() emits.

-- Some mnemonic names the operation.
def assembles (op : Operation) : Bool := forms.any fun entry => decide (entry.2.operation = op)

-- The syntax of the operation mentions the field.
def mentions (op : Operation) (name : FieldName) : Bool :=
  forms.any fun entry => decide (entry.2.operation = op) &&
    (entry.2.roles.flatMap Role.fields).contains name

theorem emitted {source : Text} (h : (assemble source).ok = true) {w : Word}
    (hw : w ∈ (assemble source).words) :
    ∃ d, Decoder.decode w = some d ∧ assembles d.operation = true ∧
      ∀ name, mentions d.operation name = false → d.field name = 0#32 := by
  obtain ⟨hlength, hall⟩ := assemble_encodes h
  obtain ⟨i, hi, hget⟩ := List.mem_iff_getElem.mp hw
  have hline := List.getElem?_eq_getElem (hlength ▸ hi)
  have hencode := hall i _ _ w hline (hget ▸ List.getElem?_eq_getElem hi)
  obtain ⟨d, hd, form, hform, hop, -, -, hzero⟩ :=
    encodeLine_agrees (pass1_collected source).resolves hencode
  obtain ⟨name, hmem, -⟩ := find_eq_some hform
  refine ⟨d, hd, List.any_eq_true.mpr ⟨_, hmem, decide_eq_true hop.symm⟩, fun field hfield => ?_⟩
  refine hzero field fun hin => ?_
  have hthis := List.any_eq_false.mp hfield _ hmem
  rw [decide_eq_true hop.symm, Bool.true_and] at hthis
  exact hthis (List.contains_iff_mem.mpr hin)

theorem eq_zero_of_setWidth {width : ℕ} {x : BitVec width} (hwidth : width ≤ 32)
    (h : x.setWidth 32 = 0#32) : x = 0 := by
  have hnat := congrArg BitVec.toNat h
  have hlt : x.toNat < 2 ^ 32 :=
    Nat.lt_of_lt_of_le x.isLt (Nat.pow_le_pow_right (by decide) hwidth)
  rw [BitVec.toNat_setWidth, Nat.mod_eq_of_lt hlt] at hnat
  apply BitVec.eq_of_toNat_eq
  rw [hnat]
  simp

-- The encoders on the fields of a word.
theorem encR_fields {w : Word} {r : RFields} (himpl : Decoder.implementedSpecial r.funct = true)
    (hd : Decoder.decode w =
      some { raw := w, opcode := .SPECIAL, format := .R, fields := .r r }) :
    encR r.rs r.rt r.rd r.shamt r.funct.code = w :=
  Decoder.eq_of_special (decode_encR himpl r.rs r.rt r.rd r.shamt) hd rfl rfl rfl

theorem encI_fields {w : Word} {op : Opcode} {i : IFields} (hop : Decoder.formatOf op = .I)
    (hd : Decoder.decode w = some { raw := w, opcode := op, format := .I, fields := .i i }) :
    encI op.code i.rs i.rt i.imm = w :=
  Decoder.eq_of_immediate (decode_encI hop i.rs i.rt i.imm) hd rfl rfl rfl rfl

theorem toNat_shamt_lt (shamt : BitVec 5) : shamt.toNat < 2 ^ 31 :=
  Nat.lt_of_lt_of_le shamt.isLt (by decide)

theorem ofNat_shamt (shamt : BitVec 5) :
    ¬((BitVec.ofNat 32 shamt.toNat).toInt < 0 ∨ 31 < (BitVec.ofNat 32 shamt.toNat).toInt) ∧
      (BitVec.ofNat 32 shamt.toNat).setWidth 5 = shamt := by
  revert shamt
  decide

-- The printed immediate of a field and its way back.
theorem fitsSimm16_signExtend (imm : Half) : fitsSimm16 (Decoder.signExtend imm) = true :=
  decide_eq_true (toInt_imm_range imm)

theorem setWidth_signExtend (imm : Half) : (Decoder.signExtend imm).setWidth 16 = imm := by
  apply BitVec.eq_of_getLsbD_eq
  intro k hk
  have hk32 : k < 32 := by omega
  rw [BitVec.getLsbD_setWidth, Decoder.signExtend, BitVec.getLsbD_signExtend]
  simp [hk, hk32]

theorem encodeLine_special {w : Word} {r : RFields}
    (himpl : Decoder.implementedSpecial r.funct = true)
    (hd : Decoder.decode w = some { raw := w, opcode := .SPECIAL, format := .R, fields := .r r })
    (hop : assembles (.special r.funct) = true)
    (hzero : ∀ name, mentions (.special r.funct) name = false →
      DecodedInstr.field { raw := w, opcode := .SPECIAL, format := .R, fields := .r r } name = 0#32) :
    encodeLine [] 0 (name (.special r.funct)) (operandsR r) = .ok w := by
  have hword := encR_fields himpl hd
  have hshamt : mentions (.special r.funct) .shamt = false → r.shamt = 0#5 := fun h =>
    eq_zero_of_setWidth (by decide) (hzero .shamt h)
  have hrs : mentions (.special r.funct) .rs = false → r.rs = 0#5 := fun h =>
    eq_zero_of_setWidth (by decide) (hzero .rs h)
  have hrt : mentions (.special r.funct) .rt = false → r.rt = 0#5 := fun h =>
    eq_zero_of_setWidth (by decide) (hzero .rt h)
  have hrd : mentions (.special r.funct) .rd = false → r.rd = 0#5 := fun h =>
    eq_zero_of_setWidth (by decide) (hzero .rd h)
  rw [operandsR]
  cases hf : r.funct with
  | SYSCALL | BREAK =>
    rw [hf] at hop
    exact absurd hop (by decide)
  | ERET | unnamed code =>
    rw [hf] at himpl
    exact absurd himpl Bool.false_ne_true
  | SLL | SRL | SRA =>
    rw [hf] at hrs hword
    rw [hrs (by decide)] at hword
    obtain ⟨hrange, hback⟩ := ofNat_shamt r.shamt
    change encodeShift _ [reg r.rd, reg r.rt, decimal r.shamt.toNat] = _
    simp only [encodeShift, parseReg_reg, parseImm_decimal (toNat_shamt_lt r.shamt), hrange, hback,
      if_false]
    exact congrArg _ hword
  | SLLV | SRLV =>
    rw [hf] at hshamt hword
    rw [hshamt (by decide)] at hword
    change encodeVShift _ [reg r.rd, reg r.rt, reg r.rs] = _
    simp only [encodeVShift, parseReg_reg]
    exact congrArg _ hword
  | JR =>
    rw [hf] at hshamt hrt hrd hword
    rw [hshamt (by decide), hrt (by decide), hrd (by decide)] at hword
    change encodeJr [reg r.rs] = _
    simp only [encodeJr, parseReg_reg]
    exact congrArg _ hword
  | JALR =>
    rw [hf] at hshamt hrt hword
    rw [hshamt (by decide), hrt (by decide)] at hword
    change encodeJalr [reg r.rd, reg r.rs] = _
    simp only [encodeJalr, parseReg_reg]
    exact congrArg _ hword
  | _ =>
    rw [hf] at hshamt hword
    rw [hshamt (by decide)] at hword
    change encodeR3 _ [reg r.rd, reg r.rs, reg r.rt] = _
    simp only [encodeR3, parseReg_reg]
    exact congrArg _ hword

-- The immediates that are printed as the assembler reads them.
def Reassembles (d : DecodedInstr) : Prop :=
  match d.opcode with
  | .ADDI | .ADDIU | .SLTI | .SLTIU | .BEQ | .BNE => d.i.imm.toInt < 0
  | .ANDI | .ORI | .XORI => False
  | _ => True

theorem encodeIArith_signed {w : Word} {mn : Text} {op : Opcode} {i : IFields}
    (hword : encI op.code i.rs i.rt i.imm = w) :
    encodeIArith mn op.code [reg i.rt, reg i.rs,
      explicitlySigned (Decoder.signExtend i.imm).toInt] = .ok w ↔
      zeroExtendsImm mn = false ∧ i.imm.toInt < 0 := by
  have hrange := toInt_imm_range i.imm
  simp only [encodeIArith, parseReg_reg, parseImm_explicitlySigned (n := (Decoder.signExtend i.imm).toInt)
    (by omega), BitVec.ofInt_toInt, ← Decoder.toInt_signExtend]
  by_cases hneg : (Decoder.signExtend i.imm).toInt < 0
  · rw [if_pos hneg]
    have hnofit : fitsUimm16 (Decoder.signExtend i.imm) = false :=
      decide_eq_false fun h => by omega
    cases hmn : zeroExtendsImm mn with
    | true => simp [hnofit]
    | false =>
      simp [fitsSimm16_signExtend, setWidth_signExtend, hneg, hword]
  · rw [if_neg hneg]
    simp [hneg]

theorem encodeBranch_signed {w : Word} {op : Opcode} {i : IFields}
    (hword : encI op.code i.rs i.rt i.imm = w) :
    encodeBranch [] 0 op.code [reg i.rs, reg i.rt,
      explicitlySigned (Decoder.signExtend i.imm).toInt] = .ok w ↔ i.imm.toInt < 0 := by
  have hrange := toInt_imm_range i.imm
  simp only [encodeBranch, branchOffset, parseReg_reg,
    parseImm_explicitlySigned (n := (Decoder.signExtend i.imm).toInt) (by omega),
    BitVec.ofInt_toInt, ← Decoder.toInt_signExtend]
  by_cases hneg : (Decoder.signExtend i.imm).toInt < 0
  · simp [hneg, fitsSimm16_signExtend, setWidth_signExtend, hword]
  · simp [hneg]

theorem encodeMem_signed {w : Word} {op : Opcode} {i : IFields}
    (hword : encI op.code i.rs i.rt i.imm = w) :
    encodeMem op.code [reg i.rt, memOperand (Decoder.signExtend i.imm).toInt i.rs] = .ok w := by
  have hrange := toInt_imm_range i.imm
  simp only [encodeMem, parseReg_reg, BitVec.ofInt_toInt,
    parseMemOperand_memOperand (n := (Decoder.signExtend i.imm).toInt) (by omega) (by omega)]
  simp [fitsSimm16_signExtend, setWidth_signExtend, hword]

theorem encodeLui_hex {w : Word} {i : IFields} (hword : encI Opcode.LUI.code 0#5 i.rt i.imm = w) :
    encodeLui [reg i.rt, '0' :: 'x' :: zeroPadded 4 (upperHex i.imm.toNat)] = .ok w := by
  have hlt := i.imm.isLt
  have hback : (BitVec.ofNat 32 i.imm.toNat).setWidth 16 = i.imm := by
    apply BitVec.eq_of_toNat_eq
    rw [BitVec.toNat_setWidth, BitVec.toNat_ofNat]
    omega
  have hfits : fitsUimm16 (BitVec.ofNat 32 i.imm.toNat) = true := by
    apply decide_eq_true
    rw [BitVec.toInt_eq_toNat_cond, BitVec.toNat_ofNat]
    split <;> omega
  simp only [encodeLui, parseReg_reg, parseImm_of_ne_minus (c := '0') (by decide),
    parseMagnitude_upperHex (n := i.imm.toNat) (by omega), hfits, hback, Bool.not_true,
    Bool.false_eq_true, if_false]
  exact congrArg Except.ok hword

-- The block that takes the mnemonic of an operation.
theorem encodeLine_iArith {op : Opcode}
    (h : op ∈ [Opcode.ADDI, .ADDIU, .SLTI, .SLTIU, .ANDI, .ORI, .XORI]) (ops : List Text) :
    encodeLine [] 0 (name (.other op)) ops = encodeIArith (name (.other op)) op.code ops := by
  simp only [List.mem_cons, List.not_mem_nil, or_false] at h
  rcases h with rfl | rfl | rfl | rfl | rfl | rfl | rfl <;> rfl

theorem encodeLine_mem {op : Opcode} (h : op ∈ [Opcode.LW, .LBU, .LHU, .SW]) (ops : List Text) :
    encodeLine [] 0 (name (.other op)) ops = encodeMem op.code ops := by
  simp only [List.mem_cons, List.not_mem_nil, or_false] at h
  rcases h with rfl | rfl | rfl | rfl <;> rfl

theorem encodeLine_branch {op : Opcode} (h : op ∈ [Opcode.BEQ, .BNE]) (ops : List Text) :
    encodeLine [] 0 (name (.other op)) ops = encodeBranch [] 0 op.code ops := by
  simp only [List.mem_cons, List.not_mem_nil, or_false] at h
  rcases h with rfl | rfl <;> rfl

theorem encodeLine_immediate {w : Word} {op : Opcode} {i : IFields}
    (hop : Decoder.formatOf op = .I)
    (hd : Decoder.decode w = some { raw := w, opcode := op, format := .I, fields := .i i })
    (hzero : ∀ name, mentions (.other op) name = false →
      DecodedInstr.field { raw := w, opcode := op, format := .I, fields := .i i } name = 0#32) :
    encodeLine [] 0 (name (.other op)) (operandsI op i) = .ok w ↔
      Reassembles { raw := w, opcode := op, format := .I, fields := .i i } := by
  have hword := encI_fields hop hd
  have hrs : mentions (.other op) .rs = false → i.rs = 0#5 := fun h =>
    eq_zero_of_setWidth (by decide) (hzero .rs h)
  cases op with
  | SPECIAL | COP0 | J | JAL | unnamed code => simp [Decoder.formatOf] at hop
  | ADDI | ADDIU | SLTI | SLTIU =>
    rw [encodeLine_iArith (by decide)]
    refine (encodeIArith_signed hword).trans ?_
    exact and_iff_right (by decide)
  | ANDI | ORI | XORI =>
    rw [encodeLine_iArith (by decide)]
    refine (encodeIArith_signed hword).trans ?_
    exact iff_of_false (fun h => absurd h.1 (by decide)) id
  | BEQ | BNE =>
    rw [encodeLine_branch (by decide)]
    exact encodeBranch_signed hword
  | LUI =>
    rw [hrs (by decide)] at hword
    have hline : encodeLine [] 0 (name (.other .LUI)) (operandsI .LUI i) =
        encodeLui (operandsI .LUI i) := rfl
    rw [hline]
    exact iff_of_true (encodeLui_hex hword) trivial
  | LW | LBU | LHU | SW =>
    rw [encodeLine_mem (by decide)]
    exact iff_of_true (encodeMem_signed hword) trivial

-- The text of `w` at `pc` assembles to `w` alone.
def RoundTrips (w pc : Word) : Prop :=
  ∃ d, Decoder.decode w = some d ∧ assemble (toString d pc) = { words := [w] }

theorem roundTrips_of_encodeLine {w pc : Word} {d : DecodedInstr}
    (hd : Decoder.decode w = some d) :
    RoundTrips w pc ↔ encodeLine [] 0 (lowerMnemonic d) (operands d pc) = .ok w := by
  constructor
  · rintro ⟨e, he, h⟩
    obtain rfl := Option.some.inj (hd.symm.trans he)
    rw [assemble_toString] at h
    split at h
    · rename_i w' hw'
      rw [hw', (List.cons.inj (congrArg AssemblerResult.words h)).1]
    · exact absurd (congrArg AssemblerResult.error h) (by simp)
  · intro h
    refine ⟨d, hd, ?_⟩
    rw [assemble_toString, h]

-- An emitted word that is no jump is read back if and only if its immediate is printed as
-- the assembler reads it.
theorem roundTrips_iff {source : Text} (h : (assemble source).ok = true) {w : Word}
    (hw : w ∈ (assemble source).words) {d : DecodedInstr} (hd : Decoder.decode w = some d)
    (hj : d.opcode ≠ .J ∧ d.opcode ≠ .JAL) (pc : Word) : RoundTrips w pc ↔ Reassembles d := by
  obtain ⟨e, he, hop, hzero⟩ := emitted h hw
  obtain rfl := Option.some.inj (hd.symm.trans he)
  rw [roundTrips_of_encodeLine hd]
  cases Decoder.decode_decoded hd with
  | cop0 r =>
    have hnone : assembles .cop0 = false := by decide
    exact absurd (hnone.symm.trans hop) Bool.false_ne_true
  | jump op hop' =>
    rcases Decoder.formatOf_eq_J hop' with rfl | rfl
    · exact absurd rfl hj.1
    · exact absurd rfl hj.2
  | special r himpl => exact iff_of_true (encodeLine_special himpl hd hop hzero) trivial
  | immediate op i hformat =>
    have hoperation : DecodedInstr.operation
        { raw := w, opcode := op, format := .I, fields := .i i } = .other op :=
      operation_other (.inl hformat)
    rw [hoperation] at hzero
    have hcop : op ≠ .COP0 := by
      rintro rfl
      cases hformat
    rw [(operation_mem hd hcop).2, hoperation]
    exact encodeLine_immediate hformat hd hzero

theorem roundTrips_lw : RoundTrips 0x8FA8FFFC#32 0#32 := by
  have hok : (assemble "lw $t0, -4($sp)".toList).ok = true := by decide
  have hw : 0x8FA8FFFC#32 ∈ (assemble "lw $t0, -4($sp)".toList).words := by decide
  have hd : Decoder.decode 0x8FA8FFFC#32 = some
      { raw := 0x8FA8FFFC#32, opcode := .LW, format := .I
        fields := .i { rs := 29#5, rt := 8#5, imm := 0xFFFC#16 } } := rfl
  exact (roundTrips_iff hok hw hd (by decide) 0#32).mpr trivial

-- ADDI $t0, $zero, 5 prints with a plus sign.
theorem plus_sign_rejected : ¬∀ (source : Text) (w : Word) (d : DecodedInstr) (pc : Word),
    (assemble source).ok = true → w ∈ (assemble source).words → Decoder.decode w = some d →
    d.opcode ≠ .J ∧ d.opcode ≠ .JAL → RoundTrips w pc := by
  intro hall
  have hd : Decoder.decode 0x20080005#32 = some
      { raw := 0x20080005#32, opcode := .ADDI, format := .I
        fields := .i { rt := 8#5, imm := 5#16 } } := rfl
  obtain ⟨e, he, h⟩ := hall "addi $t0, $zero, 5".toList 0x20080005#32 _ 0#32 (by decide)
    (by decide) hd (by decide)
  obtain rfl := Option.some.inj (hd.symm.trans he)
  exact absurd h (by decide)

end ClearCore.Qt.Assembler
