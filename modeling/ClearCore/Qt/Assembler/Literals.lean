import ClearCore.Mips.Control
import ClearCore.Qt.Assembler.Theorems

-- The numbers that are written in a source against the fields they fill.

namespace ClearCore.Mips

open Isa

-- The number that the CPU makes of a field: shift amounts and jump targets are unsigned, an
-- immediate is extended as the control word says.
def DecodedInstr.operandValue (d : DecodedInstr) : ℤ :=
  match d.format with
  | .R => d.r.shamt.toNat
  | .I =>
      if (deriveControl d).ext = .Sign then (Decoder.signExtend d.i.imm).toInt
      else (d.i.imm.setWidth 32).toNat
  | _ => d.j.target.toNat

end ClearCore.Mips

namespace ClearCore.Qt.Assembler

open Isa Mips Numeral

-- The documented range of the number an operand writes.
def Role.range : Role → ℤ × ℤ
  | .shamt => (0, 31)
  | .uimm => (0, 65535)
  | .target => (0, 0x3FFFFFF)
  | _ => (-32768, 32767)

-- The numeral in an operand. A branch or jump target that is no number is a label.
def Role.numeral (role : Role) (tok : Text) : Option Text :=
  match role with
  | .rd | .rs | .rt => none
  | .shamt | .uimm | .simm => some tok
  | .mem => some (tok.takeWhile fun c => decide (c ≠ '('))
  | .offset | .target => if (parseImm tok).isSome then some tok else none

-- `lit` is the numeral of an operand of the instruction line with index `idx`.
def Writes (source : Text) (idx : ℕ) (role : Role) (lit : Text) : Prop :=
  ∃ mn ops form tok, (instructions (sourceLines source))[idx]? = some (mn, ops) ∧
    find forms mn = some form ∧ (role, tok) ∈ form.roles.zip ops ∧ role.numeral tok = some lit

-- Every number is in the range of its operand, and the CPU finds it in the encoded word.
def LiteralsExact (source : Text) : Prop :=
  ∀ idx role lit, Writes source idx role lit →
    ∃ w d v, (assemble source).words[idx]? = some w ∧ Decoder.decode w = some d ∧
      Denotes lit v ∧ role.range.1 ≤ v ∧ v ≤ role.range.2 ∧ d.operandValue = v

-- Every number fits an int32_t.
def LiteralsFit (source : Text) : Prop :=
  ∀ idx role lit v, Writes source idx role lit → Denotes lit v → -(2 ^ 31) ≤ v ∧ v < 2 ^ 31

theorem Denotes.ne_paren {tok : Text} {v : ℤ} (h : Denotes tok v) {p : Char}
    (hp : p = '(' ∨ p = ')') : ∀ c ∈ tok, c ≠ p := by
  have hten : isDigit 10 p = false := by rcases hp with rfl | rfl <;> rfl
  have hsixteen : isDigit 16 p = false := by rcases hp with rfl | rfl <;> rfl
  have hplain : p ≠ '-' ∧ p ≠ '0' ∧ p ≠ 'x' ∧ p ≠ 'X' := by rcases hp with rfl | rfl <;> decide
  obtain ⟨hminus, hzero, hlower, hupper⟩ := hplain
  induction h with
  | decimal _ hdigits =>
    rintro c hc rfl
    exact Bool.false_ne_true (hten.symm.trans (hdigits _ hc))
  | hex hx _ hdigits =>
    rintro c hc rfl
    rcases List.mem_cons.mp hc with hc | hc
    · exact hzero hc
    rcases List.mem_cons.mp hc with rfl | hc
    · rcases hx with hx | hx
      · exact hlower hx
      · exact hupper hx
    · exact Bool.false_ne_true (hsixteen.symm.trans (hdigits _ hc))
  | neg _ ih =>
    intro c hc
    rcases List.mem_cons.mp hc with rfl | hc
    · exact hminus.symm
    · exact ih c hc

-- Decimal digits have no minus sign and no prefix.
theorem not_decimal_neg {tok : Text} : ¬∀ c ∈ '-' :: tok, isDigit 10 c = true :=
  fun h => absurd (h '-' List.mem_cons_self) (by decide)

theorem not_decimal_hex {x : Char} {digits : Text} (hx : x = 'x' ∨ x = 'X') :
    ¬∀ c ∈ '0' :: x :: digits, isDigit 10 c = true := by
  intro h
  have hdigit := h x (List.mem_cons_of_mem _ List.mem_cons_self)
  rcases hx with rfl | rfl <;> exact absurd hdigit (by decide)

-- A text denotes one number at most.
theorem Denotes.unique {tok : Text} {v v' : ℤ} (h : Denotes tok v) (h' : Denotes tok v') :
    v = v' := by
  induction h generalizing v' with
  | decimal hne hdigits =>
    cases h' with
    | decimal => rfl
    | hex hx => exact absurd hdigits (not_decimal_hex hx)
    | neg => exact absurd hdigits not_decimal_neg
  | hex hx hne hdigits =>
    cases h' with
    | decimal _ hdigits' => exact absurd hdigits' (not_decimal_hex hx)
    | hex => rfl
  | neg h ih =>
    cases h' with
    | decimal _ hdigits' => exact absurd hdigits' not_decimal_neg
    | neg h' => rw [ih h']

-- The operation has the field that the operand writes, and extends it to its range.
def Role.fills (role : Role) (operation : Operation) : Bool :=
  match role, operation with
  | .rd, _ | .rs, _ | .rt, _ => true
  | .shamt, .special _ => true
  | .uimm, .other op =>
      decide (Decoder.formatOf op = .I ∧ (Control.iTypeControl op).ext = .Zero)
  | .simm, .other op | .mem, .other op | .offset, .other op =>
      decide (Decoder.formatOf op = .I ∧ (Control.iTypeControl op).ext = .Sign)
  | .target, .other op => decide (Decoder.formatOf op = .J)
  | _, _ => false

theorem forms_fill {mn : Text} {form : Form} (h : find forms mn = some form) {role : Role}
    (hrole : role ∈ form.roles) : role.fills form.operation = true := by
  have hall : ∀ entry ∈ forms, ∀ role ∈ entry.2.roles, role.fills entry.2.operation = true := by
    decide
  obtain ⟨name, hmem, -⟩ := find_eq_some h
  exact hall _ hmem role hrole

section Value

variable {d : DecodedInstr} {word : Word}

theorem format_special (hd : Decoder.decode word = some d) {funct : FunctCode}
    (hop : d.operation = .special funct) : d.format = .R := by
  have hspecial : d.opcode = .SPECIAL := by
    by_contra hne
    rw [DecodedInstr.operation, if_neg hne] at hop
    split at hop <;> cases hop
  exact (Decoder.fields_of_special hd hspecial).1

theorem format_other (hd : Decoder.decode word = some d) {op : Opcode}
    (hop : d.operation = .other op) : d.opcode = op ∧ d.format = Decoder.formatOf op := by
  unfold DecodedInstr.operation at hop
  split at hop
  · cases hop
  split at hop
  · cases hop
  · obtain rfl := Operation.other.inj hop
    cases Decoder.decode_decoded hd with
    | special | cop0 => contradiction
    | immediate op i hi => exact ⟨rfl, hi.symm⟩
    | jump op hj => exact ⟨rfl, hj.symm⟩

-- A number of 32 bits is the one that is written if that one fits.
theorem Literal.exact {tok : Text} {value : Word} (h : Literal tok value) :
    ∃ v, Denotes tok v ∧ (-(2 ^ 31) ≤ v → v < 2 ^ 31 → v = value.toInt) := by
  obtain ⟨v, hv, rfl⟩ := h
  refine ⟨v, hv, fun hlow hhigh => ?_⟩
  rw [BitVec.toInt_ofInt, Int.bmod_eq_of_le (by omega) (by omega)]

theorem operandValue_immediate (hd : Decoder.decode word = some d) {op : Opcode}
    (hop : d.operation = .other op) (hformat : Decoder.formatOf op = .I) :
    d.operandValue = if (Control.iTypeControl op).ext = .Sign then (Decoder.signExtend d.i.imm).toInt
      else (d.i.imm.setWidth 32).toNat := by
  obtain ⟨hopcode, hf⟩ := format_other hd hop
  rw [hformat] at hf
  simp only [DecodedInstr.operandValue, hf, deriveControl, hopcode]

-- The fields without a sign, and how large they are.
theorem operandValue_shamt (hformat : d.format = .R) :
    d.operandValue = (d.field .shamt).toNat ∧ ((d.field .shamt).toNat : ℤ) ≤ 31 := by
  have hlt := d.r.shamt.isLt
  have hfield : d.field .shamt = d.r.shamt.setWidth 32 := by
    rw [DecodedInstr.field]
    exact hformat
  have hvalue : d.operandValue = d.r.shamt.toNat := by rw [DecodedInstr.operandValue, hformat]
  rw [hvalue, hfield, BitVec.toNat_setWidth]
  omega

theorem operandValue_imm (hd : Decoder.decode word = some d) {op : Opcode}
    (hop : d.operation = .other op)
    (hfill : Decoder.formatOf op = .I ∧ (Control.iTypeControl op).ext = .Zero) :
    d.operandValue = (d.field .imm).toNat ∧ ((d.field .imm).toNat : ℤ) ≤ 65535 := by
  have hlt := d.i.imm.isLt
  have hformat := (format_other hd hop).2.trans hfill.1
  have hext : ¬(Control.iTypeControl op).ext = .Sign := by
    rw [hfill.2]
    decide
  have hfield : d.field .imm = d.i.imm.setWidth 32 := by
    rw [DecodedInstr.field]
    exact hformat
  rw [operandValue_immediate hd hop hfill.1, if_neg hext, hfield, BitVec.toNat_setWidth]
  omega

theorem operandValue_target (hd : Decoder.decode word = some d) (hformat : d.format = .J) :
    d.operandValue = (d.field .target).toNat ∧ ((d.field .target).toNat : ℤ) ≤ 0x3FFFFFF := by
  have hlt : d.j.target.toNat < 2 ^ 26 := by
    cases Decoder.decode_decoded hd with
    | special | cop0 => cases hformat
    | immediate op i hi => cases hformat
    | jump op hj =>
      rw [DecodedInstr.j, Decoder.toNat_bits word (by decide)]
      exact Nat.mod_lt _ (by decide)
  have hfield : d.field .target = d.j.target := by
    rw [DecodedInstr.field]
    exact hformat
  have hvalue : d.operandValue = d.j.target.toNat := by rw [DecodedInstr.operandValue, hformat]
  rw [hvalue, hfield]
  omega

theorem exact_unsigned {lit : Text} {x : Word} {max : ℤ} (hlit : Literal lit x)
    (hvalue : d.operandValue = x.toNat ∧ (x.toNat : ℤ) ≤ max) (hmax : max < 2 ^ 31) :
    ∃ v, Denotes lit v ∧ (-(2 ^ 31) ≤ v → v < 2 ^ 31 →
      0 ≤ v ∧ v ≤ max ∧ d.operandValue = v) := by
  obtain ⟨v, hv, heq⟩ := hlit.exact
  obtain ⟨hvalue, hx⟩ := hvalue
  have hint : x.toInt = x.toNat := BitVec.toInt_eq_toNat_of_lt (by omega)
  refine ⟨v, hv, fun h h' => ?_⟩
  rw [heq h h', hint]
  exact ⟨Int.natCast_nonneg _, hx, hvalue⟩

theorem exact_signed {lit : Text} (hlit : Literal lit (Decoder.signExtend d.i.imm))
    (hd : Decoder.decode word = some d) {op : Opcode} (hop : d.operation = .other op)
    (hfill : Decoder.formatOf op = .I ∧ (Control.iTypeControl op).ext = .Sign) :
    ∃ v, Denotes lit v ∧ (-(2 ^ 31) ≤ v → v < 2 ^ 31 →
      -32768 ≤ v ∧ v ≤ 32767 ∧ d.operandValue = v) := by
  obtain ⟨v, hv, heq⟩ := hlit.exact
  obtain ⟨hlow, hhigh⟩ := toInt_imm_range d.i.imm
  refine ⟨v, hv, fun h h' => ?_⟩
  rw [operandValue_immediate hd hop hfill.1, if_pos hfill.2, heq h h']
  exact ⟨hlow, hhigh, rfl⟩

-- A branch or jump operand with a numeral is that number, and no label.
theorem number_of_reference {number : Text → Word → Prop} {tok lit : Text} {value : Word} {p : Prop}
    (hlit : (if (parseImm tok).isSome then some tok else none) = some lit)
    (hw : if (parseImm tok).isSome then number tok value else p) : number lit value := by
  split at hlit
  · rename_i hnum
    obtain rfl := Option.some.inj hlit
    rwa [if_pos hnum] at hw
  · cases hlit

theorem numeral_mem {imm rest : Text} {v : ℤ} (h : Denotes imm v) :
    Role.mem.numeral (imm ++ '(' :: rest) = some imm := by
  rw [Role.numeral, List.takeWhile_append_of_pos fun c hc => decide_eq_true (h.ne_paren (.inl rfl) c hc)]
  simp

-- The number the CPU finds in an operand's field is the one that is written.
theorem Role.Written.exact {lines : List SourceLine} {idx : ℕ} {role : Role} {tok lit : Text}
    (hw : role.Written Literal lines idx tok d) (hd : Decoder.decode word = some d)
    (hfill : role.fills d.operation = true) (hlit : role.numeral tok = some lit) :
    ∃ v, Denotes lit v ∧ (-(2 ^ 31) ≤ v → v < 2 ^ 31 →
      role.range.1 ≤ v ∧ v ≤ role.range.2 ∧ d.operandValue = v) := by
  cases hop : d.operation with
  | cop0 =>
    rw [hop] at hfill
    cases role with
    | rd | rs | rt => cases hlit
    | shamt | uimm | simm | mem | offset | target => cases hfill
  | special funct =>
    rw [hop] at hfill
    cases role with
    | rd | rs | rt => cases hlit
    | uimm | simm | mem | offset | target => cases hfill
    | shamt =>
      obtain rfl := Option.some.inj hlit
      exact exact_unsigned hw (operandValue_shamt (format_special hd hop)) (by decide)
  | other op =>
    rw [hop] at hfill
    cases role with
    | rd | rs | rt => cases hlit
    | shamt => cases hfill
    | uimm =>
      obtain rfl := Option.some.inj hlit
      exact exact_unsigned hw (operandValue_imm hd hop (of_decide_eq_true hfill)) (by decide)
    | simm =>
      obtain rfl := Option.some.inj hlit
      exact exact_signed hw hd hop (of_decide_eq_true hfill)
    | mem =>
      obtain ⟨imm, reg, rest, rfl, himm, -⟩ := hw
      obtain ⟨v, hv, heq⟩ := exact_signed himm hd hop (of_decide_eq_true hfill)
      obtain rfl : imm = lit := Option.some.inj ((numeral_mem hv).symm.trans hlit)
      exact ⟨v, hv, heq⟩
    | offset =>
      exact exact_signed (number_of_reference hlit hw) hd hop (of_decide_eq_true hfill)
    | target =>
      have hformat := (format_other hd hop).2.trans (of_decide_eq_true hfill)
      exact exact_unsigned (number_of_reference hlit hw) (operandValue_target hd hformat) (by decide)

end Value

-- An accepted source means its numbers as they are written just when they fit 32 bits.
theorem literals_exact_iff (source : Text) (h : (assemble source).ok = true) :
    LiteralsExact source ↔ LiteralsFit source := by
  constructor
  · intro hexact idx role lit v hwrites hv
    obtain ⟨w, d, v', -, -, hv', hlow, hhigh, -⟩ := hexact idx role lit hwrites
    obtain rfl := hv.unique hv'
    have hrange : -32768 ≤ role.range.1 ∧ role.range.2 ≤ 0x3FFFFFF := by
      cases role <;> decide
    omega
  · rintro hfit idx role lit hwrites
    have hw := hwrites
    obtain ⟨mn, ops, form, tok, hline, hform, hmem, hlit⟩ := hw
    obtain ⟨hlength, hall⟩ := assemble_encodes h
    obtain ⟨hidx, -⟩ := List.getElem?_eq_some_iff.mp hline
    have hword := List.getElem?_eq_getElem (hlength ▸ hidx)
    have hencode := hall idx mn ops _ hline hword
    obtain ⟨d, hd, form', hform', hop, -, hwritten, -⟩ :=
      encodeLine_agrees (pass1_collected source).resolves hencode
    obtain rfl := Option.some.inj (hform.symm.trans hform')
    have hfill := forms_fill hform (List.of_mem_zip hmem).1
    rw [← hop] at hfill
    obtain ⟨v, hv, heq⟩ := (hwritten _ hmem).exact hd hfill hlit
    obtain ⟨hlow, hhigh⟩ := hfit idx role lit v hwrites hv
    exact ⟨_, d, v, hword, hd, hv, heq hlow hhigh⟩

theorem literalsFit_lowest : LiteralsFit "addi $t0, $0, -0x8000".toList := by
  rintro idx role lit v ⟨mn, ops, form, tok, hline, hform, hmem, hlit⟩ hv
  have hlines : instructions (sourceLines "addi $t0, $0, -0x8000".toList) =
      [("addi".toList, ["$t0".toList, "$0".toList, "-0x8000".toList])] := by decide
  rw [hlines] at hline
  obtain ⟨rfl, rfl⟩ := Prod.mk.inj (List.mem_singleton.mp (List.mem_of_getElem? hline))
  obtain rfl := Option.some.inj ((by decide : find forms "addi".toList =
    some ⟨.other .ADDI, [.rt, .rs, .simm]⟩).symm.trans hform)
  simp only [List.zip_cons_cons, List.zip_nil_left, List.mem_cons, List.not_mem_nil, or_false,
    Prod.mk.injEq] at hmem
  rcases hmem with ⟨rfl, rfl⟩ | ⟨rfl, rfl⟩ | ⟨rfl, rfl⟩
  · cases hlit
  · cases hlit
  · obtain rfl := Option.some.inj hlit
    have hlow : Denotes ('-' :: '0' :: 'x' :: "8000".toList) (-(ofDigits 16 "8000".toList : ℕ)) :=
      .neg (.hex (.inl rfl) (by decide) (by decide))
    obtain rfl := hv.unique hlow
    decide

theorem literals_exact_lowest : LiteralsExact "addi $t0, $0, -0x8000".toList :=
  (literals_exact_iff _ (by decide)).mpr literalsFit_lowest

-- The digits are read as a uint32_t, and the CPU adds 1.
theorem wide_literal_wraps :
    (assemble "addi $t0, $0, -0xFFFFFFFF".toList).words = [0x20080001#32] ∧
      ¬LiteralsExact "addi $t0, $0, -0xFFFFFFFF".toList := by
  refine ⟨by decide, fun h => ?_⟩
  have hwrites : Writes "addi $t0, $0, -0xFFFFFFFF".toList 0 .simm "-0xFFFFFFFF".toList :=
    ⟨"addi".toList, ["$t0".toList, "$0".toList, "-0xFFFFFFFF".toList],
      ⟨.other .ADDI, [.rt, .rs, .simm]⟩, "-0xFFFFFFFF".toList, by decide, by decide, by simp, rfl⟩
  obtain ⟨w, d, v, -, -, hv, hlow, -⟩ := h 0 _ _ hwrites
  have hwide : Denotes ('-' :: '0' :: 'x' :: "FFFFFFFF".toList)
      (-(ofDigits 16 "FFFFFFFF".toList : ℕ)) := .neg (.hex (.inl rfl) (by decide) (by decide))
  obtain rfl := hv.unique hwide
  exact absurd hlow (by decide)

section Decodes

variable {source : Text} {lines : List SourceLine} {idx : ℕ} {role : Role} {tok lit : Text}
  {d : DecodedInstr}

-- Each word decodes to the operation of its line, with the registers, numbers and labels of the
-- line exactly as they are written.
def DecodesExactly (source : Text) : Prop :=
  (assemble source).words.length = (instructions (sourceLines source)).length ∧
    ∀ idx mn ops w, (instructions (sourceLines source))[idx]? = some (mn, ops) →
      (assemble source).words[idx]? = some w →
      ∃ d, Decoder.decode w = some d ∧ Means Exactly (sourceLines source) idx mn ops d

-- A numeral that fits is the number that is read.
theorem Literal.exactly {value : Word} (h : Literal tok value)
    (hfit : ∀ v, Denotes tok v → -(2 ^ 31) ≤ v ∧ v < 2 ^ 31) : Exactly tok value := by
  obtain ⟨v, hv, heq⟩ := h.exact
  obtain ⟨hlow, hhigh⟩ := hfit v hv
  rw [Exactly, ← heq hlow hhigh]
  exact hv

theorem Role.Written.exactly (hw : role.Written Literal lines idx tok d)
    (hfit : ∀ lit v, role.numeral tok = some lit → Denotes lit v → -(2 ^ 31) ≤ v ∧ v < 2 ^ 31) :
    role.Written Exactly lines idx tok d := by
  cases role with
  | rd | rs | rt => exact hw
  | shamt | uimm | simm => exact Literal.exactly hw fun v => hfit tok v rfl
  | mem =>
    obtain ⟨imm, reg, rest, rfl, himm, hreg⟩ := hw
    obtain ⟨v, hv, -⟩ := id himm
    exact ⟨imm, reg, rest, rfl, himm.exactly fun v => hfit imm v (numeral_mem hv), hreg⟩
  | offset | target =>
    rw [Role.Written] at hw ⊢
    split
    · rename_i hnum
      rw [if_pos hnum] at hw
      exact Literal.exactly hw fun v => hfit tok v (if_pos hnum)
    · rename_i hnum
      rwa [if_neg hnum] at hw

-- What a field holds has 32 bits.
theorem Role.Written.denotes (hw : role.Written Exactly lines idx tok d)
    (hlit : role.numeral tok = some lit) : ∃ value : Word, Denotes lit value.toInt := by
  cases role with
  | rd | rs | rt => cases hlit
  | shamt | uimm | simm =>
    obtain rfl := Option.some.inj hlit
    exact ⟨_, hw⟩
  | mem =>
    obtain ⟨imm, reg, rest, rfl, himm, -⟩ := hw
    obtain rfl : imm = lit := Option.some.inj ((numeral_mem himm).symm.trans hlit)
    exact ⟨_, himm⟩
  | offset | target => exact ⟨_, number_of_reference hlit hw⟩

theorem DecodesExactly.fit (h : DecodesExactly source) : LiteralsFit source := by
  rintro idx role lit v ⟨mn, ops, form, tok, hline, hform, hmem, hlit⟩ hv
  obtain ⟨hlength, hall⟩ := h
  obtain ⟨hidx, -⟩ := List.getElem?_eq_some_iff.mp hline
  obtain ⟨d, -, form', hform', -, -, hwritten, -⟩ :=
    hall idx mn ops _ hline (List.getElem?_eq_getElem (hlength ▸ hidx))
  obtain rfl := Option.some.inj (hform.symm.trans hform')
  obtain ⟨value, hvalue⟩ := (hwritten _ hmem).denotes hlit
  rw [hv.unique hvalue]
  exact ⟨BitVec.le_toInt value, BitVec.toInt_lt⟩

-- The words of an accepted source are what it says just when its numbers fit 32 bits.
theorem decodes_exactly_iff (source : Text) (h : (assemble source).ok = true) :
    DecodesExactly source ↔ LiteralsFit source := by
  constructor
  · exact DecodesExactly.fit
  · intro hfit
    obtain ⟨hlength, hall⟩ := assemble_decodes h
    refine ⟨hlength, fun idx mn ops w hline hw => ?_⟩
    obtain ⟨d, hd, form, hform, hop, hcount, hwritten, hzero⟩ := hall idx mn ops w hline hw
    refine ⟨d, hd, form, hform, hop, hcount, fun p hp => ?_, hzero⟩
    exact (hwritten p hp).exactly fun lit v hlit =>
      hfit idx p.1 lit v ⟨mn, ops, form, p.2, hline, hform, hp, hlit⟩

theorem decodes_exactly_lowest : DecodesExactly "addi $t0, $0, -0x8000".toList :=
  (decodes_exactly_iff _ (by decide)).mpr literalsFit_lowest

-- The shift amount that is written is no number of 32 bits, and 1 is encoded.
theorem wide_shift_wraps :
    (assemble "sll $t0, $t0, -0xFFFFFFFF".toList).words = [0x00084040#32] ∧
      ¬DecodesExactly "sll $t0, $t0, -0xFFFFFFFF".toList := by
  refine ⟨by decide, fun h => ?_⟩
  have hwrites : Writes "sll $t0, $t0, -0xFFFFFFFF".toList 0 .shamt "-0xFFFFFFFF".toList :=
    ⟨"sll".toList, ["$t0".toList, "$t0".toList, "-0xFFFFFFFF".toList],
      ⟨.special .SLL, [.rd, .rt, .shamt]⟩, "-0xFFFFFFFF".toList, by decide, by decide, by simp, rfl⟩
  have hwide : Denotes ('-' :: '0' :: 'x' :: "FFFFFFFF".toList)
      (-(ofDigits 16 "FFFFFFFF".toList : ℕ)) := .neg (.hex (.inl rfl) (by decide) (by decide))
  exact absurd (h.fit 0 _ _ _ hwrites hwide).1 (by decide)

end Decodes

end ClearCore.Qt.Assembler
