import ClearCore.Qt.Assembler.Lemmas

-- What assemble() accepts is encoded as it is written.

namespace ClearCore.Qt.Assembler

open Isa Lines Mips Numeral

-- Pass 1 against the lines of the source.

def Pass1.define (p : Pass1) : Option Text → Pass1
  | none => p
  | some lbl => { p with labels := (lbl, BitVec.ofNat 32 p.lines.length) :: p.labels }

def Pass1.append (p : Pass1) (lineno : ℕ) : Option (Text × List Text) → Pass1
  | none => p
  | some (mnemonic, operands) => { p with lines := p.lines ++ [{ lineno, mnemonic, operands }] }

theorem addInstruction_eq (p : Pass1) (lineno : ℕ) (raw : Text) :
    p.addInstruction lineno raw = p.append lineno (readInstruction raw) := by
  rw [Pass1.addInstruction, readInstruction]
  cases tokenise raw with
  | nil => rfl
  | cons mn ops => rfl

theorem readLine_eq (p : Pass1) (lineno : ℕ) (raw : Text) :
    p.readLine lineno raw =
      (p.define (sourceLine raw).label).append lineno (sourceLine raw).instruction := by
  rw [Pass1.readLine, sourceLine]
  cases htext : trim (stripComment raw) with
  | nil => rfl
  | cons c text =>
    dsimp only
    rw [if_neg (by simp)]
    cases hsplit : splitLabel (c :: text) with
    | none => exact addInstruction_eq p lineno _
    | some parts =>
      obtain ⟨lbl, rest⟩ := parts
      dsimp only
      have hdefine : (if (trim lbl).isEmpty then p
          else { p with labels := (trim lbl, BitVec.ofNat 32 p.lines.length) :: p.labels }) =
          p.define (readLabel lbl) := by
        rw [readLabel]
        split <;> rfl
      rw [hdefine, addInstruction_eq]
      cases hrest : trim rest with
      | nil => rfl
      | cons c rest => rfl

-- What pass 1 has collected from the lines read so far.
structure Collected (p : Pass1) (lines : List SourceLine) : Prop where
  instructions : p.lines.map (fun ln => (ln.mnemonic, ln.operands)) = instructions lines
  labels : ∀ lbl, p.labels.lookup lbl = none ∧ (∀ l ∈ lines, l.label ≠ some lbl) ∨
    ∃ k, p.labels.lookup lbl = some (BitVec.ofNat 32 k) ∧ Defines lines lbl k

theorem instructions_append (lines lines' : List SourceLine) :
    instructions (lines ++ lines') = instructions lines ++ instructions lines' :=
  List.filterMap_append ..

theorem Defines.snoc {lines : List SourceLine} {lbl : Text} {k : ℕ} {line : SourceLine}
    (h : Defines lines lbl k) (hline : line.label ≠ some lbl) : Defines (lines ++ [line]) lbl k := by
  obtain ⟨before, def', after, rfl, hdef, hafter, hk⟩ := h
  refine ⟨before, def', after ++ [line], by simp, hdef, fun l hl => ?_, hk⟩
  rcases List.mem_append.mp hl with hl | hl
  · exact hafter l hl
  · rw [List.mem_singleton.mp hl]
    exact hline

theorem Collected.readLine {p : Pass1} {lines : List SourceLine} (h : Collected p lines)
    (lineno : ℕ) (raw : Text) : Collected (p.readLine lineno raw) (lines ++ [sourceLine raw]) := by
  have hlength : p.lines.length = (Assembler.instructions lines).length := by
    rw [← h.instructions, List.length_map]
  have hlines : ∀ label, (p.define label).lines = p.lines := by
    intro label
    cases label <;> rfl
  have hlabels : ∀ (q : Pass1) instr, (q.append lineno instr).labels = q.labels := by
    intro q instr
    cases instr <;> rfl
  rw [readLine_eq]
  constructor
  · rw [instructions_append]
    cases hinstr : (sourceLine raw).instruction with
    | none =>
      have hnone : Assembler.instructions [sourceLine raw] = [] := by
        simp [Assembler.instructions, hinstr]
      rw [hnone, List.append_nil, Pass1.append, hlines, h.instructions]
    | some instr =>
      have hsome : Assembler.instructions [sourceLine raw] = [instr] := by
        simp [Assembler.instructions, hinstr]
      rw [hsome, Pass1.append, List.map_append, hlines, h.instructions]
      rfl
  · intro lbl
    rw [hlabels]
    by_cases hline : (sourceLine raw).label = some lbl
    · refine .inr ⟨p.lines.length, ?_, lines, sourceLine raw, [], rfl, hline, by simp, hlength.symm⟩
      rw [hline, Pass1.define, List.lookup_cons_self]
    · have hlookup : (p.define (sourceLine raw).label).labels.lookup lbl = p.labels.lookup lbl := by
        cases hother : (sourceLine raw).label with
        | none => rfl
        | some other =>
          have hne : (lbl == other) = false := by
            rw [beq_eq_false_iff_ne]
            rintro rfl
            exact hline hother
          rw [Pass1.define, List.lookup_cons, hne]
      rw [hlookup]
      rcases h.labels lbl with ⟨hnone, hundefined⟩ | ⟨k, hsome, hdefines⟩
      · refine .inl ⟨hnone, fun l hl => ?_⟩
        rcases List.mem_append.mp hl with hl | hl
        · exact hundefined l hl
        · rw [List.mem_singleton.mp hl]
          exact hline
      · exact .inr ⟨k, hsome, hdefines.snoc hline⟩

theorem Collected.readLines {p : Pass1} {lines : List SourceLine} (h : Collected p lines)
    (lineno : ℕ) (raws : List Text) :
    Collected (p.readLines lineno raws) (lines ++ raws.map sourceLine) := by
  induction raws generalizing p lines lineno with
  | nil =>
    rw [List.map_nil, List.append_nil]
    exact h
  | cons raw raws ih =>
    have hrest := ih (h.readLine (lineno + 1) raw) (lineno + 1)
    rw [List.append_assoc] at hrest
    exact hrest

theorem pass1_collected (source : Text) : Collected (pass1 source) (sourceLines source) := by
  have hstart : Collected {} [] := ⟨rfl, fun lbl => .inl ⟨rfl, nofun⟩⟩
  exact hstart.readLines 0 (getlines source)

-- The loop of pass 2 encodes line by line.
theorem encodeLines_spec {labels : List (Text × Word)} {idx : ℕ} {words : List Word}
    {lns : List Line} (h : (encodeLines labels idx words lns).ok = true) :
    ∃ ws, (encodeLines labels idx words lns).words = words ++ ws ∧ ws.length = lns.length ∧
      ∀ i ln w, lns[i]? = some ln → ws[i]? = some w →
        encodeLine labels (idx + i) ln.mnemonic ln.operands = .ok w := by
  induction lns generalizing idx words with
  | nil => exact ⟨[], by rw [encodeLines, List.append_nil], rfl, by simp⟩
  | cons ln lns ih =>
    rw [encodeLines] at h ⊢
    cases hline : encodeLine labels idx ln.mnemonic ln.operands with
    | error msg =>
      rw [hline] at h
      exact absurd h Bool.false_ne_true
    | ok word =>
      rw [hline] at h
      obtain ⟨ws, hwords, hlength, hall⟩ := ih h
      refine ⟨word :: ws, ?_, by rw [List.length_cons, hlength, List.length_cons], ?_⟩
      · rw [hwords, List.append_assoc, List.singleton_append]
      · intro i ln' w hln hw
        cases i with
        | zero =>
          obtain rfl := Option.some.inj hln
          obtain rfl := Option.some.inj hw
          exact hline
        | succ i =>
          have hi := hall i ln' w hln hw
          rwa [Nat.add_right_comm, Nat.add_assoc] at hi

-- It accepts lines that are encoded one by one.
theorem encodeLines_ok {labels : List (Text × Word)} {idx : ℕ} {words : List Word} {lns : List Line}
    (h : ∀ i ln, lns[i]? = some ln →
      ∃ w, encodeLine labels (idx + i) ln.mnemonic ln.operands = .ok w) :
    (encodeLines labels idx words lns).ok = true := by
  induction lns generalizing idx words with
  | nil => rfl
  | cons ln lns ih =>
    obtain ⟨w, hw⟩ := h 0 ln rfl
    rw [Nat.add_zero] at hw
    rw [encodeLines, hw]
    refine ih fun i ln' hln => ?_
    have hnext := h (i + 1) ln' hln
    rwa [← Nat.add_assoc, Nat.add_right_comm] at hnext

-- Labels as pass 1 leaves them.
def Resolves (labels : List (Text × Word)) (lines : List SourceLine) : Prop :=
  ∀ lbl value, labels.lookup lbl = some value →
    ∃ k, Defines lines lbl k ∧ value = BitVec.ofNat 32 k

theorem Collected.resolves {p : Pass1} {lines : List SourceLine} (h : Collected p lines) :
    Resolves p.labels lines := by
  intro lbl value hvalue
  rcases h.labels lbl with ⟨hnone, -⟩ | ⟨k, hsome, hdefines⟩
  · rw [hnone] at hvalue
    cases hvalue
  · rw [hsome] at hvalue
    exact ⟨k, hdefines, (Option.some.inj hvalue).symm⟩

section Forms

-- A line with the mnemonic `mn` and the operands `ops`.
variable {lines : List SourceLine} {idx : ℕ} {mn : Text} {ops : List Text} {w : Word}

-- The word decodes to what the line says.
def Agrees (lines : List SourceLine) (idx : ℕ) (mn : Text) (ops : List Text) (w : Word) : Prop :=
  ∃ d, Decoder.decode w = some d ∧ Means Literal lines idx mn ops d

theorem agrees_of_form {d : DecodedInstr} {operation : Operation} {roles : List Role}
    (hd : Decoder.decode w = some d) (hform : find forms mn = some ⟨operation, roles⟩)
    (hop : d.operation = operation) (hlength : ops.length = roles.length)
    (hwritten : ∀ p ∈ roles.zip ops, p.1.Written Literal lines idx p.2 d)
    (hzero : ∀ name, name ∉ roles.flatMap Role.fields → d.field name = 0#32) :
    Agrees lines idx mn ops w :=
  ⟨d, hd, _, hform, hop, .inl hlength, hwritten, hzero⟩

theorem operation_other {raw : Word} {op : Opcode} {format : InstrFormat} {fields : Fields}
    (h : Decoder.formatOf op = .I ∨ Decoder.formatOf op = .J) :
    (DecodedInstr.mk raw op format fields).operation = .other op := by
  have hspecial : op ≠ .SPECIAL := by
    rintro rfl
    rcases h with h | h <;> cases h
  have hcop : op ≠ .COP0 := by
    rintro rfl
    rcases h with h | h <;> cases h
  rw [DecodedInstr.operation, if_neg hspecial, if_neg hcop]

theorem encodeR3_agrees {funct : FunctCode} (himpl : Decoder.implementedSpecial funct = true)
    (hform : find forms mn = some ⟨.special funct, [.rd, .rs, .rt]⟩)
    (h : encodeR3 funct.code ops = .ok w) : Agrees lines idx mn ops w := by
  unfold encodeR3 at h
  split at h
  · split at h
    · rename_i hrd hrs hrt
      obtain rfl := Except.ok.inj h
      refine agrees_of_form (decode_encR himpl _ _ _ _) hform rfl rfl ?_ fun name hname => ?_
      · simp only [List.zip_cons_cons, List.zip_nil_left, List.forall_mem_cons]
        exact ⟨parseReg_names hrd, parseReg_names hrs, parseReg_names hrt, nofun⟩
      · cases name with
        | rs | rt | rd => exact absurd hname (by decide)
        | shamt | imm | target => rfl
    · cases h
  · cases h

theorem encodeShift_agrees {funct : FunctCode} (himpl : Decoder.implementedSpecial funct = true)
    (hform : find forms mn = some ⟨.special funct, [.rd, .rt, .shamt]⟩)
    (h : encodeShift funct.code ops = .ok w) : Agrees lines idx mn ops w := by
  unfold encodeShift at h
  split at h
  · split at h
    · rename_i imm hrd hrt himm
      split at h
      · cases h
      · rename_i hrange
        obtain rfl := Except.ok.inj h
        have hlit := parseImm_literal himm
        rw [← setWidth_shamt hrange] at hlit
        refine agrees_of_form (decode_encR himpl _ _ _ _) hform rfl rfl ?_ fun name hname => ?_
        · simp only [List.zip_cons_cons, List.zip_nil_left, List.forall_mem_cons]
          exact ⟨parseReg_names hrd, parseReg_names hrt, hlit, nofun⟩
        · cases name with
          | rt | rd | shamt => exact absurd hname (by decide)
          | rs | imm | target => rfl
    · cases h
  · cases h

theorem encodeVShift_agrees {funct : FunctCode} (himpl : Decoder.implementedSpecial funct = true)
    (hform : find forms mn = some ⟨.special funct, [.rd, .rt, .rs]⟩)
    (h : encodeVShift funct.code ops = .ok w) : Agrees lines idx mn ops w := by
  unfold encodeVShift at h
  split at h
  · split at h
    · rename_i hrd hrt hrs
      obtain rfl := Except.ok.inj h
      refine agrees_of_form (decode_encR himpl _ _ _ _) hform rfl rfl ?_ fun name hname => ?_
      · simp only [List.zip_cons_cons, List.zip_nil_left, List.forall_mem_cons]
        exact ⟨parseReg_names hrd, parseReg_names hrt, parseReg_names hrs, nofun⟩
      · cases name with
        | rs | rt | rd => exact absurd hname (by decide)
        | shamt | imm | target => rfl
    · cases h
  · cases h

theorem encodeJr_agrees (hform : find forms mn = some ⟨.special .JR, [.rs]⟩)
    (h : encodeJr ops = .ok w) : Agrees lines idx mn ops w := by
  unfold encodeJr at h
  split at h
  · split at h
    · rename_i hrs
      obtain rfl := Except.ok.inj h
      have himpl : Decoder.implementedSpecial .JR = true := rfl
      refine agrees_of_form (decode_encR himpl _ _ _ _) hform rfl rfl ?_ fun name hname => ?_
      · simp only [List.zip_cons_cons, List.zip_nil_left, List.forall_mem_cons]
        exact ⟨parseReg_names hrs, nofun⟩
      · cases name with
        | rs => exact absurd hname (by decide)
        | rt | rd | shamt | imm | target => rfl
    · cases h
  · cases h

theorem encodeJalr_agrees (hform : find forms mn = some ⟨.special .JALR, [.rd, .rs]⟩)
    (h : encodeJalr ops = .ok w) : Agrees lines idx mn ops w := by
  unfold encodeJalr at h
  split at h
  · split at h
    · rename_i hrd hrs
      obtain rfl := Except.ok.inj h
      have himpl : Decoder.implementedSpecial .JALR = true := rfl
      refine agrees_of_form (decode_encR himpl _ _ _ _) hform rfl rfl ?_ fun name hname => ?_
      · simp only [List.zip_cons_cons, List.zip_nil_left, List.forall_mem_cons]
        exact ⟨parseReg_names hrd, parseReg_names hrs, nofun⟩
      · cases name with
        | rs | rd => exact absurd hname (by decide)
        | rt | shamt | imm | target => rfl
    · cases h
  · cases h

theorem encodeIArith_agrees {op : Opcode} {role : Role} (hop : Decoder.formatOf op = .I)
    (hrole : role = if zeroExtendsImm mn then .uimm else .simm)
    (hform : find forms mn = some ⟨.other op, [.rt, .rs, role]⟩)
    (h : encodeIArith mn op.code ops = .ok w) : Agrees lines idx mn ops w := by
  unfold encodeIArith at h
  split at h
  · rename_i op0 op1 op2
    split at h
    · rename_i rt rs imm hrt hrs himm
      have hlit := parseImm_literal himm
      -- either range leaves the number whole
      obtain ⟨rfl, himm'⟩ : w = encI op.code rs rt (imm.setWidth 16) ∧
          role.Written Literal lines idx op2
            { raw := w, opcode := op, format := .I, fields := .i { rs, rt, imm := imm.setWidth 16 } } := by
        split at h
        · rename_i hzero
          split at h
          · cases h
          · rename_i hfits
            have hfits : fitsUimm16 imm = true := by simpa using hfits
            rw [← setWidth_uimm16 hfits] at hlit
            rw [hrole, if_pos hzero]
            exact ⟨(Except.ok.inj h).symm, hlit⟩
        · rename_i hzero
          split at h
          · cases h
          · rename_i hfits
            have hfits : fitsSimm16 imm = true := by simpa using hfits
            rw [← signExtend_simm16 hfits] at hlit
            rw [hrole, if_neg hzero]
            exact ⟨(Except.ok.inj h).symm, hlit⟩
      refine agrees_of_form (decode_encI hop _ _ _) hform (operation_other (.inl hop)) rfl ?_
        fun name hname => ?_
      · simp only [List.zip_cons_cons, List.zip_nil_left, List.forall_mem_cons]
        exact ⟨parseReg_names hrt, parseReg_names hrs, himm', nofun⟩
      · have hfields : role.fields = [.imm] := by
          rw [hrole]
          split <;> rfl
        simp only [List.flatMap_cons, hfields] at hname
        cases name with
        | rt | rs | imm => exact absurd hname (by decide)
        | rd | shamt | target => rfl
    · cases h
  · cases h

theorem encodeLui_agrees (hform : find forms mn = some ⟨.other .LUI, [.rt, .uimm]⟩)
    (h : encodeLui ops = .ok w) : Agrees lines idx mn ops w := by
  unfold encodeLui at h
  split at h
  · split at h
    · rename_i imm hrt himm
      split at h
      · cases h
      · rename_i hfits
        obtain rfl := Except.ok.inj h
        have hlit := parseImm_literal himm
        have hfits : fitsUimm16 imm = true := by simpa using hfits
        rw [← setWidth_uimm16 hfits] at hlit
        have hop : Decoder.formatOf .LUI = .I := rfl
        refine agrees_of_form (decode_encI hop _ _ _) hform rfl rfl ?_ fun name hname => ?_
        · simp only [List.zip_cons_cons, List.zip_nil_left, List.forall_mem_cons]
          exact ⟨parseReg_names hrt, hlit, nofun⟩
        · cases name with
          | rt | imm => exact absurd hname (by decide)
          | rs | rd | shamt | target => rfl
    · cases h
  · cases h

theorem encodeMem_agrees {op : Opcode} (hop : Decoder.formatOf op = .I)
    (hform : find forms mn = some ⟨.other op, [.rt, .mem]⟩)
    (h : encodeMem op.code ops = .ok w) : Agrees lines idx mn ops w := by
  unfold encodeMem at h
  split at h
  · split at h
    · cases h
    · rename_i rt hrt
      split at h
      · cases h
      · rename_i imm rs hmem
        split at h
        · cases h
        · rename_i hfits
          obtain rfl := Except.ok.inj h
          obtain ⟨off, reg, rest, htok, hlit, hreg⟩ := parseMemOperand_spec hmem
          have hfits : fitsSimm16 imm = true := by simpa using hfits
          rw [← signExtend_simm16 hfits] at hlit
          refine agrees_of_form (decode_encI hop _ _ _) hform (operation_other (.inl hop)) rfl ?_
            fun name hname => ?_
          · simp only [List.zip_cons_cons, List.zip_nil_left, List.forall_mem_cons]
            exact ⟨parseReg_names hrt, ⟨off, reg, rest, htok, hlit, hreg⟩, nofun⟩
          · cases name with
            | rt | rs | imm => exact absurd hname (by decide)
            | rd | shamt | target => rfl
  · cases h

theorem encodeBranch_agrees {labels : List (Text × Word)} (hlabels : Resolves labels lines)
    {op : Opcode} (hop : Decoder.formatOf op = .I)
    (hform : find forms mn = some ⟨.other op, [.rs, .rt, .offset]⟩)
    (h : encodeBranch labels idx op.code ops = .ok w) : Agrees lines idx mn ops w := by
  unfold encodeBranch at h
  split at h
  · rename_i op0 op1 op2
    split at h
    · rename_i rs rt hrs hrt
      split at h
      · cases h
      · rename_i offset hoffset
        split at h
        · cases h
        · rename_i hfits
          obtain rfl := Except.ok.inj h
          have hfits : fitsSimm16 offset = true := by simpa using hfits
          have hwritten : Role.Written Literal lines idx .offset op2
              { raw := encI op.code rs rt (offset.setWidth 16), opcode := op, format := .I
                fields := .i { rs, rt, imm := offset.setWidth 16 } } := by
            simp only [Role.Written, DecodedInstr.i, signExtend_simm16 hfits]
            rw [branchOffset] at hoffset
            cases hnum : parseImm op2 with
            | some imm =>
              rw [hnum] at hoffset
              obtain rfl := Option.some.inj hoffset
              exact parseImm_literal hnum
            | none =>
              rw [hnum] at hoffset
              obtain ⟨target, htarget, rfl⟩ := Option.map_eq_some_iff.mp hoffset
              obtain ⟨k, hk, rfl⟩ := hlabels op2 target htarget
              exact ⟨k, hk, rfl⟩
          refine agrees_of_form (decode_encI hop _ _ _) hform (operation_other (.inl hop)) rfl ?_
            fun name hname => ?_
          · simp only [List.zip_cons_cons, List.zip_nil_left, List.forall_mem_cons]
            exact ⟨parseReg_names hrs, parseReg_names hrt, hwritten, nofun⟩
          · cases name with
            | rs | rt | imm => exact absurd hname (by decide)
            | rd | shamt | target => rfl
    · cases h
  · cases h

theorem encodeJump_agrees {labels : List (Text × Word)} (hlabels : Resolves labels lines)
    {op : Opcode} (hop : Decoder.formatOf op = .J)
    (hform : find forms mn = some ⟨.other op, [.target]⟩)
    (h : encodeJump labels op.code ops = .ok w) : Agrees lines idx mn ops w := by
  unfold encodeJump at h
  split at h
  · rename_i op0
    -- the target is in range and what the operand says
    obtain ⟨target, hmax, rfl, hwritten⟩ : ∃ target, target ≤ kJumpTargetMax ∧
        w = encJ op.code target ∧ if (parseImm op0).isSome then Literal op0 target
          else ∃ k, Defines lines op0 k ∧ target = BitVec.ofNat 32 k := by
      split at h
      · rename_i imm himm
        split at h
        · cases h
        · rename_i hrange
          have hmax : kJumpTargetMax.toInt = 0x03FFFFFF := rfl
          have hnat := toNat_of_nonneg (v := imm) (by omega)
          have hle : imm ≤ kJumpTargetMax := by
            rw [BitVec.le_def]
            have hmax' : kJumpTargetMax.toNat = 0x03FFFFFF := rfl
            omega
          refine ⟨imm, hle, (Except.ok.inj h).symm, ?_⟩
          rw [himm]
          exact parseImm_literal himm
      · rename_i hnum
        split at h
        · cases h
        · rename_i target htarget
          split at h
          · cases h
          · rename_i hmax
            obtain ⟨k, hk, rfl⟩ := hlabels op0 target htarget
            refine ⟨_, BitVec.not_lt.mp hmax, (Except.ok.inj h).symm, ?_⟩
            rw [hnum]
            exact ⟨k, hk, rfl⟩
    refine agrees_of_form (decode_encJ hop hmax) hform (operation_other (.inr hop)) rfl ?_
      fun name hname => ?_
    · simp only [List.zip_cons_cons, List.zip_nil_left, List.forall_mem_cons]
      exact ⟨hwritten, nofun⟩
    · cases name with
      | target => exact absurd hname (by decide)
      | rs | rt | rd | shamt | imm => rfl
  · cases h

theorem nop_agrees (hmn : mn = "nop".toList) : Agrees lines idx mn ops 0#32 := by
  subst hmn
  refine ⟨_, rfl, ⟨.special .SLL, []⟩, by decide, rfl, .inr rfl, by simp, fun name _ => ?_⟩
  cases name <;> rfl

end Forms

-- The tables of the assembler name the operations of the ISA.
theorem table_R {table : List (String × BitVec 6)} {mn : Text} {code : BitVec 6}
    (roles : List Role) (htable : ∀ entry ∈ table,
      (FunctCode.ofBits entry.2).code = entry.2 ∧
      Decoder.implementedSpecial (.ofBits entry.2) = true ∧
      find forms entry.1.toList = some ⟨.special (.ofBits entry.2), roles⟩)
    (h : find table mn = some code) :
    ∃ funct : FunctCode, code = funct.code ∧ Decoder.implementedSpecial funct = true ∧
      find forms mn = some ⟨.special funct, roles⟩ := by
  obtain ⟨name, hmem, rfl⟩ := find_eq_some h
  obtain ⟨hcode, himpl, hform⟩ := htable _ hmem
  exact ⟨_, hcode.symm, himpl, hform⟩

theorem table_I {table : List (String × BitVec 6)} {mn : Text} {code : BitVec 6}
    (format : InstrFormat) (roles : Text → List Role) (htable : ∀ entry ∈ table,
      (Opcode.ofBits entry.2).code = entry.2 ∧ Decoder.formatOf (.ofBits entry.2) = format ∧
      find forms entry.1.toList = some ⟨.other (.ofBits entry.2), roles entry.1.toList⟩)
    (h : find table mn = some code) :
    ∃ op : Opcode, code = op.code ∧ Decoder.formatOf op = format ∧
      find forms mn = some ⟨.other op, roles mn⟩ := by
  obtain ⟨name, hmem, rfl⟩ := find_eq_some h
  obtain ⟨hcode, hformat, hform⟩ := htable _ hmem
  exact ⟨_, hcode.symm, hformat, hform⟩

-- The blocks of pass 2, with the operands that each takes.
inductive Block (labels : List (Text × Word)) (idx : ℕ) (mn : Text) (ops : List Text) :
    Form → Except Text Word → Prop
  | nop (hmn : mn = "nop".toList) : Block labels idx mn ops ⟨.special .SLL, []⟩ (.ok 0#32)
  | r3 {funct : FunctCode} (himpl : Decoder.implementedSpecial funct = true) :
      Block labels idx mn ops ⟨.special funct, [.rd, .rs, .rt]⟩ (encodeR3 funct.code ops)
  | shift {funct : FunctCode} (himpl : Decoder.implementedSpecial funct = true) :
      Block labels idx mn ops ⟨.special funct, [.rd, .rt, .shamt]⟩ (encodeShift funct.code ops)
  | vshift {funct : FunctCode} (himpl : Decoder.implementedSpecial funct = true) :
      Block labels idx mn ops ⟨.special funct, [.rd, .rt, .rs]⟩ (encodeVShift funct.code ops)
  | jr : Block labels idx mn ops ⟨.special .JR, [.rs]⟩ (encodeJr ops)
  | jalr : Block labels idx mn ops ⟨.special .JALR, [.rd, .rs]⟩ (encodeJalr ops)
  | iArith {op : Opcode} (hop : Decoder.formatOf op = .I) :
      Block labels idx mn ops
        ⟨.other op, [.rt, .rs, if zeroExtendsImm mn then .uimm else .simm]⟩
        (encodeIArith mn op.code ops)
  | lui : Block labels idx mn ops ⟨.other .LUI, [.rt, .uimm]⟩ (encodeLui ops)
  | mem {op : Opcode} (hop : Decoder.formatOf op = .I) :
      Block labels idx mn ops ⟨.other op, [.rt, .mem]⟩ (encodeMem op.code ops)
  | branch {op : Opcode} (hop : Decoder.formatOf op = .I) :
      Block labels idx mn ops ⟨.other op, [.rs, .rt, .offset]⟩
        (encodeBranch labels idx op.code ops)
  | jump {op : Opcode} (hop : Decoder.formatOf op = .J) :
      Block labels idx mn ops ⟨.other op, [.target]⟩ (encodeJump labels op.code ops)

-- The block of an instruction is that of its form; what has no form is an error.
theorem encodeLine_block (labels : List (Text × Word)) (idx : ℕ) (mn : Text) (ops : List Text) :
    (∃ form, find forms mn = some form ∧
      Block labels idx mn ops form (encodeLine labels idx mn ops)) ∨
    find forms mn = none ∧ ∃ msg, encodeLine labels idx mn ops = .error msg := by
  unfold encodeLine
  split
  · rename_i hmn
    exact .inl ⟨_, by rw [hmn]; decide, .nop hmn⟩
  rename_i hnop
  split
  · rename_i code hfind
    obtain ⟨funct, rfl, himpl, hform⟩ := table_R [.rd, .rs, .rt] (by decide) hfind
    exact .inl ⟨_, hform, .r3 himpl⟩
  rename_i hr3
  split
  · rename_i code hfind
    obtain ⟨funct, rfl, himpl, hform⟩ := table_R [.rd, .rt, .shamt] (by decide) hfind
    exact .inl ⟨_, hform, .shift himpl⟩
  rename_i hshift
  split
  · rename_i code hfind
    obtain ⟨funct, rfl, himpl, hform⟩ := table_R [.rd, .rt, .rs] (by decide) hfind
    exact .inl ⟨_, hform, .vshift himpl⟩
  rename_i hvshift
  split
  · rename_i hmn
    exact .inl ⟨_, by rw [hmn]; decide, .jr⟩
  rename_i hjr
  split
  · rename_i hmn
    exact .inl ⟨_, by rw [hmn]; decide, .jalr⟩
  rename_i hjalr
  split
  · rename_i code hfind
    obtain ⟨op, rfl, hop, hform⟩ := table_I .I
      (fun mn => [.rt, .rs, if zeroExtendsImm mn then .uimm else .simm]) (by decide) hfind
    exact .inl ⟨_, hform, .iArith hop⟩
  rename_i hiarith
  split
  · rename_i hmn
    exact .inl ⟨_, by rw [hmn]; decide, .lui⟩
  rename_i hlui
  split
  · rename_i code hfind
    obtain ⟨op, rfl, hop, hform⟩ := table_I .I (fun _ => [.rt, .mem]) (by decide) hfind
    exact .inl ⟨_, hform, .mem hop⟩
  rename_i hmem
  split
  · rename_i code hfind
    obtain ⟨op, rfl, hop, hform⟩ := table_I .I (fun _ => [.rs, .rt, .offset]) (by decide) hfind
    exact .inl ⟨_, hform, .branch hop⟩
  rename_i hbranch
  split
  · rename_i code hfind
    obtain ⟨op, rfl, hop, hform⟩ := table_I .J (fun _ => [.target]) (by decide) hfind
    exact .inl ⟨_, hform, .jump hop⟩
  · -- no table has the mnemonic, and neither has the ISA
    rename_i hjump
    refine .inr ⟨Option.eq_none_iff_forall_ne_some.mpr fun form hform => ?_, _, rfl⟩
    obtain ⟨name, hname, rfl⟩ := find_eq_some hform
    have hall : ∀ entry ∈ forms, entry.1.toList = "nop".toList ∨
        (find kR3Map entry.1.toList).isSome ∨ (find kShiftMap entry.1.toList).isSome ∨
        (find kVShiftMap entry.1.toList).isSome ∨ entry.1.toList = "jr".toList ∨
        entry.1.toList = "jalr".toList ∨ (find kIArithMap entry.1.toList).isSome ∨
        entry.1.toList = "lui".toList ∨ (find kMemMap entry.1.toList).isSome ∨
        (find kBranchMap entry.1.toList).isSome ∨ (find kJumpMap entry.1.toList).isSome := by
      decide
    have hin := hall _ hname
    simp_all [Option.isSome_iff_exists]

theorem Block.agrees {labels : List (Text × Word)} {lines : List SourceLine} {idx : ℕ} {mn : Text}
    {ops : List Text} {form : Form} {result : Except Text Word} {w : Word}
    (hblock : Block labels idx mn ops form result) (hlabels : Resolves labels lines)
    (hform : find forms mn = some form) (h : result = .ok w) : Agrees lines idx mn ops w := by
  cases hblock with
  | nop hmn =>
    obtain rfl := Except.ok.inj h
    exact nop_agrees hmn
  | r3 himpl => exact encodeR3_agrees himpl hform h
  | shift himpl => exact encodeShift_agrees himpl hform h
  | vshift himpl => exact encodeVShift_agrees himpl hform h
  | jr => exact encodeJr_agrees hform h
  | jalr => exact encodeJalr_agrees hform h
  | iArith hop => exact encodeIArith_agrees hop rfl hform h
  | lui => exact encodeLui_agrees hform h
  | mem hop => exact encodeMem_agrees hop hform h
  | branch hop => exact encodeBranch_agrees hlabels hop hform h
  | jump hop => exact encodeJump_agrees hlabels hop hform h

theorem encodeLine_agrees {labels : List (Text × Word)} {lines : List SourceLine} {idx : ℕ}
    {mn : Text} {ops : List Text} {w : Word} (hlabels : Resolves labels lines)
    (h : encodeLine labels idx mn ops = .ok w) : Agrees lines idx mn ops w := by
  rcases encodeLine_block labels idx mn ops with ⟨form, hform, hblock⟩ | ⟨-, msg, herror⟩
  · exact hblock.agrees hlabels hform h
  · rw [herror] at h
    cases h

-- A source is accepted if it has instruction lines and each is encoded.
theorem assemble_ok {source : Text} (hne : instructions (sourceLines source) ≠ [])
    (h : ∀ idx mn ops, (instructions (sourceLines source))[idx]? = some (mn, ops) →
      ∃ w, encodeLine (pass1 source).labels idx mn ops = .ok w) :
    (assemble source).ok = true := by
  have hinstr := (pass1_collected source).instructions
  rw [assemble, if_neg]
  · refine encodeLines_ok fun i ln hln => ?_
    rw [Nat.zero_add]
    refine h i _ _ ?_
    rw [← hinstr, List.getElem?_map, hln]
    rfl
  · intro hempty
    rw [List.isEmpty_iff.mp hempty] at hinstr
    exact hne hinstr.symm

-- The words of an accepted source are the encodings of its instruction lines.
theorem assemble_encodes {source : Text} (h : (assemble source).ok = true) :
    (assemble source).words.length = (instructions (sourceLines source)).length ∧
    ∀ idx mn ops w, (instructions (sourceLines source))[idx]? = some (mn, ops) →
      (assemble source).words[idx]? = some w →
      encodeLine (pass1 source).labels idx mn ops = .ok w := by
  rw [assemble] at h ⊢
  split at h
  · exact absurd h Bool.false_ne_true
  · rename_i hne
    rw [if_neg hne]
    obtain ⟨ws, hwords, hlength, hall⟩ := encodeLines_spec h
    rw [hwords, List.nil_append, ← (pass1_collected source).instructions]
    refine ⟨by rw [hlength, List.length_map], fun idx mn ops w hline hw => ?_⟩
    rw [List.getElem?_map] at hline
    obtain ⟨ln, hln, hparts⟩ := Option.map_eq_some_iff.mp hline
    obtain ⟨rfl, rfl⟩ := Prod.mk.inj hparts
    have hencode := hall idx ln w hln hw
    rwa [Nat.zero_add] at hencode

-- The words of an accepted source, line by line.
theorem assemble_decodes {source : Text} (h : (assemble source).ok = true) :
    (assemble source).words.length = (instructions (sourceLines source)).length ∧
    ∀ idx mn ops w, (instructions (sourceLines source))[idx]? = some (mn, ops) →
      (assemble source).words[idx]? = some w → Agrees (sourceLines source) idx mn ops w := by
  obtain ⟨hlength, hall⟩ := assemble_encodes h
  refine ⟨hlength, fun idx mn ops w hline hw => ?_⟩
  exact encodeLine_agrees (pass1_collected source).resolves (hall idx mn ops w hline hw)

end ClearCore.Qt.Assembler
