import ClearCore.Mips.Pipelined.Run
import ClearCore.Mips.Reference.Theorems
import ClearCore.Qt.Assembler.Labels
import ClearCore.Qt.Assembler.SourceMachine

-- The words of an accepted source do what its lines say, one by one and over a whole run.

namespace ClearCore.Mips

open Isa

theorem SingleCycleCpu.loadProgram_eq {cpu cpu' : SingleCycleCpu} {words : List Word} {addr : Word}
    (h : cpu.loadProgram words addr = some (true, cpu')) :
    ∃ mem, cpu.mem.loadWords addr words = some (true, mem) ∧
      cpu' = { cpu with mem, pc := addr } := by
  obtain ⟨⟨fits, mem⟩, hwords, h⟩ := Option.map_eq_some_iff.mp h
  cases fits with
  | false => exact absurd (congrArg Prod.fst h) Bool.false_ne_true
  | true => exact ⟨mem, hwords, (congrArg Prod.snd h).symm⟩

theorem PipelinedCpu.loadProgram_eq {cpu cpu' : PipelinedCpu} {words : List Word} {addr : Word}
    (h : cpu.loadProgram words addr = some (true, cpu')) :
    ∃ mem, cpu.mem.loadWords addr words = some (true, mem) ∧
      cpu' = { cpu with mem, pc := addr } := by
  obtain ⟨⟨fits, mem⟩, hwords, h⟩ := Option.map_eq_some_iff.mp h
  cases fits with
  | false => exact absurd (congrArg Prod.fst h) Bool.false_ne_true
  | true => exact ⟨mem, hwords, (congrArg Prod.snd h).symm⟩

end ClearCore.Mips

namespace ClearCore.Qt.Assembler

open Isa Mips
open Mips.Reference (execWord ofFunct ofOpcode wrap)

-- The labels of pass 1 are those of the source machine.

theorem labelFrom_eq_none {lbl : Text} {count : ℕ} {lines : List SourceLine}
    (h : labelFrom lbl count lines = none) : ∀ l ∈ lines, l.label ≠ some lbl := by
  induction lines generalizing count with
  | nil => exact fun _ hl => absurd hl List.not_mem_nil
  | cons line lines ih =>
    rw [labelFrom, Option.or_eq_none_iff] at h
    intro l hl
    rcases List.mem_cons.mp hl with rfl | hl
    · intro hlbl
      rw [if_pos hlbl] at h
      cases h.2
    · exact ih h.1 l hl

theorem labelFrom_eq_some {lbl : Text} {count k : ℕ} {lines : List SourceLine}
    (h : labelFrom lbl count lines = some k) :
    ∃ before line after, lines = before ++ line :: after ∧ line.label = some lbl ∧
      (∀ l ∈ after, l.label ≠ some lbl) ∧ count + (instructions before).length = k := by
  induction lines generalizing count with
  | nil => cases h
  | cons line lines ih =>
    rw [labelFrom] at h
    cases hrest : labelFrom lbl (count + (instructions [line]).length) lines with
    | some k' =>
      rw [hrest] at h
      obtain rfl : k' = k := Option.some.inj h
      obtain ⟨before, def', after, rfl, hdef, hafter, hk⟩ := ih hrest
      refine ⟨line :: before, def', after, rfl, hdef, hafter, ?_⟩
      rw [← List.singleton_append, instructions_append, List.length_append]
      omega
    | none =>
      rw [hrest, Option.none_or] at h
      split at h
      · rename_i hline
        exact ⟨[], line, lines, rfl, hline, labelFrom_eq_none hrest, Option.some.inj h⟩
      · cases h

theorem Collected.lookup_eq {p : Pass1} {lines : List SourceLine} (h : Collected p lines)
    (lbl : Text) : p.labels.lookup lbl = (labelLine lines lbl).map (BitVec.ofNat 32) := by
  cases hline : labelLine lines lbl with
  | none =>
    have hno := labelFrom_eq_none hline
    rcases h.labels lbl with ⟨hnone, -⟩ | ⟨k, -, before, line, after, rfl, hdef, -⟩
    · exact hnone
    · exact absurd hdef (hno line (by simp))
  | some k =>
    obtain ⟨before, line, after, heq, hdef, hafter, hk⟩ := labelFrom_eq_some hline
    rw [Nat.zero_add] at hk
    rcases h.labels lbl with ⟨-, hno⟩ | ⟨k', hk', hdefines⟩
    · exact absurd hdef (hno line (by simp [heq]))
    · rw [hk', hdefines.unique ⟨before, line, after, heq, hdef, hafter, hk⟩]
      rfl

-- An encoded word on the reference machine.
section Words

variable (s : Arch) {funct : FunctCode} {op : Opcode} {m : Reference.Mnemonic} (rs rt rd : RegIdx)

theorem execWord_encR (shamt : BitVec 5) (hm : ofFunct funct = some m) :
    let w := encR rs rt rd shamt funct.code
    execWord s w = Reference.exec s w (s.regs.read rs) (s.regs.read rt) m ∧
      Reference.rd w = rd ∧ Reference.sa w = shamt.toNat := by
  intro w
  have himpl : Decoder.implementedSpecial funct = true := by
    rw [Reference.implementedSpecial_eq, hm]
    rfl
  have hd := decode_encR himpl rs rt rd shamt
  obtain ⟨hrs, hrt, hrd, hfunct, hsa⟩ := Reference.fields_R hd rfl
  have hmn : Reference.mnemonic w = some m := by
    rw [Reference.mnemonic_special (Decoder.decode_opcode hd).symm, ← hfunct]
    exact hm
  refine ⟨?_, hrd.symm, (hsa rfl).symm⟩
  rw [execWord, hmn, ← hrs, ← hrt]
  rfl

theorem execWord_encI (imm : Half) (hop : Decoder.formatOf op = .I) (hm : ofOpcode op = some m) :
    let w := encI op.code rs rt imm
    execWord s w = Reference.exec s w (s.regs.read rs) (s.regs.read rt) m ∧
      Reference.rt w = rt ∧ Reference.imm w = imm := by
  intro w
  have hd := decode_encI hop rs rt imm
  have hi := Decoder.fields_of_immediate hd rfl
  rw [Reference.rs_eq, Reference.rt_eq, Reference.imm_eq] at hi
  have hrs : rs = Reference.rs w := congrArg IFields.rs hi
  have hrt : rt = Reference.rt w := congrArg IFields.rt hi
  have hraw := Decoder.decode_opcode hd
  have hmn : Reference.mnemonic w = some m := by
    rw [Reference.mnemonic_regular (by rw [← hraw, hop]; decide), ← hraw]
    exact hm
  refine ⟨?_, hrt.symm, (congrArg IFields.imm hi).symm⟩
  rw [execWord, hmn, ← hrs, ← hrt]

theorem execWord_encJ {target : Word} (ht : target ≤ kJumpTargetMax)
    (hop : Decoder.formatOf op = .J) (hm : ofOpcode op = some m) :
    let w := encJ op.code target
    ∃ a b, execWord s w = Reference.exec s w a b m ∧ Reference.target w = target.toNat := by
  intro w
  have hd := decode_encJ hop ht
  have hraw := Decoder.decode_opcode hd
  have hmn : Reference.mnemonic w = some m := by
    rw [Reference.mnemonic_regular (by rw [← hraw, hop]; decide), ← hraw]
    exact hm
  have hsum := toNat_encJ op.code target
  have htarget : target.toNat ≤ 0x03FFFFFF := BitVec.le_def.mp ht
  refine ⟨s.regs.read (Reference.rs w), s.regs.read (Reference.rt w), by rw [execWord, hmn], ?_⟩
  rw [Reference.target, hsum]
  omega

end Words

-- The operation of a form on the operands of a line.
section Execute

variable (s : Arch) (o : Operands) {funct : FunctCode} {op : Opcode}

theorem forms_of_find {mn : Text} {form : Form} (h : find forms mn = some form) :
    form ∈ forms.map (·.2) := by
  obtain ⟨name, hmem, -⟩ := find_eq_some h
  exact List.mem_map.mpr ⟨_, hmem, rfl⟩

theorem execute_special (h : .special funct ∈ forms.map (·.2.operation)) (shamt : BitVec 5)
    (hnumber : o.number.toNat = shamt.toNat) :
    execute s o (.special funct) =
      some (execWord s (encR o.rs o.rt o.rd shamt funct.code)) := by
  cases hm : ofFunct funct with
  | none =>
    cases funct with
    | unnamed code => simp [forms] at h
    | ERET => exact absurd h (by decide)
    | _ => cases hm
  | some m =>
    obtain ⟨hexec, hrd, hsa⟩ := execWord_encR s o.rs o.rt o.rd shamt hm
    rw [hexec, execute]
    cases funct with
    | unnamed | ERET => cases hm
    | SYSCALL | BREAK => exact absurd h (by decide)
    | JR =>
      obtain rfl := Option.some.inj hm
      rw [executeSpecial, Reference.exec]
    | _ =>
      obtain rfl := Option.some.inj hm
      rw [executeSpecial, Reference.exec]
      simp only [hrd, hsa, hnumber]

theorem execute_signed (hop : Decoder.formatOf op = .I)
    (h : op ∈ [.ADDI, .ADDIU, .SLTI, .SLTIU, .LW, .LBU, .LHU, .SW])
    {imm : Half} (hnumber : o.number = Decoder.signExtend imm) :
    execute s o (.other op) = some (execWord s (encI op.code o.rs o.rt imm)) := by
  have hint : o.number.toInt = imm.toInt := by rw [hnumber, Decoder.toInt_signExtend]
  have hwrap : o.number = wrap imm.toInt := by rw [hnumber, Reference.signExtend_eq]
  obtain ⟨m, hm⟩ := Reference.ofOpcode_known (.inl hop)
  obtain ⟨hexec, hrt, himm⟩ := execWord_encI s o.rs o.rt imm hop hm
  rw [hexec, execute]
  cases op with
  | ADDI | ADDIU | SLTI | SLTIU | LW | LBU | LHU | SW =>
    obtain rfl := Option.some.inj hm
    rw [executeOther, Reference.exec]
    simp only [hrt, himm, hint, ← hwrap]
  | _ => simp at h

theorem execute_unsigned (hop : Decoder.formatOf op = .I)
    (h : op ∈ [.ANDI, .ORI, .XORI, .LUI]) {imm : Half}
    (hnumber : o.number = imm.setWidth 32) :
    execute s o (.other op) = some (execWord s (encI op.code o.rs o.rt imm)) := by
  have hnat : o.number.toNat = imm.toNat := by rw [hnumber, Reference.toNat_zeroExtend]
  obtain ⟨m, hm⟩ := Reference.ofOpcode_known (.inl hop)
  obtain ⟨hexec, hrt, himm⟩ := execWord_encI s o.rs o.rt imm hop hm
  rw [hexec, execute]
  cases op with
  | ANDI | ORI | XORI | LUI =>
    obtain rfl := Option.some.inj hm
    rw [executeOther, Reference.exec]
    simp only [hrt, himm, hnat]
  | _ => simp at h

theorem execute_branch (hop : Decoder.formatOf op = .I) (h : op = .BEQ ∨ op = .BNE) {imm : Half}
    (htarget : wrap (4 * o.target) = wrap (s.pc.toNat + 4 + imm.toInt * 4)) :
    execute s o (.other op) = some (execWord s (encI op.code o.rs o.rt imm)) := by
  have hnext : Reference.goto s (Reference.next s).toNat = Reference.goto s (s.pc.toNat + 4 + 0) := by
    rw [Reference.goto_eq, Reference.goto, Int.add_zero]
    rfl
  have htaken : Reference.goto s (4 * o.target) =
      Reference.goto s (s.pc.toNat + 4 + imm.toInt * 4) := by
    rw [Reference.goto, Reference.goto, htarget]
  obtain ⟨m, hm⟩ := Reference.ofOpcode_known (.inl hop)
  obtain ⟨hexec, -, himm⟩ := execWord_encI s o.rs o.rt imm hop hm
  rw [hexec, execute]
  rcases h with rfl | rfl
  · obtain rfl := Option.some.inj hm
    rw [executeOther, Reference.exec, himm, hnext, htaken]
    split <;> rfl
  · obtain rfl := Option.some.inj hm
    rw [executeOther, Reference.exec, himm, hnext, htaken]
    split <;> rfl

theorem execute_jump (hop : Decoder.formatOf op = .J) {target : Word} (ht : target ≤ kJumpTargetMax)
    (hregion : Reference.region s = 0) (htarget : wrap (4 * o.target) = wrap (4 * target.toNat)) :
    execute s o (.other op) = some (execWord s (encJ op.code target)) := by
  have hto : wrap (Reference.region s + target.toNat * 4) = wrap (4 * o.target) := by
    rw [hregion, htarget, Nat.cast_zero, Int.zero_add, Int.mul_comm]
  obtain ⟨m, hm⟩ := Reference.ofOpcode_known (.inr hop)
  obtain ⟨a, b, hexec, hfield⟩ := execWord_encJ s ht hop hm
  rw [hexec, execute]
  rcases Decoder.formatOf_eq_J hop with rfl | rfl
  · obtain rfl := Option.some.inj hm
    rw [executeOther, Reference.exec, hfield, Reference.goto, Reference.goto, hto]
  · obtain rfl := Option.some.inj hm
    rw [executeOther, Reference.exec, hfield, hto]

end Execute

-- The blocks of pass 2.
section Blocks

variable {labels : List (Text × Word)} {lines : List SourceLine} {idx : ℕ} {mn : Text}
  {ops : List Text} {w : Word}

-- The line with index `idx` on the source machine is the word `w` on the reference machine.
def Performs (lines : List SourceLine) (idx : ℕ) (form : Form) (ops : List Text) (w : Word) : Prop :=
  ∃ o, readOperands lines idx form.roles ops {} = some o ∧
    ∀ s : Arch, s.pc = BitVec.ofNat 32 (4 * idx) → execute s o form.operation = some (execWord s w)

theorem encodeR3_performs {funct : FunctCode} (hop : .special funct ∈ forms.map (·.2.operation))
    (h : encodeR3 funct.code ops = .ok w) :
    Performs lines idx ⟨.special funct, [.rd, .rs, .rt]⟩ ops w := by
  unfold encodeR3 at h
  split at h
  · split at h
    · rename_i rd rs rt hrd hrs hrt
      obtain rfl := Except.ok.inj h
      refine ⟨{ rd, rs, rt }, ?_, fun s _ => execute_special s _ hop 0#5 rfl⟩
      simp [readOperands, Role.read, hrd, hrs, hrt]
    · cases h
  · cases h

theorem encodeShift_performs {funct : FunctCode} (hop : .special funct ∈ forms.map (·.2.operation))
    (h : encodeShift funct.code ops = .ok w) :
    Performs lines idx ⟨.special funct, [.rd, .rt, .shamt]⟩ ops w := by
  unfold encodeShift at h
  split at h
  · split at h
    · rename_i rd rt imm hrd hrt himm
      split at h
      · cases h
      · rename_i hrange
        obtain rfl := Except.ok.inj h
        have hnumber : imm.toNat = (imm.setWidth 5).toNat := by
          have hwidth := congrArg BitVec.toNat (setWidth_shamt hrange)
          have hlt := (imm.setWidth 5).isLt
          rw [BitVec.toNat_setWidth] at hwidth
          omega
        refine ⟨{ rd, rt, number := imm }, ?_, fun s _ => execute_special s _ hop _ hnumber⟩
        simp [readOperands, Role.read, hrd, hrt, himm]
    · cases h
  · cases h

theorem encodeVShift_performs {funct : FunctCode} (hop : .special funct ∈ forms.map (·.2.operation))
    (h : encodeVShift funct.code ops = .ok w) :
    Performs lines idx ⟨.special funct, [.rd, .rt, .rs]⟩ ops w := by
  unfold encodeVShift at h
  split at h
  · split at h
    · rename_i rd rt rs hrd hrt hrs
      obtain rfl := Except.ok.inj h
      refine ⟨{ rd, rs, rt }, ?_, fun s _ => execute_special s _ hop 0#5 rfl⟩
      simp [readOperands, Role.read, hrd, hrs, hrt]
    · cases h
  · cases h

theorem encodeJr_performs (h : encodeJr ops = .ok w) :
    Performs lines idx ⟨.special .JR, [.rs]⟩ ops w := by
  unfold encodeJr at h
  split at h
  · split at h
    · rename_i rs hrs
      obtain rfl := Except.ok.inj h
      refine ⟨{ rs }, ?_, fun s _ => execute_special s _ (by decide) 0#5 rfl⟩
      simp [readOperands, Role.read, hrs]
    · cases h
  · cases h

theorem encodeJalr_performs (h : encodeJalr ops = .ok w) :
    Performs lines idx ⟨.special .JALR, [.rd, .rs]⟩ ops w := by
  unfold encodeJalr at h
  split at h
  · split at h
    · rename_i rd rs hrd hrs
      obtain rfl := Except.ok.inj h
      refine ⟨{ rd, rs }, ?_, fun s _ => execute_special s _ (by decide) 0#5 rfl⟩
      simp [readOperands, Role.read, hrd, hrs]
    · cases h
  · cases h

theorem encodeIArith_performs {op : Opcode} (hop : Decoder.formatOf op = .I)
    (hform : find forms mn =
      some ⟨.other op, [.rt, .rs, if zeroExtendsImm mn then .uimm else .simm]⟩)
    (h : encodeIArith mn op.code ops = .ok w) :
    Performs lines idx ⟨.other op, [.rt, .rs, if zeroExtendsImm mn then .uimm else .simm]⟩ ops w := by
  have hmem := forms_of_find hform
  unfold encodeIArith at h
  split at h
  · split at h
    · rename_i rt rs imm hrt hrs himm
      refine ⟨{ rt, rs, number := imm }, ?_, ?_⟩
      · cases zeroExtendsImm mn <;> simp [readOperands, Role.read, hrt, hrs, himm]
      · split at h
        · rename_i hzero
          split at h
          · cases h
          · rename_i hfits
            obtain rfl := Except.ok.inj h
            have hnumber := (setWidth_uimm16 (v := imm) (by simpa using hfits)).symm
            rw [if_pos hzero] at hmem
            exact fun s _ => execute_unsigned s _ hop (by simp [forms] at hmem; simp; tauto) hnumber
        · rename_i hzero
          split at h
          · cases h
          · rename_i hfits
            obtain rfl := Except.ok.inj h
            have hnumber := (signExtend_simm16 (v := imm) (by simpa using hfits)).symm
            rw [if_neg hzero] at hmem
            exact fun s _ => execute_signed s _ hop (by simp [forms] at hmem; simp; tauto) hnumber
    · cases h
  · cases h

theorem encodeLui_performs (h : encodeLui ops = .ok w) :
    Performs lines idx ⟨.other .LUI, [.rt, .uimm]⟩ ops w := by
  unfold encodeLui at h
  split at h
  · split at h
    · rename_i rt imm hrt himm
      split at h
      · cases h
      · rename_i hfits
        obtain rfl := Except.ok.inj h
        have hnumber := (setWidth_uimm16 (v := imm) (by simpa using hfits)).symm
        refine ⟨{ rt, number := imm }, ?_, fun s _ => execute_unsigned s _ rfl (by simp) hnumber⟩
        simp [readOperands, Role.read, hrt, himm]
    · cases h
  · cases h

theorem encodeMem_performs {op : Opcode} (hop : Decoder.formatOf op = .I)
    (hform : find forms mn = some ⟨.other op, [.rt, .mem]⟩) (h : encodeMem op.code ops = .ok w) :
    Performs lines idx ⟨.other op, [.rt, .mem]⟩ ops w := by
  have hmem := forms_of_find hform
  unfold encodeMem at h
  split at h
  · split at h
    · cases h
    · rename_i rt hrt
      split at h
      · cases h
      · rename_i imm rs hoperand
        split at h
        · cases h
        · rename_i hfits
          obtain rfl := Except.ok.inj h
          have hnumber := (signExtend_simm16 (v := imm) (by simpa using hfits)).symm
          refine ⟨{ rt, rs, number := imm }, ?_, fun s _ =>
            execute_signed s _ hop (by simp [forms] at hmem; simp; tauto) hnumber⟩
          simp [readOperands, Role.read, hrt, hoperand]
  · cases h

-- The labels of the encoder are the lines of the source machine.
def Names (labels : List (Text × Word)) (lines : List SourceLine) : Prop :=
  ∀ lbl, labels.lookup lbl = (labelLine lines lbl).map (BitVec.ofNat 32)

theorem wrap_branchLabel {k : ℕ} {imm : Half} (hidx : idx < 2 ^ 26)
    (himm : Decoder.signExtend imm = BitVec.ofNat 32 k - BitVec.ofNat 32 (idx + 1)) :
    wrap (4 * k) = wrap ((4 * idx : ℕ) + 4 + imm.toInt * 4) := by
  have hpc : (BitVec.ofNat 32 (4 * idx)).toNat = 4 * idx := by rw [BitVec.toNat_ofNat]; omega
  have hcast : (4 * k : ℤ) = ((4 * k : ℕ) : ℤ) := by push_cast; rfl
  have hbranch := Reference.branchTarget_eq (BitVec.ofNat 32 (4 * idx)) imm
  rw [hpc] at hbranch
  apply BitVec.eq_of_toNat_eq
  rw [← hbranch, branchTarget_label himm, hcast, Reference.wrap_natCast, BitVec.toNat_ofNat]

theorem encodeBranch_performs (hlabels : Names labels lines) (hidx : idx + 1 < 2 ^ 26) {op : Opcode}
    (hop : Decoder.formatOf op = .I)
    (hform : find forms mn = some ⟨.other op, [.rs, .rt, .offset]⟩)
    (h : encodeBranch labels idx op.code ops = .ok w) :
    Performs lines idx ⟨.other op, [.rs, .rt, .offset]⟩ ops w := by
  have hmem := forms_of_find hform
  unfold encodeBranch at h
  split at h
  · rename_i op0 op1 op2
    split at h
    · rename_i rs rt hrs hrt
      split at h
      · cases h
      · rename_i offset hoffset
        split at h
        · cases h
        · rename_i hfits
          obtain rfl := Except.ok.inj h
          have hfits := signExtend_simm16 (v := offset) (by simpa using hfits)
          -- both machines add the distance to the line after the branch
          obtain ⟨target, hread, htarget⟩ : ∃ target, branchTo lines idx op2 = some target ∧
              wrap (4 * target) =
                wrap ((4 * idx : ℕ) + 4 + (offset.setWidth 16 : Half).toInt * 4) := by
            rw [branchOffset] at hoffset
            cases hnum : parseImm op2 with
            | some imm =>
              rw [hnum] at hoffset
              obtain rfl := Option.some.inj hoffset
              have hint : (imm.setWidth 16 : Half).toInt = imm.toInt := by
                rw [← Decoder.toInt_signExtend, hfits]
              refine ⟨idx + 1 + imm.toInt, by rw [branchTo, hnum]; rfl, congrArg wrap ?_⟩
              rw [hint]
              push_cast
              omega
            | none =>
              rw [hnum, hlabels, Option.map_map] at hoffset
              obtain ⟨k, hk, rfl⟩ := Option.map_eq_some_iff.mp hoffset
              refine ⟨k, by rw [branchTo, hnum, hk]; rfl, wrap_branchLabel (by omega) ?_⟩
              rw [hfits]
              rfl
          refine ⟨{ rs, rt, target }, ?_, fun s hs => ?_⟩
          · simp [readOperands, Role.read, hrs, hrt, hread]
          · have hpc : s.pc.toNat = 4 * idx := by rw [hs, BitVec.toNat_ofNat]; omega
            refine execute_branch s _ hop (by simpa [forms] using hmem) ?_
            rw [hpc]
            exact htarget
    · cases h
  · cases h

theorem encodeJump_performs (hlabels : Names labels lines) (hidx : idx + 1 < 2 ^ 26) {op : Opcode}
    (hop : Decoder.formatOf op = .J) (h : encodeJump labels op.code ops = .ok w) :
    Performs lines idx ⟨.other op, [.target]⟩ ops w := by
  unfold encodeJump at h
  split at h
  · rename_i op0
    obtain ⟨target, line, hmax, rfl, hread, htarget⟩ : ∃ (target : Word) (line : ℤ),
        target ≤ kJumpTargetMax ∧ w = encJ op.code target ∧ jumpTo lines op0 = some line ∧
          wrap (4 * line) = wrap (4 * target.toNat) := by
      split at h
      · rename_i imm himm
        split at h
        · cases h
        · rename_i hrange
          have hmax : kJumpTargetMax.toInt = 0x03FFFFFF := rfl
          have hmax' : kJumpTargetMax.toNat = 0x03FFFFFF := rfl
          have hnat := toNat_of_nonneg (v := imm) (by omega)
          have hle : imm ≤ kJumpTargetMax := by
            rw [BitVec.le_def]
            omega
          exact ⟨imm, imm.toInt, hle, (Except.ok.inj h).symm, by rw [jumpTo, himm]; rfl,
            by rw [hnat]⟩
      · rename_i hnum
        rw [hlabels] at h
        cases hk : labelLine lines op0 with
        | none =>
          rw [hk] at h
          cases h
        | some k =>
          rw [hk, Option.map_some] at h
          dsimp only at h
          split at h
          · cases h
          · rename_i hmax
            refine ⟨_, k, BitVec.not_lt.mp hmax, (Except.ok.inj h).symm,
              by rw [jumpTo, hnum, hk]; rfl, ?_⟩
            have hcast : ∀ n : ℕ, wrap (4 * n) = BitVec.ofNat 32 (4 * n) := fun n => by
              rw [← Reference.wrap_natCast]
              push_cast
              rfl
            rw [hcast, hcast]
            apply BitVec.eq_of_toNat_eq
            simp only [BitVec.toNat_ofNat]
            omega
    refine ⟨{ target := line }, by simp [readOperands, Role.read, hread], fun s hs => ?_⟩
    refine execute_jump s _ hop hmax ?_ htarget
    have hnext : (Reference.next s).toNat = 4 * idx + 4 := by
      rw [Reference.next_eq, hs, BitVec.toNat_add, BitVec.toNat_ofNat, BitVec.toNat_ofNat]
      omega
    rw [Reference.region, hnext]
    omega
  · cases h

theorem Block.performs {form : Form} {result : Except Text Word}
    (hblock : Block labels idx mn ops form result) (hlabels : Names labels lines)
    (hidx : idx + 1 < 2 ^ 26) (hform : find forms mn = some form) (h : result = .ok w) :
    Performs lines idx form ops w := by
  have hop : form.operation ∈ forms.map (·.2.operation) := by
    obtain ⟨entry, hentry, rfl⟩ := List.mem_map.mp (forms_of_find hform)
    exact List.mem_map.mpr ⟨entry, hentry, rfl⟩
  cases hblock with
  | nop =>
    obtain rfl := Except.ok.inj h
    exact ⟨{}, rfl, fun s _ => execute_special s _ hop 0#5 rfl⟩
  | r3 => exact encodeR3_performs hop h
  | shift => exact encodeShift_performs hop h
  | vshift => exact encodeVShift_performs hop h
  | jr => exact encodeJr_performs h
  | jalr => exact encodeJalr_performs h
  | iArith hI => exact encodeIArith_performs hI hform h
  | lui => exact encodeLui_performs h
  | mem hI => exact encodeMem_performs hI hform h
  | branch hI => exact encodeBranch_performs hlabels hidx hI hform h
  | jump hJ => exact encodeJump_performs hlabels hidx hJ h

end Blocks

-- An accepted source whose words are in memory from address 0 on.
structure TextLoaded (source : Text) (mem : Memory) : Prop where
  accepted : (assemble source).ok = true
  -- its last line is in the first region of 256 MiB, and so are the lines after its jumps
  small : (instructions (sourceLines source)).length < 2 ^ 26
  words : ∀ i w, (assemble source).words[i]? = some w →
    mem.readWord (BitVec.ofNat 32 (4 * i)) = some w

theorem outcome_of_fetch {s : Arch} {w : Word} (h : s.mem.readWord s.pc = some w) :
    s.outcome.2 = execWord s w := by
  cases hd : Decoder.decode w with
  | none => rw [Arch.outcome_reserved h hd, execWord, Reference.mnemonic_none hd]
  | some d =>
    obtain ⟨m, hm, hexec⟩ := Reference.exec_decoded s hd
    rw [Arch.outcome_decoded h hd, execWord, hm]
    exact hexec

-- The bytes of the text.
def textSize (source : Text) : ℕ := 4 * (instructions (sourceLines source)).length

section Step

variable {source : Text} {s : Arch}

theorem lineAt_isSome {lines : List SourceLine} {pc : Word}
    (h : (lineAt lines pc).isSome = true) :
    pc.toNat / 4 < (instructions lines).length ∧ pc = BitVec.ofNat 32 (4 * (pc.toNat / 4)) ∧
      lineAt lines pc = (instructions lines)[pc.toNat / 4]? := by
  by_cases haligned : pc.toNat % 4 = 0
  · have heq : lineAt lines pc = (instructions lines)[pc.toNat / 4]? := if_pos haligned
    rw [heq] at h
    refine ⟨by simpa using h, ?_, heq⟩
    apply BitVec.eq_of_toNat_eq
    have hlt := pc.isLt
    rw [BitVec.toNat_ofNat]
    omega
  · rw [lineAt, if_neg haligned] at h
    cases h

theorem TextLoaded.fetch (h : TextLoaded source s.mem)
    (hline : (lineAt (sourceLines source) s.pc).isSome = true) :
    ∃ mn ops w, lineAt (sourceLines source) s.pc = some (mn, ops) ∧
      encodeLine (pass1 source).labels (s.pc.toNat / 4) mn ops = .ok w ∧
      s.mem.readWord s.pc = some w := by
  obtain ⟨hidx, hpc, hget⟩ := lineAt_isSome hline
  obtain ⟨hlength, hencodes⟩ := assemble_encodes h.accepted
  have hline := List.getElem?_eq_getElem hidx
  have hword := List.getElem?_eq_getElem (hlength ▸ hidx)
  have hfetch := h.words _ _ hword
  rw [← hpc] at hfetch
  exact ⟨_, _, _, hget.trans hline, hencodes _ _ _ _ hline hword, hfetch⟩

-- At an instruction line the source machine does what the CPU does.
theorem TextLoaded.sourceOutcome_eq (h : TextLoaded source s.mem)
    (hline : (lineAt (sourceLines source) s.pc).isSome = true) :
    sourceOutcome (sourceLines source) s = some s.outcome.2 := by
  obtain ⟨hidx, hpc, -⟩ := lineAt_isSome hline
  obtain ⟨mn, ops, w, hline, hencode, hfetch⟩ := h.fetch hline
  have hsmall := h.small
  rw [sourceOutcome, hline, outcome_of_fetch hfetch]
  rcases encodeLine_block (pass1 source).labels (s.pc.toNat / 4) mn ops with
    ⟨form, hform, hblock⟩ | ⟨-, msg, herror⟩
  · obtain ⟨o, hread, hexec⟩ := hblock.performs (pass1_collected source).lookup_eq
      (by omega) hform hencode
    rw [Option.bind_some, hform, Option.bind_some, hread, Option.bind_some]
    exact hexec s hpc
  · rw [herror] at hencode
    cases hencode

theorem storeAddr_of_outcome (s : Arch) :
    s.storeAddr = match s.outcome.2 with
      | .done _ store _ _ _ => store.map (·.1)
      | .trap _ _ => none := by
  rw [Arch.storeAddr, Arch.retirement]
  rcases s.outcome with ⟨raw, code | ⟨gpr, store, mem, cp0, next⟩⟩ <;> rfl

theorem sparesText_iff (s : Arch) :
    sparesText (sourceLines source) s.outcome.2 = true ↔
      ∀ addr, s.storeAddr = some addr → textSize source ≤ addr.toNat := by
  rw [storeAddr_of_outcome]
  rcases s.outcome.2 with code | ⟨gpr, store | ⟨addr, value⟩, mem, cp0, next⟩ <;>
    simp [sparesText, textSize]

-- It goes on just where the CPU stays in the text and leaves it as it is.
theorem TextLoaded.sourceStep_iff (h : TextLoaded source s.mem) {final : Arch} :
    sourceStep (sourceLines source) s = some final ↔
      s.step = final ∧ (lineAt (sourceLines source) s.pc).isSome = true ∧
        ∀ addr, s.storeAddr = some addr → textSize source ≤ addr.toNat := by
  rw [sourceStep, ← sparesText_iff]
  by_cases hline : (lineAt (sourceLines source) s.pc).isSome = true
  · rw [h.sourceOutcome_eq hline, Option.bind_some]
    by_cases hspares : sparesText (sourceLines source) s.outcome.2 = true
    · simp [hspares, hline, Arch.step]
    · simp [hspares]
  · have hnone : lineAt (sourceLines source) s.pc = none := by simpa using hline
    simp [sourceOutcome, hnone]

theorem TextLoaded.step (h : TextLoaded source s.mem)
    (hspares : ∀ addr, s.storeAddr = some addr → textSize source ≤ addr.toNat) :
    TextLoaded source s.step.mem := by
  refine ⟨h.accepted, h.small, fun i w hw => ?_⟩
  rw [Arch.step_readWord]
  · exact h.words i w hw
  · intro hstore
    have hle := hspares _ hstore
    obtain ⟨hi, -⟩ := List.getElem?_eq_some_iff.mp hw
    have hsmall := h.small
    rw [(assemble_encodes h.accepted).1] at hi
    rw [textSize, BitVec.toNat_ofNat] at hle
    omega

end Step

section Run

variable {source : Text} {cpu : SingleCycleCpu}

-- The first `n` steps execute the text and store nothing into it.
def InText (source : Text) (cpu : SingleCycleCpu) (n : ℕ) : Prop :=
  ∀ m < n, (lineAt (sourceLines source) (cpu.run m).pc).isSome = true ∧
    ∀ addr, (cpu.run m).storeAddr = some addr → textSize source ≤ addr.toNat

theorem InText.textLoaded {n : ℕ} (h : InText source cpu n) (hload : TextLoaded source cpu.mem) :
    TextLoaded source (cpu.run n).mem := by
  induction n with
  | zero => exact hload
  | succ n ih =>
    have hspares := (h n (by omega)).2
    rw [← SingleCycleCpu.arch_storeAddr] at hspares
    rw [← SingleCycleCpu.arch_mem, SingleCycleCpu.arch_run_succ]
    exact (ih fun m hm => h m (by omega)).step hspares

-- The source machine runs as the CPU does for as long as that stays in the text.
theorem sourceRun_iff (hload : TextLoaded source cpu.mem) (n : ℕ) (final : Arch) :
    sourceRun (sourceLines source) cpu.arch n = some final ↔
      (cpu.run n).arch = final ∧ InText source cpu n := by
  induction n generalizing final with
  | zero => simp [sourceRun, InText, SingleCycleCpu.run]
  | succ n ih =>
    rw [sourceRun, Option.bind_eq_some_iff]
    constructor
    · rintro ⟨before, hbefore, hstep⟩
      obtain ⟨rfl, hin⟩ := (ih before).mp hbefore
      obtain ⟨hfinal, hline, hspares⟩ := (hin.textLoaded hload).sourceStep_iff.mp hstep
      rw [SingleCycleCpu.arch_storeAddr] at hspares
      refine ⟨by rw [SingleCycleCpu.arch_run_succ, hfinal], fun m hm => ?_⟩
      rcases Nat.lt_succ_iff_lt_or_eq.mp hm with hm | rfl
      · exact hin m hm
      · exact ⟨hline, hspares⟩
    · rintro ⟨hfinal, hin⟩
      have hin' : InText source cpu n := fun m hm => hin m (by omega)
      obtain ⟨hline, hspares⟩ := hin n (by omega)
      rw [← SingleCycleCpu.arch_storeAddr] at hspares
      refine ⟨(cpu.run n).arch, (ih _).mpr ⟨rfl, hin'⟩, ?_⟩
      refine (hin'.textLoaded hload).sourceStep_iff.mpr ⟨?_, hline, hspares⟩
      rw [← SingleCycleCpu.arch_run_succ, hfinal]

theorem TextLoaded.of_loadWords {mem mem' : Memory} (hok : (assemble source).ok = true)
    (hsmall : (assemble source).words.length < 2 ^ 26)
    (h : mem.loadWords 0#32 (assemble source).words = some (true, mem')) :
    TextLoaded source mem' := by
  have hlength := (assemble_encodes hok).1
  have haligned : (0#32).toNat % 4 = 0 := rfl
  rw [Memory.loadWords, if_neg (by decide), Memory.loadWordsFits] at h
  split at h
  · cases h
  · rename_i hin
    obtain ⟨-, rfl⟩ := Prod.mk.inj (Option.some.inj h)
    have hfits : (assemble source).words.length * 4 ≤ mem.size := by
      simpa [Memory.inBounds, Memory.size] using hin
    refine ⟨hok, by omega, fun i w hw => ?_⟩
    have hread := Memory.readWord_loadWordsFrom haligned (i := 0) mem
      (by simpa using hfits) (by simp; omega) hw
    rwa [Nat.zero_add, BitVec.zero_add, Nat.mul_comm] at hread

-- The compiled program runs as its source: where `sourceRun` is defined the CPU gets to its
-- state, and it is defined for as long as the CPU stays in the text and leaves it as it is.
theorem assembled_run {cpu cpu' : SingleCycleCpu} (hok : (assemble source).ok = true)
    (hsmall : (assemble source).words.length < 2 ^ 26)
    (hload : cpu.loadProgram (assemble source).words 0#32 = some (true, cpu')) (n : ℕ)
    (final : Arch) :
    sourceRun (sourceLines source) cpu'.arch n = some final ↔
      (cpu'.run n).arch = final ∧ InText source cpu' n := by
  obtain ⟨mem, hwords, rfl⟩ := SingleCycleCpu.loadProgram_eq hload
  exact sourceRun_iff (.of_loadWords hok hsmall hwords) n final

end Run

def countdown : Text :=
  "addiu $t0, $0, 1\nloop: addiu $t0, $t0, -1\nbne $t0, $0, loop\nend: j end".toList

theorem assembled_run_countdown :
    ∃ cpu final, (SingleCycleCpu.create 16).loadProgram (assemble countdown).words 0#32 =
        some (true, cpu) ∧
      final.pc = 12#32 ∧ sourceRun (sourceLines countdown) cpu.arch 3 = some final ∧
      (cpu.run 3).arch = final ∧ InText countdown cpu 3 := by
  let cpu : SingleCycleCpu :=
    { SingleCycleCpu.create 16 with
      mem := .loadWordsFrom 0#32 0 (assemble countdown).words (.ofSize 16) }
  have hload : (SingleCycleCpu.create 16).loadProgram (assemble countdown).words 0#32 =
      some (true, cpu) := rfl
  have hrun : (sourceRun (sourceLines countdown) cpu.arch 3).map (·.pc) = some 12#32 := by decide
  obtain ⟨final, hfinal, hpc⟩ := Option.map_eq_some_iff.mp hrun
  exact ⟨cpu, final, hload, hpc, hfinal, (assembled_run (by decide) (by decide) hload 3 final).mp hfinal⟩

end ClearCore.Qt.Assembler
