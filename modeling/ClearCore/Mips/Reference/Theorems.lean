import ClearCore.Mips.Decoder.Fields
import ClearCore.Mips.Reference.Arithmetic
import ClearCore.Mips.Semantics.Lemmas
import ClearCore.Mips.SingleCycle.Trace
import ClearCore.Mips.SingleCycle.Variants

-- The single-cycle CPU executes the instruction at PC as the reference does.

namespace ClearCore.Mips

open Isa

namespace Reference

section Tables

def ofFunct : FunctCode → Option Mnemonic
  | .SLL => some .SLL
  | .SRL => some .SRL
  | .SRA => some .SRA
  | .SLLV => some .SLLV
  | .SRLV => some .SRLV
  | .JR => some .JR
  | .JALR => some .JALR
  | .SYSCALL => some .SYSCALL
  | .BREAK => some .BREAK
  | .ADD => some .ADD
  | .ADDU => some .ADDU
  | .SUB => some .SUB
  | .SUBU => some .SUBU
  | .AND => some .AND
  | .OR => some .OR
  | .XOR => some .XOR
  | .NOR => some .NOR
  | .SLT => some .SLT
  | .SLTU => some .SLTU
  | .ERET | .unnamed _ => none

def ofOpcode : Opcode → Option Mnemonic
  | .J => some .J
  | .JAL => some .JAL
  | .BEQ => some .BEQ
  | .BNE => some .BNE
  | .ADDI => some .ADDI
  | .ADDIU => some .ADDIU
  | .SLTI => some .SLTI
  | .SLTIU => some .SLTIU
  | .ANDI => some .ANDI
  | .ORI => some .ORI
  | .XORI => some .XORI
  | .LUI => some .LUI
  | .LW => some .LW
  | .LBU => some .LBU
  | .LHU => some .LHU
  | .SW => some .SW
  | .SPECIAL | .COP0 | .unnamed _ => none

theorem special_eq (code : BitVec 6) : special code = ofFunct (.ofBits code) := by
  revert code
  decide

theorem regular_eq (code : BitVec 6) : regular code = ofOpcode (.ofBits code) := by
  revert code
  decide

theorem implementedSpecial_eq (funct : FunctCode) :
    Decoder.implementedSpecial funct = (ofFunct funct).isSome := by
  cases funct <;> rfl

theorem ofOpcode_unknown {op : Opcode} (h : Decoder.formatOf op = .Unknown) :
    ofOpcode op = none := by
  cases op with
  | unnamed code => rfl
  | _ => cases h

theorem ofOpcode_known {op : Opcode} (h : Decoder.formatOf op = .I ∨ Decoder.formatOf op = .J) :
    ∃ m, ofOpcode op = some m := by
  cases op with
  | SPECIAL | COP0 | unnamed => simp [Decoder.formatOf] at h
  | _ => exact ⟨_, rfl⟩

theorem opcode_special (code : BitVec 6) : Opcode.ofBits code = .SPECIAL ↔ code = 0x00#6 := by
  revert code
  decide

theorem opcode_cop0 (code : BitVec 6) : Opcode.ofBits code = .COP0 ↔ code = 0x10#6 := by
  revert code
  decide

theorem funct_eret (code : BitVec 6) : FunctCode.ofBits code = .ERET ↔ code = 0x18#6 := by
  revert code
  decide

end Tables

section Fields

variable (word : Word)

theorem opcode_eq : (Decoder.bits word 31 26).setWidth 6 = opcode word :=
  BitVec.eq_of_toNat_eq (Decoder.toNat_field word (by decide) rfl)

theorem rs_eq : (Decoder.bits word 25 21).setWidth 5 = rs word :=
  BitVec.eq_of_toNat_eq (Decoder.toNat_field word (by decide) rfl)

theorem rt_eq : (Decoder.bits word 20 16).setWidth 5 = rt word :=
  BitVec.eq_of_toNat_eq (Decoder.toNat_field word (by decide) rfl)

theorem rd_eq : (Decoder.bits word 15 11).setWidth 5 = rd word :=
  BitVec.eq_of_toNat_eq (Decoder.toNat_field word (by decide) rfl)

theorem sa_eq : ((Decoder.bits word 10 6).setWidth 5).toNat = sa word :=
  Decoder.toNat_field word (by decide) rfl

theorem funct_eq : (Decoder.bits word 5 0).setWidth 6 = funct word := by
  have hfield : ((Decoder.bits word 5 0).setWidth 6).toNat = word.toNat / 2 ^ 0 % 2 ^ 6 :=
    Decoder.toNat_field word (by decide) rfl
  apply BitVec.eq_of_toNat_eq
  rw [hfield, Nat.pow_zero, Nat.div_one, funct, BitVec.toNat_ofNat]

theorem imm_eq : (Decoder.bits word 15 0).setWidth 16 = imm word := by
  have hfield : ((Decoder.bits word 15 0).setWidth 16).toNat = word.toNat / 2 ^ 0 % 2 ^ 16 :=
    Decoder.toNat_field word (by decide) rfl
  apply BitVec.eq_of_toNat_eq
  rw [hfield, Nat.pow_zero, Nat.div_one, imm, BitVec.toNat_ofNat]

theorem target_eq : (Decoder.bits word 25 0).toNat = target word := by
  rw [Decoder.toNat_bits word (by decide), Nat.pow_zero, Nat.div_one]
  rfl

theorem rawOpcode_eq : Decoder.rawOpcode word = .ofBits (opcode word) := by
  rw [Decoder.rawOpcode, opcode_eq]

end Fields

section Decode

variable {word : Word} {d : DecodedInstr}

theorem mnemonic_special (hop : Decoder.rawOpcode word = .SPECIAL) :
    mnemonic word = ofFunct (.ofBits (funct word)) := by
  rw [rawOpcode_eq, opcode_special] at hop
  rw [mnemonic, if_pos hop, special_eq]

theorem mnemonic_cop0 (hop : Decoder.rawOpcode word = .COP0) :
    mnemonic word = some (cop0 (rs word) (funct word)) := by
  rw [rawOpcode_eq, opcode_cop0] at hop
  rw [mnemonic, hop]
  rfl

theorem mnemonic_regular (hf : Decoder.formatOf (Decoder.rawOpcode word) ≠ .R) :
    mnemonic word = ofOpcode (Decoder.rawOpcode word) := by
  have hs : Decoder.rawOpcode word ≠ .SPECIAL := fun h => hf (by rw [h]; rfl)
  have hc : Decoder.rawOpcode word ≠ .COP0 := fun h => hf (by rw [h]; rfl)
  rw [rawOpcode_eq] at hs hc ⊢
  rw [mnemonic, if_neg (mt (opcode_special _).mpr hs), if_neg (mt (opcode_cop0 _).mpr hc),
    regular_eq]

-- The decoder rejects the reserved words.
theorem mnemonic_none (hd : Decoder.decode word = none) : mnemonic word = none := by
  unfold Decoder.decode at hd
  cases hf : Decoder.formatOf (Decoder.rawOpcode word) with
  | Unknown =>
    rw [mnemonic_regular (by rw [hf]; decide)]
    exact ofOpcode_unknown hf
  | I => simp [hf] at hd
  | J => simp [hf] at hd
  | R =>
    rcases Decoder.formatOf_eq_R hf with hop | hop
    · rw [mnemonic_special hop]
      cases hfun : ofFunct (.ofBits (funct word)) with
      | none => rfl
      | some m => simp [hop, Decoder.formatOf, funct_eq, implementedSpecial_eq, hfun] at hd
    · simp [hop, Decoder.formatOf] at hd

-- The fields of a word with a function field.
theorem fields_R (hd : Decoder.decode word = some d) (hformat : d.format = .R) :
    d.r.rs = rs word ∧ d.r.rt = rt word ∧ d.r.rd = rd word ∧
      d.r.funct = .ofBits (funct word) ∧ (d.opcode = .SPECIAL → d.r.shamt.toNat = sa word) := by
  unfold Decoder.decode at hd
  cases hf : Decoder.formatOf (Decoder.rawOpcode word) with
  | Unknown => simp [hf] at hd
  | I | J =>
    simp only [hf] at hd
    obtain rfl := Option.some.inj hd
    cases hformat
  | R =>
    simp only [hf] at hd
    split at hd
    · cases hd
    · obtain rfl := Option.some.inj hd
      refine ⟨rs_eq word, rt_eq word, rd_eq word, congrArg FunctCode.ofBits (funct_eq word), ?_⟩
      intro hop
      have hne : decide (Decoder.rawOpcode word = .COP0) = false := by
        rw [show Decoder.rawOpcode word = .SPECIAL from hop]
        rfl
      simp only [DecodedInstr.r, hne, Bool.false_eq_true, if_false]
      exact sa_eq word

end Decode

section Exec

variable {s : Arch} {word : Word}

theorem next_eq (s : Arch) : next s = s.pc + 4#32 := by
  rw [next, wrap_add, wrap_toNat]
  rfl

theorem goto_eq (s : Arch) (pc : Word) : goto s pc.toNat = .done none none s.mem .none pc := by
  rw [goto, wrap_toNat]

theorem signExtend_eq (imm : Half) : Decoder.signExtend imm = wrap imm.toInt := by
  rw [← Decoder.toInt_signExtend, wrap_toInt]

theorem branchTarget_eq (pc : Word) (imm : Half) :
    Action.branchTarget pc imm = wrap (pc.toNat + 4 + imm.toInt * 4) := by
  have hshift : ∀ w : Word, w <<< 2 = w * 4#32 := by
    intro w
    apply BitVec.eq_of_toNat_eq
    rw [BitVec.toNat_shiftLeft, Nat.shiftLeft_eq, BitVec.toNat_mul]
    rfl
  have hmul : wrap (imm.toInt * 4) = wrap imm.toInt * 4#32 := BitVec.ofInt_mul _ _
  rw [wrap_add, wrap_add, wrap_toNat, hmul, ← signExtend_eq, ← hshift]
  rfl

theorem jumpTarget_eq (s : Arch) (word : Word) :
    Action.jumpTarget s.pc (Decoder.bits word 25 0) = wrap (region s + target word * 4) := by
  have hcast : (region s + target word * 4 : ℤ) = ((region s + target word * 4 : ℕ) : ℤ) := by
    push_cast
    rfl
  have htarget : target word < 2 ^ 26 := Nat.mod_lt _ (by decide)
  have hpc := (next s).isLt
  rw [hcast, wrap_natCast]
  apply BitVec.eq_of_toNat_eq
  rw [BitVec.toNat_ofNat, Action.toNat_jumpTarget _ (by rw [target_eq]; exact htarget), ← next_eq,
    target_eq, Nat.mod_eq_of_lt (by rw [region]; omega : region s + target word * 4 < 2 ^ 32)]
  rfl

-- The ALU result that EX of both models writes or traps on.
theorem set_eq (s : Arch) (dst : RegIdx) {op : AluOp} {a b : Word} {shamt : BitVec 5} {n : ℤ}
    (hv : Alu.value op a b shamt = wrap n) :
    (Action.ofAlu s.pc dst (Alu.execute op a b shamt) false).perform s.mem s.pc = set s dst n := by
  rw [Action.ofAlu, Bool.and_false, if_neg Bool.false_ne_true, Action.perform, set, next_eq, ← hv]
  rfl

theorem setSigned_eq (s : Arch) (dst : RegIdx) {op : AluOp} {a b : Word} {shamt : BitVec 5} {n : ℤ}
    (hv : Alu.value op a b shamt = wrap n)
    (hov : (Alu.execute op a b shamt).overflow = true ↔ ¬InRange n) :
    (Action.ofAlu s.pc dst (Alu.execute op a b shamt) true).perform s.mem s.pc =
      setSigned s dst n := by
  by_cases hr : InRange n
  · have hno : (Alu.execute op a b shamt).overflow = false := by
      rw [← Bool.not_eq_true, hov]
      exact not_not.mpr hr
    rw [setSigned, if_pos hr, ← set_eq s dst hv, Action.ofAlu, Action.ofAlu, hno]
    rfl
  · rw [setSigned, if_neg hr, Action.ofAlu, hov.mpr hr]
    rfl

theorem load_eq (s : Arch) (op : Opcode) (addr : Word) (dst : RegIdx) {count : ℕ}
    (hl : loadData s.mem op addr =
      if Accessible s.mem addr.toNat count then some (wrap (bytes s.mem addr.toNat count))
      else none) :
    (Action.load op addr dst).perform s.mem s.pc = load s dst addr count := by
  rw [Action.perform, hl, load]
  by_cases h : Accessible s.mem addr.toNat count
  · rw [if_pos h, if_pos h, set, next_eq]
  · rw [if_neg h, if_neg h]

theorem store_eq (s : Arch) (addr value : Word) :
    (Action.store .SW addr value).perform s.mem s.pc = store s addr value := by
  rw [Action.perform, storeData, writeWord_eq, store]
  by_cases h : Accessible s.mem addr.toNat 4
  · rw [if_pos h, if_pos h, next_eq]
  · rw [if_neg h, if_neg h]

theorem variable_shamt (a : Word) : ((a &&& 0x1F#32).setWidth 5).toNat = a.toNat % 32 := by
  rw [BitVec.toNat_setWidth, BitVec.toNat_and]
  exact (congrArg (· % 2 ^ 5) (Nat.and_two_pow_sub_one_eq_mod a.toNat 5)).trans (Nat.mod_mod _ _)

theorem exec_special (s : Arch) {r : RFields} (hrd : r.rd = rd word) (hsa : r.shamt.toNat = sa word)
    (a b : Word) {m : Mnemonic} (hm : ofFunct r.funct = some m) :
    (Action.ofSpecial r s.pc a b).perform s.mem s.pc = exec s word a b m := by
  obtain ⟨rs, rt, rd', shamt, funct⟩ := r
  simp only at hrd hsa hm
  subst hrd
  cases funct with
  | ERET | unnamed => cases hm
  | SLL =>
    obtain rfl := Option.some.inj hm
    rw [exec, ← hsa]
    exact set_eq s _ (value_sll a b shamt)
  | SRL =>
    obtain rfl := Option.some.inj hm
    rw [exec, ← hsa]
    exact set_eq s _ (value_srl a b shamt)
  | SRA =>
    obtain rfl := Option.some.inj hm
    rw [exec, ← hsa]
    exact set_eq s _ (value_sra a b shamt)
  | SLLV =>
    obtain rfl := Option.some.inj hm
    rw [exec, ← variable_shamt]
    exact set_eq s _ (value_sll a b _)
  | SRLV =>
    obtain rfl := Option.some.inj hm
    rw [exec, ← variable_shamt]
    exact set_eq s _ (value_srl a b _)
  | JR =>
    obtain rfl := Option.some.inj hm
    rw [exec, goto_eq]
    rfl
  | JALR =>
    obtain rfl := Option.some.inj hm
    rw [exec, next_eq]
    rfl
  | SYSCALL | BREAK =>
    obtain rfl := Option.some.inj hm
    rfl
  | ADD =>
    obtain rfl := Option.some.inj hm
    exact setSigned_eq s _ (value_add a b shamt) (overflowAdd_iff a b)
  | SUB =>
    obtain rfl := Option.some.inj hm
    exact setSigned_eq s _ (value_sub a b shamt) (overflowSub_iff a b)
  | ADDU =>
    obtain rfl := Option.some.inj hm
    exact set_eq s _ (value_addu a b shamt)
  | SUBU =>
    obtain rfl := Option.some.inj hm
    exact set_eq s _ (value_subu a b shamt)
  | AND =>
    obtain rfl := Option.some.inj hm
    exact set_eq s _ (value_and a b shamt)
  | OR =>
    obtain rfl := Option.some.inj hm
    exact set_eq s _ (value_or a b shamt)
  | XOR =>
    obtain rfl := Option.some.inj hm
    exact set_eq s _ (value_xor a b shamt)
  | NOR =>
    obtain rfl := Option.some.inj hm
    exact set_eq s _ (value_nor a b shamt)
  | SLT =>
    obtain rfl := Option.some.inj hm
    exact set_eq s _ (value_slt a b shamt)
  | SLTU =>
    obtain rfl := Option.some.inj hm
    exact set_eq s _ (value_sltu a b shamt)

theorem exec_cop0 (s : Arch) {r : RFields} (hrs : r.rs = rs word) (hrt : r.rt = rt word)
    (hrd : r.rd = rd word) (hfunct : r.funct = .ofBits (funct word)) (a b : Word) :
    (Action.ofCop0 r s.cp0 s.pc b).perform s.mem s.pc =
      exec s word a b (cop0 (rs word) (funct word)) := by
  have heret : r.funct = .ERET ↔ funct word = 0x18#6 := by rw [hfunct, funct_eret]
  rw [Action.ofCop0, cop0, hrs, hrt, hrd]
  by_cases hmf : rs word = 0x00#5
  · rw [if_pos hmf, if_pos hmf, ← next_eq]
    rfl
  rw [if_neg hmf, if_neg hmf]
  by_cases hmt : rs word = 0x04#5
  · rw [if_pos hmt, if_pos hmt, ← next_eq]
    rfl
  rw [if_neg hmt, if_neg hmt]
  by_cases her : rs word = 0x10#5 ∧ funct word = 0x18#6
  · rw [if_pos her, if_pos ⟨her.1, heret.mpr her.2⟩]
    rfl
  · rw [if_neg her, if_neg fun h => her ⟨h.1, heret.mp h.2⟩, ← next_eq]
    rfl

theorem effectiveAddress_eq (a : Word) (imm : Half) :
    a + Decoder.signExtend imm = wrap (a.toNat + imm.toInt) := by
  rw [wrap_add, wrap_toNat, signExtend_eq]

theorem toNat_zeroExtend (imm : Half) : (imm.setWidth 32).toNat = imm.toNat := by
  have himm := imm.isLt
  rw [BitVec.toNat_setWidth, Nat.mod_eq_of_lt (by omega)]

theorem branch_eq (s : Arch) (taken : Prop) [Decidable taken] (imm : Half) :
    goto s (s.pc.toNat + 4 + if taken then imm.toInt * 4 else 0) =
      .done none none s.mem .none
        (if taken then Action.branchTarget s.pc imm else s.pc + 4#32) := by
  by_cases h : taken
  · rw [if_pos h, if_pos h, branchTarget_eq, goto]
  · rw [if_neg h, if_neg h, goto, Int.add_zero, ← next_eq, next]

theorem exec_immediate (s : Arch) {op : Opcode} {i : IFields} (hrt : i.rt = rt word)
    (himm : i.imm = imm word) (a b : Word) (hop : Decoder.formatOf op = .I) {m : Mnemonic}
    (hm : ofOpcode op = some m) :
    (Action.ofImmediate op i s.pc a b).perform s.mem s.pc = exec s word a b m := by
  obtain ⟨rs, rt', imm'⟩ := i
  simp only at hrt himm
  subst hrt himm
  cases op with
  | SPECIAL | COP0 | J | JAL | unnamed => cases hop
  | BEQ =>
    obtain rfl := Option.some.inj hm
    rw [exec, branch_eq]
    rfl
  | BNE =>
    obtain rfl := Option.some.inj hm
    rw [exec, ← ite_not, branch_eq, ite_not]
    rfl
  | LW =>
    obtain rfl := Option.some.inj hm
    rw [exec, ← effectiveAddress_eq]
    exact load_eq s .LW _ _ (readWord_eq s.mem _)
  | LBU =>
    obtain rfl := Option.some.inj hm
    rw [exec, ← effectiveAddress_eq]
    exact load_eq s .LBU _ _ (readByte_eq s.mem _)
  | LHU =>
    obtain rfl := Option.some.inj hm
    rw [exec, ← effectiveAddress_eq]
    exact load_eq s .LHU _ _ (readHalf_eq s.mem _)
  | SW =>
    obtain rfl := Option.some.inj hm
    rw [exec, ← effectiveAddress_eq]
    exact store_eq s _ b
  | ADDI =>
    obtain rfl := Option.some.inj hm
    rw [exec, ← Decoder.toInt_signExtend]
    exact setSigned_eq s _ (value_add a _ 0#5) (overflowAdd_iff a _)
  | ADDIU =>
    obtain rfl := Option.some.inj hm
    rw [exec, ← Decoder.toInt_signExtend]
    exact set_eq s _ (value_add a _ 0#5)
  | SLTI =>
    obtain rfl := Option.some.inj hm
    rw [exec, ← Decoder.toInt_signExtend]
    exact set_eq s _ (value_slt a _ 0#5)
  | SLTIU =>
    obtain rfl := Option.some.inj hm
    rw [exec, ← signExtend_eq]
    exact set_eq s _ (value_sltu a _ 0#5)
  | ANDI =>
    obtain rfl := Option.some.inj hm
    rw [exec, ← toNat_zeroExtend]
    exact set_eq s _ (value_and a _ 0#5)
  | ORI =>
    obtain rfl := Option.some.inj hm
    rw [exec, ← toNat_zeroExtend]
    exact set_eq s _ (value_or a _ 0#5)
  | XORI =>
    obtain rfl := Option.some.inj hm
    rw [exec, ← toNat_zeroExtend]
    exact set_eq s _ (value_xor a _ 0#5)
  | LUI =>
    obtain rfl := Option.some.inj hm
    rw [exec]
    exact set_eq s _ (value_lui a 0#5 _)

end Exec

section Outcome

theorem exec_jump (s : Arch) {word : Word} {op : Opcode} (hop : Decoder.formatOf op = .J)
    (a b : Word) {m : Mnemonic} (hm : ofOpcode op = some m) :
    (Action.done (if op = .JAL then some (31#5, s.pc + 4#32) else none) .none
      (Action.jumpTarget s.pc (Decoder.bits word 25 0))).perform s.mem s.pc =
      exec s word a b m := by
  rcases Decoder.formatOf_eq_J hop with rfl | rfl
  · obtain rfl := Option.some.inj hm
    rw [exec, goto, ← jumpTarget_eq]
    rfl
  · obtain rfl := Option.some.inj hm
    rw [exec, ← jumpTarget_eq, next_eq]
    rfl

-- A decoded instruction does what its mnemonic says.
theorem exec_decoded (s : Arch) {word : Word} {d : DecodedInstr}
    (hd : Decoder.decode word = some d) :
    ∃ m, mnemonic word = some m ∧
      (s.action d).perform s.mem s.pc =
        exec s word (s.regs.read (rs word)) (s.regs.read (rt word)) m := by
  have hraw := Decoder.decode_opcode hd
  cases Decoder.decode_decoded hd with
  | special r himpl =>
    obtain ⟨hrs, hrt, hrd, hfunct, hsa⟩ := fields_R hd rfl
    rw [implementedSpecial_eq] at himpl
    obtain ⟨m, hm⟩ := Option.isSome_iff_exists.mp himpl
    refine ⟨m, ?_, ?_⟩
    · rw [mnemonic_special hraw.symm, ← hfunct]
      exact hm
    · rw [← hrs, ← hrt]
      exact exec_special s hrd (hsa rfl) _ _ hm
  | cop0 r =>
    obtain ⟨hrs, hrt, hrd, hfunct, -⟩ := fields_R hd rfl
    refine ⟨_, mnemonic_cop0 hraw.symm, ?_⟩
    rw [← exec_cop0 s hrs hrt hrd hfunct, ← hrt]
    rfl
  | immediate op i hop =>
    have hi := Decoder.fields_of_immediate hd rfl
    rw [rs_eq, rt_eq, imm_eq] at hi
    obtain ⟨m, hm⟩ := ofOpcode_known (.inl hop)
    have hrs : i.rs = rs word := congrArg IFields.rs hi
    have hrt : i.rt = rt word := congrArg IFields.rt hi
    refine ⟨m, ?_, ?_⟩
    · rw [mnemonic_regular (by rw [← hraw, hop]; decide), ← hraw]
      exact hm
    · rw [← hrs, ← hrt]
      exact exec_immediate s hrt (congrArg IFields.imm hi) _ _ hop hm
  | jump op hop =>
    obtain ⟨m, hm⟩ := ofOpcode_known (.inr hop)
    refine ⟨m, ?_, exec_jump s hop _ _ hm⟩
    rw [mnemonic_regular (by rw [← hraw, hop]; decide), ← hraw]
    exact hm

-- The machine of the CPU models is the reference.
theorem outcome_eq (s : Arch) : s.outcome.2 = outcome s := by
  rw [outcome]
  by_cases ha : Accessible s.mem s.pc.toNat 4
  · have hr : s.mem.readWord s.pc = some (wrap (bytes s.mem s.pc.toNat 4)) := by
      rw [readWord_eq, if_pos ha]
    rw [if_pos ha]
    cases hd : Decoder.decode (wrap (bytes s.mem s.pc.toNat 4)) with
    | none => rw [Arch.outcome_reserved hr hd, execWord, mnemonic_none hd]
    | some d =>
      obtain ⟨m, hm, hexec⟩ := exec_decoded s hd
      rw [Arch.outcome_decoded hr hd, execWord, hm]
      exact hexec
  · have hr : s.mem.readWord s.pc = none := by rw [readWord_eq, if_neg ha]
    rw [if_neg ha, Arch.outcome_fault hr]

end Outcome

end Reference

namespace SingleCycleCpu

-- What a step does where the reference does `out`.
def Executes (cpu : SingleCycleCpu) (res : StepResult) (next : SingleCycleCpu) : Outcome → Prop
  | .trap code badAddr =>
      res = .Exception ∧ next.regs = cpu.regs ∧ next.mem = cpu.mem ∧
        next.pc = kExceptionVector ∧ next.cp0 = cpu.cp0.raise code cpu.pc badAddr
  | .done gpr _ mem cp0 pc =>
      res = (if pc = cpu.pc then .Halt else .Ok) ∧ next.regs = commitGpr cpu.regs gpr ∧
        next.mem = mem ∧ next.pc = pc ∧ next.cp0 = cp0.apply cpu.cp0

-- step() throws nothing and is never a Fault; it is the instruction of the reference.
theorem step_executes (cpu : SingleCycleCpu) :
    cpu.stepOrThrow = some cpu.step ∧ cpu.step.1 ≠ .Fault ∧
      cpu.Executes cpu.step.1 cpu.step.2 (Reference.outcome cpu.arch) ∧
      cpu.step.2.hi = cpu.hi ∧ cpu.step.2.lo = cpu.lo := by
  refine ⟨cpu.stepOrThrow_eq, cpu.step_ne_fault, ?_, cpu.step_hi_lo⟩
  have hregs : cpu.step.2.regs = cpu.arch.step.regs := congrArg Arch.regs cpu.step_arch
  have hmem : cpu.step.2.mem = cpu.arch.step.mem := congrArg Arch.mem cpu.step_arch
  have hcp0 : cpu.step.2.cp0 = cpu.arch.step.cp0 := congrArg Arch.cp0 cpu.step_arch
  have hpc : cpu.step.2.pc = cpu.arch.step.pc := congrArg Arch.pc cpu.step_arch
  rw [← Reference.outcome_eq]
  cases hout : cpu.arch.outcome.2 with
  | trap code badAddr =>
    rw [Executes, hregs, hmem, hcp0, hpc, step_result, Arch.trapped, hout, Arch.step_of_trap hout]
    exact ⟨rfl, rfl, rfl, rfl, rfl⟩
  | done gpr store mem cp0 pc =>
    rw [Executes, hregs, hmem, hcp0, hpc, step_result, Arch.trapped, hout, Arch.step_of_done hout]
    exact ⟨rfl, rfl, rfl, rfl, rfl⟩

end SingleCycleCpu

end ClearCore.Mips
