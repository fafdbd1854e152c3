import ClearCore.Mips.Pipelined.WellFormed

-- The operands that EX works on are the values its instruction would read once the
-- older instructions in flight have completed.

namespace ClearCore.Mips

open Isa

def DecodedInstr.Sources (d : DecodedInstr) (r : RegIdx) : Prop :=
  (sourceRegisters d).a = some r ∨ (sourceRegisters d).b = some r

instance DecodedInstr.decidableSources (d : DecodedInstr) (r : RegIdx) :
    Decidable (d.Sources r) :=
  inferInstanceAs (Decidable (_ ∨ _))

-- A load of `r`, whose value EX cannot have.
def ExMem.Loads (exMem : ExMem) (r : RegIdx) : Prop :=
  exMem.valid = true ∧ exMem.ctrl.memRead = true ∧ WritesRegister exMem.raw r

theorem deriveControl_memToReg (d : DecodedInstr) :
    (deriveControl d).memToReg = (deriveControl d).memRead := by
  unfold deriveControl
  cases d.format with
  | R =>
    simp only [Control.rTypeControl]
    split_ifs
    · rfl
    · cases d.r.funct <;> rfl
  | I => cases d.opcode <;> rfl
  | J | Unknown => rfl

theorem controlAfterEx_memToReg (d : DecodedInstr) :
    (controlAfterEx d).memToReg = (controlAfterEx d).memRead := by
  unfold controlAfterEx
  split_ifs <;> exact deriveControl_memToReg d

@[simp] theorem controlAfterEx_memRead (d : DecodedInstr) :
    (controlAfterEx d).memRead = (deriveControl d).memRead := by
  unfold controlAfterEx
  split_ifs <;> rfl

theorem ExMem.WellFormed.loads {exMem : ExMem} {d : DecodedInstr} (h : exMem.WellFormed d)
    (hv : exMem.valid = true) (hread : exMem.ctrl.memRead = true) : exMem.Loads exMem.writeReg := by
  refine ⟨hv, hread, d, h.decoded, ?_⟩
  have hdst := h.destination
  rw [h.ctrl, controlAfterEx_memRead] at hread
  have hrt := destinationRegister_of_load h.decoded hread
  cases hw : exMem.ctrl.regWrite with
  | true => simpa only [hw, if_true] using hdst
  | false => simp [hw, hrt] at hdst

namespace PipelinedCpu

theorem WellFormed.consistent {cpu : PipelinedCpu} (h : cpu.WellFormed)
    (hv : cpu.exMem.valid = true) : cpu.exMem.Consistent := by
  obtain ⟨d, hd⟩ := h.exMem hv
  constructor
  · rw [hd.ctrl, controlAfterEx_memToReg]
  · intro hr
    by_contra hw
    exact h.oneAccess.2.1 ⟨hr, by simpa using hw⟩

-- What ID read for the instruction in ID/EX is still in the register file, and a load
-- ahead of it is of no register that it reads.
structure Supplied (cpu : PipelinedCpu) : Prop where
  a : ∀ d r, cpu.exInstr = some d → (sourceRegisters d).a = some r →
    cpu.idEx.rsVal = cpu.regs.read r
  b : ∀ d r, cpu.exInstr = some d → (sourceRegisters d).b = some r →
    cpu.idEx.rtVal = cpu.regs.read r
  apart : ∀ d r, cpu.exInstr = some d → d.Sources r → cpu.exMem.Loads r → r = 0#5
  bubble : cpu.exMem.valid = false → cpu.exMem = {}

theorem Supplied.of_bubbles {cpu : PipelinedCpu} (hx : cpu.idEx = {}) (hm : cpu.exMem = {}) :
    cpu.Supplied := by
  have hnone : cpu.exInstr = none := by rw [exInstr, hx]; rfl
  constructor
  · intro d r h
    cases hnone.symm.trans h
  · intro d r h
    cases hnone.symm.trans h
  · intro d r h
    cases hnone.symm.trans h
  · exact fun _ => hm

theorem decode_executed (regs : RegisterFile) {ifId : IfId} {d : DecodedInstr}
    (h : (decode regs ifId).next.executed = some d) :
    ifId.fetchFault = false ∧ Decoder.decode ifId.instr = some d ∧
      (decode regs ifId).next.rsVal = regs.read d.rsIdx ∧
      (decode regs ifId).next.rtVal = regs.read d.rtIdx := by
  unfold decode at h ⊢
  cases hf : ifId.fetchFault with
  | true => simp [hf, IdEx.executed] at h
  | false =>
    cases hd : Decoder.decode ifId.instr with
    | none => simp [hf, hd, IdEx.executed] at h
    | some d' =>
      simp only [hf, hd, IdEx.executed] at h
      obtain rfl := Option.some.inj h
      exact ⟨rfl, rfl, rfl, rfl⟩

section Step

variable {cpu : PipelinedCpu} {d : DecodedInstr} {r : RegIdx}

theorem step_exInstr (h : cpu.step.2.exInstr = some d) :
    loadUseHazard cpu.idEx cpu.ifId = false ∧ cpu.idInstr = some d ∧
      cpu.step.2.idEx.rsVal = cpu.step.2.regs.read d.rsIdx ∧
      cpu.step.2.idEx.rtVal = cpu.step.2.regs.read d.rtIdx := by
  rw [exInstr] at h
  rcases cpu.step_idEx_cases with hx | ⟨hv, hs, hx⟩
  · rw [hx] at h
    cases h
  · rw [hx] at h ⊢
    obtain ⟨hf, hd, hrs, hrt⟩ := decode_executed _ h
    exact ⟨hs, idInstr_eq_some.mpr ⟨hv, hf, hd⟩, hrs, hrt⟩

-- A load that reaches EX/MEM was the one in ID/EX.
theorem step_loads (hw : cpu.WellFormed) (h : cpu.step.2.exMem.Loads r) :
    ∃ load, cpu.exInstr = some load ∧ (deriveControl load).memRead = true ∧
      destinationRegister load = some r := by
  obtain ⟨hv, hread, d, hd, hdst⟩ := h
  rcases cpu.step_exMem_cases with hm | ⟨-, hx, he, ops, ht, hm⟩
  · rw [hm] at hv
    cases hv
  · have hidEx := hw.idEx hx he
    rw [hm] at hread hd
    have hperf := executeDecoded_performs cpu.cp0 cpu.idEx ops hidEx.decoded hidEx.ctrl hidEx.pc4
    have hwf := executeDecoded_wellFormed cpu.cp0 ops hidEx ht
    obtain rfl := Option.some.inj (hwf.decoded.symm.trans hd)
    exact ⟨_, IdEx.executed_eq_some.mpr ⟨hx, he, rfl⟩, (hperf.load hread).1, hdst⟩

theorem step_supplied {memBytes : ℕ} (h : Reachable memBytes cpu) : cpu.step.2.Supplied where
  a d r hx hsrc := by
    obtain ⟨-, hid, hrs, -⟩ := step_exInstr hx
    rw [hrs, sourceRegisters_a (idInstr_eq_some.mp hid).2.2 hsrc]
  b d r hx hsrc := by
    obtain ⟨-, hid, -, hrt⟩ := step_exInstr hx
    rw [hrt, sourceRegisters_b (idInstr_eq_some.mp hid).2.2 hsrc]
  apart d r hx hsrc hload := by
    obtain ⟨hs, hid, -⟩ := step_exInstr hx
    obtain ⟨load, hex, hread, hdst⟩ := step_loads (wellFormed_of_reachable h) hload
    -- the hazard unit would have held this instruction in ID
    by_contra hz
    have hstall := (labelled_of_reachable h).loadUseHazard_iff.mpr
      ⟨load, d, r, hex, hread, hdst, hz, hid, hsrc⟩
    cases hs.symm.trans hstall
  bubble hv := by
    rcases cpu.step_exMem_cases with hm | ⟨-, -, -, ops, ht, hm⟩
    · exact hm
    · rw [hm] at hv
      rcases executeDecoded_settles cpu.cp0 cpu.idEx ops with ⟨trap, htrap, -⟩ | ⟨-, hvalid, -⟩
      · cases ht.symm.trans htrap
      · cases hvalid.symm.trans hv

end Step

-- The states a CPU of `memBytes` bytes can reach in which nothing from outside has changed
-- a register that the instruction in ID/EX has read.
inductive Undisturbed (memBytes : ℕ) : PipelinedCpu → Prop
  | create : Undisturbed memBytes (create memBytes)
  | step {cpu : PipelinedCpu} (h : Reachable memBytes cpu) : Undisturbed memBytes cpu.step.2
  | loadProgram {cpu cpu' : PipelinedCpu} {words : List Word} {addr : Word} {fits : Bool}
      (h : Undisturbed memBytes cpu) (hload : cpu.loadProgram words addr = some (fits, cpu')) :
      Undisturbed memBytes cpu'
  | reset {cpu : PipelinedCpu} (h : Reachable memBytes cpu) (clearMemory : Bool) :
      Undisturbed memBytes (cpu.reset clearMemory)
  | edit {cpu cpu' : PipelinedCpu} (h : Undisturbed memBytes cpu) (hedit : Edited cpu cpu')
      (hkeep : ∀ d r, cpu.exInstr = some d → d.Sources r → cpu'.regs.read r = cpu.regs.read r) :
      Undisturbed memBytes cpu'

theorem Undisturbed.reachable {memBytes : ℕ} {cpu : PipelinedCpu} (h : Undisturbed memBytes cpu) :
    Reachable memBytes cpu := by
  induction h with
  | create => exact .create
  | step h => exact .step h
  | loadProgram _ hload ih => exact .loadProgram ih hload
  | reset h clearMemory => exact .reset h clearMemory
  | edit _ hedit _ ih => exact .edit ih hedit

theorem Undisturbed.supplied {memBytes : ℕ} {cpu : PipelinedCpu} (h : Undisturbed memBytes cpu) :
    cpu.Supplied := by
  induction h with
  | create => exact .of_bubbles rfl rfl
  | step h => exact step_supplied h
  | loadProgram _ hload ih =>
    obtain ⟨⟨fits, mem⟩, -, hres⟩ := Option.map_eq_some_iff.mp hload
    cases fits <;>
      · simp only [if_true, Bool.false_eq_true, if_false, Prod.mk.injEq] at hres
        rw [← hres.2]
        exact ⟨ih.a, ih.b, ih.apart, ih.bubble⟩
  | reset _ clearMemory => exact .of_bubbles rfl rfl
  | edit _ hedit hkeep ih =>
    cases hedit with
    | setRegs regs =>
      exact {
        a := fun d r hx hsrc => (ih.a d r hx hsrc).trans (hkeep d r hx (.inl hsrc)).symm
        b := fun d r hx hsrc => (ih.b d r hx hsrc).trans (hkeep d r hx (.inr hsrc)).symm
        apart := ih.apart
        bubble := ih.bubble }
    | _ => exact ⟨ih.a, ih.b, ih.apart, ih.bubble⟩

-- Two cycles complete the instructions in MEM/WB and EX/MEM, and no younger one.
theorem run_two_regs (cpu : PipelinedCpu) : (cpu.run 2).regs = cpu.drainRegs := by
  rw [run_succ, step_regs, run_succ, step_regs, step_memWb]
  rfl

-- The operands of the instruction in ID/EX are the values that its registers have when
-- the older instructions have completed.
structure ForwardsValues (cpu : PipelinedCpu) : Prop where
  a : cpu.pendingTrap = none → ∀ r, (sourceRegisters cpu.idEx.decoded).a = some r →
    (forwardOperands cpu.idEx cpu.exMem cpu.memWb).a = (cpu.run 2).regs.read r
  b : cpu.pendingTrap = none → ∀ r, (sourceRegisters cpu.idEx.decoded).b = some r →
    (forwardOperands cpu.idEx cpu.exMem cpu.memWb).b = (cpu.run 2).regs.read r
  load : ∀ r, cpu.idEx.decoded.Sources r → cpu.exMem.Loads r → r = 0#5

theorem forwardsValues_of_undisturbed {memBytes : ℕ} {cpu : PipelinedCpu}
    (h : Undisturbed memBytes cpu) (hv : cpu.idEx.valid = true)
    (he : cpu.idEx.earlyTrap = none) : cpu.ForwardsValues := by
  have hs := h.supplied
  have hl := labelled_of_reachable h.reachable
  have hw := wellFormed_of_reachable h.reachable
  have hx : cpu.exInstr = some cpu.idEx.decoded := IdEx.executed_eq_some.mpr ⟨hv, he, rfl⟩
  obtain ⟨⟨raw, hd⟩, -, hrs, hrt⟩ := hl.idEx _ hx
  have hcons : cpu.exMem.Consistent := by
    cases hm : cpu.exMem.valid with
    | true => exact hw.consistent hm
    | false =>
      rw [hs.bubble hm]
      exact ⟨rfl, fun hr => by cases hr⟩
  have hloads : ∀ r, cpu.exMem.valid = true → cpu.exMem.ctrl.memRead = true →
      cpu.exMem.writeReg = r → cpu.exMem.Loads r := by
    rintro r hm hread rfl
    obtain ⟨load, hload⟩ := hw.exMem hm
    exact hload.loads hm hread
  constructor
  · intro ht r hsrc
    rw [run_two_regs, forwardOperands_a cpu cpu.idEx hcons ht, hrs, sourceRegisters_a hd hsrc]
    · rw [hrs, ← sourceRegisters_a hd hsrc]
      exact hs.a _ r hx hsrc
    · intro hm hread hreg
      rw [hrs, ← sourceRegisters_a hd hsrc] at hreg ⊢
      exact hs.apart _ r hx (.inl hsrc) (hloads r hm hread hreg)
  · intro ht r hsrc
    rw [run_two_regs, forwardOperands_b cpu cpu.idEx hcons ht, hrt, sourceRegisters_b hd hsrc]
    · rw [hrt, ← sourceRegisters_b hd hsrc]
      exact hs.b _ r hx hsrc
    · intro hm hread hreg
      rw [hrt, ← sourceRegisters_b hd hsrc] at hreg ⊢
      exact hs.apart _ r hx (.inr hsrc) (hloads r hm hread hreg)
  · exact fun r hsrc hload => hs.apart _ r hx hsrc hload

-- addi $t0, $0, 1; addu $t1, $t0, $t0
theorem forwardsValues_dependent :
    ((holding 0x20080001#32 0x01084821#32).run 3).ForwardsValues :=
  forwardsValues_of_undisturbed (.step (holding_reachable _ _ 2)) (by decide) (by decide)

-- lw $0, 0($0); addu $t1, $0, $0: a load of register 0 is not kept apart from its reader.
-- addu $t1, $t0, $t0: a write from outside to $t0 comes after ID has read it.
theorem forwardsValues_fails :
    (∃ cpu : PipelinedCpu, Reachable 16 cpu ∧ cpu.idEx.valid = true ∧
      cpu.idEx.earlyTrap = none ∧ cpu.pendingTrap = none ∧
      ∃ r, cpu.idEx.decoded.Sources r ∧ cpu.exMem.Loads r) ∧
    ∃ cpu : PipelinedCpu, Reachable 16 cpu ∧ cpu.idEx.valid = true ∧
      cpu.idEx.earlyTrap = none ∧ cpu.pendingTrap = none ∧
      ∃ r, (sourceRegisters cpu.idEx.decoded).a = some r ∧
        (forwardOperands cpu.idEx cpu.exMem cpu.memWb).a ≠ (cpu.run 2).regs.read r := by
  constructor
  · refine ⟨(holding 0x8C000000#32 0x00004821#32).run 3, holding_reachable _ _ 3, by decide,
      by decide, by decide, 0#5, by decide, by decide, by decide, ?_⟩
    exact ⟨_, rfl, by decide⟩
  · refine ⟨{ (holding 0x01084821#32 0#32).run 2 with regs := RegisterFile.initial.write 8#5 1#32 },
      .edit (holding_reachable _ _ 2) (.setRegs _), by decide, by decide, by decide, 8#5,
      by decide, by decide⟩

end PipelinedCpu

end ClearCore.Mips
