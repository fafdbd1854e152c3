import ClearCore.Mips.Pipelined.Redirect
import ClearCore.Mips.Pipelined.WellFormed

-- The instruction whose trap or control transfer makes a cycle flush the front end.

namespace ClearCore.Mips

open Isa

def Control.Accesses (ctrl : Control) : Prop := ctrl.memRead = true ∨ ctrl.memWrite = true

theorem Control.not_accesses_default : ¬({} : Control).Accesses := by
  rintro (h | h) <;> cases h

namespace PipelinedCpu

-- Its address and its word: the one in MEM if it traps there, else the one in EX.
def flushCause (cpu : PipelinedCpu) : Option (Word × Word) :=
  if cpu.pendingTrap.isSome then some (cpu.exMem.pc, cpu.exMem.raw)
  else if cpu.runStages.ex.trap.isSome || cpu.runStages.ex.redirect.isSome then
    some (cpu.idEx.pc, cpu.idEx.decoded.raw)
  else none

theorem flushCause_isSome (cpu : PipelinedCpu) :
    cpu.flushCause.isSome = cpu.step.2.ps.branchFlush := by
  have hflush : cpu.step.2.ps.branchFlush = cpu.runStages.flushFromEx := rfl
  rw [hflush, StageOutcomes.flushFromEx, StageOutcomes.redirect, flushCause]
  cases hp : cpu.pendingTrap with
  | some trap => simp [trap_of_pending hp]
  | none =>
    rw [trap_of_ex hp]
    cases cpu.runStages.ex.trap <;> cases cpu.runStages.ex.redirect <;> rfl

-- Without outside changes of the pc, neighbouring stages hold neighbouring instructions.
structure InLine (cpu : PipelinedCpu) : Prop where
  fetched : cpu.ifId.valid = true → cpu.pc = cpu.ifId.pc + 4#32
  id : cpu.ifId.valid = true → cpu.idEx.valid = true → cpu.ifId.pc = cpu.idEx.pc + 4#32
  ex : cpu.idEx.valid = true → cpu.exMem.valid = true → cpu.idEx.pc = cpu.exMem.pc + 4#32

section Step

variable {cpu : PipelinedCpu}

theorem step_exMem_pc (hv : cpu.step.2.exMem.valid = true) :
    cpu.idEx.valid = true ∧ cpu.step.2.exMem.pc = cpu.idEx.pc := by
  rcases cpu.step_exMem_cases with hm | ⟨-, hx, -, ops, ht, hm⟩
  · rw [hm] at hv
    cases hv
  · rw [hm]
    rcases executeDecoded_settles cpu.cp0 cpu.idEx ops with ⟨trap, htrap, -⟩ | ⟨-, -, hpc, -⟩
    · cases ht.symm.trans htrap
    · exact ⟨hx, hpc⟩

theorem InLine.step (h : cpu.InLine) : cpu.step.2.InLine := by
  cases hf : cpu.runStages.flushFromEx with
  | true =>
    have hi : cpu.step.2.ifId = {} := by simp [nextIfId, hf]
    have hx : cpu.step.2.idEx = {} := by simp [nextIdEx, hf]
    constructor
    · rw [hi]
      exact fun hv => by cases hv
    · rw [hi]
      exact fun hv => by cases hv
    · rw [hx]
      exact fun hv => by cases hv
  | false =>
    obtain ⟨ht, hr⟩ := flushFromEx_false hf
    cases hs : loadUseHazard cpu.idEx cpu.ifId with
    | true =>
      obtain ⟨hpc, hi, hx⟩ := step_of_stall ht hr hs
      constructor
      · rw [hpc, hi]
        exact h.fetched
      · rw [hx]
        exact fun _ hv => by cases hv
      · rw [hx]
        exact fun hv => by cases hv
    | false =>
      obtain ⟨hx, hpc, hi⟩ := step_of_flow ht hr hs
      have hid : cpu.step.2.idEx.valid = true →
          cpu.ifId.valid = true ∧ cpu.step.2.idEx.pc = cpu.ifId.pc := by
        rw [hx, idStage_valid]
        intro hv
        rw [idStage, if_pos hv, decode_pc]
        exact ⟨hv, rfl⟩
      constructor
      · rw [hi, hpc]
        cases hj : cpu.idStage.jump with
        | some target => exact fun hv => by cases hv
        | none => exact fun _ => by simp
      · rw [hi]
        cases hj : cpu.idStage.jump with
        | some target => exact fun hv => by cases hv
        | none =>
          intro _ hv
          obtain ⟨hvalid, hnext⟩ := hid hv
          rw [hnext, ← h.fetched hvalid]
          simp
      · intro hv hm
        obtain ⟨hvalid, hnext⟩ := hid hv
        obtain ⟨hex, hmem⟩ := step_exMem_pc hm
        rw [hnext, hmem]
        exact h.id hvalid hex

theorem Empty.inLine (h : cpu.Empty) : cpu.InLine := by
  constructor
  · rw [h.ifId]
    exact fun hv => by cases hv
  · rw [h.ifId]
    exact fun hv => by cases hv
  · rw [h.idEx]
    exact fun hv => by cases hv

end Step

section Access

variable {cp0 : Cp0} {inp : IdEx} {ops : ExOperands}

theorem deriveControl_accesses {d : DecodedInstr} (h : (deriveControl d).Accesses) :
    d.format = .I ∧ (d.opcode = .LW ∨ d.opcode = .LBU ∨ d.opcode = .LHU ∨ d.opcode = .SW) := by
  unfold deriveControl at h
  cases hf : d.format with
  | R =>
    rw [hf] at h
    simp only [Control.rTypeControl] at h
    split_ifs at h
    · simp [Control.Accesses] at h
    · cases hfunct : d.r.funct <;> simp [Control.Accesses, hfunct] at h
  | I =>
    rw [hf] at h
    cases hop : d.opcode <;> simp_all [Control.Accesses, Control.iTypeControl]
  | J | Unknown => simp [Control.Accesses, hf] at h

theorem executeDecoded_accesses (h : (executeDecoded cp0 inp ops).next.ctrl.Accesses) :
    inp.ctrl.Accesses := by
  simp only [executeDecoded] at h
  split_ifs at h
  all_goals first
    | exact h
    | exact absurd h Control.not_accesses_default
    | skip
  cases hop : Alu.control inp.decoded with
  | none =>
    rw [hop] at h
    exact absurd h Control.not_accesses_default
  | some aluop =>
    simp only [hop] at h
    split_ifs at h
    · exact absurd h Control.not_accesses_default
    · exact h

-- A load or a store is no control transfer.
theorem redirect_of_accesses (h : inp.WellFormed)
    (ha : (executeDecoded cp0 inp ops).next.ctrl.Accesses) :
    (executeDecoded cp0 inp ops).redirect = none := by
  have hctrl := executeDecoded_accesses ha
  rw [h.ctrl] at hctrl
  obtain ⟨hf, hop⟩ := deriveControl_accesses hctrl
  rcases hop with hop | hop | hop | hop <;>
    simp [executeDecoded, hf, hop, Alu.control, Alu.iTypeOp, isSignedOp, addu_overflow]

end Access

-- MEM has nothing to trap on for an instruction that neither loads nor stores.
theorem memoryAccess_passes (mem : Memory) {exMem : ExMem} (h : ¬exMem.ctrl.Accesses) :
    (memoryAccess mem exMem).1.trap = none := by
  obtain ⟨hr, hw⟩ := not_or.mp h
  unfold memoryAccess
  cases exMem.valid <;> simp [hr, hw]

section Flush

variable {cpu : PipelinedCpu}

-- Only a load or a store traps in MEM, and the word 0 is neither.
theorem WellFormed.pending_word (h : cpu.WellFormed) (hp : cpu.pendingTrap.isSome = true) :
    cpu.exMem.valid = true ∧ cpu.exMem.raw ≠ 0#32 := by
  have hv : cpu.exMem.valid = true := by
    by_contra hv
    simp [pendingTrap, memoryAccess_invalid cpu.mem (by simpa using hv)] at hp
  refine ⟨hv, fun hraw => ?_⟩
  obtain ⟨d, hd⟩ := h.exMem hv
  let nop : DecodedInstr := { raw := 0#32, opcode := .SPECIAL, format := .R, fields := .r {} }
  have hnop : Decoder.decode 0#32 = some nop := by decide
  have hdec := hd.decoded
  rw [hraw, hnop, Option.some.injEq] at hdec
  have hnone : cpu.pendingTrap = none := by
    refine memoryAccess_passes _ fun ha => ?_
    rw [hd.ctrl, ← hdec] at ha
    rcases ha with ha | ha <;> cases ha
  rw [hnone] at hp
  cases hp

theorem ex_of_flushCause (hp : cpu.pendingTrap = none)
    (hex : (cpu.runStages.ex.trap.isSome || cpu.runStages.ex.redirect.isSome) = true) :
    cpu.idEx.valid = true := by
  by_contra hv
  rw [runStages_ex cpu hp, execute_invalid _ _ _ (by simpa using hv)] at hex
  cases hex

theorem step_pendingTrap_of_transfer (h : cpu.WellFormed)
    (hr : cpu.runStages.ex.redirect.isSome = true) : cpu.step.2.pendingTrap = none := by
  refine memoryAccess_passes _ fun ha => ?_
  rw [step_exMem] at ha
  cases hp : cpu.pendingTrap with
  | some trap => simp [ex_of_pending hp] at hr
  | none =>
    rw [runStages_ex cpu hp] at ha hr
    cases hx : cpu.idEx.executed with
    | none =>
      rw [(execute_of_none _ _ _ hx).1] at ha
      exact Control.not_accesses_default ha
    | some d =>
      rw [(execute_of_executed _ _ _ hx).2] at ha hr
      obtain ⟨hv, he, -⟩ := IdEx.executed_eq_some.mp hx
      simp [redirect_of_accesses (h.idEx hv he) ha] at hr

theorem step_pendingTrap_of_trap (h : cpu.runStages.trap.isSome = true) :
    cpu.step.2.pendingTrap = none := by
  have hbubble : cpu.step.2.exMem = {} := by
    rcases cpu.step_exMem_cases with hm | ⟨ht, -⟩
    · exact hm
    · simp [ht] at h
  rw [pendingTrap, hbubble]
  rfl

-- The cycle after a flush has nothing in the stages that flush.
theorem flushCause_step (h : cpu.WellFormed) (hf : cpu.flushCause.isSome = true) :
    cpu.step.2.flushCause = none := by
  rw [flushCause_isSome] at hf
  have hflush : cpu.runStages.flushFromEx = true := hf
  have hp : cpu.step.2.pendingTrap = none := by
    cases ht : cpu.runStages.trap with
    | some trap => exact step_pendingTrap_of_trap (by rw [ht]; rfl)
    | none =>
      refine step_pendingTrap_of_transfer h ?_
      simpa [StageOutcomes.flushFromEx, StageOutcomes.redirect, ht] using hflush
  have hx : cpu.step.2.idEx = {} := by simp [nextIdEx, hflush]
  have hex : cpu.step.2.runStages.ex = {} := by
    rw [runStages_ex _ hp, hx]
    exact execute_invalid _ _ _ rfl
  rw [flushCause, hp, hex]
  rfl

end Flush

end PipelinedCpu

end ClearCore.Mips
