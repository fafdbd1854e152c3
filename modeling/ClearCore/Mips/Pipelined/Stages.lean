import ClearCore.Mips.Pipelined.Drain
import ClearCore.Mips.PipelineUnits.Lemmas

namespace ClearCore.Mips.PipelinedCpu

open Isa

section Decode

variable (regs : RegisterFile) (mem : Memory) (pc : Word)

theorem decode_fault (hr : mem.readWord pc = none) :
    decode regs (fetch mem pc) =
      { next := { valid := true, pc, pc4 := pc + 4#32, earlyTrap := some .AdEL } } := by
  simp [decode, fetch, hr]

theorem decode_reserved {raw : Word} (hr : mem.readWord pc = some raw)
    (hd : Decoder.decode raw = none) :
    decode regs (fetch mem pc) =
      { next := { valid := true, pc, pc4 := pc + 4#32, earlyTrap := some .RI, decoded := { raw } } } := by
  simp [decode, fetch, hr, hd]

theorem decode_decoded {raw : Word} {d : DecodedInstr} (hr : mem.readWord pc = some raw)
    (hd : Decoder.decode raw = some d) :
    decode regs (fetch mem pc) =
      { next := {
          valid := true, pc, pc4 := pc + 4#32, ctrl := deriveControl d, decoded := d
          rsVal := regs.read d.rsIdx, rtVal := regs.read d.rtIdx, rs := d.rsIdx, rt := d.rtIdx
          isHalt := selfJump pc raw }
        jump := if d.format = .J then some (Action.jumpTarget pc d.j.target) else none } := by
  simp only [decode, fetch, hr, hd]
  rfl

theorem decode_valid (ifId : IfId) : (decode regs ifId).next.valid = true := by
  unfold decode
  split
  · rfl
  · split <;> rfl

@[simp] theorem fetch_valid : (fetch mem pc).valid = true := by
  unfold fetch
  split <;> rfl

@[simp] theorem fetch_pc : (fetch mem pc).pc = pc := by
  unfold fetch
  split <;> rfl

-- A jump resolved in ID is a decoded J or JAL, and its target.
theorem decode_jump {target : Word} (h : (decode regs (fetch mem pc)).jump = some target) :
    (decode regs (fetch mem pc)).next.decoded.format = .J ∧
      target = Action.jumpTarget pc (decode regs (fetch mem pc)).next.decoded.j.target := by
  cases hr : mem.readWord pc with
  | none => simp [decode_fault regs mem pc hr] at h
  | some raw =>
    cases hd : Decoder.decode raw with
    | none => simp [decode_reserved regs mem pc hr hd] at h
    | some d =>
      rw [decode_decoded regs mem pc hr hd] at h ⊢
      by_cases hj : d.format = .J
      · simp only [hj, if_true, Option.some.injEq] at h
        exact ⟨hj, h.symm⟩
      · simp [hj] at h

theorem decode_noJump (h : (decode regs (fetch mem pc)).jump = none) :
    (decode regs (fetch mem pc)).next.decoded.format ≠ .J := by
  cases hr : mem.readWord pc with
  | none => simp [decode_fault regs mem pc hr]
  | some raw =>
    cases hd : Decoder.decode raw with
    | none => simp [decode_reserved regs mem pc hr hd]
    | some d =>
      rw [decode_decoded regs mem pc hr hd] at h ⊢
      intro hj
      simp only at hj
      simp [hj] at h

end Decode

-- The EX outcome of a cycle whose MEM does not trap.
theorem runStages_ex (cpu : PipelinedCpu) (ht : cpu.pendingTrap = none) :
    cpu.runStages.ex = execute cpu.cp0 cpu.idEx cpu.exMem cpu.memWb := by
  simp only [pendingTrap] at ht
  simp [runStages, ht]

theorem runStages_regs (cpu : PipelinedCpu) :
    cpu.runStages.regs = commitGpr cpu.regs cpu.memWb.gpr := by
  simp only [runStages, writeBack, MemWb.gpr]
  cases cpu.memWb.valid <;> cases cpu.memWb.ctrl.regWrite <;>
    by_cases hz : cpu.memWb.writeReg = 0#5 <;> simp [gprWrite, commitGpr, hz]

@[simp] theorem runStages_mem (cpu : PipelinedCpu) :
    cpu.runStages.mem = (memoryAccess cpu.mem cpu.exMem).1 := rfl

@[simp] theorem runStages_memory (cpu : PipelinedCpu) : cpu.runStages.memory = cpu.drainMem := rfl

theorem runStages_halted (cpu : PipelinedCpu) :
    cpu.runStages.halted = (cpu.memWb.valid && cpu.memWb.isHalt) := by
  simp only [runStages, writeBack]
  cases cpu.memWb.valid <;> rfl

theorem execute_invalid (cp0 : Cp0) {inp : IdEx} (exMem : ExMem) (memWb : MemWb)
    (h : inp.valid = false) : execute cp0 inp exMem memWb = {} := by
  simp [execute, h]

-- EX traps on the instruction in ID/EX or hands it on.
def Settles (inp : IdEx) (out : ExOutcome) : Prop :=
  (∃ trap, out.trap = some trap ∧ trap.pc = inp.pc ∧ out.next = {}) ∨
    out.trap = none ∧ out.next.valid = true ∧ out.next.pc = inp.pc ∧
      out.next.raw = inp.decoded.raw

theorem executeDecoded_settles (cp0 : Cp0) (inp : IdEx) (ops : ExOperands) :
    Settles inp (executeDecoded cp0 inp ops) := by
  simp only [executeDecoded]
  split_ifs
  all_goals first
    | exact .inr ⟨rfl, rfl, rfl, rfl⟩
    | exact .inl ⟨_, rfl, rfl, rfl⟩
    | skip
  cases Alu.control inp.decoded with
  | none => exact .inl ⟨_, rfl, rfl, rfl⟩
  | some aluop =>
    simp only
    split
    · exact .inl ⟨_, rfl, rfl, rfl⟩
    · exact .inr ⟨rfl, rfl, rfl, rfl⟩

theorem execute_settles (cp0 : Cp0) (inp : IdEx) (exMem : ExMem) (memWb : MemWb)
    (hv : inp.valid = true) : Settles inp (execute cp0 inp exMem memWb) := by
  simp only [execute, hv, Bool.not_true, Bool.false_eq_true, if_false]
  cases inp.earlyTrap with
  | some code => exact .inl ⟨_, rfl, rfl, rfl⟩
  | none => exact executeDecoded_settles cp0 inp _

-- A hazard is between a load in EX and an instruction in ID.
theorem loadUseHazard_load {inEx : IdEx} {inId : IfId} (hs : loadUseHazard inEx inId = true) :
    inEx.valid = true ∧ inEx.ctrl.memRead = true ∧ inId.valid = true ∧
      inId.fetchFault = false := by
  by_contra hn
  simp only [not_and_or, Bool.not_eq_true, Bool.not_eq_false] at hn
  rcases hn with hn | hn | hn | hn <;> simp [loadUseHazard, hn] at hs

theorem loadUseHazard_invalid {inEx : IdEx} (inId : IfId) (h : inEx.valid = false) :
    loadUseHazard inEx inId = false := by
  simp [loadUseHazard, h]

theorem loadUseHazard_empty (inEx : IdEx) {inId : IfId} (h : inId.valid = false) :
    loadUseHazard inEx inId = false := by
  simp [loadUseHazard, h]

section Step

variable {cpu : PipelinedCpu}

@[simp] theorem step_regs (cpu : PipelinedCpu) :
    cpu.step.2.regs = commitGpr cpu.regs cpu.memWb.gpr := runStages_regs cpu

@[simp] theorem step_mem (cpu : PipelinedCpu) : cpu.step.2.mem = cpu.drainMem := rfl

@[simp] theorem step_cp0 (cpu : PipelinedCpu) :
    cpu.step.2.cp0 = nextCp0 cpu.cp0 cpu.runStages := rfl

@[simp] theorem step_pc (cpu : PipelinedCpu) : cpu.step.2.pc = nextPc cpu.pc cpu.runStages := rfl

@[simp] theorem step_ifId (cpu : PipelinedCpu) :
    cpu.step.2.ifId = nextIfId cpu.ifId cpu.runStages := rfl

@[simp] theorem step_idEx (cpu : PipelinedCpu) : cpu.step.2.idEx = nextIdEx cpu.runStages := rfl

@[simp] theorem step_exMem (cpu : PipelinedCpu) : cpu.step.2.exMem = cpu.runStages.ex.next := rfl

@[simp] theorem step_memWb (cpu : PipelinedCpu) :
    cpu.step.2.memWb = (memoryAccess cpu.mem cpu.exMem).1.next := rfl

-- What MEM is left to do after a cycle whose EX hands on `exMem`.
theorem step_drainRegs (cpu : PipelinedCpu) :
    cpu.step.2.drainRegs =
      commitGpr cpu.drainRegs (memoryAccess cpu.drainMem cpu.runStages.ex.next).1.next.gpr := by
  simp [drainRegs]

theorem step_drainMem (cpu : PipelinedCpu) :
    cpu.step.2.drainMem = (memoryAccess cpu.drainMem cpu.runStages.ex.next).2 := rfl

theorem step_pendingTrap (cpu : PipelinedCpu) :
    cpu.step.2.pendingTrap = (memoryAccess cpu.drainMem cpu.runStages.ex.next).1.trap := rfl

@[simp] theorem gpr_bubble : ({} : MemWb).gpr = none := rfl

theorem trap_of_pending {trap : Trap} (ht : cpu.pendingTrap = some trap) :
    cpu.runStages.trap = some trap := by
  simp only [pendingTrap] at ht
  simp [StageOutcomes.trap, ht]

theorem trap_of_ex (ht : cpu.pendingTrap = none) :
    cpu.runStages.trap = cpu.runStages.ex.trap := by
  simp only [pendingTrap] at ht
  simp [StageOutcomes.trap, ht]

theorem ex_of_pending {trap : Trap} (ht : cpu.pendingTrap = some trap) :
    cpu.runStages.ex = {} := by
  simp only [pendingTrap] at ht
  simp [runStages, ht]

-- A cycle that raises a trap empties the front end and fetches from the vector.
theorem step_of_trap {trap : Trap} (ht : cpu.runStages.trap = some trap) :
    cpu.step.2.cp0 = cpu.cp0.raise trap.code trap.pc trap.badAddr ∧
    cpu.step.2.pc = kExceptionVector ∧ cpu.step.2.ifId = {} ∧ cpu.step.2.idEx = {} := by
  simp [nextCp0, nextPc, nextIfId, nextIdEx, StageOutcomes.flushFromEx, branchPc, ht]

theorem step_of_redirect {target : Word} (ht : cpu.runStages.trap = none)
    (hr : cpu.runStages.ex.redirect = some target) :
    cpu.step.2.pc = target ∧ cpu.step.2.ifId = {} ∧ cpu.step.2.idEx = {} := by
  simp [nextPc, nextIfId, nextIdEx, StageOutcomes.flushFromEx, StageOutcomes.redirect, branchPc,
    ht, hr]

theorem runStages_stall (cpu : PipelinedCpu) :
    cpu.runStages.stallLoadUse = loadUseHazard cpu.idEx cpu.ifId := rfl

theorem step_of_stall (ht : cpu.runStages.trap = none) (hr : cpu.runStages.ex.redirect = none)
    (hs : loadUseHazard cpu.idEx cpu.ifId = true) :
    cpu.step.2.pc = cpu.pc ∧ cpu.step.2.ifId = cpu.ifId ∧ cpu.step.2.idEx = {} := by
  have hid : cpu.runStages.id = {} := by simp [runStages, hs]
  simp [nextPc, nextIfId, nextIdEx, StageOutcomes.flushFromEx, StageOutcomes.redirect,
    StageOutcomes.flushFromId, ht, hr, hid, runStages_stall, hs]

theorem runStages_id (cpu : PipelinedCpu) :
    cpu.runStages.id =
      if loadUseHazard cpu.idEx cpu.ifId || (cpu.runStages.mem.trap.isSome ||
        cpu.runStages.ex.trap.isSome || cpu.runStages.ex.redirect.isSome) || !cpu.ifId.valid then {}
      else decode cpu.runStages.regs cpu.ifId := rfl

theorem runStages_fetched (cpu : PipelinedCpu) :
    cpu.runStages.fetched =
      if loadUseHazard cpu.idEx cpu.ifId || (cpu.runStages.mem.trap.isSome ||
        cpu.runStages.ex.trap.isSome || cpu.runStages.ex.redirect.isSome) then {}
      else fetch cpu.drainMem cpu.pc := rfl

theorem trap_none (ht : cpu.runStages.trap = none) :
    cpu.pendingTrap = none ∧ cpu.runStages.ex.trap = none := by
  cases hm : cpu.pendingTrap with
  | none => exact ⟨rfl, (trap_of_ex hm).symm.trans ht⟩
  | some trap => simp [trap_of_pending hm] at ht

-- What ID makes of IF/ID in a cycle without flush or stall.
def idStage (cpu : PipelinedCpu) : IdOutcome :=
  if cpu.ifId.valid then decode cpu.step.2.regs cpu.ifId else {}

theorem idStage_valid (cpu : PipelinedCpu) : cpu.idStage.next.valid = cpu.ifId.valid := by
  unfold idStage
  cases hv : cpu.ifId.valid with
  | false => rfl
  | true => exact decode_valid _ _

theorem runStages_id_of_flow (ht : cpu.runStages.trap = none)
    (hr : cpu.runStages.ex.redirect = none) (hs : loadUseHazard cpu.idEx cpu.ifId = false) :
    cpu.runStages.id = cpu.idStage := by
  obtain ⟨hp, hx⟩ := trap_none ht
  have hm : cpu.runStages.mem.trap = none := hp
  rw [runStages_id, idStage, step_regs, runStages_regs, hs, hm, hx, hr]
  cases cpu.ifId.valid <;> rfl

-- A cycle without flush or stall: ID and IF work on what they hold.
theorem step_of_flow (ht : cpu.runStages.trap = none) (hr : cpu.runStages.ex.redirect = none)
    (hs : loadUseHazard cpu.idEx cpu.ifId = false) :
    cpu.step.2.idEx = cpu.idStage.next ∧
    cpu.step.2.pc = cpu.idStage.jump.getD (cpu.pc + 4#32) ∧
    cpu.step.2.ifId = if cpu.idStage.jump.isSome then {} else fetch cpu.drainMem cpu.pc := by
  obtain ⟨hp, hx⟩ := trap_none ht
  have hm : cpu.runStages.mem.trap = none := hp
  have hid := runStages_id_of_flow ht hr hs
  have hfetched : cpu.runStages.fetched = fetch cpu.drainMem cpu.pc := by
    rw [runStages_fetched, hs, hm, hx, hr]
    rfl
  simp only [step_idEx, step_pc, step_ifId, nextPc, nextIfId, nextIdEx, StageOutcomes.flushFromEx,
    StageOutcomes.redirect, StageOutcomes.flushFromId, ht, hr, hid, hfetched, runStages_stall, hs]
  cases hj : cpu.idStage.jump <;> simp

end Step

end ClearCore.Mips.PipelinedCpu
