import ClearCore.Isa.Memory.Lemmas
import ClearCore.Mips.Pipelined.Execute

namespace ClearCore.Mips

open Isa

-- An EX/MEM register whose control word EX can have produced.
structure ExMem.Consistent (exMem : ExMem) : Prop where
  memToReg : exMem.ctrl.memToReg = exMem.ctrl.memRead
  oneAccess : exMem.ctrl.memRead = true → exMem.ctrl.memWrite = false

theorem ExMem.Carries.consistent {exMem : ExMem} {pc raw : Word} {isHalt : Bool} {act : Action}
    (h : exMem.Carries pc raw isHalt act) : exMem.Consistent := by
  cases act with
  | trap code =>
    obtain rfl : exMem = {} := h
    exact ⟨rfl, by simp⟩
  | load op addr dst =>
    obtain ⟨-, hr, hw, hm, -⟩ := h
    exact ⟨hm.trans hr.symm, fun _ => hw⟩
  | store op addr value =>
    obtain ⟨-, hr, -, hm, -⟩ := h
    exact ⟨hm.trans hr.symm, by simp [hr]⟩
  | done gpr cp0 next =>
    obtain ⟨-, hr, -, hm, -⟩ := h
    exact ⟨hm.trans hr.symm, by simp [hr]⟩

@[mk_iff]
structure MemWb.Holds (memWb : MemWb) (pc raw : Word) (isHalt : Bool)
    (gpr : Option (RegIdx × Word)) : Prop where
  valid : memWb.valid = true
  pc : memWb.pc = pc
  raw : memWb.raw = raw
  isHalt : memWb.isHalt = isHalt
  gpr : memWb.gpr = gpr

namespace PipelinedCpu

-- The store MEM performs.
def memStore (mem : Memory) (exMem : ExMem) : Option (Word × Word) :=
  if exMem.valid && exMem.ctrl.memWrite && (memoryAccess mem exMem).1.trap.isNone then
    some (exMem.alu.value, exMem.rtVal)
  else none

@[simp] theorem memoryAccess_bubble (mem : Memory) : memoryAccess mem {} = ({}, mem) := rfl

theorem memoryAccess_invalid (mem : Memory) {exMem : ExMem} (h : exMem.valid = false) :
    memoryAccess mem exMem = ({}, mem) := by
  simp [memoryAccess, h]

-- MEM completes an action that completes.
theorem memoryAccess_done {mem mem' : Memory} {exMem : ExMem} {pc raw : Word} {isHalt : Bool}
    {act : Action} (h : exMem.Carries pc raw isHalt act) {gpr : Option (RegIdx × Word)}
    {store : Option (Word × Word)} {cp0 : Cp0Access} {next : Word}
    (hp : act.perform mem pc = .done gpr store mem' cp0 next) :
    (memoryAccess mem exMem).1.trap = none ∧
    (memoryAccess mem exMem).1.next.Holds pc raw isHalt gpr ∧
    (memoryAccess mem exMem).2 = mem' ∧ memStore mem exMem = store := by
  cases Action.perform_completes hp with
  | load hl =>
    obtain ⟨⟨hv, hpc, hraw, hhalt⟩, hr, hw, hm, hreg, haddr, hop, hdst⟩ := h
    simp [memoryAccess, memStore, MemWb.holds_iff, MemWb.gpr, MemWb.value, hv, hr, hw, hm, hreg,
      haddr, hop, hdst, hl, hpc, hraw, hhalt]
  | store hs =>
    obtain ⟨⟨hv, hpc, hraw, hhalt⟩, hr, hw, hm, hreg, haddr, hop, hval⟩ := h
    simp [memoryAccess, memStore, MemWb.holds_iff, MemWb.gpr, hv, hr, hw, hreg, haddr, hop, hval,
      hs, hpc, hraw, hhalt]
  | done =>
    obtain ⟨⟨hv, hpc, hraw, hhalt⟩, hr, hw, hm, hg⟩ := h
    simp [memoryAccess, memStore, MemWb.holds_iff, MemWb.gpr, MemWb.value, hv, hr, hw, hm, hpc,
      hraw, hhalt, hg]

-- MEM raises the trap of an action that EX let through.
theorem memoryAccess_trap {mem : Memory} {exMem : ExMem} {pc raw : Word} {isHalt : Bool}
    {act : Action} (h : exMem.Carries pc raw isHalt act) {code : ExceptionCode} {badAddr : Word}
    (hp : act.perform mem pc = .trap code badAddr) (hno : act.trapOf pc = none) :
    memoryAccess mem exMem = ({ trap := some { code, pc, badAddr } }, mem) := by
  cases act with
  | trap code' => simp [Action.trapOf] at hno
  | load op addr dst =>
    obtain ⟨⟨hv, hpc, hraw, hhalt⟩, hr, hw, hm, hreg, haddr, hop, hdst⟩ := h
    simp only [Action.perform] at hp
    cases hl : loadData mem op addr with
    | none =>
      simp only [hl, Outcome.trap.injEq] at hp
      obtain ⟨rfl, rfl⟩ := hp
      simp [memoryAccess, hv, hr, haddr, hop, hl, hpc]
    | some value => simp [hl] at hp
  | store op addr value =>
    obtain ⟨⟨hv, hpc, hraw, hhalt⟩, hr, hw, hm, hreg, haddr, hop, hval⟩ := h
    simp only [Action.perform] at hp
    cases hs : storeData mem op addr value with
    | none =>
      simp only [hs, Outcome.trap.injEq] at hp
      obtain ⟨rfl, rfl⟩ := hp
      simp [memoryAccess, hv, hr, hw, haddr, hop, hval, hs, hpc]
    | some mem' => simp [hs] at hp
  | done gpr cp0 next => simp [Action.perform] at hp

-- What MEM hands on when it does not trap.
theorem memoryAccess_next {mem : Memory} {exMem : ExMem} (hv : exMem.valid = true)
    (ht : (memoryAccess mem exMem).1.trap = none) :
    let next := (memoryAccess mem exMem).1.next
    next.valid = true ∧ next.pc = exMem.pc ∧ next.raw = exMem.raw ∧ next.ctrl = exMem.ctrl ∧
      next.aluVal = exMem.alu.value ∧ next.writeReg = exMem.writeReg ∧
      next.isHalt = exMem.isHalt := by
  unfold memoryAccess at ht ⊢
  simp only [hv, Bool.not_true, Bool.false_eq_true, if_false] at ht ⊢
  cases hl : (if exMem.ctrl.memRead then loadData mem exMem.opcode exMem.alu.value
      else some 0#32) with
  | none => simp [hl] at ht
  | some value =>
    simp only [hl] at ht ⊢
    by_cases hw : exMem.ctrl.memWrite
    · simp only [hw, if_true] at ht ⊢
      cases hs : storeData mem exMem.opcode exMem.alu.value exMem.rtVal with
      | none => simp [hs] at ht
      | some mem' => simp
    · simp [hw]

theorem memoryAccess_trap_next {mem : Memory} {exMem : ExMem}
    (ht : (memoryAccess mem exMem).1.trap ≠ none) :
    (memoryAccess mem exMem).1.next = {} ∧ (memoryAccess mem exMem).2 = mem := by
  unfold memoryAccess at ht ⊢
  split
  · simp
  · rename_i hv
    simp only [hv] at ht ⊢
    cases hl : (if exMem.ctrl.memRead then loadData mem exMem.opcode exMem.alu.value
        else some 0#32) with
    | none => simp
    | some value =>
      simp only [hl] at ht ⊢
      by_cases hw : exMem.ctrl.memWrite
      · simp only [hw, if_true] at ht ⊢
        cases hs : storeData mem exMem.opcode exMem.alu.value exMem.rtVal <;> simp_all
      · simp [hw] at ht

theorem memoryAccess_trap_pc {mem : Memory} {exMem : ExMem} {trap : Trap}
    (ht : (memoryAccess mem exMem).1.trap = some trap) : trap.pc = exMem.pc := by
  unfold memoryAccess at ht
  split at ht
  · cases ht
  · cases hl : (if exMem.ctrl.memRead then loadData mem exMem.opcode exMem.alu.value
        else some 0#32) with
    | none =>
      simp only [hl, Option.some.injEq] at ht
      rw [← ht]
    | some value =>
      simp only [hl] at ht
      split at ht
      · cases hs : storeData mem exMem.opcode exMem.alu.value exMem.rtVal with
        | none =>
          simp only [hs, Option.some.injEq] at ht
          rw [← ht]
        | some mem' => simp [hs] at ht
      · cases ht

-- The state the instructions past EX leave behind, as far as WB and MEM write it.
def drainRegs (cpu : PipelinedCpu) : RegisterFile :=
  commitGpr (commitGpr cpu.regs cpu.memWb.gpr) (memoryAccess cpu.mem cpu.exMem).1.next.gpr

def drainMem (cpu : PipelinedCpu) : Memory := (memoryAccess cpu.mem cpu.exMem).2

-- The trap MEM is about to raise.
def pendingTrap (cpu : PipelinedCpu) : Option Trap := (memoryAccess cpu.mem cpu.exMem).1.trap

theorem read_commitGpr_gprWrite (regs : RegisterFile) (dst idx : RegIdx) (value : Word) :
    (commitGpr regs (gprWrite dst value)).read idx =
      if idx = dst ∧ dst ≠ 0#5 then value else regs.read idx := by
  rw [commitGpr_gprWrite, RegisterFile.read_write]

theorem read_commit_memWb (regs : RegisterFile) (memWb : MemWb) (idx : RegIdx) :
    (commitGpr regs memWb.gpr).read idx =
      if memWb.valid && memWb.ctrl.regWrite && decide (memWb.writeReg ≠ 0#5) &&
        decide (memWb.writeReg = idx) then memWb.value else regs.read idx := by
  by_cases hv : memWb.valid && memWb.ctrl.regWrite
  · rw [MemWb.gpr, if_pos hv, read_commitGpr_gprWrite]
    simp only [hv, Bool.true_and, eq_comm (a := idx)]
    by_cases hd : memWb.writeReg = idx <;> by_cases hz : memWb.writeReg = 0#5 <;> simp [hd, hz]
  · have hg : memWb.gpr = none := by simp [MemWb.gpr, hv]
    rw [hg]
    simp only [Bool.not_eq_true] at hv
    simp [hv]

-- The forwarding unit delivers the drained value, unless the load in MEM is the
-- one that produces it: the case the hazard unit stalls for.
theorem read_drainRegs (cpu : PipelinedCpu) (hcons : cpu.exMem.Consistent)
    (htrap : cpu.pendingTrap = none) (idx : RegIdx)
    (hload : cpu.exMem.valid = true → cpu.exMem.ctrl.memRead = true →
      cpu.exMem.writeReg = idx → idx = 0#5) :
    cpu.drainRegs.read idx =
      if cpu.exMem.valid && cpu.exMem.ctrl.regWrite && !cpu.exMem.ctrl.memRead &&
        decide (cpu.exMem.writeReg ≠ 0#5) && decide (cpu.exMem.writeReg = idx) then
        cpu.exMem.alu.value
      else (commitGpr cpu.regs cpu.memWb.gpr).read idx := by
  rw [drainRegs, read_commit_memWb]
  cases hv : cpu.exMem.valid with
  | false => simp [memoryAccess_invalid _ hv]
  | true =>
    obtain ⟨hnv, -, -, hctrl, halu, hdst, -⟩ := memoryAccess_next hv htrap
    have hld := hload hv
    simp only [hnv, hctrl, hdst, MemWb.value, halu, hcons.memToReg]
    cases hr : cpu.exMem.ctrl.memRead with
    | false => simp
    | true =>
      have hne : ¬(cpu.exMem.writeReg ≠ 0#5 ∧ cpu.exMem.writeReg = idx) := by
        rintro ⟨hz, he⟩
        exact hz (he.trans (hld hr he))
      by_cases hz : cpu.exMem.writeReg = 0#5
      · simp [hz]
      · have he : cpu.exMem.writeReg ≠ idx := fun h => hne ⟨hz, h⟩
        simp [he]

theorem forwardOperands_a (cpu : PipelinedCpu) (inp : IdEx) (hcons : cpu.exMem.Consistent)
    (htrap : cpu.pendingTrap = none) (hval : inp.rsVal = cpu.regs.read inp.rs)
    (hload : cpu.exMem.valid = true → cpu.exMem.ctrl.memRead = true →
      cpu.exMem.writeReg = inp.rs → inp.rs = 0#5) :
    (forwardOperands inp cpu.exMem cpu.memWb).a = cpu.drainRegs.read inp.rs := by
  rw [read_drainRegs cpu hcons htrap inp.rs hload, read_commit_memWb]
  simp only [forwardOperands, hval]
  cases (cpu.exMem.valid && cpu.exMem.ctrl.regWrite && !cpu.exMem.ctrl.memRead &&
      decide (cpu.exMem.writeReg ≠ 0#5) && decide (cpu.exMem.writeReg = inp.rs)) <;> simp

theorem forwardOperands_b (cpu : PipelinedCpu) (inp : IdEx) (hcons : cpu.exMem.Consistent)
    (htrap : cpu.pendingTrap = none) (hval : inp.rtVal = cpu.regs.read inp.rt)
    (hload : cpu.exMem.valid = true → cpu.exMem.ctrl.memRead = true →
      cpu.exMem.writeReg = inp.rt → inp.rt = 0#5) :
    (forwardOperands inp cpu.exMem cpu.memWb).b = cpu.drainRegs.read inp.rt := by
  rw [read_drainRegs cpu hcons htrap inp.rt hload, read_commit_memWb]
  simp only [forwardOperands, hval]
  cases (cpu.exMem.valid && cpu.exMem.ctrl.regWrite && !cpu.exMem.ctrl.memRead &&
      decide (cpu.exMem.writeReg ≠ 0#5) && decide (cpu.exMem.writeReg = inp.rt)) <;> simp

end PipelinedCpu

end ClearCore.Mips
