import ClearCore.Mips.Decoder.Lemmas
import ClearCore.Mips.Semantics
import ClearCore.Mips.SingleCycle

namespace ClearCore.Mips

open Isa

@[simp] theorem commitGpr_none (regs : RegisterFile) : commitGpr regs none = regs := rfl

@[simp] theorem commitGpr_gprWrite (regs : RegisterFile) (dst : RegIdx) (value : Word) :
    commitGpr regs (gprWrite dst value) = regs.write dst value := by
  by_cases hd : dst = 0#5 <;> simp [gprWrite, commitGpr, RegisterFile.write, hd]

-- BEQ and BNE compare through the zero flag of a subtraction.
theorem subu_zero (a b : Word) (shamt : BitVec 5) :
    (Alu.execute .SUBU a b shamt).zero = decide (a = b) := by
  have h : a - b = 0#32 ↔ a = b := by
    constructor <;> intro h <;> bv_omega
  simp [Alu.execute, Alu.value, h]

-- Effective addresses wrap and never overflow.
theorem addu_value (a b : Word) (shamt : BitVec 5) :
    (Alu.execute .ADDU a b shamt).value = a + b := rfl

theorem addu_overflow (a b : Word) (shamt : BitVec 5) :
    (Alu.execute .ADDU a b shamt).overflow = false := rfl

namespace SingleCycleCpu

def arch (cpu : SingleCycleCpu) : Arch := ⟨cpu.regs, cpu.mem, cpu.cp0, cpu.pc⟩

@[simp] theorem arch_regs (cpu : SingleCycleCpu) : cpu.arch.regs = cpu.regs := rfl
@[simp] theorem arch_mem (cpu : SingleCycleCpu) : cpu.arch.mem = cpu.mem := rfl
@[simp] theorem arch_cp0 (cpu : SingleCycleCpu) : cpu.arch.cp0 = cpu.cp0 := rfl
@[simp] theorem arch_pc (cpu : SingleCycleCpu) : cpu.arch.pc = cpu.pc := rfl

-- The result and state of a step whose instruction decoded to `d`.
def resolve (cpu : SingleCycleCpu) (raw : Word) (d : DecodedInstr) :
    Outcome → StepResult × SingleCycleCpu
  | .trap code badAddr =>
      (.Exception, { cpu with
        cp0 := cpu.cp0.raise code cpu.pc badAddr, pc := kExceptionVector
        ctrl := deriveControl d, ps := snapshot cpu.cycle cpu.pc raw })
  | .done gpr _ mem cp0 next =>
      (if next = cpu.pc then .Halt else .Ok, { cpu with
        regs := commitGpr cpu.regs gpr, mem, cp0 := cp0.apply cpu.cp0, pc := next
        ctrl := deriveControl d
        ps := { snapshot cpu.cycle cpu.pc raw with retired := true } })

@[simp] theorem pc4_sub (pc : Word) : pc + 4#32 - 4#32 = pc := BitVec.add_sub_cancel pc 4#32

theorem stepDecoded_special (cpu : SingleCycleCpu) (raw : Word) (r : RFields)
    (himpl : Decoder.implementedSpecial r.funct) :
    let d : DecodedInstr := { raw, opcode := .SPECIAL, format := .R, fields := .r r }
    cpu.stepDecoded raw d =
      cpu.resolve raw d ((cpu.arch.action d).perform cpu.mem cpu.pc) := by
  obtain ⟨rs, rt, rd, shamt, funct⟩ := r
  cases funct with
  | ADD =>
    cases ho : (Alu.execute .ADD (cpu.regs.read rs) (cpu.regs.read rt) shamt).overflow <;>
      simp [Alu.control, Alu.rTypeOp, stepDecoded, execRtype, Arch.action, Action.ofInstr,
        Action.ofSpecial, arch, Arch.operandA, Arch.operandB, DecodedInstr.rsIdx,
        DecodedInstr.rtIdx, DecodedInstr.r, finish, resolve, Action.perform, raise,
        Cp0Access.apply, Action.ofAlu, ho]
  | SUB =>
    cases ho : (Alu.execute .SUB (cpu.regs.read rs) (cpu.regs.read rt) shamt).overflow <;>
      simp [Alu.control, Alu.rTypeOp, stepDecoded, execRtype, Arch.action, Action.ofInstr,
        Action.ofSpecial, arch, Arch.operandA, Arch.operandB, DecodedInstr.rsIdx,
        DecodedInstr.rtIdx, DecodedInstr.r, finish, resolve, Action.perform, raise,
        Cp0Access.apply, Action.ofAlu, ho]
  | ERET => simp [Decoder.implementedSpecial] at himpl
  | unnamed code => simp [Decoder.implementedSpecial] at himpl
  | _ =>
    simp [Alu.control, Alu.rTypeOp, stepDecoded, execRtype, Arch.action, Action.ofInstr,
      Action.ofSpecial, arch, Arch.operandA, Arch.operandB, DecodedInstr.rsIdx,
      DecodedInstr.rtIdx, DecodedInstr.r, finish, resolve, Action.perform, raise,
      Cp0Access.apply, Action.ofAlu]

theorem stepDecoded_cop0 (cpu : SingleCycleCpu) (raw : Word) (r : RFields) :
    let d : DecodedInstr := { raw, opcode := .COP0, format := .R, fields := .r r }
    cpu.stepDecoded raw d =
      cpu.resolve raw d ((cpu.arch.action d).perform cpu.mem cpu.pc) := by
  simp only [stepDecoded, execRtype, Arch.action, Action.ofInstr, Action.ofCop0, arch,
    DecodedInstr.r, Arch.operandB, DecodedInstr.rtIdx, if_true]
  by_cases hmf : r.rs = 0x00#5
  · simp [hmf, finish, resolve, Action.perform, Cp0Access.apply]
  by_cases hmt : r.rs = 0x04#5
  · simp [hmt, finish, resolve, Action.perform, Cp0Access.apply]
  by_cases her : r.rs = 0x10#5 ∧ r.funct = .ERET
  · simp [her, finish, resolve, Action.perform, Cp0Access.apply]
  · simp [hmf, hmt, her, finish, resolve, Action.perform, Cp0Access.apply]

theorem stepDecoded_jump (cpu : SingleCycleCpu) (raw target : Word) (op : Opcode) :
    let d : DecodedInstr := { raw, opcode := op, format := .J, fields := .j { target } }
    cpu.stepDecoded raw d =
      cpu.resolve raw d ((cpu.arch.action d).perform cpu.mem cpu.pc) := by
  by_cases hop : op = .JAL <;>
    simp [stepDecoded, execJtype, Arch.action, Action.ofInstr, arch, DecodedInstr.j, hop, finish,
      resolve, Action.perform, Cp0Access.apply, Action.jumpTarget, commitGpr, kRa]

theorem stepDecoded_load (cpu : SingleCycleCpu) (raw : Word) (op : Opcode) (i : IFields)
    (hop : op = .LW ∨ op = .LBU ∨ op = .LHU) :
    let d : DecodedInstr := { raw, opcode := op, format := .I, fields := .i i }
    cpu.stepDecoded raw d =
      cpu.resolve raw d ((cpu.arch.action d).perform cpu.mem cpu.pc) := by
  cases hl : loadData cpu.mem op (cpu.regs.read i.rs + Decoder.signExtend i.imm) <;>
    rcases hop with rfl | rfl | rfl <;>
    simp [Alu.control, Alu.iTypeOp, stepDecoded, execItype, Arch.action, Action.ofInstr,
      Action.ofImmediate, arch, Arch.operandA, DecodedInstr.rsIdx, DecodedInstr.i, Action.perform,
      deriveControl, Control.iTypeControl, addu_value, addu_overflow, finish, resolve, raise,
      Cp0Access.apply, hl]

theorem stepDecoded_immediate (cpu : SingleCycleCpu) (raw : Word) (op : Opcode) (i : IFields)
    (hop : Decoder.formatOf op = .I) :
    let d : DecodedInstr := { raw, opcode := op, format := .I, fields := .i i }
    cpu.stepDecoded raw d =
      cpu.resolve raw d ((cpu.arch.action d).perform cpu.mem cpu.pc) := by
  cases op with
  | BEQ | BNE =>
    by_cases he : cpu.regs.read i.rs = cpu.regs.read i.rt <;>
      simp [Alu.control, Alu.iTypeOp, stepDecoded, execItype, Arch.action, Action.ofInstr,
        Action.ofImmediate, arch, Arch.operandA, Arch.operandB, DecodedInstr.rsIdx,
        DecodedInstr.rtIdx, DecodedInstr.i, finish, resolve, Action.perform, Cp0Access.apply,
        subu_zero, he, Action.branchTarget]
  | LW | LBU | LHU => exact stepDecoded_load cpu raw _ i (by simp)
  | SW =>
    cases hs : storeData cpu.mem .SW (cpu.regs.read i.rs + Decoder.signExtend i.imm)
        (cpu.regs.read i.rt) <;>
      simp [Alu.control, Alu.iTypeOp, stepDecoded, execItype, Arch.action, Action.ofInstr,
        Action.ofImmediate, arch, Arch.operandA, Arch.operandB, DecodedInstr.rsIdx,
        DecodedInstr.rtIdx, DecodedInstr.i, Action.perform, deriveControl, Control.iTypeControl,
        addu_value, addu_overflow, finish, resolve, raise, Cp0Access.apply, hs]
  | ADDI =>
    cases ho : (Alu.execute .ADD (cpu.regs.read i.rs) (Decoder.signExtend i.imm) 0#5).overflow <;>
      simp [Alu.control, Alu.iTypeOp, stepDecoded, execItype, Arch.action, Action.ofInstr,
        Action.ofImmediate, arch, Arch.operandA, DecodedInstr.rsIdx, DecodedInstr.i, finish, resolve,
        Action.perform, raise, Cp0Access.apply, deriveControl, Control.iTypeControl, Action.ofAlu, ho]
  | SPECIAL | COP0 | J | JAL | unnamed => simp [Decoder.formatOf] at hop
  | _ =>
    simp [Alu.control, Alu.iTypeOp, stepDecoded, execItype, Arch.action, Action.ofInstr,
      Action.ofImmediate, arch, Arch.operandA, DecodedInstr.rsIdx, DecodedInstr.i, finish, resolve,
      Action.perform, Cp0Access.apply, deriveControl, Control.iTypeControl, Action.ofAlu]

theorem stepDecoded_eq (cpu : SingleCycleCpu) {raw : Word} {d : DecodedInstr}
    (hd : Decoder.decode raw = some d) :
    cpu.stepDecoded raw d =
      cpu.resolve raw d ((cpu.arch.action d).perform cpu.mem cpu.pc) := by
  cases Decoder.decode_decoded hd with
  | special r himpl => exact stepDecoded_special cpu raw r himpl
  | cop0 r => exact stepDecoded_cop0 cpu raw r
  | immediate op i hop => exact stepDecoded_immediate cpu raw op i hop
  | jump op hop => exact stepDecoded_jump cpu raw _ op

theorem step_fault {cpu : SingleCycleCpu} (hr : cpu.mem.readWord cpu.pc = none) :
    cpu.step =
      (.Exception, raise { cpu with cycle := cpu.cycle + 1 } .AdEL cpu.pc cpu.pc) := by
  simp [step, hr]

theorem step_reserved {cpu : SingleCycleCpu} {raw : Word}
    (hr : cpu.mem.readWord cpu.pc = some raw) (hd : Decoder.decode raw = none) :
    cpu.step = (.Exception, raise { cpu with cycle := cpu.cycle + 1 } .RI cpu.pc) := by
  simp [step, hr, hd]

theorem step_decoded {cpu : SingleCycleCpu} {raw : Word} {d : DecodedInstr}
    (hr : cpu.mem.readWord cpu.pc = some raw) (hd : Decoder.decode raw = some d) :
    cpu.step = resolve { cpu with cycle := cpu.cycle + 1 } raw d
      ((cpu.arch.action d).perform cpu.mem cpu.pc) := by
  simp only [step, hr, hd, stepDecoded_eq _ hd]
  rfl

-- One single-cycle step is one step of the reference machine.
theorem step_arch (cpu : SingleCycleCpu) : cpu.step.2.arch = cpu.arch.step := by
  cases hr : cpu.mem.readWord cpu.pc with
  | none => simp [step_fault hr, hr, Arch.step, Arch.outcome, Arch.finish, arch, raise]
  | some raw =>
    cases hd : Decoder.decode raw with
    | none => simp [step_reserved hr hd, hr, hd, Arch.step, Arch.outcome, Arch.finish, arch, raise]
    | some d =>
      simp only [step_decoded hr hd, Arch.step, Arch.outcome, hr, hd, arch_mem, arch_pc]
      cases (cpu.arch.action d).perform cpu.mem cpu.pc <;> rfl

theorem step_result (cpu : SingleCycleCpu) :
    cpu.step.1 = if cpu.arch.trapped then .Exception
      else if cpu.arch.step.pc = cpu.pc then .Halt else .Ok := by
  cases hr : cpu.mem.readWord cpu.pc with
  | none => simp [step_fault hr, Arch.trapped, Arch.outcome, arch, hr]
  | some raw =>
    cases hd : Decoder.decode raw with
    | none => simp [step_reserved hr hd, Arch.trapped, Arch.outcome, arch, hr, hd]
    | some d =>
      simp only [step_decoded hr hd, Arch.trapped, Arch.step, Arch.outcome, hr, hd, arch_mem,
        arch_pc]
      cases (cpu.arch.action d).perform cpu.mem cpu.pc <;> rfl

theorem trapped_iff (s : SingleCycleCpu) : s.step.1 = .Exception ↔ s.arch.trapped = true := by
  rw [step_result]
  cases s.arch.trapped with
  | true => simp
  | false => by_cases hn : s.arch.step.pc = s.pc <;> simp [hn]

theorem step_hi_lo (cpu : SingleCycleCpu) : cpu.step.2.hi = cpu.hi ∧ cpu.step.2.lo = cpu.lo := by
  cases hr : cpu.mem.readWord cpu.pc with
  | none => exact ⟨by rw [step_fault hr]; rfl, by rw [step_fault hr]; rfl⟩
  | some raw =>
    cases hd : Decoder.decode raw with
    | none => exact ⟨by rw [step_reserved hr hd]; rfl, by rw [step_reserved hr hd]; rfl⟩
    | some d =>
      rw [step_decoded hr hd]
      cases (cpu.arch.action d).perform cpu.mem cpu.pc with
      | trap code badAddr => exact ⟨rfl, rfl⟩
      | done gpr store mem cp0 next => exact ⟨rfl, rfl⟩

end SingleCycleCpu

end ClearCore.Mips
