import ClearCore.Library.Simulation
import ClearCore.Mips.PipelineUnits
import ClearCore.Mips.Semantics.Lemmas
import ClearCore.Mips.SingleCycle.Theorems

namespace ClearCore.Mips

open Isa

-- The CP0 access of a COP0 instruction whose rt operand is `b`.
def cp0AccessOf (d : DecodedInstr) (b : Word) : Cp0Access :=
  if d.opcode = .COP0 then
    if d.r.rs = 0x04#5 then .write d.r.rd b
    else if d.r.rs = 0x10#5 ∧ d.r.funct = .ERET then .eret
    else .none
  else .none

theorem ofAlu_done {pc pc' : Word} {dst : RegIdx} {res : AluResult} {isSigned : Bool}
    {mem mem' : Memory} {gpr : Option (RegIdx × Word)} {store : Option (Word × Word)}
    {cp0 : Cp0Access} {next : Word}
    (h : (Action.ofAlu pc dst res isSigned).perform mem pc' = .done gpr store mem' cp0 next) :
    gpr = gprWrite dst res.value ∧ store = none ∧ cp0 = .none := by
  unfold Action.ofAlu at h
  split at h
  · cases h
  · cases h
    exact ⟨rfl, rfl, rfl⟩

-- What a completed instruction changed, read off its decoded form.
theorem perform_done {raw : Word} {d : DecodedInstr} (hd : Decoder.decode raw = some d)
    (arch : Arch) {gpr : Option (RegIdx × Word)} {store : Option (Word × Word)} {mem : Memory}
    {cp0 : Cp0Access} {next : Word}
    (h : (arch.action d).perform arch.mem arch.pc = .done gpr store mem cp0 next) :
    (∃ value, gpr = (destinationRegister d).bind (gprWrite · value)) ∧
    store = (if (deriveControl d).memWrite then
      some (arch.operandA d + Decoder.signExtend d.i.imm, arch.operandB d) else none) ∧
    cp0 = cp0AccessOf d (arch.operandB d) := by
  cases Decoder.decode_decoded hd with
  | special r himpl =>
    obtain ⟨rs, rt, rd, shamt, funct⟩ := r
    simp only [Arch.action, Action.ofInstr, Action.ofSpecial, DecodedInstr.r, reduceCtorEq,
      if_false] at h
    cases funct with
    | ERET | unnamed => simp [Decoder.implementedSpecial] at himpl
    | SYSCALL | BREAK => cases h
    | JR | JALR =>
      cases h
      simp [destinationRegister, deriveControl, Control.rTypeControl, DecodedInstr.r, cp0AccessOf]
    | _ =>
      simp only [Alu.rTypeOp] at h
      obtain ⟨rfl, rfl, rfl⟩ := ofAlu_done h
      simp [destinationRegister, deriveControl, Control.rTypeControl, DecodedInstr.r, cp0AccessOf]
  | cop0 r =>
    change (Action.ofCop0 r arch.cp0 arch.pc _).perform arch.mem arch.pc = _ at h
    rw [Action.ofCop0] at h
    by_cases hmf : r.rs = 0x00#5
    · rw [if_pos hmf] at h
      cases h
      simp [destinationRegister, deriveControl, Control.rTypeControl, DecodedInstr.r, cp0AccessOf,
        hmf]
    rw [if_neg hmf] at h
    by_cases hmt : r.rs = 0x04#5
    · rw [if_pos hmt] at h
      cases h
      simp [destinationRegister, deriveControl, Control.rTypeControl, DecodedInstr.r, cp0AccessOf,
        hmt]
    rw [if_neg hmt] at h
    by_cases her : r.rs = 0x10#5 ∧ r.funct = .ERET
    · rw [if_pos her] at h
      cases h
      simp [destinationRegister, deriveControl, Control.rTypeControl, DecodedInstr.r, cp0AccessOf,
        her]
    · rw [if_neg her] at h
      cases h
      simp [destinationRegister, deriveControl, Control.rTypeControl, DecodedInstr.r, cp0AccessOf,
        hmf, hmt, her]
  | immediate op i hop =>
    simp only [Arch.action, Action.ofInstr, Action.ofImmediate, DecodedInstr.i] at h
    cases op with
    | SPECIAL | COP0 | J | JAL | unnamed => simp [Decoder.formatOf] at hop
    | BEQ | BNE =>
      cases h
      simp [destinationRegister, deriveControl, Control.iTypeControl, cp0AccessOf]
    | LW | LBU | LHU | SW =>
      cases Action.perform_completes h
      simp [destinationRegister, deriveControl, Control.iTypeControl, cp0AccessOf,
        DecodedInstr.i]
    | _ =>
      simp only [Alu.iTypeOp] at h
      obtain ⟨rfl, rfl, rfl⟩ := ofAlu_done h
      simp [destinationRegister, deriveControl, Control.iTypeControl, cp0AccessOf,
        DecodedInstr.i]
  | jump op hop =>
    cases h
    rcases Decoder.formatOf_eq_J hop with rfl | rfl <;>
      simp [destinationRegister, deriveControl, cp0AccessOf, gprWrite]

namespace SingleCycleCpu

-- The instruction a step completes, with what it changed: the GPR value is read
-- back from the register file after the step.
def completion (cpu : SingleCycleCpu) : Option Retirement :=
  if cpu.step.1 = .Exception ∨ cpu.step.1 = .Fault then none
  else
    (cpu.mem.readWord cpu.pc).bind fun raw => (Decoder.decode raw).map fun d =>
      { pc := cpu.pc
        raw := raw
        gpr := (destinationRegister d).bind fun dst => gprWrite dst (cpu.step.2.regs.read dst)
        store :=
          if (deriveControl d).memWrite then
            some (cpu.regs.read d.i.rs + Decoder.signExtend d.i.imm, cpu.regs.read d.i.rt)
          else none
        cp0 := cp0AccessOf d (cpu.regs.read d.r.rt) }

-- The trap a step raises.
def raised (cpu : SingleCycleCpu) : Option TrapRecord :=
  if cpu.step.1 = .Exception then some (.ofCp0 cpu.pc cpu.step.2.cp0) else none

def run (cpu : SingleCycleCpu) (n : ℕ) : SingleCycleCpu := (fun c => c.step.2)^[n] cpu

theorem run_succ (cpu : SingleCycleCpu) (n : ℕ) : cpu.run (n + 1) = (cpu.run n).step.2 :=
  Function.iterate_succ_apply' _ _ _

-- The instructions completed, and the traps raised, by the first `n` steps.
def completed (cpu : SingleCycleCpu) (n : ℕ) : List Retirement :=
  Simulation.trace (fun c => c.step.2) (fun c => c.completion.toList) cpu n

def traps (cpu : SingleCycleCpu) (n : ℕ) : List TrapRecord :=
  Simulation.trace (fun c => c.step.2) (fun c => c.raised.toList) cpu n

-- The word a step stores to.
def storeAddr (cpu : SingleCycleCpu) : Option Word :=
  (cpu.completion.bind (·.store)).map (·.1)

-- No store of the first `steps` steps writes a word that one of them fetches
-- afterwards.
def NoSelfModification (cpu : SingleCycleCpu) (steps : ℕ) : Prop :=
  ∀ n < steps, ∀ m < n, (cpu.run m).storeAddr ≠ some (cpu.run n).pc

instance (cpu : SingleCycleCpu) (steps : ℕ) : Decidable (cpu.NoSelfModification steps) :=
  inferInstanceAs (Decidable (∀ n < steps, ∀ m < n, (cpu.run m).storeAddr ≠ some (cpu.run n).pc))

theorem step_ne_fault (cpu : SingleCycleCpu) : cpu.step.1 ≠ .Fault := by
  rw [step_result]
  split
  · simp
  · split <;> simp

theorem raised_eq (cpu : SingleCycleCpu) : cpu.raised = cpu.arch.trapRecord := by
  have hp : cpu.step.2.cp0 = cpu.arch.step.cp0 := congrArg Arch.cp0 cpu.step_arch
  rw [raised, step_result, Arch.trapRecord, hp]
  cases ht : cpu.arch.trapped with
  | true => rfl
  | false => by_cases hn : cpu.arch.step.pc = cpu.pc <;> simp [hn]

-- Committing a GPR write and reading it back gives the value written.
theorem commitGpr_readBack (regs : RegisterFile) (dst : Option RegIdx) (value : Word) :
    (dst.bind fun r => gprWrite r ((commitGpr regs (dst.bind (gprWrite · value))).read r)) =
      dst.bind (gprWrite · value) := by
  cases dst with
  | none => rfl
  | some r =>
    by_cases hr : r = 0#5
    · simp [hr, gprWrite]
    · simp [RegisterFile.read_write_same _ _ _ hr]

theorem completion_eq (cpu : SingleCycleCpu) : cpu.completion = cpu.arch.retirement := by
  have hregs : cpu.step.2.regs = cpu.arch.step.regs := congrArg Arch.regs cpu.step_arch
  have hres : cpu.step.1 = .Exception ∨ cpu.step.1 = .Fault ↔ cpu.arch.trapped = true := by
    rw [or_iff_left cpu.step_ne_fault, step_result]
    cases cpu.arch.trapped
    · by_cases hn : cpu.arch.step.pc = cpu.pc <;> simp [hn]
    · simp
  simp only [completion, hres, hregs]
  cases hr : cpu.mem.readWord cpu.pc with
  | none => simp [Arch.retirement, Arch.outcome, hr]
  | some raw =>
    cases hd : Decoder.decode raw with
    | none => simp [Arch.retirement, Arch.outcome, hr, hd]
    | some d =>
      have hout : cpu.arch.outcome = (raw, (cpu.arch.action d).perform cpu.mem cpu.pc) := by
        simp [Arch.outcome, hr, hd]
      simp only [Arch.retirement, Arch.trapped, Arch.step, hout]
      cases hp : (cpu.arch.action d).perform cpu.mem cpu.pc with
      | trap code badAddr => simp
      | done gpr store mem cp0 next =>
        obtain ⟨⟨value, rfl⟩, rfl, rfl⟩ := perform_done hd cpu.arch hp
        have ha : (deriveControl d).memWrite → cpu.arch.operandA d = cpu.regs.read d.i.rs ∧
            cpu.arch.operandB d = cpu.regs.read d.i.rt := by
          cases Decoder.decode_decoded hd with
          | immediate op i hop => exact fun _ => ⟨rfl, rfl⟩
          | jump op hop => simp [deriveControl]
          | cop0 r => simp [deriveControl, Control.rTypeControl]
          | special r himpl =>
            obtain ⟨rs, rt, rd, shamt, funct⟩ := r
            cases funct <;> simp [deriveControl, Control.rTypeControl, DecodedInstr.r]
        have hb : cp0AccessOf d (cpu.arch.operandB d) = cp0AccessOf d (cpu.regs.read d.r.rt) := by
          cases Decoder.decode_decoded hd with
          | immediate op i hop => cases op <;> simp_all [cp0AccessOf, Decoder.formatOf]
          | jump op hop => rcases Decoder.formatOf_eq_J hop with rfl | rfl <;> rfl
          | cop0 r => rfl
          | special r himpl => rfl
        simp only [Arch.finish, hd, hb, Bool.false_eq_true, if_false, Option.bind_some,
          Option.map_some, arch_regs, arch_pc, commitGpr_readBack]
        by_cases hw : (deriveControl d).memWrite
        · simp [hw, (ha hw).1, (ha hw).2]
        · simp [hw]

end SingleCycleCpu

end ClearCore.Mips
