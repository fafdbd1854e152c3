import ClearCore.Mips.Pipelined.CycleCount
import ClearCore.Qt.SimulatorController.Theorems

-- The retired flag of the pipeline snapshot, and the statistics counted from it.

namespace ClearCore.Mips

open Isa

-- After a step the snapshot is the one of this step, and its flag says whether an
-- instruction completed in it.
def FlagExact {P : Type} [IMipsProcessor P] (next : P) (completes : Bool) : Prop :=
  (IMipsProcessor.pipelineState next).cycle = IMipsProcessor.cycleCount next ∧
    (IMipsProcessor.pipelineState next).retired = completes

namespace SingleCycleCpu

-- The word at PC can be fetched and is an instruction.
def Decodes (cpu : SingleCycleCpu) : Prop :=
  ∃ raw d, cpu.mem.readWord cpu.pc = some raw ∧ Decoder.decode raw = some d

-- The cycle of the snapshot is never ahead of the counter.
theorem ps_cycle_le {memBytes : ℕ} {cpu : SingleCycleCpu} (h : Reachable memBytes cpu) :
    cpu.ps.cycle ≤ cpu.cycle := by
  induction h with
  | create => exact le_rfl
  | @step cpu h ih =>
    cases hr : cpu.mem.readWord cpu.pc with
    | none =>
      change cpu.step.2.ps.cycle ≤ cpu.step.2.cycle
      rw [step_fault hr]
      exact Nat.le_succ_of_le ih
    | some raw =>
      cases hd : Decoder.decode raw with
      | none =>
        change cpu.step.2.ps.cycle ≤ cpu.step.2.cycle
        rw [step_reserved hr hd]
        exact Nat.le_succ_of_le ih
      | some d =>
        change cpu.step.2.ps.cycle ≤ cpu.step.2.cycle
        rw [step_decoded hr hd]
        cases (cpu.arch.action d).perform cpu.mem cpu.pc <;> exact le_rfl
  | loadProgram h hload ih =>
    obtain ⟨⟨fits, mem⟩, -, he⟩ := Option.map_eq_some_iff.mp hload
    cases fits <;> simp only [Bool.false_eq_true, if_false, if_true, Prod.mk.injEq] at he <;>
      (rw [← he.2]; exact ih)
  | reset h clearMemory ih => exact le_rfl
  | edit h hedit ih => cases hedit <;> exact ih

theorem completes_of_decoded {cpu : SingleCycleCpu} {raw : Word} {d : DecodedInstr}
    (hr : cpu.mem.readWord cpu.pc = some raw) (hd : Decoder.decode raw = some d) :
    cpu.step.2.ps.cycle = cpu.step.2.cycle ∧
      cpu.step.2.ps.retired = cpu.completion.isSome := by
  have hout : cpu.arch.outcome = (raw, (cpu.arch.action d).perform cpu.mem cpu.pc) :=
    Arch.outcome_decoded hr hd
  rw [completion_eq, step_decoded hr hd, Arch.retirement, hout]
  cases hact : (cpu.arch.action d).perform cpu.mem cpu.pc with
  | trap code badAddr => simp [resolve, snapshot]
  | done gpr store mem cp0 next => simp [resolve, snapshot]

-- A failed fetch and an undecodable word return before the snapshot is written.
theorem step_ps_of_not_decodes {cpu : SingleCycleCpu} (h : ¬cpu.Decodes) :
    cpu.step.2.ps = cpu.ps ∧ cpu.step.2.cycle = cpu.cycle + 1 ∧ cpu.completion = none := by
  cases hr : cpu.mem.readWord cpu.pc with
  | none => simp [completion, step_fault hr, raise]
  | some raw =>
    cases hd : Decoder.decode raw with
    | none => simp [completion, step_reserved hr hd, raise]
    | some d => exact absurd ⟨raw, d, hr, hd⟩ h

theorem flagExact_iff {memBytes : ℕ} {cpu : SingleCycleCpu} (h : Reachable memBytes cpu) :
    FlagExact cpu.step.2 cpu.completion.isSome ↔ cpu.Decodes := by
  constructor
  · intro hexact
    by_contra hn
    obtain ⟨hps, hcycle, -⟩ := step_ps_of_not_decodes hn
    have hc : cpu.step.2.ps.cycle = cpu.step.2.cycle := hexact.1
    have hle := ps_cycle_le h
    rw [hps, hcycle] at hc
    omega
  · rintro ⟨raw, d, hr, hd⟩
    exact completes_of_decoded hr hd

theorem reachable_run {memBytes : ℕ} {cpu : SingleCycleCpu} (h : Reachable memBytes cpu)
    (k : ℕ) : Reachable memBytes (cpu.run k) := by
  induction k with
  | zero => exact h
  | succ k ih =>
    rw [run_succ]
    exact .step ih

def retiredSteps (cpu : SingleCycleCpu) (k : ℕ) : ℕ :=
  Nat.count (fun i => (cpu.run (i + 1)).ps.retired = true) k

theorem retiredSteps_eq {cpu : SingleCycleCpu} {k : ℕ} (h : ∀ i < k, (cpu.run i).Decodes) :
    cpu.retiredSteps k = (cpu.completed k).length := by
  induction k with
  | zero => rfl
  | succ k ih =>
    obtain ⟨raw, d, hr, hd⟩ := h k (by omega)
    have hflag := (completes_of_decoded hr hd).2
    rw [retiredSteps, Nat.count_succ, ← retiredSteps, ih fun i hi => h i (by omega),
      completed_succ, List.length_append, run_succ, hflag, completion_eq]
    cases (cpu.run k).arch.retirement <;> rfl

end SingleCycleCpu

namespace PipelinedCpu

-- The instruction WB retires in a step.
def retirement (cpu : PipelinedCpu) : Option Retirement := Watched.retiring { cpu }

theorem retiring_isSome (w : Watched) : w.retiring.isSome = w.cpu.memWb.valid := by
  rw [Watched.retiring]
  cases w.cpu.memWb.valid <;> rfl

theorem flagExact (cpu : PipelinedCpu) : FlagExact cpu.step.2 cpu.retirement.isSome :=
  ⟨rfl, (retiring_isSome { cpu }).symm⟩

-- The next instruction to retire is the one in EX/MEM, unless MEM traps on it.
theorem retirement_step (cpu : PipelinedCpu) :
    cpu.step.2.retirement.isSome = (cpu.exMem.valid && cpu.pendingTrap.isNone) := by
  have hnext : cpu.step.2.retirement.isSome = (Watched.step { cpu }).retiring.isSome :=
    (retiring_isSome _).trans (retiring_isSome (Watched.step { cpu })).symm
  rw [hnext, Watched.step_retiring, Watched.carried]
  cases cpu.exMem.valid && cpu.pendingTrap.isNone <;> rfl

theorem retiredSteps_eq (cpu : PipelinedCpu) (k : ℕ) :
    cpu.countSteps (·.retired) k = (cpu.retired k).length := by
  induction k with
  | zero => rfl
  | succ k ih =>
    have hflag : (cpu.run (k + 1)).ps.retired = (cpu.watched k).retiring.isSome := by
      rw [retiring_isSome, watched_cpu, run_succ]
      rfl
    rw [countSteps_succ, ih, retired_succ, List.length_append, hflag]
    cases (cpu.watched k).retiring <;> rfl

end PipelinedCpu

end ClearCore.Mips

namespace ClearCore.Qt

open Isa Mips

namespace SimulatorController

-- accumulateStats counts the steps whose snapshot has the flag set.
theorem instructionsRetired_steps {P : Type} [IMipsProcessor P] (ctl : SimulatorController P)
    (k : ℕ) :
    (ctl.steps k).stats.instructionsRetired = ctl.stats.instructionsRetired +
      Nat.count (fun i =>
        (IMipsProcessor.pipelineState (ctl.steps (i + 1)).processor).retired = true) k := by
  induction k with
  | zero => rfl
  | succ k ih =>
    rw [Nat.count_succ, ← Nat.add_assoc, ← ih, steps_succ]
    rfl

-- The retired flag and the count built on it. The single-cycle CPU is exact in the
-- steps whose word decodes, the pipeline in every step.
theorem retirement_flag (memBytes : ℕ) :
    (∀ cpu : SingleCycleCpu, Reachable memBytes cpu →
      (FlagExact cpu.step.2 cpu.completion.isSome ↔ cpu.Decodes)) ∧
    (∀ cpu : PipelinedCpu, Reachable memBytes cpu →
      FlagExact cpu.step.2 cpu.retirement.isSome ∧
        cpu.step.2.retirement.isSome = (cpu.exMem.valid && cpu.pendingTrap.isNone)) ∧
    (∀ ctl : SimulatorController SingleCycleCpu, Reachable memBytes ctl.processor → ∀ k,
      (∀ i < k, (ctl.processor.run i).Decodes) →
        (∀ i < k, FlagExact (ctl.processor.run (i + 1))
          (ctl.processor.run i).completion.isSome) ∧
        ctl.processor.retiredSteps k = (ctl.processor.completed k).length ∧
        (ctl.steps k).stats.instructionsRetired =
          ctl.stats.instructionsRetired + (ctl.processor.completed k).length) ∧
    ∀ ctl : SimulatorController PipelinedCpu, Reachable memBytes ctl.processor → ∀ k,
      (∀ i < k, FlagExact (ctl.processor.run (i + 1)) (ctl.processor.run i).retirement.isSome) ∧
      ctl.processor.countSteps (·.retired) k = (ctl.processor.retired k).length ∧
      (ctl.steps k).stats.instructionsRetired =
        ctl.stats.instructionsRetired + (ctl.processor.retired k).length := by
  refine ⟨fun _ h => SingleCycleCpu.flagExact_iff h,
    fun cpu _ => ⟨cpu.flagExact, cpu.retirement_step⟩, ?_, ?_⟩
  · intro ctl h k hdec
    have hcount := SingleCycleCpu.retiredSteps_eq hdec
    refine ⟨?_, hcount, ?_⟩
    · intro i hi
      rw [SingleCycleCpu.run_succ]
      exact (SingleCycleCpu.flagExact_iff (SingleCycleCpu.reachable_run h i)).mpr (hdec i hi)
    · rw [instructionsRetired_steps, ← hcount]
      simp only [steps_processor]
      rfl
  · intro ctl _ k
    have hcount := ctl.processor.retiredSteps_eq k
    refine ⟨?_, hcount, ?_⟩
    · intro i _
      rw [PipelinedCpu.run_succ]
      exact (ctl.processor.run i).flagExact
    · rw [instructionsRetired_steps, ← hcount]
      simp only [steps_processor]
      rfl

-- One instruction and then nothing to fetch: both steps are counted as retired.
theorem retirement_flag_fetchFault :
    ∃ ctl : SimulatorController SingleCycleCpu, Reachable 4 ctl.processor ∧
      ¬FlagExact ctl.processor.step.2 ctl.processor.completion.isSome ∧
      ctl.processor.step.1 = .Exception ∧ ctl.processor.step.2.ps.retired = true ∧
      ctl.doStep.2.stats.instructionsRetired = 2 ∧
      (SingleCycleCpu.completed (.create 4) 2).length = 1 := by
  refine ⟨(create 4 : SimulatorController SingleCycleCpu).doStep.2, .step .create, ?_, ?_⟩
  · intro h
    have hreach : Reachable 4 (IMipsProcessor.create 4 : SingleCycleCpu) := .create
    obtain ⟨raw, d, hr, -⟩ := (SingleCycleCpu.flagExact_iff hreach.step).mp h
    rw [show Memory.readWord _ _ = none by decide] at hr
    cases hr
  · decide

end SimulatorController

end ClearCore.Qt
