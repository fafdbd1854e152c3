import ClearCore.Mips.Pipelined.Exceptions
import ClearCore.Mips.Pipelined.Progress

-- How fast the pipeline goes. It may start in any state, and nothing is assumed about the
-- program, which may trap in every instruction or modify itself.

namespace ClearCore.Mips

open Isa

namespace PipelinedCpu

-- The cycles before EX has its next instruction: a trap in MEM empties the front end.
def lag (cpu : PipelinedCpu) : ℕ := if cpu.pendingTrap.isSome then 3 else cpu.distance

-- The instructions that EX has handed on.
def pastEx (cpu : PipelinedCpu) : ℕ := cpu.exMem.valid.toNat + cpu.memWb.valid.toNat

section Step

variable {cpu : PipelinedCpu}

theorem advance_eq_true : cpu.advance = true ↔ cpu.pendingTrap = none ∧ cpu.idEx.valid = true := by
  simp [advance]

theorem bubble_step (ht : cpu.pendingTrap = none) (hv : cpu.idEx.valid = false) :
    cpu.step.2.pendingTrap = none ∧ cpu.step.2.distance < cpu.distance := by
  have hex : cpu.runStages.ex = {} := by rw [runStages_ex cpu ht, execute_invalid _ _ _ hv]
  have htrap : cpu.runStages.trap = none := by rw [trap_of_ex ht, hex]
  have hpend : cpu.step.2.pendingTrap = none := by
    rw [step_pendingTrap, hex]
    rfl
  refine ⟨hpend, ?_⟩
  obtain ⟨hx, -, hi⟩ := step_of_flow htrap (by rw [hex]) (loadUseHazard_invalid _ hv)
  have hxv : cpu.step.2.idEx.valid = cpu.ifId.valid := by rw [hx, idStage_valid]
  cases hiv : cpu.ifId.valid with
  | true => simp [-step_idEx, distance, hxv, hv, hiv]
  | false =>
    rw [idStage_empty hiv] at hi
    have hfetched : cpu.step.2.ifId.valid = true := by
      rw [hi]
      exact fetch_valid _ _
    simp [-step_idEx, -step_ifId, distance, hxv, hv, hiv, hfetched]

theorem lag_step (h : cpu.advance = false) : cpu.step.2.lag < cpu.lag := by
  have hdistance : ∀ c : PipelinedCpu, c.distance ≤ 2 := by
    intro c
    unfold distance
    split_ifs <;> omega
  cases ht : cpu.pendingTrap with
  | none =>
    have hv : cpu.idEx.valid = false := by simpa [advance, ht] using h
    obtain ⟨hpend, hlt⟩ := bubble_step ht hv
    rw [lag, lag, ht, hpend]
    exact hlt
  | some trap =>
    have hpend : cpu.step.2.pendingTrap = none := by
      rw [step_pendingTrap, ex_of_pending ht]
      rfl
    have hle := hdistance cpu.step.2
    rw [lag, lag, ht, hpend]
    simp only [Option.isSome_none, Option.isSome_some, Bool.false_eq_true, if_false, if_true]
    omega

theorem lag_lt (cpu : PipelinedCpu) : cpu.lag < 4 := by
  unfold lag distance
  split_ifs <;> omega

-- What EX takes in is handed on, and leaves MEM or WB as a trap or as a retirement.
theorem pastEx_step (cpu : PipelinedCpu) :
    cpu.memWb.valid.toNat + cpu.raised.toList.length + cpu.step.2.pastEx =
      cpu.pastEx + cpu.advance.toNat := by
  have hraised : cpu.raised.toList.length = cpu.runStages.trap.toList.length := by
    rw [raised]
    cases cpu.runStages.trap <;> rfl
  rw [hraised, pastEx, pastEx, step_exMem, step_memWb]
  cases ht : cpu.pendingTrap with
  | some trap =>
    have hvalid : cpu.exMem.valid = true := by
      by_contra hv
      rw [pendingTrap, memoryAccess_invalid _ (by simpa using hv)] at ht
      cases ht
    have hnext : (memoryAccess cpu.mem cpu.exMem).1.next = {} :=
      (memoryAccess_trap_next (by rw [← pendingTrap, ht]; simp)).1
    simp only [trap_of_pending ht, ex_of_pending ht, hnext, hvalid, advance, ht]
    simp
    omega
  | none =>
    have hwb : (memoryAccess cpu.mem cpu.exMem).1.next.valid = cpu.exMem.valid := by
      cases hv : cpu.exMem.valid with
      | false => rw [memoryAccess_invalid _ hv]
      | true => exact (memoryAccess_next hv ht).1
    rw [hwb, trap_of_ex ht, runStages_ex cpu ht, advance, ht]
    cases hv : cpu.idEx.valid with
    | false =>
      rw [execute_invalid _ _ _ hv]
      simp
      omega
    | true =>
      rcases execute_settles cpu.cp0 cpu.idEx cpu.exMem cpu.memWb hv with
        ⟨trap, htrap, -, hnext⟩ | ⟨htrap, hnext, -, -⟩
      · simp [htrap, hnext]
        omega
      · simp [htrap, hnext]
        omega

theorem step_eq_ok (hx : cpu.step.1 ≠ .Exception) (hh : cpu.step.1 ≠ .Halt) :
    cpu.step.1 = .Ok := by
  have hstep : cpu.step.1 = stepResult cpu.runStages := rfl
  rw [hstep, stepResult] at hx hh ⊢
  split_ifs at hx hh ⊢ <;> trivial

end Step

section Run

variable (cpu : PipelinedCpu)

theorem traps_succ (k : ℕ) : cpu.traps (k + 1) = cpu.traps k ++ (cpu.run k).raised.toList := rfl

theorem length_retiring (w : Watched) :
    w.retiring.toList.length = w.cpu.memWb.valid.toNat := by
  unfold Watched.retiring
  cases w.cpu.memWb.valid <;> rfl

-- Nothing gets lost: what EX has executed is retired, has trapped or is in MEM or WB.
theorem pastEx_run (k : ℕ) :
    (cpu.retired k).length + (cpu.traps k).length + (cpu.run k).pastEx =
      cpu.pastEx + cpu.steps k := by
  induction k with
  | zero => simp [retired, traps, steps, run]
  | succ k ih =>
    have hstep := (cpu.run k).pastEx_step
    rw [← run_succ] at hstep
    rw [retired_succ, traps_succ, List.length_append, List.length_append, length_retiring,
      watched_cpu, steps_succ]
    omega

theorem lt_mul_steps (k : ℕ) : k < 4 * (cpu.steps k + 1) :=
  Simulation.lt_bound_mul_position _ _ lag (fun _ => lag_step) lag_lt cpu k

theorem pastEx_le : cpu.pastEx ≤ 2 := by
  have hx := Bool.toNat_le cpu.exMem.valid
  have hw := Bool.toNat_le cpu.memWb.valid
  unfold pastEx
  omega

theorem run_add (j k : ℕ) : cpu.run (j + k) = (cpu.run j).run k := by
  rw [run, run, run, Nat.add_comm, Function.iterate_add_apply]

-- An instruction in EX traps or retires within the next two cycles.
theorem leaves_of_advance {cpu : PipelinedCpu} (h : cpu.advance = true) :
    ∃ j ≤ 2, (cpu.run j).step.1 = .Exception ∨ (cpu.run j).step.2.ps.retired = true := by
  obtain ⟨ht, hv⟩ := advance_eq_true.mp h
  rcases execute_settles cpu.cp0 cpu.idEx cpu.exMem cpu.memWb hv with
    ⟨trap, htrap, -, -⟩ | ⟨-, hnext, -, -⟩
  · refine ⟨0, by omega, .inl (cpu.step_exception_iff.mpr ⟨trap, ?_⟩)⟩
    rw [trap_of_ex ht, runStages_ex cpu ht, htrap]
  · have hmem : (cpu.run 1).exMem.valid = true := by
      rw [run_succ, step_exMem, show cpu.run 0 = cpu from rfl, runStages_ex cpu ht, hnext]
    cases ht' : (cpu.run 1).pendingTrap with
    | some trap =>
      exact ⟨1, by omega, .inl ((cpu.run 1).step_exception_iff.mpr ⟨trap, trap_of_pending ht'⟩)⟩
    | none =>
      refine ⟨2, le_rfl, .inr ?_⟩
      have hwb : (cpu.run 2).memWb.valid = true := by
        rw [run_succ, step_memWb]
        exact (memoryAccess_next hmem ht').1
      exact hwb

theorem leaves_within (cpu : PipelinedCpu) :
    ∃ j < 5, (cpu.run j).step.1 = .Exception ∨ (cpu.run j).step.2.ps.retired = true := by
  cases ht : cpu.pendingTrap with
  | some trap =>
    exact ⟨0, by omega, .inl (cpu.step_exception_iff.mpr ⟨trap, trap_of_pending ht⟩)⟩
  | none =>
    have hlag : cpu.lag ≤ 2 := by
      rw [lag, ht, distance]
      split_ifs <;> simp_all
    obtain ⟨i, hi, hadv⟩ := Simulation.exists_advance (fun c : PipelinedCpu => c.step.2) advance lag
      (fun _ => lag_step) cpu
    obtain ⟨j, hj, hleaves⟩ := leaves_of_advance hadv
    rw [show (fun c : PipelinedCpu => c.step.2)^[i] cpu = cpu.run i from rfl, ← run_add] at hleaves
    exact ⟨i + j, by omega, hleaves⟩

end Run

-- Every instruction leaves the pipeline as a retirement or a trap, and there is one in five
-- cycles at the latest, on average one in four.
theorem throughput (cpu : PipelinedCpu) (k : ℕ) :
    (cpu.retired k).length + (cpu.traps k).length ≤ k + 2 ∧
    k < 4 * ((cpu.retired k).length + (cpu.traps k).length + 3) ∧
    ∃ j < 5, (cpu.run (k + j)).step.1 = .Exception ∨
      (cpu.run (k + j)).step.2.ps.retired = true := by
  have hrun := cpu.pastEx_run k
  have hlt := cpu.lt_mul_steps k
  have hle := cpu.steps_le k
  have hstart := cpu.pastEx_le
  have hend := (cpu.run k).pastEx_le
  obtain ⟨j, hj, hleaves⟩ := (cpu.run k).leaves_within
  rw [← run_add] at hleaves
  exact ⟨by omega, by omega, j, hj, hleaves⟩

end PipelinedCpu

end ClearCore.Mips
