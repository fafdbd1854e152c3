import ClearCore.Mips.Pipelined.Refinement

namespace ClearCore.Mips

open Isa

namespace Arch

-- A trap leaves registers and memory alone.
theorem step_of_trapped {arch : Arch} (h : arch.trapped = true) :
    arch.step.regs = arch.regs ∧ arch.step.mem = arch.mem ∧ arch.retirement = none := by
  rcases hout : arch.outcome with ⟨raw, code | ⟨gpr, store, mem, cp0, next⟩⟩
  · simp [step_of_trap (congrArg Prod.snd hout), retirement, hout]
  · simp [trapped, hout] at h

end Arch

namespace PipelinedCpu

theorem step_exception_iff (cpu : PipelinedCpu) :
    cpu.step.1 = .Exception ↔ ∃ trap, cpu.runStages.trap = some trap := by
  have hstep : cpu.step.1 = stepResult cpu.runStages := rfl
  rw [hstep, stepResult]
  cases cpu.runStages.trap with
  | none => cases cpu.runStages.halted <;> simp
  | some trap => simp

-- A trapping cycle leaves nothing behind WB.
theorem step_of_exception {cpu : PipelinedCpu} {arch : Arch} (h : cpu.Sim arch)
    (hx : cpu.step.1 = .Exception) :
    cpu.step.2.pc = kExceptionVector ∧ cpu.step.2.ifId = {} ∧ cpu.step.2.idEx = {} ∧
      cpu.step.2.exMem = {} := by
  obtain ⟨trap, htrap⟩ := cpu.step_exception_iff.mp hx
  obtain ⟨-, hpc, hi, he⟩ := step_of_trap htrap
  refine ⟨hpc, hi, he, ?_⟩
  rw [step_exMem]
  cases h.cycle with
  | pending _ ht hadv => rw [ex_of_pending ht]
  | bubble _ _ hex _ => rw [hex]
  | trapping _ _ _ _ _ _ _ hnext _ => exact hnext
  | passing ht _ raw d _ _ hno hperf _ =>
    rw [trap_of_ex ht, hperf.trap, hno] at htrap
    cases htrap

section Exceptions

variable {cpu : PipelinedCpu} {s : SingleCycleCpu} {limit : ℕ}

-- The single-cycle step that raises the trap of a cycle.
theorem Tracks.exception {k n : ℕ} (h : cpu.Tracks s k n) (hx : cpu.step.1 = .Exception) :
    ∃ m, (s.run m).arch.trapped = true ∧ n + cpu.advance.toNat = m + 1 ∧
      cpu.drainMem = (s.run m).mem := by
  obtain ⟨trap, htrap⟩ := cpu.step_exception_iff.mp hx
  cases h.sim.cycle with
  | pending _ ht hadv =>
    obtain ⟨m, rfl, hm⟩ := h.trapped (by simp [ht])
    refine ⟨m, hm, by simp [hadv], ?_⟩
    rw [h.sim.mem, s.arch_run_succ, (Arch.step_of_trapped hm).2.1, SingleCycleCpu.arch_mem]
  | bubble ht _ hex _ =>
    rw [trap_of_ex ht, hex] at htrap
    cases htrap
  | trapping _ _ _ _ _ hout _ _ hadv =>
    exact ⟨n, by simp [Arch.trapped, hout], by simp [hadv], h.sim.mem⟩
  | passing ht _ raw d _ _ hno hperf _ =>
    rw [trap_of_ex ht, hperf.trap, hno] at htrap
    cases htrap

theorem trapRecord_length (arch : Arch) : arch.trapRecord.toList.length ≤ 1 := by
  cases arch.trapRecord <;> simp

theorem traps_prefix (h : cpu.Empty) (hsame : cpu.arch = s.arch)
    (hfresh : s.NoSelfModification limit) {k : ℕ} (hk : k ≤ limit) :
    ∃ n, cpu.traps k = s.traps n := by
  have hpre : cpu.traps k <+: s.traps (cpu.steps k) := ⟨_, traps_pending h hsame hfresh hk⟩
  simp only [s.traps_eq] at hpre ⊢
  obtain ⟨n, -, hn⟩ := Simulation.sequence_of_isPrefix
    (fun i => trapRecord_length (s.run i).arch) hpre
  exact ⟨n, hn⟩

-- A cycle that returns Exception raises the trap of a single-cycle step. All that
-- came before that step has retired by the end of the next cycle, and nothing else
-- has changed the state.
theorem exception_precise (h : cpu.Empty) (hsame : cpu.arch = s.arch)
    (hfresh : s.NoSelfModification limit) {k : ℕ} (hk : k < limit)
    (hx : (cpu.run k).step.1 = .Exception) :
    ∃ m, (s.run m).step.1 = .Exception ∧ cpu.traps (k + 1) = s.traps (m + 1) ∧
      cpu.retired (k + 2) = s.completed m ∧
      (cpu.run (k + 1)).mem = (s.run m).mem ∧ (cpu.run (k + 1)).cp0 = (s.run (m + 1)).cp0 ∧
      (cpu.run (k + 1)).pc = (s.run (m + 1)).pc ∧
      (cpu.run (k + 1)).ifId = {} ∧ (cpu.run (k + 1)).idEx = {} ∧ (cpu.run (k + 1)).exMem = {} ∧
      (cpu.run (k + 2)).regs = (s.run m).regs ∧ (cpu.run (k + 2)).mem = (s.run m).mem := by
  have ht := tracks_run h hsame hfresh k (by omega)
  have ht' := tracks_run h hsame hfresh (k + 1) hk
  obtain ⟨m, hm, hsteps, hmem⟩ := ht.exception hx
  obtain ⟨hpc, hifId, hidEx, hexMem⟩ := step_of_exception ht.sim hx
  rw [← steps_succ] at hsteps
  rw [← run_succ] at hpc hifId hidEx hexMem
  obtain ⟨-, -, hnone⟩ := Arch.step_of_trapped hm
  have hpend : (cpu.run (k + 1)).pendingTrap = none := by
    rw [pendingTrap, hexMem]
    rfl
  have hret : cpu.retired (k + 2) = s.completed m := by
    have hp := retired_pending h hsame hfresh (k := k + 1) hk
    rw [hsteps, s.completed_succ, hnone, Option.toList_none, List.append_nil] at hp
    have hcarried : (cpu.watched (k + 1)).carried = none := by
      simp [Watched.carried, hexMem]
    rw [← hp, retired_succ, Watched.pending, hcarried, Option.toList_none, List.append_nil]
  refine ⟨m, ?_, ?_, hret, ?_, ?_, ?_, hifId, hidEx, hexMem, ?_, ?_⟩
  · rw [SingleCycleCpu.step_result, hm]
    rfl
  · have hp := traps_pending h hsame hfresh (k := k + 1) hk
    rw [pendingRecord, hpend, hsteps] at hp
    simpa using hp
  · rw [run_succ, step_mem, hmem]
  · rw [ht'.sim.cp0_eq hpend, SingleCycleCpu.arch_cp0, hsteps]
  · have hfront := (ht'.sim.front hpend).empty (by rw [hidEx]) (by rw [hifId])
    rw [hfront, SingleCycleCpu.arch_pc, hsteps]
  · rw [run_regs, s.run_regs, hret]
    exact congrArg (commitAll · _) (congrArg Arch.regs hsame)
  · rw [run_succ, step_mem, drainMem, hexMem, memoryAccess_bubble, run_succ, step_mem, hmem]

-- Precise exceptions over a run of any length.
theorem exceptions_precise (cpu : PipelinedCpu) (s : SingleCycleCpu) (limit : ℕ)
    (hempty : cpu.Empty) (hsame : cpu.arch = s.arch) (hfresh : s.NoSelfModification limit) :
    (∀ k ≤ limit, ∃ n, cpu.traps k = s.traps n) ∧
    ∀ k < limit, (cpu.run k).step.1 = .Exception →
      ∃ m, (s.run m).step.1 = .Exception ∧ cpu.traps (k + 1) = s.traps (m + 1) ∧
        cpu.retired (k + 2) = s.completed m ∧
        (cpu.run (k + 1)).mem = (s.run m).mem ∧
        (cpu.run (k + 1)).cp0 = (s.run (m + 1)).cp0 ∧
        (cpu.run (k + 1)).pc = (s.run (m + 1)).pc ∧
        (cpu.run (k + 1)).ifId = {} ∧ (cpu.run (k + 1)).idEx = {} ∧ (cpu.run (k + 1)).exMem = {} ∧
        (cpu.run (k + 2)).regs = (s.run m).regs ∧ (cpu.run (k + 2)).mem = (s.run m).mem :=
  ⟨fun _ hk => traps_prefix hempty hsame hfresh hk,
    fun _ hk hx => exception_precise hempty hsame hfresh hk hx⟩

end Exceptions

-- addiu $1, $0, 5; break; sw $1, 0($0)
def breakProgram : Memory :=
  Memory.loadWordsFrom 0#32 0 [0x24010005#32, 0x0000000D#32, 0xAC010000#32] (.ofSize 16)

theorem exceptions_precise_breakProgram :
    let cpu : PipelinedCpu := { regs := .initial, mem := breakProgram }
    let s : SingleCycleCpu := { regs := .initial, mem := breakProgram }
    (cpu.run 3).step.1 = .Exception ∧ ∃ n, cpu.traps 9 = s.traps n :=
  ⟨by decide, (exceptions_precise { regs := .initial, mem := breakProgram }
    { regs := .initial, mem := breakProgram } 9 ⟨rfl, rfl, rfl, rfl⟩ rfl (by decide)).1 9 le_rfl⟩

end PipelinedCpu

end ClearCore.Mips
