import ClearCore.Mips.Pipelined.Simulation
import ClearCore.Mips.SingleCycle.Trace

-- Runs of the pipeline against runs of the single-cycle CPU from the same state.

namespace ClearCore.Mips

open Isa

namespace Arch

-- The instruction at PC is a J or JAL to itself.
def SelfTargeting (pc raw : Word) : Prop :=
  ∃ d, Decoder.decode raw = some d ∧ d.format = .J ∧ Action.jumpTarget pc d.j.target = pc

def Spins (arch : Arch) : Prop :=
  ∃ raw, arch.mem.readWord arch.pc = some raw ∧ SelfTargeting arch.pc raw

-- A self-targeting jump leaves everything but the link register as it is.
theorem Spins.step_eq {arch : Arch} (h : arch.Spins) :
    arch.trapped = false ∧ arch.step.mem = arch.mem ∧ arch.step.cp0 = arch.cp0 ∧
      arch.step.pc = arch.pc ∧ (arch.step.regs = arch.regs ∨
        arch.step.regs = arch.regs.write 31#5 (arch.pc + 4#32)) := by
  obtain ⟨raw, hr, d, hd, hj, ht⟩ := h
  have hout := outcome_decoded hr hd
  simp only [action, Action.ofInstr, hj, Action.perform, ht] at hout
  have hstep := step_of_done (congrArg Prod.snd hout)
  by_cases hop : d.opcode = .JAL <;>
    simp [hstep, trapped, hout, Cp0Access.apply, hop, commitGpr]

theorem Spins.storeAddr_eq {arch : Arch} (h : arch.Spins) : arch.storeAddr = none := by
  obtain ⟨raw, hr, d, hd, hj, -⟩ := h
  simp [storeAddr, retirement, outcome_decoded hr hd, action, Action.ofInstr, hj, Action.perform]

theorem Spins.step {arch : Arch} (h : arch.Spins) : arch.step.Spins := by
  obtain ⟨-, hm, -, hp, -⟩ := h.step_eq
  obtain ⟨raw, hr, hself⟩ := h
  exact ⟨raw, by rwa [hm, hp], by rwa [hp]⟩

end Arch

namespace PipelinedCpu

def run (cpu : PipelinedCpu) (k : ℕ) : PipelinedCpu := (fun c => c.step.2)^[k] cpu

theorem run_succ (cpu : PipelinedCpu) (k : ℕ) : cpu.run (k + 1) = (cpu.run k).step.2 :=
  Function.iterate_succ_apply' _ _ _

-- No instruction is in flight.
structure Empty (cpu : PipelinedCpu) : Prop where
  ifId : cpu.ifId = {}
  idEx : cpu.idEx = {}
  exMem : cpu.exMem = {}
  memWb : cpu.memWb = {}

def arch (cpu : PipelinedCpu) : Arch := ⟨cpu.regs, cpu.mem, cpu.cp0, cpu.pc⟩

-- No instruction is in flight that still has something to do.
structure Drained (cpu : PipelinedCpu) : Prop where
  ifId : cpu.ifId = {}
  idEx : cpu.idEx = {}
  exMem : cpu.exMem = {}
  gpr : cpu.memWb.gpr = none

theorem Empty.drained {cpu : PipelinedCpu} (h : cpu.Empty) : cpu.Drained :=
  ⟨h.ifId, h.idEx, h.exMem, by rw [h.memWb]; rfl⟩

theorem Drained.pendingTrap_eq {cpu : PipelinedCpu} (h : cpu.Drained) : cpu.pendingTrap = none := by
  rw [pendingTrap, h.exMem]
  rfl

theorem Drained.sim {cpu : PipelinedCpu} (h : cpu.Drained) : cpu.Sim cpu.arch := by
  have hpend := h.pendingTrap_eq
  refine ⟨⟨⟨?_, ?_, ?_, ?_, ?_⟩, ?_⟩, ?_⟩
  · rw [drainRegs, h.gpr, h.exMem]
    rfl
  · rw [drainMem, h.exMem]
    rfl
  · rw [drainCp0, hpend]
    rfl
  · rw [h.exMem]
    exact ⟨rfl, by simp⟩
  · simp [hpend]
  · exact fun _ => .of_empty h.ifId h.idEx rfl
  · simp [h.idEx]

end PipelinedCpu

namespace SingleCycleCpu

theorem arch_run_succ (cpu : SingleCycleCpu) (n : ℕ) :
    (cpu.run (n + 1)).arch = (cpu.run n).arch.step := by
  rw [run_succ, step_arch]

theorem arch_storeAddr (cpu : SingleCycleCpu) : cpu.arch.storeAddr = cpu.storeAddr := by
  rw [storeAddr, completion_eq, Arch.storeAddr]

end SingleCycleCpu

namespace PipelinedCpu

-- The pipeline after `k` cycles against the single-cycle CPU after `n` steps.
structure Tracks (cpu : PipelinedCpu) (s : SingleCycleCpu) (k n : ℕ) : Prop where
  sim : cpu.Sim (s.run n).arch
  inFlight : n + cpu.idEx.valid.toNat + cpu.ifId.valid.toNat ≤ k
  trapped : cpu.pendingTrap ≠ none → ∃ m, n = m + 1 ∧ (s.run m).arch.trapped = true

section Tracks

variable {cpu : PipelinedCpu} {s : SingleCycleCpu} {k n steps : ℕ}

theorem Tracks.fresh (h : cpu.Tracks s k n) (hfresh : s.NoSelfModification steps)
    (hk : k < steps) : cpu.Fresh (s.run n).arch := by
  have hin := h.inFlight
  constructor
  · intro hv
    rw [← s.arch_run_succ, SingleCycleCpu.arch_storeAddr]
    refine hfresh (n + 1) ?_ n (by omega)
    rcases hv with hv | hv <;> simp only [hv, Bool.toNat_true] at hin <;> omega
  · intro hx hi _
    simp only [hx, hi, Bool.toNat_true] at hin
    rw [← s.arch_run_succ, ← s.arch_run_succ, SingleCycleCpu.arch_storeAddr,
      SingleCycleCpu.arch_storeAddr]
    exact ⟨hfresh (n + 2) (by omega) n (by omega), hfresh (n + 2) (by omega) (n + 1) (by omega)⟩

-- A cycle fetches at most one instruction and moves the others on.
theorem step_inFlight (cpu : PipelinedCpu) :
    cpu.step.2.idEx.valid.toNat + cpu.step.2.ifId.valid.toNat ≤ cpu.ifId.valid.toNat + 1 := by
  have hone : ∀ b : Bool, b.toNat ≤ 1 := by decide
  cases ht : cpu.runStages.trap with
  | some trap =>
    obtain ⟨-, -, hi, hx⟩ := step_of_trap ht
    simp [-step_idEx, -step_ifId, hi, hx]
  | none =>
    cases hr : cpu.runStages.ex.redirect with
    | some target =>
      obtain ⟨-, hi, hx⟩ := step_of_redirect ht hr
      simp [-step_idEx, -step_ifId, hi, hx]
    | none =>
      cases hs : loadUseHazard cpu.idEx cpu.ifId with
      | true =>
        obtain ⟨-, hi, hx⟩ := step_of_stall ht hr hs
        simp [-step_idEx, -step_ifId, hi, hx]
      | false =>
        obtain ⟨hx, -, -⟩ := step_of_flow ht hr hs
        have hle := hone cpu.step.2.ifId.valid
        cases hv : cpu.ifId.valid with
        | true =>
          have hle' := hone cpu.step.2.idEx.valid
          simp only [Bool.toNat_true]
          omega
        | false =>
          rw [idStage_empty hv] at hx
          simp only [hx, Bool.toNat_false]
          omega

-- A trap left to MEM is that of the instruction that has just passed EX.
theorem Aligned.step_pending_trapped {arch : Arch} (h : cpu.Aligned arch)
    (ht : cpu.step.2.pendingTrap ≠ none) : cpu.advance = true ∧ arch.trapped = true := by
  rw [step_pendingTrap] at ht
  cases h.cycle with
  | pending trap ht' hadv =>
    rw [ex_of_pending ht'] at ht
    exact absurd rfl ht
  | bubble _ hv hex hadv =>
    rw [hex] at ht
    exact absurd rfl ht
  | trapping _ hv raw code badAddr hout htrap hnext hadv => exact ⟨hadv, by simp [Arch.trapped, hout]⟩
  | passing _ hv raw d hr hd hno hperf hadv =>
    refine ⟨hadv, ?_⟩
    have hout := Arch.outcome_decoded hr hd
    rw [h.mem] at ht
    cases hact : (arch.action d).perform arch.mem arch.pc with
    | trap code badAddr => simp [Arch.trapped, hout, hact]
    | done gpr store mem cp0 next => exact absurd (memoryAccess_done hperf.carries hact).1 ht

theorem Tracks.step (h : cpu.Tracks s k n) (hfresh : cpu.Fresh (s.run n).arch) :
    cpu.step.2.Tracks s (k + 1) (n + cpu.advance.toNat) := by
  constructor
  · have hsim := h.sim.step fun _ => hfresh
    cases ha : cpu.advance with
    | false => simpa [ha] using hsim
    | true => simpa [ha, s.arch_run_succ] using hsim
  · have hin := h.inFlight
    have hstep := cpu.step_inFlight
    have hadv : cpu.advance.toNat ≤ cpu.idEx.valid.toNat := by
      unfold advance
      cases cpu.idEx.valid <;> cases cpu.pendingTrap <;> simp
    omega
  · intro ht
    obtain ⟨ha, htrapped⟩ := h.sim.step_pending_trapped ht
    exact ⟨n, by simp [ha], htrapped⟩

end Tracks

-- How many single-cycle steps the first `k` cycles correspond to.
def steps (cpu : PipelinedCpu) (k : ℕ) : ℕ :=
  Simulation.position (fun c => c.step.2) advance cpu k

theorem Empty.tracks {cpu : PipelinedCpu} (h : cpu.Empty) {s : SingleCycleCpu}
    (hsame : cpu.arch = s.arch) : cpu.Tracks s 0 0 := by
  refine ⟨?_, by simp [h.idEx, h.ifId], ?_⟩
  · rw [show (s.run 0).arch = cpu.arch from hsame.symm]
    exact h.drained.sim
  · simp [h.drained.pendingTrap_eq]

theorem tracks_run {cpu : PipelinedCpu} {s : SingleCycleCpu} {limit : ℕ} (h : cpu.Empty)
    (hsame : cpu.arch = s.arch) (hfresh : s.NoSelfModification limit) :
    ∀ k ≤ limit, (cpu.run k).Tracks s k (cpu.steps k) :=
  Simulation.invariant_run (fun c : PipelinedCpu => c.step.2) advance (fun k n c => c.Tracks s k n) limit cpu
    (h.tracks hsame) fun _ _ _ hk ht => ht.step (ht.fresh hfresh hk)

end PipelinedCpu

end ClearCore.Mips
