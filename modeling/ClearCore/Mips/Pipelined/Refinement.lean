import ClearCore.Mips.Pipelined.Halt

namespace ClearCore.Mips

open Isa

-- The register file after a list of retirements.
def commitAll (regs : RegisterFile) (retired : List Retirement) : RegisterFile :=
  retired.foldl (fun regs r => commitGpr regs r.gpr) regs

theorem commitAll_append_option (regs : RegisterFile) (retired : List Retirement)
    (next : Option Retirement) :
    commitAll regs (retired ++ next.toList) =
      commitGpr (commitAll regs retired) (next.bind (·.gpr)) := by
  cases next <;> simp [commitAll]

namespace SingleCycleCpu

theorem completed_eq (cpu : SingleCycleCpu) (n : ℕ) :
    cpu.completed n = Simulation.sequence (fun i => (cpu.run i).arch.retirement.toList) n := by
  rw [completed, Simulation.trace_eq_sequence]
  congr 1
  funext i
  rw [← completion_eq]
  rfl

theorem traps_eq (cpu : SingleCycleCpu) (n : ℕ) :
    cpu.traps n = Simulation.sequence (fun i => (cpu.run i).arch.trapRecord.toList) n := by
  rw [traps, Simulation.trace_eq_sequence]
  congr 1
  funext i
  rw [← raised_eq]
  rfl

theorem completed_succ (cpu : SingleCycleCpu) (n : ℕ) :
    cpu.completed (n + 1) = cpu.completed n ++ (cpu.run n).arch.retirement.toList := by
  rw [completed_eq, completed_eq, Simulation.sequence_succ]

theorem arch_step_regs (arch : Arch) :
    arch.step.regs = commitGpr arch.regs (arch.retirement.bind (·.gpr)) := by
  simp only [Arch.step, Arch.retirement, Arch.finish]
  rcases arch.outcome with ⟨raw, code | ⟨gpr, store, mem, cp0, next⟩⟩ <;> rfl

theorem run_regs (cpu : SingleCycleCpu) (n : ℕ) :
    (cpu.run n).regs = commitAll cpu.regs (cpu.completed n) := by
  induction n with
  | zero => rfl
  | succ n ih =>
    rw [completed_succ, commitAll_append_option, ← ih, ← arch_regs, arch_run_succ, arch_step_regs]
    rfl

-- Once at a self-targeting jump, PC, memory and CP0 no longer change.
theorem run_spins (cpu : SingleCycleCpu) {m n : ℕ} (hs : (cpu.run m).arch.Spins) (hmn : m ≤ n) :
    (cpu.run n).arch.Spins ∧ (cpu.run n).pc = (cpu.run m).pc ∧
      (cpu.run n).mem = (cpu.run m).mem ∧ (cpu.run n).cp0 = (cpu.run m).cp0 := by
  induction n, hmn using Nat.le_induction with
  | base => exact ⟨hs, rfl, rfl, rfl⟩
  | succ n _ ih =>
    obtain ⟨hsn, hpc, hmem, hcp0⟩ := ih
    obtain ⟨-, hm, hc, hp, -⟩ := hsn.step_eq
    rw [← arch_pc, ← arch_mem, ← arch_cp0, arch_run_succ]
    exact ⟨hsn.step, hp.trans hpc, hm.trans hmem, hc.trans hcp0⟩

-- A program that comes to spin does not modify itself if it does not up to there.
theorem noSelfModification_of_spins (cpu : SingleCycleCpu) {n : ℕ} (hs : (cpu.run n).arch.Spins)
    (h : cpu.NoSelfModification (n + 1)) (steps : ℕ) : cpu.NoSelfModification steps := by
  intro j _ i hij
  by_cases hi : n ≤ i
  · rw [← arch_storeAddr, (cpu.run_spins hs hi).1.storeAddr_eq]
    simp
  · by_cases hj : j ≤ n
    · exact h j (by omega) i hij
    · have hpc : (cpu.run j).pc = (cpu.run n).pc := (cpu.run_spins hs (by omega)).2.1
      rw [hpc]
      exact h n (by omega) i (by omega)

end SingleCycleCpu

namespace PipelinedCpu

theorem run_regs (cpu : PipelinedCpu) (k : ℕ) :
    (cpu.run k).regs = commitAll cpu.regs (cpu.retired k) := by
  induction k with
  | zero => rfl
  | succ k ih =>
    rw [retired_succ, commitAll_append_option, ← ih, run_succ, step_regs, Watched.retiring,
      watched_cpu]
    cases hv : (cpu.run k).memWb.valid <;> simp [MemWb.gpr, hv]

theorem steps_succ (cpu : PipelinedCpu) (k : ℕ) :
    cpu.steps (k + 1) = cpu.steps k + (cpu.run k).advance.toNat := rfl

theorem steps_le (cpu : PipelinedCpu) (k : ℕ) : cpu.steps k ≤ k := by
  induction k with
  | zero => exact le_rfl
  | succ k ih =>
    have hone : (cpu.run k).advance.toNat ≤ 1 := Bool.toNat_le _
    rw [steps_succ]
    omega

theorem steps_mono (cpu : PipelinedCpu) {j k : ℕ} (h : j ≤ k) : cpu.steps j ≤ cpu.steps k := by
  induction k, h using Nat.le_induction with
  | base => exact le_rfl
  | succ k _ ih =>
    rw [steps_succ]
    omega

-- The run of the watched pipeline advances with the run of the pipeline.
theorem position_watched (cpu : PipelinedCpu) (k : ℕ) :
    Simulation.position Watched.step (fun w => w.cpu.advance) { cpu } k = cpu.steps k := by
  induction k with
  | zero => rfl
  | succ k ih =>
    have hcpu := cpu.watched_cpu k
    rw [watched] at hcpu
    rw [steps_succ, Simulation.position, ih, hcpu]

section Refinement

variable {cpu : PipelinedCpu} {s : SingleCycleCpu} {limit : ℕ}

-- The pipeline executes what the single-cycle CPU does, at least in the cycles before `k`.
def Executes (cpu : PipelinedCpu) (s : SingleCycleCpu) (k : ℕ) : Prop :=
  ∀ j < k, (cpu.run j).Drains (s.run (cpu.steps j)).arch ∧
    (cpu.run j).Cycle (s.run (cpu.steps j)).arch

-- Retired and pending instructions together are those the single-cycle CPU has
-- completed.
theorem Executes.retired_pending {k : ℕ} (hx : cpu.Executes s k) (h : cpu.Empty) :
    cpu.retired k ++ (cpu.watched k).pending = s.completed (cpu.steps k) := by
  have ht := Simulation.trace_append_pending Watched.step (fun w => w.cpu.advance)
    (fun w => w.retiring.toList) Watched.pending
    (fun i => (s.run i).arch.retirement.toList) { cpu } k (fun j hj => by
      obtain ⟨hdrains, hcycle⟩ := hx j hj
      rw [← watched_cpu] at hdrains hcycle
      rw [position_watched]
      exact Watched.retiring_pending hdrains hcycle)
  have hstart : Watched.pending { cpu } = [] := by
    simp [Watched.pending, Watched.retiring, Watched.carried, h.memWb, h.exMem]
  rw [position_watched, hstart, List.nil_append, ← s.completed_eq] at ht
  exact ht

theorem Executes.traps_pending {k : ℕ} (hx : cpu.Executes s k) (h : cpu.Empty) :
    cpu.traps k ++ (cpu.run k).pendingRecord.toList = s.traps (cpu.steps k) := by
  have ht := Simulation.trace_append_pending (fun c : PipelinedCpu => c.step.2) advance
    (fun c => c.raised.toList) (fun c => c.pendingRecord.toList)
    (fun i => (s.run i).arch.trapRecord.toList) cpu k
    (fun j hj => raised_pending (hx j hj).1 (hx j hj).2)
  have hstart : cpu.pendingRecord = none := by
    rw [pendingRecord, pendingTrap, h.exMem]
    rfl
  rw [hstart, Option.toList_none, List.nil_append, ← s.traps_eq] at ht
  exact ht

theorem executes_of_tracks {k : ℕ} (h : ∀ j < k, (cpu.run j).Tracks s j (cpu.steps j)) :
    cpu.Executes s k :=
  fun j hj => ⟨(h j hj).sim.toDrains, (h j hj).sim.cycle⟩

-- The pipeline at step `m` of a run whose first `n` steps do not modify the program. What it
-- has fetched behind them may be old.
structure Reaches (cpu : PipelinedCpu) (s : SingleCycleCpu) (n m : ℕ) : Prop where
  drains : cpu.Drains (s.run m).arch
  aligned : m < n → cpu.Aligned (s.run m).arch
  sim : m + 1 < n → cpu.Sim (s.run m).arch

theorem Reaches.cycle {n m : ℕ} (h : cpu.Reaches s n m) (hm : m + cpu.advance.toNat ≤ n) :
    cpu.Cycle (s.run m).arch := by
  cases ha : cpu.advance with
  | false => exact cycle_of_idle ha
  | true =>
    rw [ha, Bool.toNat_true] at hm
    exact (h.aligned hm).cycle

theorem Reaches.step {n m : ℕ} (h : cpu.Reaches s n m) (hfresh : s.NoSelfModification n)
    (hm : m + cpu.advance.toNat ≤ n) : cpu.step.2.Reaches s n (m + cpu.advance.toNat) := by
  have hdrains := h.drains.step (h.cycle hm)
  have hnext : m + 1 < n → (s.run m).arch.storeAddr ≠ some (s.run m).arch.step.pc := by
    intro hlt
    rw [← s.arch_run_succ, SingleCycleCpu.arch_storeAddr]
    exact hfresh (m + 1) hlt m (by omega)
  cases ha : cpu.advance with
  | false =>
    simp only [ha, Bool.false_eq_true, if_false] at hdrains
    rw [Bool.toNat_false, Nat.add_zero]
    exact ⟨hdrains, fun hlt => (h.aligned hlt).step_idle ha,
      fun hlt => (h.sim hlt).step_idle ha fun _ _ => hnext hlt⟩
  | true =>
    simp only [ha, if_true] at hdrains
    rw [Bool.toNat_true]
    refine ⟨?_, fun hlt => ?_, fun hlt => ?_⟩
    · rw [s.arch_run_succ]
      exact hdrains
    · have haligned := (h.sim hlt).step_aligned fun _ => hnext hlt
      simpa [ha, s.arch_run_succ] using haligned
    · have hsim := (h.sim (by omega)).step fun _ => ⟨fun _ => hnext (by omega), fun _ _ _ => by
        rw [← s.arch_run_succ, ← s.arch_run_succ, SingleCycleCpu.arch_storeAddr,
          SingleCycleCpu.arch_storeAddr]
        exact ⟨hfresh (m + 2) hlt m (by omega), hfresh (m + 2) hlt (m + 1) (by omega)⟩⟩
      simpa [ha, s.arch_run_succ] using hsim

theorem reaches_run (h : cpu.Empty) (hsame : cpu.arch = s.arch) (hfresh : s.NoSelfModification limit)
    {k : ℕ} (hk : cpu.steps k ≤ limit) : (cpu.run k).Reaches s limit (cpu.steps k) := by
  induction k with
  | zero =>
    have hsim := (h.tracks hsame).sim
    exact ⟨hsim.toDrains, fun _ => hsim.toAligned, fun _ => hsim⟩
  | succ k ih =>
    rw [steps_succ] at hk
    rw [run_succ, steps_succ]
    exact (ih (by omega)).step hfresh hk

theorem executes (h : cpu.Empty) (hsame : cpu.arch = s.arch)
    (hfresh : s.NoSelfModification limit) {k : ℕ} (hk : cpu.steps k ≤ limit) :
    cpu.Executes s k := by
  intro j hj
  have hle : cpu.steps (j + 1) ≤ limit := (cpu.steps_mono hj).trans hk
  rw [steps_succ] at hle
  have hreaches := reaches_run h hsame hfresh (k := j) (by omega)
  exact ⟨hreaches.drains, hreaches.cycle hle⟩

theorem retired_pending (h : cpu.Empty) (hsame : cpu.arch = s.arch)
    (hfresh : s.NoSelfModification limit) {k : ℕ} (hk : k ≤ limit) :
    cpu.retired k ++ (cpu.watched k).pending = s.completed (cpu.steps k) :=
  (executes h hsame hfresh ((cpu.steps_le _).trans hk)).retired_pending h

theorem traps_pending (h : cpu.Empty) (hsame : cpu.arch = s.arch)
    (hfresh : s.NoSelfModification limit) {k : ℕ} (hk : k ≤ limit) :
    cpu.traps k ++ (cpu.run k).pendingRecord.toList = s.traps (cpu.steps k) :=
  (executes h hsame hfresh ((cpu.steps_le _).trans hk)).traps_pending h

theorem retirement_length (arch : Arch) : arch.retirement.toList.length ≤ 1 := by
  cases arch.retirement <;> simp

theorem Executes.retired_of {k : ℕ} (hx : cpu.Executes s k) (h : cpu.Empty) :
    ∃ n ≤ cpu.steps k, cpu.retired k = s.completed n := by
  have hp := hx.retired_pending h
  have hpre : cpu.retired k <+: s.completed (cpu.steps k) := ⟨_, hp⟩
  simp only [s.completed_eq] at hpre ⊢
  exact Simulation.sequence_of_isPrefix (fun i => retirement_length (s.run i).arch) hpre

theorem marked_run (h : cpu.Empty) (hsame : cpu.arch = s.arch)
    (hfresh : s.NoSelfModification limit) {k : ℕ} (hk : k ≤ limit) :
    (cpu.run k).Marked (s.run (cpu.steps k)).arch := by
  induction k with
  | zero => exact h.marked
  | succ k ih =>
    have ht := tracks_run h hsame hfresh k (by omega)
    have hm := (ih (by omega)).step ht.sim
    rw [run_succ, steps_succ]
    cases ha : (cpu.run k).advance with
    | false => simpa [ha] using hm
    | true => simpa [ha, s.arch_run_succ] using hm

-- The single-cycle step whose instruction WB is about to retire.
theorem retiring_step (h : cpu.Empty) (hsame : cpu.arch = s.arch)
    (hfresh : s.NoSelfModification limit) {k : ℕ} (hk : k < limit) {r : Retirement}
    (hr : (cpu.watched k).retiring = some r) :
    ∃ n < cpu.steps k, cpu.retired k = s.completed n ∧ cpu.retired (k + 1) = s.completed (n + 1) ∧
      (s.run n).arch.retirement = some r := by
  have hp := retired_pending h hsame hfresh (k := k) (by omega)
  rw [Watched.pending, hr, Option.toList_some, ← List.append_assoc] at hp
  have hpre : cpu.retired k ++ [r] <+: s.completed (cpu.steps k) := ⟨_, hp⟩
  rw [s.completed_eq] at hpre
  obtain ⟨m, hm, he⟩ := Simulation.sequence_of_isPrefix
    (fun i => retirement_length (s.run i).arch) hpre
  obtain ⟨n, hn, hs, hlast⟩ := Simulation.sequence_eq_append_singleton
    (fun i => retirement_length (s.run i).arch) he.symm
  have hret : (s.run n).arch.retirement = some r :=
    Option.toList_eq_singleton_iff.mp hlast
  refine ⟨n, by omega, by rw [s.completed_eq, hs], ?_, hret⟩
  rw [retired_succ, hr, s.completed_succ, hret, s.completed_eq, hs]

-- The pipeline halts in the cycles in which a self-targeting jump retires.
theorem halt_iff (h : cpu.Empty) (hsame : cpu.arch = s.arch)
    (hfresh : s.NoSelfModification limit) {k : ℕ} (hk : k ≤ limit) :
    (cpu.run k).step.1 = .Halt ↔
      ∃ r, (cpu.watched k).retiring = some r ∧ Arch.SelfTargeting r.pc r.raw := by
  have hm := marked_run h hsame hfresh hk
  rw [hm.halt_iff (tracks_run h hsame hfresh k hk).sim, Watched.retiring, watched_cpu]
  cases hv : (cpu.run k).memWb.valid with
  | false => simp
  | true => simp [hm.wb hv, selfJump_iff]

theorem retirement_eq_some {arch : Arch} {r : Retirement} (h : arch.retirement = some r)
    (hself : Arch.SelfTargeting r.pc r.raw) : arch.Spins := by
  simp only [Arch.retirement, Arch.outcome] at h
  cases hr : arch.mem.readWord arch.pc with
  | none => simp [hr] at h
  | some raw =>
    refine ⟨raw, hr, ?_⟩
    cases hd : Decoder.decode raw with
    | none => simp [hr, hd] at h
    | some d =>
      simp only [hr, hd] at h
      cases hact : (arch.action d).perform arch.mem arch.pc with
      | trap code badAddr => simp [hact] at h
      | done gpr store mem cp0 next =>
        simp only [hact, Option.some.injEq] at h
        subst h
        exact hself

-- Where the pipeline halts, it is in the state in which the single-cycle CPU halts
-- on that jump.
theorem halt_state (h : cpu.Empty) (hsame : cpu.arch = s.arch)
    (hfresh : s.NoSelfModification limit) {k : ℕ} (hk : k < limit)
    (hhalt : (cpu.run k).step.1 = .Halt) :
    ∃ n, (s.run n).arch.Spins ∧ (s.run n).step.1 = .Halt ∧
      cpu.retired k = s.completed n ∧ cpu.retired (k + 1) = s.completed (n + 1) ∧
      (cpu.run (k + 1)).regs = (s.run (n + 1)).regs ∧
      (cpu.run (k + 1)).mem = (s.run (n + 1)).mem ∧
      (cpu.run (k + 1)).cp0 = (s.run (n + 1)).cp0 := by
  have ht := tracks_run h hsame hfresh k (by omega)
  have ht' := tracks_run h hsame hfresh (k + 1) hk
  have hm := marked_run h hsame hfresh (k := k) (by omega)
  obtain ⟨r, hr, hself⟩ := (halt_iff h hsame hfresh (by omega)).mp hhalt
  obtain ⟨n, hn, hbefore, hret, hrn⟩ := retiring_step h hsame hfresh hk hr
  have hs := retirement_eq_some hrn hself
  obtain ⟨hsk, hpend⟩ := hm.wbSpins ((hm.halt_iff ht.sim).mp hhalt).1
    ((hm.halt_iff ht.sim).mp hhalt).2
  obtain ⟨hnt, -, -, hpc, -⟩ := hs.step_eq
  obtain ⟨-, -, hmem, -⟩ := s.run_spins hs hn.le
  obtain ⟨-, -, hmem', hcp0'⟩ := s.run_spins hs (Nat.le_succ n)
  have hle : n ≤ cpu.steps (k + 1) := by rw [steps_succ]; omega
  obtain ⟨-, -, -, hcp0⟩ := s.run_spins hs hle
  refine ⟨n, hs, ?_, hbefore, hret, ?_, ?_, ?_⟩
  · rw [SingleCycleCpu.step_result, hnt]
    simp [hpc]
  · rw [run_regs, s.run_regs, hret]
    exact congrArg (commitAll · _) (congrArg Arch.regs hsame)
  · rw [run_succ, step_mem, ht.sim.mem, SingleCycleCpu.arch_mem, hmem, hmem']
  · have hp := (ht.sim.spins hsk hpend).2
    rw [← run_succ] at hp
    rw [ht'.sim.cp0_eq hp, SingleCycleCpu.arch_cp0, hcp0, hcp0']

-- The pipeline refines the single-cycle CPU.
theorem refines_singleCycle (cpu : PipelinedCpu) (s : SingleCycleCpu) (hempty : cpu.Empty)
    (hsame : cpu.arch = s.arch) (hfresh : ∀ steps, s.NoSelfModification steps) (k : ℕ) :
    (∃ n, cpu.retired k = s.completed n) ∧
    (∀ n, (cpu.retired k).length = (s.completed n).length →
      (cpu.run k).regs = (s.run n).regs) ∧
    ((cpu.run k).step.1 = .Halt ↔
      ∃ r, cpu.retired (k + 1) = cpu.retired k ++ [r] ∧ Arch.SelfTargeting r.pc r.raw) ∧
    ((cpu.run k).step.1 = .Halt →
      ∃ n, (s.run n).arch.Spins ∧ (s.run n).step.1 = .Halt ∧
        cpu.retired k = s.completed n ∧ cpu.retired (k + 1) = s.completed (n + 1) ∧
        (cpu.run (k + 1)).regs = (s.run (n + 1)).regs ∧
        (cpu.run (k + 1)).mem = (s.run (n + 1)).mem ∧
        (cpu.run (k + 1)).cp0 = (s.run (n + 1)).cp0) := by
  refine ⟨?_, ?_, ?_, halt_state hempty hsame (hfresh (k + 1)) (Nat.lt_succ_self k)⟩
  · obtain ⟨n, -, hn⟩ := (executes hempty hsame (hfresh k) (cpu.steps_le k)).retired_of hempty
    exact ⟨n, hn⟩
  · intro n hlen
    obtain ⟨m, -, hm⟩ := (executes hempty hsame (hfresh k) (cpu.steps_le k)).retired_of hempty
    have hmn : s.completed m = s.completed n := by
      rw [hm] at hlen
      rw [s.completed_eq, s.completed_eq] at hlen ⊢
      exact Simulation.sequence_eq_of_length hlen
    rw [run_regs, s.run_regs, hm, hmn]
    exact congrArg (commitAll · _) (congrArg Arch.regs hsame)
  · rw [halt_iff hempty hsame (hfresh k) le_rfl]
    have hr : ∀ r, cpu.retired (k + 1) = cpu.retired k ++ [r] ↔
        (cpu.watched k).retiring = some r := by
      intro r
      rw [retired_succ, List.append_cancel_left_eq, Option.toList_eq_singleton_iff]
    simp only [hr]

end Refinement

-- addiu $1, $0, 5; sw $1, 12($0); j 8
def spinProgram : Memory :=
  Memory.loadWordsFrom 0#32 0 [0x24010005#32, 0xAC01000C#32, 0x08000002#32] (.ofSize 16)

theorem spinProgram_noSelfModification (steps : ℕ) :
    SingleCycleCpu.NoSelfModification { regs := .initial, mem := spinProgram } steps := by
  refine SingleCycleCpu.noSelfModification_of_spins _ (n := 2) ?_ (by decide) steps
  exact ⟨0x08000002#32, by decide, (selfJump_iff _ _).mp (by decide)⟩

theorem refines_singleCycle_spinProgram :
    let cpu : PipelinedCpu := { regs := .initial, mem := spinProgram }
    let s : SingleCycleCpu := { regs := .initial, mem := spinProgram }
    (cpu.run 6).step.1 = .Halt ∧ ∃ n, (s.run n).step.1 = .Halt ∧
      cpu.retired 7 = s.completed (n + 1) ∧ (cpu.run 7).mem = (s.run (n + 1)).mem := by
  intro cpu s
  have hhalt : (cpu.run 6).step.1 = .Halt := by decide
  obtain ⟨n, -, hs, -, hret, -, hmem, -⟩ := (refines_singleCycle cpu s ⟨rfl, rfl, rfl, rfl⟩ rfl
    spinProgram_noSelfModification 6).2.2.2 hhalt
  exact ⟨hhalt, n, hs, hret, hmem⟩

end PipelinedCpu

end ClearCore.Mips
