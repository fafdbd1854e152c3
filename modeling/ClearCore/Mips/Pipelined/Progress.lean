import ClearCore.Mips.Pipelined.Exceptions

-- The pipeline along a single-cycle run whose steps are Ok up to one that traps: it
-- reaches the trap, and every cycle before it is Ok.

namespace ClearCore.Mips

open Isa

namespace SingleCycleCpu

-- The first `n` steps are Ok, and no store of them or of step `n` writes a word fetched
-- later.
structure RunsOk (s : SingleCycleCpu) (n : ℕ) : Prop where
  ok : ∀ i < n, (s.run i).step.1 = .Ok
  fresh : s.NoSelfModification (n + 1)

theorem halt_of_spins {s : SingleCycleCpu} (h : s.arch.Spins) : s.step.1 = .Halt := by
  obtain ⟨hnt, -, -, hpc, -⟩ := h.step_eq
  rw [step_result, hnt]
  simp [hpc]

section RunsOk

variable {s : SingleCycleCpu} {n p : ℕ}

theorem RunsOk.not_trapped (h : s.RunsOk n) (hp : p < n) : (s.run p).arch.trapped = false := by
  rw [← Bool.not_eq_true, ← trapped_iff, h.ok p hp]
  simp

-- A self-targeting jump halts, so the run has not come to one.
theorem RunsOk.not_spins (h : s.RunsOk n) (hp : p < n ∨ (s.run p).step.1 = .Exception) :
    ¬(s.run p).arch.Spins := by
  intro hs
  have hhalt := halt_of_spins hs
  rcases hp with hp | hx
  · have hok := h.ok p hp
    rw [hhalt] at hok
    cases hok
  · rw [hhalt] at hx
    cases hx

end RunsOk

end SingleCycleCpu

namespace PipelinedCpu

-- The pipeline on its way along the first `n` steps of a run, the machine at step `p`:
-- either the end is not near yet, or step `n` traps.
structure Approaches (cpu : PipelinedCpu) (s : SingleCycleCpu) (n p : ℕ) : Prop where
  sim : cpu.Sim (s.run p).arch
  marked : cpu.Marked (s.run p).arch
  clear : cpu.pendingTrap = none
  ahead : p + 1 < n ∨ p ≤ n ∧ (s.run n).step.1 = .Exception

-- How many bubbles are in front of EX.
def distance (cpu : PipelinedCpu) : ℕ :=
  if cpu.idEx.valid then 0 else if cpu.ifId.valid then 1 else 2

-- The pipeline after the cycle that raises a trap: nothing is left behind WB, and what
-- WB holds is not a halting jump.
structure AfterTrap (cpu : PipelinedCpu) (arch : Arch) : Prop where
  sim : cpu.Sim arch
  ifId : cpu.ifId = {}
  idEx : cpu.idEx = {}
  exMem : cpu.exMem = {}
  mark : cpu.memWb.valid = true → cpu.memWb.isHalt = selfJump cpu.memWb.pc cpu.memWb.raw
  live : cpu.memWb.valid = true → cpu.memWb.isHalt = false

section Progress

variable {cpu : PipelinedCpu} {s : SingleCycleCpu} {n p : ℕ}

theorem Approaches.not_spins (h : cpu.Approaches s n p) (hs : s.RunsOk n) :
    ¬(s.run p).arch.Spins := by
  apply hs.not_spins
  rcases h.ahead with hp | ⟨hp, hx⟩
  · left
    omega
  · rcases hp.lt_or_eq with hlt | rfl
    · exact .inl hlt
    · exact .inr hx

theorem Approaches.result (h : cpu.Approaches s n p) (hs : s.RunsOk n)
    (ht : cpu.runStages.trap = none) : cpu.step.1 = .Ok := by
  have hhalt : cpu.step.1 ≠ .Halt := by
    intro hh
    obtain ⟨hv, hself⟩ := (h.marked.halt_iff h.sim).mp hh
    exact h.not_spins hs (h.marked.wbSpins hv hself).1
  have hstep : cpu.step.1 = stepResult cpu.runStages := rfl
  rw [hstep, stepResult, ht] at hhalt ⊢
  cases hh : cpu.runStages.halted <;> simp [hh] at hhalt ⊢

theorem Approaches.fresh (h : cpu.Approaches s n p) (hs : s.RunsOk n)
    (hnt : (s.run p).arch.trapped = false) : cpu.Fresh (s.run p).arch := by
  have hnot : ∀ {i}, i ≤ n → (s.run n).step.1 = .Exception → (s.run i).arch.trapped = false →
      i < n := by
    intro i hi hx hnt
    rcases hi.lt_or_eq with hlt | rfl
    · exact hlt
    · rw [SingleCycleCpu.trapped_iff, hnt] at hx
      cases hx
  have hlt : p < n := by
    rcases h.ahead with hp | ⟨hp, hx⟩
    · omega
    · exact hnot hp hx hnt
  constructor
  · intro _
    rw [← s.arch_run_succ, SingleCycleCpu.arch_storeAddr]
    exact hs.fresh (p + 1) (by omega) p (by omega)
  · intro _ _ hnt'
    rw [← s.arch_run_succ] at hnt'
    have hlt' : p + 1 < n := by
      rcases h.ahead with hp | ⟨-, hx⟩
      · exact hp
      · exact hnot hlt hx hnt'
    rw [← s.arch_run_succ, ← s.arch_run_succ, SingleCycleCpu.arch_storeAddr,
      SingleCycleCpu.arch_storeAddr]
    exact ⟨hs.fresh (p + 2) (by omega) p (by omega),
      hs.fresh (p + 2) (by omega) (p + 1) (by omega)⟩

theorem Approaches.step_sim (h : cpu.Approaches s n p) (hs : s.RunsOk n) :
    cpu.step.2.Sim (s.run (p + cpu.advance.toNat)).arch ∧
      cpu.step.2.Marked (s.run (p + cpu.advance.toNat)).arch := by
  have hsim := h.sim.step (h.fresh hs)
  have hmarked := h.marked.step h.sim
  cases ha : cpu.advance with
  | false =>
    simp only [ha, Bool.false_eq_true, if_false] at hsim hmarked
    exact ⟨hsim, hmarked⟩
  | true =>
    simp only [ha, if_true] at hsim hmarked
    rw [Bool.toNat_true, s.arch_run_succ]
    exact ⟨hsim, hmarked⟩

-- A bubble in EX brings the next instruction nearer.
theorem Approaches.bubble (h : cpu.Approaches s n p) (hs : s.RunsOk n)
    (hv : cpu.idEx.valid = false) :
    cpu.step.1 = .Ok ∧ cpu.step.2.Approaches s n p ∧ cpu.step.2.distance < cpu.distance := by
  have hex : cpu.runStages.ex = {} := by rw [runStages_ex cpu h.clear, execute_invalid _ _ _ hv]
  have htrap : cpu.runStages.trap = none := by rw [trap_of_ex h.clear, hex]
  have hadv : cpu.advance = false := by simp [advance, hv]
  obtain ⟨hsim, hmarked⟩ := h.step_sim hs
  rw [hadv, Bool.toNat_false, Nat.add_zero] at hsim hmarked
  have hpend : cpu.step.2.pendingTrap = none := by
    rw [step_pendingTrap, hex]
    rfl
  refine ⟨h.result hs htrap, ⟨hsim, hmarked, hpend, h.ahead⟩, ?_⟩
  obtain ⟨hx, -, hi⟩ := step_of_flow htrap (by rw [hex]) (loadUseHazard_invalid _ hv)
  have hxv : cpu.step.2.idEx.valid = cpu.ifId.valid := by rw [hx, idStage_valid]
  cases hiv : cpu.ifId.valid with
  | true => simp [-step_idEx, distance, hxv, hv, hiv]
  | false =>
    rw [idStage_empty hiv] at hi
    have hfetched : cpu.step.2.ifId.valid = true := by
      rw [hi]
      exact fetch_valid _ _
    simp [-step_idEx, -step_ifId, distance, hxv, hv, hiv, hfetched]

-- The instructions before step `n` pass EX.
theorem Approaches.pass (h : cpu.Approaches s n p) (hs : s.RunsOk n)
    (hv : cpu.idEx.valid = true) (hp : p < n)
    (hahead : p + 2 < n ∨ (s.run n).step.1 = .Exception) :
    cpu.step.1 = .Ok ∧ cpu.step.2.Approaches s n (p + 1) := by
  have hadv : cpu.advance = true := by simp [advance, h.clear, hv]
  have hnt := hs.not_trapped hp
  obtain ⟨hsim, hmarked⟩ := h.step_sim hs
  rw [hadv, Bool.toNat_true] at hsim hmarked
  have hpend : cpu.step.2.pendingTrap = none := by
    by_contra hn
    rw [(h.sim.step_pending_trapped hn).2] at hnt
    cases hnt
  refine ⟨h.result hs ?_, hsim, hmarked, hpend, hahead.imp id fun hx => ⟨hp, hx⟩⟩
  cases h.sim.cycle with
  | pending trap ht => simp [h.clear] at ht
  | bubble _ hv' => simp [hv] at hv'
  | trapping _ _ raw code badAddr hout => simp [Arch.trapped, hout] at hnt
  | passing ht _ raw d _ _ hno hperf => rw [trap_of_ex ht, hperf.trap, hno]

theorem Approaches.next (h : cpu.Approaches s n p) (hs : s.RunsOk n) (hp : p + 2 < n) :
    cpu.step.1 = .Ok ∧ ∃ q ≤ p + 1, cpu.step.2.Approaches s n q := by
  cases hv : cpu.idEx.valid with
  | false =>
    obtain ⟨hok, hnext, -⟩ := h.bubble hs hv
    exact ⟨hok, p, Nat.le_succ p, hnext⟩
  | true =>
    obtain ⟨hok, hnext⟩ := h.pass hs hv (by omega) (.inl hp)
    exact ⟨hok, p + 1, le_rfl, hnext⟩

-- As long as the end of the run is not near the pipeline stays Ok.
theorem Approaches.ok (h : cpu.Approaches s n p) (hs : s.RunsOk n) {k : ℕ}
    (hk : p + k + 2 < n) : (cpu.run k).step.1 = .Ok := by
  induction k generalizing cpu p with
  | zero => exact (h.next hs hk).1
  | succ k ih =>
    obtain ⟨-, q, hq, hnext⟩ := h.next hs (by omega)
    exact ih hnext (by omega)

-- The cycle that raises the trap leaves the pipeline empty behind WB.
theorem afterTrap_of_step (hx : cpu.step.1 = .Exception) {arch arch' : Arch} (h : cpu.Sim arch)
    (hm : cpu.Marked arch) (hspins : cpu.pendingTrap = none → ¬arch.Spins)
    (hsim : cpu.step.2.Sim arch') : cpu.step.2.AfterTrap arch' := by
  obtain ⟨-, hi, he, hex⟩ := step_of_exception h hx
  refine ⟨hsim, hi, he, hex, (hm.step h).wb, ?_⟩
  intro hv
  obtain ⟨hpend, hxv, -, -, hhalt⟩ := step_memWb_valid hv
  rw [hhalt, ← Bool.not_eq_true]
  exact fun hself => hspins hpend (hm.exSpins hxv hself)

-- The last step traps in EX, or in MEM one cycle later.
theorem Approaches.trap (h : cpu.Approaches s n n) (hs : s.RunsOk n)
    (hlast : (s.run n).step.1 = .Exception) (hv : cpu.idEx.valid = true) :
    (cpu.step.1 = .Exception ∧ cpu.step.2.AfterTrap (s.run (n + 1)).arch) ∨
      (cpu.step.1 = .Ok ∧ cpu.step.2.step.1 = .Exception ∧
        cpu.step.2.step.2.AfterTrap (s.run (n + 1)).arch) := by
  have hadv : cpu.advance = true := by simp [advance, h.clear, hv]
  obtain ⟨hsim, hmarked⟩ := h.step_sim hs
  rw [hadv, Bool.toNat_true] at hsim hmarked
  have hns := h.not_spins hs
  cases h.sim.cycle with
  | pending trap ht => simp [h.clear] at ht
  | bubble _ hv' => simp [hv] at hv'
  | trapping ht _ raw code badAddr hout htrap =>
    left
    have hx : cpu.step.1 = .Exception :=
      cpu.step_exception_iff.mpr ⟨_, (trap_of_ex ht).trans htrap⟩
    exact ⟨hx, afterTrap_of_step hx h.sim h.marked (fun _ => hns) hsim⟩
  | passing ht _ raw d hr hd hno hperf =>
    right
    have htrap : cpu.runStages.trap = none := by rw [trap_of_ex ht, hperf.trap, hno]
    have htrapped := (s.run n).trapped_iff.mp hlast
    have hout := Arch.outcome_decoded hr hd
    cases hact : ((s.run n).arch.action d).perform (s.run n).arch.mem (s.run n).arch.pc with
    | done gpr store mem cp0 next =>
      rw [hact] at hout
      simp [Arch.trapped, hout] at htrapped
    | trap code badAddr =>
      have hpend : cpu.step.2.pendingTrap = some { code, pc := (s.run n).arch.pc, badAddr } := by
        rw [step_pendingTrap, h.sim.mem, memoryAccess_trap hperf.carries hact hno]
      have hx : cpu.step.2.step.1 = .Exception :=
        cpu.step.2.step_exception_iff.mpr ⟨_, trap_of_pending hpend⟩
      refine ⟨h.result hs htrap, hx, ?_⟩
      exact afterTrap_of_step hx hsim hmarked (fun hn => by simp [hn] at hpend)
        (hsim.step_pending hpend)

-- From anywhere on the way the trap is reached, and every earlier cycle is Ok.
theorem Approaches.reaches (h : cpu.Approaches s n p) (hs : s.RunsOk n)
    (hlast : (s.run n).step.1 = .Exception) :
    ∃ k, (∀ i < k, (cpu.run i).step.1 = .Ok) ∧ (cpu.run k).step.1 = .Exception ∧
      (cpu.run (k + 1)).AfterTrap (s.run (n + 1)).arch := by
  induction hd : 3 * (n - p) + cpu.distance using Nat.strong_induction_on generalizing cpu p with
  | _ d ih =>
    have hfirst : ∀ {k : ℕ}, cpu.step.1 = .Ok → (∀ i < k, (cpu.step.2.run i).step.1 = .Ok) →
        ∀ i < k + 1, (cpu.run i).step.1 = .Ok := by
      intro k hok hrest i hi
      cases i with
      | zero => exact hok
      | succ i => exact hrest i (by omega)
    cases hv : cpu.idEx.valid with
    | false =>
      obtain ⟨hok, hnext, hlt⟩ := h.bubble hs hv
      obtain ⟨k, hall, hx, hafter⟩ := ih _ (by omega) hnext rfl
      exact ⟨k + 1, hfirst hok hall, hx, hafter⟩
    | true =>
      have hle : p ≤ n := by
        rcases h.ahead with hp | ⟨hp, -⟩ <;> omega
      by_cases hp : p < n
      · obtain ⟨hok, hnext⟩ := h.pass hs hv hp (.inr hlast)
        have hdist : cpu.step.2.distance ≤ 2 := by
          rw [distance]
          split_ifs <;> omega
        obtain ⟨k, hall, hx, hafter⟩ := ih _ (by omega) hnext rfl
        exact ⟨k + 1, hfirst hok hall, hx, hafter⟩
      · obtain rfl : p = n := by omega
        rcases h.trap hs hlast hv with ⟨hx, hafter⟩ | ⟨hok, hx, hafter⟩
        · exact ⟨0, by omega, hx, hafter⟩
        · have hnone : ∀ i < 0, (cpu.step.2.run i).step.1 = .Ok := by omega
          exact ⟨1, hfirst hok hnone, hx, hafter⟩

end Progress

-- The instruction in MEM is about to complete with a GPR still to write.
def pendingWrite (cpu : PipelinedCpu) : Bool :=
  cpu.pendingTrap.isNone && cpu.exMem.valid && cpu.exMem.ctrl.regWrite &&
    decide (cpu.exMem.writeReg ≠ 0#5)

-- As after a reset, or a trap that left no GPR to be written.
structure Settled (cpu : PipelinedCpu) : Prop extends cpu.Drained where
  mark : cpu.memWb.valid = true → cpu.memWb.isHalt = selfJump cpu.memWb.pc cpu.memWb.raw
  live : cpu.memWb.valid = true → cpu.memWb.isHalt = false

theorem Empty.settled {cpu : PipelinedCpu} (h : cpu.Empty) : cpu.Settled :=
  ⟨h.drained, by simp [h.memWb], by simp [h.memWb]⟩

-- Only the pipeline registers matter.
theorem Settled.congr {cpu cpu' : PipelinedCpu} (h : cpu.Settled) (hi : cpu'.ifId = cpu.ifId)
    (hx : cpu'.idEx = cpu.idEx) (he : cpu'.exMem = cpu.exMem) (hw : cpu'.memWb = cpu.memWb) :
    cpu'.Settled := by
  refine ⟨⟨hi.trans h.ifId, hx.trans h.idEx, he.trans h.exMem, ?_⟩, ?_, ?_⟩
  · rw [hw]
    exact h.gpr
  · rw [hw]
    exact h.mark
  · rw [hw]
    exact h.live

section Settled

variable {cpu : PipelinedCpu} {s : SingleCycleCpu} {n : ℕ} {arch : Arch}

theorem Settled.marked (h : cpu.Settled) : cpu.Marked arch := by
  refine ⟨by simp [h.exMem], h.mark, by simp [h.exMem], ?_⟩
  intro hv hself
  rw [h.live hv] at hself
  cases hself

theorem Settled.approaches (h : cpu.Settled) (hsame : cpu.arch = s.arch)
    (hn : 1 < n ∨ (s.run n).step.1 = .Exception) : cpu.Approaches s n 0 := by
  have hsim := h.toDrained.sim
  rw [hsame] at hsim
  exact ⟨hsim, h.marked, h.toDrained.pendingTrap_eq, hn.imp id fun hx => ⟨Nat.zero_le n, hx⟩⟩

-- Without a GPR to be written the pipeline is settled after a trap, in the state of the
-- machine.
theorem AfterTrap.settled (h : cpu.AfterTrap arch) (hg : cpu.memWb.gpr = none) :
    cpu.Settled ∧ cpu.arch = arch := by
  have hd : cpu.Drained := ⟨h.ifId, h.idEx, h.exMem, hg⟩
  have hpend := hd.pendingTrap_eq
  have hregs := h.sim.regs
  have hmem := h.sim.mem
  have hcp0 := h.sim.cp0_eq hpend
  have hpc := (h.sim.front hpend).empty (by rw [h.idEx]) (by rw [h.ifId])
  rw [hd.sim.regs] at hregs
  rw [hd.sim.mem] at hmem
  refine ⟨⟨hd, h.mark, h.live⟩, ?_⟩
  cases arch
  simp only [arch, Arch.mk.injEq]
  exact ⟨hregs, hmem, hcp0, hpc⟩

theorem step_gpr_eq_none (h : cpu.pendingWrite = false) : cpu.step.2.memWb.gpr = none := by
  rw [step_memWb]
  by_cases ht : cpu.pendingTrap = none
  · cases hv : cpu.exMem.valid with
    | false => simp [memoryAccess_invalid _ hv, MemWb.gpr]
    | true =>
      obtain ⟨hnv, -, -, hctrl, -, hdst, -⟩ := memoryAccess_next hv ht
      simp only [pendingWrite, ht, hv, Option.isNone_none, Bool.true_and] at h
      simp only [MemWb.gpr, hnv, hctrl, hdst, Bool.true_and]
      cases hw : cpu.exMem.ctrl.regWrite with
      | false => rfl
      | true =>
        have hz : cpu.exMem.writeReg = 0#5 := by simpa [hw] using h
        simp [gprWrite, hz]
  · rw [(memoryAccess_trap_next ht).1]
    rfl

-- The pipeline reaches the first step that is not Ok, if it traps.
theorem Settled.reaches (h : cpu.Settled) (hsame : cpu.arch = s.arch) (hs : s.RunsOk n)
    (hlast : (s.run n).step.1 = .Exception) :
    ∃ k, (∀ i < k, (cpu.run i).step.1 = .Ok) ∧ (cpu.run k).step.1 = .Exception ∧
      ((cpu.run k).pendingWrite = false →
        (cpu.run (k + 1)).Settled ∧ (cpu.run (k + 1)).arch = (s.run (n + 1)).arch) := by
  obtain ⟨k, hok, hx, hafter⟩ := (h.approaches hsame (.inr hlast)).reaches hs hlast
  refine ⟨k, hok, hx, fun hw => hafter.settled ?_⟩
  rw [run_succ]
  exact step_gpr_eq_none hw

-- If every step is Ok then every cycle is.
theorem Settled.ok (h : cpu.Settled) (hsame : cpu.arch = s.arch) (hs : ∀ n, s.RunsOk n) (k : ℕ) :
    (cpu.run k).step.1 = .Ok :=
  (h.approaches hsame (.inl (by omega))).ok (hs (k + 3)) (by omega)

-- From there a cycle only fetches.
theorem Settled.step_eq (h : cpu.Settled) :
    cpu.step.1 = .Ok ∧ cpu.step.2.regs = cpu.regs ∧ cpu.step.2.mem = cpu.mem ∧
      cpu.step.2.cp0 = cpu.cp0 := by
  have hv : cpu.idEx.valid = false := by rw [h.idEx]
  have hex : cpu.runStages.ex = {} := by
    rw [runStages_ex cpu h.toDrained.pendingTrap_eq, execute_invalid _ _ _ hv]
  have htrap : cpu.runStages.trap = none := by rw [trap_of_ex h.toDrained.pendingTrap_eq, hex]
  have hhalted : cpu.runStages.halted = false := by
    rw [runStages_halted]
    cases hw : cpu.memWb.valid with
    | false => rfl
    | true => simp [h.live hw]
  have hresult : cpu.step.1 = stepResult cpu.runStages := rfl
  refine ⟨by rw [hresult, stepResult, htrap, hhalted]; rfl, ?_, ?_, ?_⟩
  · rw [step_regs, h.gpr]
    rfl
  · rw [step_mem, drainMem, h.exMem]
    rfl
  · rw [step_cp0, nextCp0, htrap, hex]
    rfl

end Settled

end PipelinedCpu

end ClearCore.Mips
