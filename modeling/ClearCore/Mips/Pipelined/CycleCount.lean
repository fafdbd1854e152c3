import ClearCore.Mips.Pipelined.Exceptions
import Mathlib.Data.Nat.Count

-- Where the cycles of a run without exceptions go.

namespace ClearCore.Mips

open Isa

def isJump (raw : Word) : Bool := decide (Decoder.formatOf (Decoder.rawOpcode raw) = .J)

theorem isJump_of_decode {raw : Word} {d : DecodedInstr} (hd : Decoder.decode raw = some d) :
    isJump raw = decide (d.format = .J) := by
  rw [isJump, ← Decoder.decode_opcode hd]
  cases Decoder.decode_decoded hd with
  | special | cop0 => rfl
  | immediate op i hop => simp [hop]
  | jump op hop => simp [hop]

def IdEx.isJump (idEx : IdEx) : Bool := idEx.valid && decide (idEx.decoded.format = .J)

def ExMem.isJump (exMem : ExMem) : Bool := exMem.valid && Mips.isJump exMem.raw

def MemWb.isJump (memWb : MemWb) : Bool := memWb.valid && Mips.isJump memWb.raw

namespace PipelinedCpu

-- The instructions in the four pipeline registers, and the jumps among those that
-- ID has resolved.
def occupancy (cpu : PipelinedCpu) : ℕ :=
  cpu.ifId.valid.toNat + cpu.idEx.valid.toNat + cpu.exMem.valid.toNat + cpu.memWb.valid.toNat

def jumpsInFlight (cpu : PipelinedCpu) : ℕ :=
  cpu.idEx.isJump.toNat + cpu.exMem.isJump.toNat + cpu.memWb.isJump.toNat

-- How many of the first `k` steps set a flag of the snapshot.
def countSteps (flag : PipelineState → Bool) (cpu : PipelinedCpu) (k : ℕ) : ℕ :=
  Nat.count (fun i => flag (cpu.run (i + 1)).ps = true) k

theorem countSteps_succ (flag : PipelineState → Bool) (cpu : PipelinedCpu) (k : ℕ) :
    countSteps flag cpu (k + 1) = countSteps flag cpu k + (flag (cpu.run (k + 1)).ps).toNat := by
  rw [countSteps, Nat.count_succ, ← countSteps]
  cases flag (cpu.run (k + 1)).ps <;> rfl

def retiredJumps (cpu : PipelinedCpu) (k : ℕ) : ℕ :=
  (cpu.retired k).countP fun r => isJump r.raw

section Step

variable {cpu : PipelinedCpu} {arch : Arch}

@[simp] theorem step_retired (cpu : PipelinedCpu) :
    cpu.step.2.ps.retired = cpu.memWb.valid := rfl

@[simp] theorem step_loadStall (cpu : PipelinedCpu) :
    cpu.step.2.ps.loadStall = loadUseHazard cpu.idEx cpu.ifId := rfl

@[simp] theorem step_branchFlush (cpu : PipelinedCpu) :
    cpu.step.2.ps.branchFlush = cpu.runStages.flushFromEx := rfl

theorem branchFlush_of_redirect (ht : cpu.runStages.trap = none) :
    cpu.step.2.ps.branchFlush = cpu.runStages.ex.redirect.isSome := by
  simp [StageOutcomes.flushFromEx, StageOutcomes.redirect, ht]

-- ID resolves the jumps among the instructions it hands on.
theorem decode_isJump (regs : RegisterFile) (ifId : IfId) :
    (decode regs ifId).next.isJump = (decode regs ifId).jump.isSome := by
  unfold decode
  cases ifId.fetchFault with
  | true => rfl
  | false =>
    cases Decoder.decode ifId.instr with
    | none => rfl
    | some d => by_cases hj : d.format = .J <;> simp [IdEx.isJump, hj]

theorem idStage_isJump (cpu : PipelinedCpu) :
    cpu.idStage.next.isJump = cpu.idStage.jump.isSome := by
  unfold idStage
  cases cpu.ifId.valid with
  | false => rfl
  | true => exact decode_isJump _ _

-- A load neither redirects nor traps in EX.
theorem executeDecoded_load (cp0 : Cp0) (inp : IdEx) (ops : ExOperands) {raw : Word}
    (hd : Decoder.decode raw = some inp.decoded)
    (hr : (deriveControl inp.decoded).memRead = true) :
    (executeDecoded cp0 inp ops).redirect = none ∧ (executeDecoded cp0 inp ops).trap = none := by
  generalize hdec : inp.decoded = d at hd hr
  cases Decoder.decode_decoded hd with
  | special r himpl =>
    obtain ⟨rs, rt, rd, shamt, funct⟩ := r
    cases funct <;> simp [deriveControl, Control.rTypeControl, DecodedInstr.r] at hr
  | cop0 r => simp [deriveControl, Control.rTypeControl] at hr
  | jump op hop => simp [deriveControl] at hr
  | immediate op i hop =>
    cases op with
    | LW | LBU | LHU =>
      simp [executeDecoded, hdec, Alu.control, Alu.iTypeOp, isSignedOp]
    | _ => simp [deriveControl, Control.iTypeControl] at hr

-- A stall leaves a bubble in EX, so the next cycle does not stall.
theorem step_of_loadStall (hs : loadUseHazard cpu.idEx cpu.ifId = true) :
    cpu.step.2.idEx = {} := by
  have hid : cpu.runStages.id = {} := by simp [runStages, hs]
  cases hf : cpu.runStages.flushFromEx <;>
    simp [nextIdEx, StageOutcomes.flushFromId, hf, hid, runStages_stall, hs]

theorem loadStall_once (hs : cpu.step.2.ps.loadStall = true) :
    cpu.step.2.step.2.ps.loadStall = false := by
  have hx := step_of_loadStall hs
  rw [step_loadStall]
  exact loadUseHazard_invalid _ (by rw [hx])

-- Without an exception a cycle does not both stall and flush.
theorem Sim.stall_flush (h : cpu.Sim arch) (ht : cpu.runStages.trap = none)
    (hs : cpu.step.2.ps.loadStall = true) : cpu.step.2.ps.branchFlush = false := by
  rw [branchFlush_of_redirect ht]
  rw [step_loadStall] at hs
  obtain ⟨hv, hread, -⟩ := loadUseHazard_load hs
  have hp := (trap_none ht).1
  have hex := (h.front hp).ex hv
  cases hr : arch.mem.readWord arch.pc with
  | none =>
    rw [decode_fault _ _ _ hr] at hex
    simp [hex] at hread
  | some raw =>
    cases hd : Decoder.decode raw with
    | none =>
      rw [decode_reserved _ _ _ hr hd] at hex
      simp [hex] at hread
    | some d =>
      rw [decode_decoded _ _ _ hr hd] at hex
      have hdec : cpu.idEx.decoded = d := by rw [hex]
      have hearly : cpu.idEx.earlyTrap = none := by rw [hex]
      have hctrl : cpu.idEx.ctrl = deriveControl d := by rw [hex]
      rw [runStages_ex cpu hp]
      simp only [execute, hv, hearly, Bool.not_true, Bool.false_eq_true, if_false]
      have hd' : Decoder.decode raw = some cpu.idEx.decoded := by rw [hdec, hd]
      rw [(executeDecoded_load cpu.cp0 cpu.idEx _ hd' (by rw [hdec, ← hctrl, hread])).1]
      rfl

-- What a cycle without an exception moves out of EX and MEM.
theorem Sim.step_back (h : cpu.Sim arch) (ht : cpu.runStages.trap = none) :
    cpu.step.2.exMem.valid = cpu.idEx.valid ∧ cpu.step.2.exMem.isJump = cpu.idEx.isJump ∧
      cpu.step.2.memWb.valid = cpu.exMem.valid ∧
      cpu.step.2.memWb.isJump = cpu.exMem.isJump := by
  have hp := (trap_none ht).1
  have hwb : cpu.step.2.memWb.valid = cpu.exMem.valid ∧
      cpu.step.2.memWb.isJump = cpu.exMem.isJump := by
    rw [step_memWb, MemWb.isJump, ExMem.isJump]
    cases hv : cpu.exMem.valid with
    | false => simp [memoryAccess_invalid cpu.mem hv]
    | true =>
      obtain ⟨hnv, -, hraw, -⟩ := memoryAccess_next hv hp
      simp [hnv, hraw]
  refine ⟨?_, ?_, hwb⟩ <;> rw [step_exMem]
  · cases h.cycle with
    | pending _ ht' _ => simp [hp] at ht'
    | bubble _ hv hex _ => rw [hex, hv]
    | trapping _ _ _ _ _ _ htrap _ _ => simp [trap_of_ex hp, htrap] at ht
    | passing _ hv raw d hr hd hno hperf _ => rw [(hperf.carries.holds hno).valid, hv]
  · cases h.cycle with
    | pending _ ht' _ => simp [hp] at ht'
    | bubble _ hv hex _ => simp [hex, ExMem.isJump, IdEx.isJump, hv]
    | trapping _ _ _ _ _ _ htrap _ _ => simp [trap_of_ex hp, htrap] at ht
    | passing _ hv raw d hr hd hno hperf _ =>
      have hholds := hperf.carries.holds hno
      have hex := (h.front hp).ex hv
      rw [decode_decoded _ _ _ hr hd] at hex
      rw [ExMem.isJump, hholds.valid, hholds.raw, Decoder.decode_raw hd, isJump_of_decode hd,
        IdEx.isJump, hv]
      simp [hex]

-- EX redirects only for an instruction with another one behind it.
theorem Sim.redirect_followed (h : cpu.Sim arch) (ht : cpu.runStages.trap = none)
    (hr : cpu.runStages.ex.redirect.isSome = true) :
    cpu.ifId.valid = true ∧ cpu.idEx.isJump = false := by
  have hp := (trap_none ht).1
  cases h.cycle with
  | pending _ ht' _ => simp [hp] at ht'
  | bubble _ hv hex _ => simp [hex] at hr
  | trapping _ _ _ _ _ _ htrap _ _ => simp [trap_of_ex hp, htrap] at ht
  | passing _ hv raw d hw hd hno hperf _ =>
    have hfront := h.front hp
    have hex := hfront.ex hv
    rw [decode_decoded _ _ _ hw hd] at hex
    have hformat : d.format ≠ .J := by
      intro hj
      simp [(hperf.jump hj).1] at hr
    have hdec : cpu.idEx.decoded = d := by rw [hex]
    refine ⟨?_, by simp [IdEx.isJump, hdec, hformat]⟩
    by_contra hi
    have hj := (hfront.jump hv (by simpa using hi)).1
    exact hformat (by rwa [hdec] at hj)

-- IF/ID and ID/EX gain one instruction a cycle, less one for a stall or a jump
-- resolved in ID and two for a flush.
theorem Sim.step_front (h : cpu.Sim arch) (ht : cpu.runStages.trap = none) :
    cpu.step.2.ifId.valid.toNat + cpu.step.2.idEx.valid.toNat + cpu.step.2.idEx.isJump.toNat +
        cpu.step.2.ps.loadStall.toNat + 2 * cpu.step.2.ps.branchFlush.toNat =
      cpu.ifId.valid.toNat + 1 := by
  rw [branchFlush_of_redirect ht, step_loadStall]
  cases hr : cpu.runStages.ex.redirect with
  | some target =>
    obtain ⟨-, hi, hx⟩ := step_of_redirect ht hr
    have hfollowed := (h.redirect_followed ht (by simp [hr])).1
    have hstall : loadUseHazard cpu.idEx cpu.ifId = false := by
      by_contra hs
      have hflush := h.stall_flush ht (by simpa using hs)
      rw [branchFlush_of_redirect ht, hr] at hflush
      cases hflush
    simp [-step_idEx, -step_ifId, hi, hx, hfollowed, hstall, IdEx.isJump]
  | none =>
    cases hs : loadUseHazard cpu.idEx cpu.ifId with
    | true =>
      obtain ⟨-, hi, hx⟩ := step_of_stall ht hr hs
      simp [-step_idEx, -step_ifId, hi, hx, IdEx.isJump]
    | false =>
      obtain ⟨hx, -, hi⟩ := step_of_flow ht hr hs
      rw [hx, hi, cpu.idStage_isJump, cpu.idStage_valid]
      cases cpu.idStage.jump <;> simp
      omega

-- A jump in flight is followed by a bubble, and that by an instruction.
structure JumpShadow (cpu : PipelinedCpu) : Prop where
  mem : cpu.exMem.isJump = true → cpu.idEx.valid = false ∧ cpu.ifId.valid = true
  wb : cpu.memWb.isJump = true → cpu.exMem.valid = false ∧ cpu.idEx.valid = true

theorem Empty.jumpShadow (h : cpu.Empty) : cpu.JumpShadow := by
  constructor
  · simp [h.exMem, ExMem.isJump]
  · simp [h.memWb, MemWb.isJump]

theorem jump_alone {arch : Arch} (h : cpu.Front arch) (hj : cpu.idEx.isJump = true) :
    cpu.ifId.valid = false := by
  simp only [IdEx.isJump, Bool.and_eq_true, decide_eq_true_eq] at hj
  by_contra hi
  exact (h.sequential hj.1 (by simpa using hi)).1 hj.2

theorem JumpShadow.step (hs : cpu.JumpShadow) (h : cpu.Sim arch)
    (ht : cpu.runStages.trap = none) : cpu.step.2.JumpShadow := by
  obtain ⟨hxv, hxj, hwv, hwj⟩ := h.step_back ht
  have hp := (trap_none ht).1
  have hr : cpu.idEx.isJump = true ∨ cpu.idEx.valid = false →
      cpu.runStages.ex.redirect = none := by
    intro hx
    by_contra hne
    have hsome := Option.isSome_iff_ne_none.mpr hne
    rcases hx with hx | hx
    · simp [(h.redirect_followed ht hsome).2] at hx
    · simp [runStages_ex cpu hp, execute_invalid _ _ _ hx] at hsome
  constructor
  · intro hj
    rw [hxj] at hj
    have hi := jump_alone (h.front hp) hj
    obtain ⟨hx, -, hi'⟩ := step_of_flow ht (hr (.inl hj)) (loadUseHazard_empty _ hi)
    rw [hx, hi', idStage_empty hi]
    exact ⟨rfl, fetch_valid _ _⟩
  · intro hj
    rw [hwj] at hj
    obtain ⟨hx, hi⟩ := hs.mem hj
    obtain ⟨hx', -, -⟩ := step_of_flow ht (hr (.inr hx)) (loadUseHazard_invalid _ hx)
    rw [hxv, hx', hx, cpu.idStage_valid]
    exact ⟨rfl, hi⟩

theorem Sim.step_balance (h : cpu.Sim arch) (ht : cpu.runStages.trap = none) :
    cpu.step.2.occupancy + cpu.step.2.jumpsInFlight + cpu.memWb.valid.toNat +
        cpu.step.2.ps.loadStall.toNat + 2 * cpu.step.2.ps.branchFlush.toNat +
        cpu.memWb.isJump.toNat =
      cpu.occupancy + cpu.jumpsInFlight + 1 := by
  obtain ⟨hxv, hxj, hwv, hwj⟩ := h.step_back ht
  have hfront := h.step_front ht
  simp only [occupancy, jumpsInFlight, hxv, hxj, hwv, hwj]
  omega

end Step

section Run

variable {cpu : PipelinedCpu} {s : SingleCycleCpu} {limit : ℕ}

theorem trap_of_step (hx : cpu.step.1 ≠ .Exception) : cpu.runStages.trap = none := by
  by_contra ht
  exact hx (cpu.step_exception_iff.mpr (Option.ne_none_iff_exists'.mp ht))

theorem retiredJumps_succ (cpu : PipelinedCpu) (k : ℕ) :
    cpu.retiredJumps (k + 1) = cpu.retiredJumps k + (cpu.run k).memWb.isJump.toNat := by
  rw [retiredJumps, retired_succ, List.countP_append, ← retiredJumps, Watched.retiring, watched_cpu,
    MemWb.isJump]
  cases (cpu.run k).memWb.valid with
  | false => simp
  | true => cases hj : isJump (cpu.run k).memWb.raw <;> simp [hj]

-- Each cycle brings one instruction into the pipeline, or stalls, or loses it to a
-- jump, or loses two to a flush.
theorem balance_run (h : cpu.Empty) (hsame : cpu.arch = s.arch)
    (hfresh : s.NoSelfModification limit) {k : ℕ} (hk : k ≤ limit)
    (hx : ∀ i < k, (cpu.run i).step.1 ≠ .Exception) :
    k = countSteps (·.retired) cpu k + countSteps (·.loadStall) cpu k +
      2 * countSteps (·.branchFlush) cpu k + cpu.retiredJumps k + (cpu.run k).occupancy +
      (cpu.run k).jumpsInFlight := by
  induction k with
  | zero =>
    have hzero : cpu.run 0 = cpu := rfl
    simp [countSteps, retiredJumps, retired, occupancy, jumpsInFlight, hzero, h.ifId, h.idEx,
      h.exMem, h.memWb, IdEx.isJump, ExMem.isJump, MemWb.isJump]
  | succ k ih =>
    have hbefore := ih (by omega) (fun i hi => hx i (by omega))
    have hsim := (tracks_run h hsame hfresh k (by omega)).sim
    have hstep := hsim.step_balance (trap_of_step (hx k (by omega)))
    rw [← run_succ] at hstep
    have hret : (cpu.run (k + 1)).ps.retired = (cpu.run k).memWb.valid := by
      rw [run_succ, step_retired]
    rw [countSteps_succ, countSteps_succ, countSteps_succ, retiredJumps_succ, hret]
    omega

theorem jumpShadow_run (h : cpu.Empty) (hsame : cpu.arch = s.arch)
    (hfresh : s.NoSelfModification limit) {k : ℕ} (hk : k ≤ limit)
    (hx : ∀ i < k, (cpu.run i).step.1 ≠ .Exception) : (cpu.run k).JumpShadow := by
  induction k with
  | zero => exact h.jumpShadow
  | succ k ih =>
    have hsim := (tracks_run h hsame hfresh k (by omega)).sim
    rw [run_succ]
    exact (ih (by omega) (fun i hi => hx i (by omega))).step hsim
      (trap_of_step (hx k (by omega)))

@[simp] theorem step_cycle (cpu : PipelinedCpu) : cpu.step.2.cycle = cpu.cycle + 1 := rfl

theorem run_cycle (cpu : PipelinedCpu) (k : ℕ) : (cpu.run k).cycle = cpu.cycle + k := by
  induction k with
  | zero => rfl
  | succ k ih =>
    rw [run_succ, step_cycle, ih]
    omega

-- In the halting cycle the jump in WB is followed by a bubble, by the same jump
-- again and by another bubble.
theorem Marked.halting {arch : Arch} (hm : cpu.Marked arch) (h : cpu.Sim arch)
    (hj : cpu.JumpShadow) (hhalt : cpu.step.1 = .Halt) :
    cpu.memWb.valid = true ∧ cpu.occupancy = 2 ∧ cpu.jumpsInFlight = 2 ∧
      cpu.step.2.ps.loadStall = false ∧ cpu.step.2.ps.branchFlush = false := by
  obtain ⟨hv, hself⟩ := (hm.halt_iff h).mp hhalt
  obtain ⟨hs, hp⟩ := hm.wbSpins hv hself
  have htrap := (h.spins hs hp).1
  have hjump : cpu.memWb.isJump = true := by
    obtain ⟨d, hd, hformat, -⟩ := (selfJump_iff _ _).mp ((hm.wb hv).symm.trans hself)
    simp [MemWb.isJump, hv, isJump_of_decode hd, hformat]
  obtain ⟨hx, he⟩ := hj.wb hjump
  have hspin : cpu.idEx.isJump = true := by
    obtain ⟨raw, hr, d, hd, hformat, -⟩ := hs
    have hex := (h.front hp).ex he
    rw [decode_decoded _ _ _ hr hd] at hex
    rw [IdEx.isJump, he]
    simp [hex, hformat]
  have hi := jump_alone (h.front hp) hspin
  refine ⟨hv, by simp [occupancy, hv, hx, he, hi], ?_, ?_, ?_⟩
  · simp [jumpsInFlight, hspin, hjump, ExMem.isJump, hx]
  · rw [step_loadStall, loadUseHazard_empty _ hi]
  · rw [branchFlush_of_redirect htrap]
    by_contra hr
    have hfollowed := (h.redirect_followed htrap (Bool.eq_true_of_not_eq_false hr)).2
    simp [hfollowed] at hspin

-- Cycle accounting for a run without exceptions that reaches a halt.
theorem halt_cycle (cpu : PipelinedCpu) (s : SingleCycleCpu) (k : ℕ) (hempty : cpu.Empty)
    (hsame : cpu.arch = s.arch) (hfresh : s.NoSelfModification (k + 1))
    (hx : ∀ i ≤ k, (cpu.run i).step.1 ≠ .Exception) (hhalt : (cpu.run k).step.1 = .Halt) :
    (cpu.run (k + 1)).cycle = cpu.cycle + (countSteps (·.retired) cpu (k + 1) + 4 +
      countSteps (·.loadStall) cpu (k + 1) + 2 * countSteps (·.branchFlush) cpu (k + 1) +
      cpu.retiredJumps k) ∧
    (∀ i < k, ¬((cpu.run (i + 1)).ps.loadStall = true ∧ (cpu.run (i + 2)).ps.loadStall = true)) ∧
    ∀ i ≤ k, ¬((cpu.run (i + 1)).ps.loadStall = true ∧
      (cpu.run (i + 1)).ps.branchFlush = true) := by
  have hsim : ∀ i ≤ k, (cpu.run i).Sim (s.run (cpu.steps i)).arch := fun i hi =>
    (tracks_run hempty hsame hfresh i (by omega)).sim
  refine ⟨?_, ?_, ?_⟩
  · have hbalance := balance_run hempty hsame hfresh (k := k) (by omega)
      (fun i hi => hx i (by omega))
    have hmarked := marked_run hempty hsame hfresh (k := k) (by omega)
    have hshadow := jumpShadow_run hempty hsame hfresh (k := k) (by omega)
      (fun i hi => hx i (by omega))
    obtain ⟨hv, hocc, hjumps, hstall, hflush⟩ := hmarked.halting (hsim k le_rfl) hshadow hhalt
    rw [← run_succ] at hstall hflush
    have hret : (cpu.run (k + 1)).ps.retired = true := by rw [run_succ, step_retired, hv]
    rw [run_cycle, countSteps_succ, countSteps_succ, countSteps_succ, hstall, hflush, hret]
    simp only [Bool.toNat_true, Bool.toNat_false]
    omega
  · rintro i hi ⟨hs, hs'⟩
    rw [run_succ] at hs
    rw [run_succ, run_succ, loadStall_once hs] at hs'
    cases hs'
  · rintro i hi ⟨hs, hf⟩
    rw [run_succ] at hs hf
    rw [(hsim i hi).stall_flush (trap_of_step (hx i hi)) hs] at hf
    cases hf

end Run

-- lw $1, 24($0); addiu $2, $1, 1; beq $0, $0, 1; nop; j 20; j 20, and a word to load
def busyProgram : Memory :=
  Memory.loadWordsFrom 0#32 0
    [0x8C010018#32, 0x24220001#32, 0x10000001#32, 0#32, 0x08000005#32, 0x08000005#32, 5#32]
    (.ofSize 28)

set_option maxRecDepth 2000 in
-- A stall, a flush and a jump before the one that halts.
theorem halt_cycle_busyProgram :
    let cpu : PipelinedCpu := { regs := .initial, mem := busyProgram }
    (countSteps (·.retired) cpu 13 = 5 ∧ countSteps (·.loadStall) cpu 13 = 1 ∧
      countSteps (·.branchFlush) cpu 13 = 1 ∧ cpu.retiredJumps 12 = 1) ∧
    (cpu.run 13).cycle = 0 + (countSteps (·.retired) cpu 13 + 4 +
      countSteps (·.loadStall) cpu 13 + 2 * countSteps (·.branchFlush) cpu 13 +
      cpu.retiredJumps 12) :=
  ⟨by decide, (halt_cycle { regs := .initial, mem := busyProgram }
    { regs := .initial, mem := busyProgram } 12 ⟨rfl, rfl, rfl, rfl⟩ rfl (by decide) (by decide)
    (by decide)).1⟩

end PipelinedCpu

end ClearCore.Mips
