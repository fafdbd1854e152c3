import ClearCore.Nsc.Ui
import ClearCore.Qt.SimulatorController.Statistics

-- The counters of the UI against what the CPU has done since its last reset.

namespace ClearCore.Nsc

open Isa Mips

-- Executed cycles, retired instructions, load stalls, and cycles with forwarding or a flush.
structure Totals where
  cycles : ℕ := 0
  retired : ℕ := 0
  stalls : ℕ := 0
  forwards : ℕ := 0
  flushes : ℕ := 0
deriving DecidableEq, Repr

def Totals.add (a b : Totals) : Totals where
  cycles := a.cycles + b.cycles
  retired := a.retired + b.retired
  stalls := a.stalls + b.stalls
  forwards := a.forwards + b.forwards
  flushes := a.flushes + b.flushes

-- The counters the UI shows.
def Ui.telemetry (ui : Ui) : Totals where
  cycles := ui.telCycles
  retired := ui.telRetired
  stalls := ui.telStalls
  forwards := ui.telForwards
  flushes := ui.telFlushes

namespace Cpu

-- What one step does. The single-cycle CPU has no pipeline to stall, forward or flush.
def tally : Cpu → Totals
  | .singleCycle cpu => { cycles := 1, retired := if cpu.completion.isSome then 1 else 0 }
  | .pipelined cpu =>
      let ps := cpu.step.2.ps
      { cycles := 1
        retired := if cpu.retirement.isSome then 1 else 0
        stalls := if ps.loadStall then 1 else 0
        forwards :=
          if ps.fwdExToExA || ps.fwdExToExB || ps.fwdMemToExA || ps.fwdMemToExB then 1 else 0
        flushes := if ps.branchFlush then 1 else 0 }

-- What the steps of a run do.
def tallyRun : ℕ → Cpu → Totals
  | 0, _ => {}
  | maxSteps + 1, cpu =>
      cpu.tally.add (if cpu.step.1 = .Ok then tallyRun maxSteps cpu.step.2 else {})

-- The next step of the single-cycle CPU cannot fetch or decode, and so leaves the snapshot
-- of an instruction that completed.
def stale : Cpu → Bool
  | .singleCycle cpu =>
      cpu.ps.retired && ((cpu.mem.readWord cpu.pc).bind Decoder.decode).isNone
  | .pipelined _ => false

end Cpu

-- What has happened since the last reset: all of it, the part of it in Run→Halt, and the
-- steps that counted a completed instruction once more.
structure Ledger where
  totals : Totals := {}
  uncounted : Totals := {}
  countedTwice : ℕ := 0

namespace Ledger

def recordStep (ledger : Ledger) (cpu : Cpu) : Ledger where
  totals := ledger.totals.add cpu.tally
  uncounted := ledger.uncounted
  countedTwice := ledger.countedTwice + if cpu.stale then 1 else 0

def recordRun (ledger : Ledger) (cpu : Cpu) : Ledger where
  totals := ledger.totals.add (cpu.tallyRun Ui.kRunBudget)
  uncounted := ledger.uncounted.add (cpu.tallyRun Ui.kRunBudget)
  countedTwice := ledger.countedTwice

-- The ledger after an action in the state `ui`.
def record (ledger : Ledger) (ui : Ui) : Action → Ledger
  | .step => ledger.recordStep ui.cpu
  | .tick => if ui.autoRun then ledger.recordStep ui.cpu else ledger
  | .runToHalt => ledger.recordRun ui.cpu
  | .reset | .apply | .load _ => {}
  | .auto | .selectModel _ => ledger

end Ledger

-- A sequence of actions, with its ledger.
def Ui.acts (ui : Ui) (ledger : Ledger) : List Action → Ui × Ledger
  | [] => (ui, ledger)
  | action :: actions => Ui.acts (ui.act action) (ledger.record ui action) actions

namespace Cpu

-- The single-cycle CPU never shows a hazard.
def Plain : Cpu → Prop
  | .singleCycle cpu => cpu.ps = { stages := cpu.ps.stages, retired := cpu.ps.retired,
                                   cycle := cpu.ps.cycle }
  | .pipelined _ => True

theorem plain_step {cpu : Cpu} (h : cpu.Plain) : cpu.step.2.Plain := by
  cases cpu with
  | pipelined cpu => trivial
  | singleCycle cpu =>
    change cpu.step.2.ps = _
    by_cases hdec : cpu.Decodes
    · obtain ⟨raw, d, hr, hd⟩ := hdec
      rw [SingleCycleCpu.step_decoded hr hd]
      cases (cpu.arch.action d).perform cpu.mem cpu.pc <;> rfl
    · rw [(SingleCycleCpu.step_ps_of_not_decodes hdec).1]
      exact h

theorem cycleCount_step (cpu : Cpu) : cpu.step.2.cycleCount = cpu.cycleCount + 1 := by
  cases cpu with
  | pipelined cpu => rfl
  | singleCycle cpu =>
    change cpu.step.2.cycle = cpu.cycle + 1
    by_cases hdec : cpu.Decodes
    · obtain ⟨raw, d, hr, hd⟩ := hdec
      rw [SingleCycleCpu.step_decoded hr hd]
      cases (cpu.arch.action d).perform cpu.mem cpu.pc <;> rfl
    · exact (SingleCycleCpu.step_ps_of_not_decodes hdec).2.1

theorem tally_cycles (cpu : Cpu) : cpu.tally.cycles = 1 := by
  cases cpu <;> rfl

-- The snapshot after a step counts what the step did, and once more if it is stale.
theorem retired_step (cpu : Cpu) :
    (if cpu.step.2.pipelineState.retired then 1 else 0) =
      cpu.tally.retired + if cpu.stale then 1 else 0 := by
  cases cpu with
  | pipelined cpu =>
    have hflag : cpu.step.2.ps.retired = cpu.retirement.isSome := cpu.flagExact.2
    change (if cpu.step.2.ps.retired = true then 1 else 0) = _
    rw [hflag]
    rfl
  | singleCycle cpu =>
    change (if cpu.step.2.ps.retired = true then 1 else 0) =
      (if cpu.completion.isSome = true then 1 else 0) +
        if (cpu.ps.retired && ((cpu.mem.readWord cpu.pc).bind Decoder.decode).isNone) = true
          then 1 else 0
    by_cases hdec : cpu.Decodes
    · obtain ⟨raw, d, hr, hd⟩ := hdec
      rw [(SingleCycleCpu.completes_of_decoded hr hd).2, hr, Option.bind_some, hd]
      simp
    · obtain ⟨hps, -, hcompletion⟩ := SingleCycleCpu.step_ps_of_not_decodes hdec
      have hnone : ((cpu.mem.readWord cpu.pc).bind Decoder.decode).isNone = true := by
        rw [Option.isNone_iff_eq_none, Option.bind_eq_none_iff]
        intro raw hr
        by_contra hd
        obtain ⟨d, hd⟩ := Option.ne_none_iff_exists'.mp hd
        exact hdec ⟨raw, d, hr, hd⟩
      rw [hps, hcompletion, hnone, Bool.and_true]
      simp

theorem hazards_step {cpu : Cpu} (h : cpu.Plain) :
    let ps := cpu.step.2.pipelineState
    (if ps.loadStall then 1 else 0) = cpu.tally.stalls ∧
    (if ps.fwdExToExA || ps.fwdExToExB || ps.fwdMemToExA || ps.fwdMemToExB then 1 else 0) =
      cpu.tally.forwards ∧
    (if ps.branchFlush then 1 else 0) = cpu.tally.flushes := by
  cases cpu with
  | pipelined cpu => exact ⟨rfl, rfl, rfl⟩
  | singleCycle cpu =>
    have hps : cpu.step.2.ps = _ := plain_step h
    have hpipe : (singleCycle cpu).step.2.pipelineState = cpu.step.2.ps := rfl
    simp only [hpipe]
    rw [hps]
    exact ⟨rfl, rfl, rfl⟩

theorem run_spec {cpu : Cpu} (h : cpu.Plain) (maxSteps : ℕ) :
    (cpu.run maxSteps).2.Plain ∧
      (cpu.run maxSteps).2.cycleCount = cpu.cycleCount + (cpu.tallyRun maxSteps).cycles := by
  induction maxSteps generalizing cpu with
  | zero => exact ⟨h, rfl⟩
  | succ maxSteps ih =>
    have hcount := cpu.cycleCount_step
    have hplain := plain_step h
    simp only [run, tallyRun, Totals.add, tally_cycles]
    by_cases hok : cpu.step.1 = .Ok
    · obtain ⟨hrun, hcycles⟩ := ih hplain
      rw [if_pos hok, if_pos hok, hcycles, hcount]
      exact ⟨hrun, by omega⟩
    · rw [if_neg hok, if_neg hok]
      exact ⟨hplain, hcount⟩

end Cpu

-- A load at address 0 does not end the program, and leaves the snapshot and the cycle
-- counter alone.
theorem loadAtZero_spec (cpu : Cpu) (words : List Word) :
    (cpu.loadProgram words 0#32).isSome = true ∧
      (Ui.loadAtZero cpu words).2.cycleCount = cpu.cycleCount ∧
      (cpu.Plain → (Ui.loadAtZero cpu words).2.Plain) := by
  cases cpu with
  | singleCycle cpu =>
    cases hfits : (cpu.mem.loadWordsFits 0#32 words).1 with
    | false | true =>
      simp only [Ui.loadAtZero, Cpu.loadProgram, SingleCycleCpu.loadProgram, Memory.loadWords]
      rw [if_neg (by decide)]
      simp only [Option.map_some, hfits]
      exact ⟨rfl, rfl, id⟩
  | pipelined cpu =>
    cases hfits : (cpu.mem.loadWordsFits 0#32 words).1 with
    | false | true =>
      simp only [Ui.loadAtZero, Cpu.loadProgram, PipelinedCpu.loadProgram, Memory.loadWords]
      rw [if_neg (by decide)]
      simp only [Option.map_some, hfits]
      exact ⟨rfl, rfl, id⟩

-- The counters and the ledger agree, but for what the ledger sets apart.
structure Tracks (ui : Ui) (ledger : Ledger) : Prop where
  plain : ui.cpu.Plain
  cycleCount : ui.cpu.cycleCount = ledger.totals.cycles
  cycles : ui.telCycles = ledger.totals.cycles
  retired : ui.telRetired + ledger.uncounted.retired = ledger.totals.retired + ledger.countedTwice
  stalls : ui.telStalls + ledger.uncounted.stalls = ledger.totals.stalls
  forwards : ui.telForwards + ledger.uncounted.forwards = ledger.totals.forwards
  flushes : ui.telFlushes + ledger.uncounted.flushes = ledger.totals.flushes

namespace Tracks

variable {ui : Ui} {ledger : Ledger}

theorem doStep (h : Tracks ui ledger) : Tracks ui.doStep.2 (ledger.recordStep ui.cpu) := by
  have hretired := ui.cpu.retired_step
  obtain ⟨hstalls, hforwards, hflushes⟩ := Cpu.hazards_step h.plain
  have hcycles := ui.cpu.tally_cycles
  constructor
  · exact Cpu.plain_step h.plain
  · have hcount := ui.cpu.cycleCount_step
    simp only [Ui.doStep, Ledger.recordStep, Totals.add, hcount, h.cycleCount, hcycles]
  · simp only [Ui.doStep, Ledger.recordStep, Totals.add, h.cycles, hcycles]
  · have hprev := h.retired
    simp only [Ui.doStep, Ledger.recordStep, Totals.add, hretired]
    omega
  · have hprev := h.stalls
    simp only [Ui.doStep, Ledger.recordStep, Totals.add, hstalls]
    omega
  · have hprev := h.forwards
    simp only [Ui.doStep, Ledger.recordStep, Totals.add, hforwards]
    omega
  · have hprev := h.flushes
    simp only [Ui.doStep, Ledger.recordStep, Totals.add, hflushes]
    omega

theorem runToHalt (h : Tracks ui ledger) : Tracks ui.runToHalt (ledger.recordRun ui.cpu) := by
  obtain ⟨hplain, hcount⟩ := Cpu.run_spec h.plain Ui.kRunBudget
  have hcycles : (ui.cpu.run Ui.kRunBudget).2.cycleCount =
      (ledger.recordRun ui.cpu).totals.cycles := by
    rw [hcount, h.cycleCount]
    rfl
  refine ⟨hplain, hcycles, hcycles, ?_, ?_, ?_, ?_⟩
  · have hprev := h.retired
    simp only [Ui.runToHalt, Ledger.recordRun, Totals.add]
    omega
  · have hprev := h.stalls
    simp only [Ui.runToHalt, Ledger.recordRun, Totals.add]
    omega
  · have hprev := h.forwards
    simp only [Ui.runToHalt, Ledger.recordRun, Totals.add]
    omega
  · have hprev := h.flushes
    simp only [Ui.runToHalt, Ledger.recordRun, Totals.add]
    omega

-- After a reset everything starts from zero.
theorem fresh {ui : Ui} (hplain : ui.cpu.Plain) (hcount : ui.cpu.cycleCount = 0)
    (htel : ui.telemetry = {}) : Tracks ui {} := by
  obtain ⟨hcycles, hretired, hstalls, hforwards, hflushes⟩ := (Totals.mk.injEq ..).mp htel
  exact ⟨hplain, hcount, hcycles, hretired, hstalls, hforwards, hflushes⟩

end Tracks

theorem Cpu.reset_spec (cpu : Cpu) (clearMemory : Bool) :
    (cpu.reset clearMemory).Plain ∧ (cpu.reset clearMemory).cycleCount = 0 := by
  cases cpu with
  | singleCycle cpu => exact ⟨rfl, rfl⟩
  | pipelined cpu => exact ⟨trivial, rfl⟩

theorem restoreProgram_spec (ui : Ui) :
    ui.restoreProgram.cpu.Plain ∧ ui.restoreProgram.cpu.cycleCount = 0 ∧
      ui.restoreProgram.telemetry = ui.telemetry := by
  obtain ⟨hplain, hcount⟩ := ui.cpu.reset_spec true
  obtain ⟨-, hcount', hplain'⟩ := loadAtZero_spec (ui.cpu.reset true) ui.loadedProgram
  rw [Ui.restoreProgram]
  dsimp only
  split
  · exact ⟨hplain, hcount, rfl⟩
  · exact ⟨hplain' hplain, hcount'.trans hcount, rfl⟩

theorem loadHexFile_spec (ui : Ui) (hplain : ui.cpu.Plain) (prog : HexProgram) :
    (ui.loadHexFile prog).cpu.Plain ∧
      (ui.loadHexFile prog).cpu.cycleCount = ui.cpu.cycleCount ∧
      (ui.loadHexFile prog).telemetry = ui.telemetry := by
  obtain ⟨-, hcount, hplain'⟩ := loadAtZero_spec ui.cpu prog.words
  rw [Ui.loadHexFile]
  split
  · exact ⟨hplain, rfl, rfl⟩
  · dsimp only
    split
    · exact ⟨hplain' hplain, hcount, rfl⟩
    · exact ⟨hplain' hplain, hcount, rfl⟩

namespace Tracks

variable {ui : Ui} {ledger : Ledger}

-- One action.
theorem act (h : Tracks ui ledger) (action : Action) :
    Tracks (ui.act action) (ledger.record ui action) := by
  cases action with
  | step => exact h.doStep
  | auto => exact ⟨h.plain, h.cycleCount, h.cycles, h.retired, h.stalls, h.forwards, h.flushes⟩
  | selectModel idx =>
    exact ⟨h.plain, h.cycleCount, h.cycles, h.retired, h.stalls, h.forwards, h.flushes⟩
  | tick =>
    simp only [Ui.act, Ledger.record]
    cases ui.autoRun with
    | false => exact h
    | true => exact h.doStep
  | runToHalt => exact h.runToHalt
  | reset =>
    obtain ⟨hplain, hcount, -⟩ := restoreProgram_spec { ui with autoRun := false }
    exact fresh hplain hcount rfl
  | apply =>
    obtain ⟨hplain, hcount, htel⟩ := restoreProgram_spec
      (if ui.cpuModeIdx = 0 then
        { Ui.resetTel { ui with autoRun := false, cpu := ui.cpu.reset true } with
          cpu := .singleCycle (.create kMemBytes), cpuMode := .SingleCycle
          loaderStatus := "Switched to Single-Cycle." }
      else
        { Ui.resetTel { ui with autoRun := false, cpu := ui.cpu.reset true } with
          cpu := .pipelined (.create kMemBytes), cpuMode := .Pipelined
          loaderStatus := "Switched to Pipelined (5-stage)." })
    refine fresh hplain hcount (htel.trans ?_)
    split <;> rfl
  | load prog =>
    obtain ⟨hplain, hcount⟩ := ui.cpu.reset_spec true
    obtain ⟨hplain', hcount', htel⟩ := loadHexFile_spec
      (Ui.resetTel { ui with autoRun := false, cpu := ui.cpu.reset true }) hplain prog
    exact fresh hplain' (hcount'.trans hcount) htel

-- A sequence of actions.
theorem acts (h : Tracks ui ledger) (actions : List Action) :
    Tracks (ui.acts ledger actions).1 (ui.acts ledger actions).2 := by
  induction actions generalizing ui ledger with
  | nil => exact h
  | cons action actions ih => exact ih (h.act action)

theorem telemetry_eq_iff (h : Tracks ui ledger) :
    ui.telemetry = ledger.totals ↔ ledger.uncounted.retired = ledger.countedTwice ∧
      ledger.uncounted.stalls = 0 ∧ ledger.uncounted.forwards = 0 ∧
      ledger.uncounted.flushes = 0 := by
  have hcycles := h.cycles
  have hretired := h.retired
  have hstalls := h.stalls
  have hforwards := h.forwards
  have hflushes := h.flushes
  cases htotals : ledger.totals with
  | mk cycles retired stalls forwards flushes =>
    simp only [htotals] at hcycles hretired hstalls hforwards hflushes
    rw [Ui.telemetry, Totals.mk.injEq]
    omega

end Tracks

-- After any actions the cycles are right, and the counters are if and only if Run→Halt has
-- met nothing else to count, but for instructions that a stale snapshot made up for.
theorem telemetry_totals (actions : List Action) :
    let (ui, ledger) := ({} : Ui).acts {} actions
    ui.telCycles = ledger.totals.cycles ∧
    (ui.telemetry = ledger.totals ↔ ledger.uncounted.retired = ledger.countedTwice ∧
      ledger.uncounted.stalls = 0 ∧ ledger.uncounted.forwards = 0 ∧
      ledger.uncounted.flushes = 0) := by
  have hstart : Tracks {} {} := Tracks.fresh rfl rfl rfl
  have hend := hstart.acts actions
  exact ⟨hend.cycles, hend.telemetry_eq_iff⟩

-- The gauge is right in particular where the retired instructions are.
theorem cpi_totals (actions : List Action) :
    let (ui, ledger) := ({} : Ui).acts {} actions
    ledger.uncounted.retired = ledger.countedTwice →
      ui.cpi = if 0 < ledger.totals.retired then
        (ledger.totals.cycles : ℚ) / ledger.totals.retired else 1 := by
  have hstart : Tracks {} {} := Tracks.fresh rfl rfl rfl
  have hend := hstart.acts actions
  intro heq
  have hretired := hend.retired
  rw [heq, Nat.add_right_cancel_iff] at hretired
  rw [Ui.cpi, hend.cycles, hretired]

theorem tallyRun_retired {cpu : Cpu} {maxSteps : ℕ} (h : 0 < maxSteps) :
    cpu.tally.retired ≤ (cpu.tallyRun maxSteps).retired := by
  obtain ⟨k, rfl⟩ : ∃ k, maxSteps = k + 1 := ⟨maxSteps - 1, by omega⟩
  exact Nat.le_add_right _ _

theorem tally_of_completes {cpu : SingleCycleCpu} (h : cpu.completion.isSome = true) :
    (Cpu.singleCycle cpu).tally.retired = 1 := by
  simp only [Cpu.tally, h, if_true]

theorem acts_runToHalt (ui : Ui) (ledger : Ledger) :
    ui.acts ledger [.runToHalt] = (ui.runToHalt, ledger.recordRun ui.cpu) := rfl

-- Run→Halt does not count the instruction its first step completes.
theorem runToHalt_misses {ui : Ui} (hshown : ui.telRetired = 0) (hcpu : ui.cpu.tally.retired = 1) :
    ui.runToHalt.telemetry ≠ (Ledger.recordRun {} ui.cpu).totals := by
  intro heq
  have hpos : ui.cpu.tally.retired ≤ (ui.cpu.tallyRun Ui.kRunBudget).retired :=
    tallyRun_retired (by decide)
  have hretired : ui.telRetired = ({} : Totals).retired + (ui.cpu.tallyRun Ui.kRunBudget).retired :=
    congrArg Totals.retired heq
  have hzero : ({} : Totals).retired = 0 := rfl
  omega

theorem completes_nop : (SingleCycleCpu.create kMemBytes).completion.isSome = true := by
  have hread : (Memory.ofSize kMemBytes).readWord 0#32 = some 0#32 := by
    rw [Memory.readWord_of_aligned (by decide) (by rw [Memory.size_ofSize]; decide),
      Memory.wordAt_ofSize]
  have hdecode : Decoder.decode 0#32 =
      some { raw := 0#32, opcode := .SPECIAL, format := .R, fields := .r {} } := by decide
  have hout : (SingleCycleCpu.create kMemBytes).arch.outcome = _ :=
    Arch.outcome_decoded hread hdecode
  rw [SingleCycleCpu.completion_eq, Arch.retirement, hout]
  rfl

-- Run→Halt in a fresh UI runs over nops and counts none of them.
theorem telemetry_runToHalt : ¬∀ actions : List Action,
    let (ui, ledger) := ({} : Ui).acts {} actions
    ui.telemetry = ledger.totals := by
  intro hall
  have hrun := hall [.runToHalt]
  rw [acts_runToHalt] at hrun
  have htally : ({} : Ui).cpu.tally.retired = 1 := tally_of_completes completes_nop
  exact runToHalt_misses rfl htally hrun

end ClearCore.Nsc
