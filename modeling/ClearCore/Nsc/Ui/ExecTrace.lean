import ClearCore.Mips.Pipelined.FetchOnly
import ClearCore.Nsc.Ui.Telemetry

-- The execution trace of the UI against the instructions that completed.

namespace ClearCore.Nsc

open Isa Mips

-- The end of a list that the trace has room for.
def lastEight {α : Type} (l : List α) : List α := l.drop (l.length - 8)

theorem pushTrace_lastEight (l : List TraceEntry) (entry : TraceEntry) :
    Ui.pushTrace (lastEight l) entry = lastEight (l ++ [entry]) := by
  have hlen : (lastEight l ++ [entry]).length - 8 + (l.length - 8) =
      (l ++ [entry]).length - 8 := by
    simp only [lastEight, List.length_append, List.length_drop, List.length_singleton]
    omega
  have hsplit : lastEight l ++ [entry] = (l ++ [entry]).drop (l.length - 8) := by
    rw [List.drop_append_of_le_length (by omega), lastEight]
  rw [Ui.pushTrace, lastEight, lastEight, ← hlen, Nat.add_comm, ← List.drop_drop, ← hsplit,
    lastEight]

namespace Cpu

def mode : Cpu → CpuMode
  | .singleCycle _ => .SingleCycle
  | .pipelined _ => .Pipelined

@[simp] theorem mode_step (cpu : Cpu) : cpu.step.2.mode = cpu.mode := by
  cases cpu <;> rfl

@[simp] theorem mode_reset (cpu : Cpu) (clearMemory : Bool) :
    (cpu.reset clearMemory).mode = cpu.mode := by
  cases cpu <;> rfl

@[simp] theorem mode_run (cpu : Cpu) (maxSteps : ℕ) : (cpu.run maxSteps).2.mode = cpu.mode := by
  induction maxSteps generalizing cpu with
  | zero => rfl
  | succ maxSteps ih =>
    simp only [run]
    split_ifs
    · rw [ih, mode_step]
    · exact mode_step cpu

theorem mode_loadProgram {cpu cpu' : Cpu} {words : List Word} {addr : Word} {fits : Bool}
    (h : cpu.loadProgram words addr = some (fits, cpu')) : cpu'.mode = cpu.mode := by
  cases cpu with
  | singleCycle cpu =>
    obtain ⟨res, -, hres⟩ := Option.map_eq_some_iff.mp h
    rw [← (Prod.mk.inj hres).2]
    rfl
  | pipelined cpu =>
    obtain ⟨res, -, hres⟩ := Option.map_eq_some_iff.mp h
    rw [← (Prod.mk.inj hres).2]
    rfl

@[simp] theorem mode_loadAtZero (cpu : Cpu) (words : List Word) :
    (Ui.loadAtZero cpu words).2.mode = cpu.mode := by
  rw [Ui.loadAtZero]
  cases hload : cpu.loadProgram words 0#32 with
  | none => rfl
  | some res => exact mode_loadProgram hload

-- The instruction that the next step completes.
def completed : Cpu → Option TraceEntry
  | .singleCycle cpu => cpu.completion.map fun done => { pc := done.pc, raw := done.raw }
  | .pipelined cpu => cpu.retirement.map fun done => { pc := done.pc, raw := done.raw }

-- Those of the first `n` steps.
def completedRun (cpu : Cpu) (n : ℕ) : List TraceEntry :=
  Simulation.trace (fun c => c.step.2) (fun c => c.completed.toList) cpu n

-- The snapshot that do_step() looks at after a step.
def tracedStage : Cpu → StageSnapshot
  | .singleCycle cpu => cpu.ps.stages.ex
  | .pipelined cpu => cpu.ps.stages.wb

-- The entry that do_step() adds for it.
def traced (cpu : Cpu) : Option TraceEntry :=
  let ts := cpu.tracedStage
  if ts.valid && !ts.stalled then some { pc := ts.pc, raw := ts.raw } else none

-- The next step shows what it completes: an instruction that decodes does not trap, and
-- where none decodes there is no snapshot left of an earlier one.
def TracesExactly : Cpu → Prop
  | .singleCycle cpu =>
      (cpu.Decodes → cpu.arch.trapped = false) ∧
        (¬cpu.Decodes → (singleCycle cpu).traced = none)
  | .pipelined _ => True

-- A step on an instruction that decodes shows it, and completes it unless it traps.
theorem traced_of_decodes {cpu : SingleCycleCpu} {raw : Word} {d : DecodedInstr}
    (hr : cpu.mem.readWord cpu.pc = some raw) (hd : Decoder.decode raw = some d) :
    (singleCycle cpu).step.2.traced = some { pc := cpu.pc, raw } ∧
      (singleCycle cpu).completed =
        if cpu.arch.trapped then none else some { pc := cpu.pc, raw } := by
  have hout : cpu.arch.outcome = (raw, (cpu.arch.action d).perform cpu.mem cpu.pc) :=
    Arch.outcome_decoded hr hd
  constructor
  · rw [Cpu.step, SingleCycleCpu.step_decoded hr hd]
    cases (cpu.arch.action d).perform cpu.mem cpu.pc <;> rfl
  · rw [completed, SingleCycleCpu.completion_eq, Arch.retirement, Arch.trapped, hout]
    cases (cpu.arch.action d).perform cpu.mem cpu.pc <;> rfl

theorem traced_step_iff (cpu : Cpu) : cpu.step.2.traced = cpu.completed ↔ cpu.TracesExactly := by
  cases cpu with
  | pipelined cpu =>
    refine iff_of_true ?_ trivial
    rw [completed, PipelinedCpu.retirement, Watched.retiring]
    cases hv : cpu.memWb.valid <;>
      simp [traced, tracedStage, step, PipelinedCpu.step, PipelinedCpu.nextState, hv]
  | singleCycle cpu =>
    by_cases hdec : cpu.Decodes
    · have hdec' := hdec
      obtain ⟨raw, d, hr, hd⟩ := hdec'
      obtain ⟨htraced, hcompleted⟩ := traced_of_decodes hr hd
      rw [htraced, hcompleted, TracesExactly]
      cases cpu.arch.trapped <;> simp [hdec]
    · obtain ⟨hps, -, hcompletion⟩ := SingleCycleCpu.step_ps_of_not_decodes hdec
      have hstage : (singleCycle cpu).step.2.tracedStage = (singleCycle cpu).tracedStage :=
        congrArg (·.stages.ex) hps
      have hkeep : (singleCycle cpu).step.2.traced = (singleCycle cpu).traced := by
        rw [traced, hstage, traced]
      rw [hkeep, completed, hcompletion, TracesExactly]
      simp [hdec]

theorem tracesExactly_of_pipelined {cpu : Cpu} (h : cpu.mode = .Pipelined) :
    cpu.TracesExactly := by
  cases cpu with
  | singleCycle cpu => cases h
  | pipelined cpu => trivial

end Cpu

namespace Ui

-- The UI keeps the model it shows and the one it runs the same.
def Agrees (ui : Ui) : Prop := ui.cpuMode = ui.cpu.mode

def doSteps (ui : Ui) (n : ℕ) : Ui := (fun ui => ui.doStep.2)^[n] ui

theorem doSteps_succ (ui : Ui) (n : ℕ) : ui.doSteps (n + 1) = (ui.doSteps n).doStep.2 :=
  Function.iterate_succ_apply' _ _ _

theorem doSteps_cpu (ui : Ui) (n : ℕ) : (ui.doSteps n).cpu = (fun c => c.step.2)^[n] ui.cpu := by
  induction n with
  | zero => rfl
  | succ n ih => rw [doSteps_succ, Function.iterate_succ_apply', ← ih]; rfl

theorem Agrees.doStep {ui : Ui} (h : ui.Agrees) : ui.doStep.2.Agrees := by
  have hmode : ui.doStep.2.cpu.mode = ui.cpu.mode := ui.cpu.mode_step
  exact h.trans hmode.symm

theorem Agrees.doSteps {ui : Ui} (h : ui.Agrees) (n : ℕ) : (ui.doSteps n).Agrees := by
  induction n with
  | zero => exact h
  | succ n ih =>
    rw [doSteps_succ]
    exact ih.doStep

theorem Agrees.mode_doSteps {ui : Ui} (h : ui.Agrees) (n : ℕ) :
    (ui.doSteps n).cpu.mode = ui.cpu.mode := by
  have hmode : (ui.doSteps n).cpuMode = ui.cpuMode := by
    induction n with
    | zero => rfl
    | succ n ih => rw [doSteps_succ, ← ih]; rfl
  rw [← h.doSteps n, hmode, h]

theorem Agrees.execTrace_doStep {ui : Ui} (h : ui.Agrees) :
    ui.doStep.2.execTrace =
      match ui.cpu.step.2.traced with
      | some entry => pushTrace ui.execTrace entry
      | none => ui.execTrace := by
  have hstage : (if ui.cpuMode = .Pipelined then ui.cpu.step.2.pipelineState.stages.wb
      else ui.cpu.step.2.pipelineState.stages.ex) = ui.cpu.step.2.tracedStage := by
    rw [h]
    cases ui.cpu <;> rfl
  simp only [Ui.doStep, hstage, Cpu.traced]
  split_ifs <;> rfl

-- From an empty trace, steps that show what they complete make up the last completions.
theorem execTrace_doSteps {ui : Ui} (h : ui.Agrees) (htrace : ui.execTrace = []) {n : ℕ}
    (hexact : ∀ k < n, (ui.doSteps k).cpu.TracesExactly) :
    (ui.doSteps n).execTrace = lastEight (ui.cpu.completedRun n) := by
  induction n with
  | zero => exact htrace
  | succ n ih =>
    have hstep := (ui.doSteps n).cpu.traced_step_iff.mpr (hexact n (by omega))
    rw [doSteps_succ, (h.doSteps n).execTrace_doStep, hstep, ih fun k hk => hexact k (by omega),
      Cpu.completedRun, Cpu.completedRun, Simulation.trace_succ, ← doSteps_cpu]
    cases (ui.doSteps n).cpu.completed with
    | none => rw [Option.toList_none, List.append_nil]
    | some entry => rw [Option.toList_some, ← pushTrace_lastEight]

theorem Agrees.restoreProgram {ui : Ui} (h : ui.Agrees) : ui.restoreProgram.Agrees := by
  have hmode : (ui.cpu.reset true).mode = ui.cpu.mode := ui.cpu.mode_reset true
  rw [Ui.restoreProgram]
  dsimp only
  split
  · exact h.trans hmode.symm
  · exact h.trans (hmode.symm.trans (Cpu.mode_loadAtZero _ _).symm)

theorem Agrees.loadHexFile {ui : Ui} (h : ui.Agrees) (prog : HexProgram) :
    (ui.loadHexFile prog).Agrees := by
  rw [Ui.loadHexFile]
  split
  · exact h
  · dsimp only
    split <;> exact h.trans (Cpu.mode_loadAtZero _ _).symm

theorem restoreProgram_execTrace (ui : Ui) : ui.restoreProgram.execTrace = ui.execTrace := by
  rw [Ui.restoreProgram]
  dsimp only
  split <;> rfl

theorem loadHexFile_execTrace (ui : Ui) (prog : HexProgram) :
    (ui.loadHexFile prog).execTrace = ui.execTrace := by
  rw [Ui.loadHexFile]
  split
  · rfl
  · dsimp only
    split <;> rfl

end Ui

-- The actions that reset the CPU.
def Action.Resets : Action → Prop
  | .reset | .apply | .load _ => True
  | _ => False

theorem Ui.Agrees.act {ui : Ui} (h : ui.Agrees) (action : Action) : (ui.act action).Agrees := by
  have hreset : (resetTel { ui with autoRun := false, cpu := ui.cpu.reset true }).Agrees :=
    h.trans (ui.cpu.mode_reset true).symm
  cases action with
  | step => exact h.doStep
  | auto => exact h
  | selectModel idx => exact h
  | tick =>
    rw [Ui.act]
    split_ifs
    · exact h.doStep
    · exact h
  | runToHalt =>
    rw [Ui.act, Ui.runToHalt, Agrees]
    exact h.trans (ui.cpu.mode_run _).symm
  | reset =>
    have hstopped : ({ ui with autoRun := false } : Ui).Agrees := h
    exact hstopped.restoreProgram
  | apply =>
    rw [Ui.act, Ui.apply]
    apply Agrees.restoreProgram
    split_ifs
    · rfl
    · rfl
  | load prog => exact Agrees.loadHexFile hreset prog

theorem Ui.agrees_acts (actions : List Action) : (actions.foldl Ui.act {}).Agrees := by
  induction actions using List.reverseRecOn with
  | nil => rfl
  | append_singleton actions action ih =>
    rw [List.foldl_append]
    exact ih.act action

theorem Ui.execTrace_reset (ui : Ui) {action : Action} (h : action.Resets) :
    (ui.act action).execTrace = [] := by
  cases action with
  | reset => rfl
  | apply =>
    rw [Ui.act, Ui.apply, restoreProgram_execTrace]
    split <;> rfl
  | load prog => exact loadHexFile_execTrace _ prog
  | step | auto | tick | runToHalt | selectModel => exact h.elim

-- A program in the memory of the UI.
section Loaded

variable {words : List Word} {prog : HexProgram}

def loadedMemory (words : List Word) : Memory :=
  Memory.loadWordsFrom 0#32 0 words (.ofSize kMemBytes)

theorem readWord_loadedMemory (hfits : words.length * 4 ≤ kMemBytes) {j : ℕ} {word : Word}
    (hj : words[j]? = some word) :
    (loadedMemory words).readWord (BitVec.ofNat 32 (j * 4)) = some word := by
  have hmax : kMemBytes = 65536 := rfl
  have hsize : 0 + (0 + words.length) * 4 ≤ (Memory.ofSize kMemBytes).size := by
    rw [Memory.size_ofSize]
    omega
  have hread := @Memory.readWord_loadWordsFrom 0#32 rfl 0 j words word (.ofSize kMemBytes) hsize
    (by simp only [BitVec.toNat_ofNat]; omega) hj
  rwa [BitVec.zero_add, Nat.zero_add] at hread

theorem readWord_loadedMemory_vector : (loadedMemory words).readWord kExceptionVector = none := by
  have hsize : (loadedMemory words).size = kMemBytes := by
    rw [loadedMemory, Memory.size_loadWordsFrom, Memory.size_ofSize]
  have hout : (loadedMemory words).inBounds kExceptionVector 4 = false := by
    rw [Memory.inBounds, decide_eq_false_iff_not, ← Memory.size, hsize]
    decide
  rw [Memory.readWord, hout]
  simp

theorem act_load_cpu (ui : Ui) (h : prog.error = none) :
    (ui.act (.load prog)).cpu = (Ui.loadAtZero (ui.cpu.reset true) prog.words).2 := by
  rw [Ui.act, Ui.load, Ui.loadHexFile, h]
  dsimp only
  split <;> rfl

theorem act_load_singleCycle (h : prog.error = none) (hfits : prog.words.length * 4 ≤ kMemBytes) :
    (({} : Ui).act (.load prog)).cpu =
      .singleCycle { SingleCycleCpu.create kMemBytes with mem := loadedMemory prog.words } := by
  have hreset : (SingleCycleCpu.create kMemBytes).reset true = .create kMemBytes := by
    rw [SingleCycleCpu.reset, if_pos rfl, SingleCycleCpu.create, Memory.reset, Memory.size_ofSize]
    rfl
  rw [act_load_cpu _ h]
  change (Ui.loadAtZero (.singleCycle ((SingleCycleCpu.create kMemBytes).reset true)) _).2 = _
  rw [hreset, Ui.loadAtZero, Cpu.loadProgram, SingleCycleCpu.loadProgram, SingleCycleCpu.create,
    Memory.loadWords_ofSize hfits]
  rfl

def switched : Ui := [.selectModel 1, .apply].foldl Ui.act {}

theorem act_load_pipelined (h : prog.error = none) (hfits : prog.words.length * 4 ≤ kMemBytes) :
    (switched.act (.load prog)).cpu =
      .pipelined { PipelinedCpu.create kMemBytes with mem := loadedMemory prog.words } := by
  have hreset : ((PipelinedCpu.create kMemBytes).reset true).reset true = .create kMemBytes := by
    simp only [PipelinedCpu.reset, if_true, PipelinedCpu.create, Memory.reset, Memory.size_ofSize]
    rfl
  rw [act_load_cpu _ h]
  change (Ui.loadAtZero (.pipelined (((PipelinedCpu.create kMemBytes).reset true).reset true))
    _).2 = _
  rw [hreset, Ui.loadAtZero, Cpu.loadProgram, PipelinedCpu.loadProgram, PipelinedCpu.create,
    Memory.loadWords_ofSize hfits]
  rfl

end Loaded

namespace Cpu

theorem retirement_mem (cpu : PipelinedCpu) (mem : Memory) :
    ({ cpu with mem } : PipelinedCpu).retirement = cpu.retirement := rfl

theorem run_pipelined (cpu : PipelinedCpu) (n : ℕ) :
    (fun c : Cpu => c.step.2)^[n] (.pipelined cpu) = .pipelined (cpu.run n) := by
  induction n with
  | zero => rfl
  | succ n ih =>
    rw [Function.iterate_succ_apply', ih, PipelinedCpu.run_succ]
    rfl

theorem completedRun_pipelined (cpu : PipelinedCpu) (n : ℕ) :
    (pipelined cpu).completedRun n = Simulation.sequence (fun i =>
      ((cpu.run i).retirement.map fun done => TraceEntry.mk done.pc done.raw).toList) n := by
  rw [completedRun, Simulation.trace_eq_sequence]
  simp only [run_pipelined]
  rfl

end Cpu

-- addi $t0, $0, 1; addi $t1, $t0, 1; j 8; nop
def forwardProgram : HexProgram :=
  { words := [0x20080001#32, 0x21090001#32, 0x08000002#32, 0#32], error := none }

def smallCpu : PipelinedCpu :=
  { PipelinedCpu.create 16 with
    mem := Memory.loadWordsFrom 0#32 0 forwardProgram.words (.ofSize 16) }

theorem forward_completed :
    let start := switched.act (.load forwardProgram)
    (start.doSteps 4).cpu.pipelineState.fwdExToExA = true ∧ start.cpu.completedRun 8 =
      [⟨0#32, 0x20080001#32⟩, ⟨4#32, 0x21090001#32⟩, ⟨8#32, 0x08000002#32⟩] := by
  intro start
  have hcpu : start.cpu = .pipelined { smallCpu with mem := loadedMemory forwardProgram.words } :=
    act_load_pipelined rfl (by decide)
  have htext : ∀ b < 8, (smallCpu.run b).FetchesText forwardProgram.words := by decide
  have hrun : ∀ {n}, n ≤ 8 → PipelinedCpu.run
      { smallCpu with mem := loadedMemory forwardProgram.words } n =
        { smallCpu.run n with mem := loadedMemory forwardProgram.words } := fun hn =>
    PipelinedCpu.run_of_text (fun b hb => htext b (by omega)) fun hj => by
      rw [List.getElem?_eq_getElem hj]
      exact readWord_loadedMemory (by decide) (List.getElem?_eq_getElem hj)
  constructor
  · rw [Ui.doSteps_cpu, hcpu, Cpu.run_pipelined, hrun (by decide)]
    decide
  · rw [hcpu, Cpu.completedRun_pipelined]
    calc _ = Simulation.sequence (fun i => ((smallCpu.run i).retirement.map fun done =>
            TraceEntry.mk done.pc done.raw).toList) 8 :=
          Simulation.sequence_congr fun i hi => by rw [hrun (by omega), Cpu.retirement_mem]
      _ = _ := by decide

-- A word that does not decode. The fault leaves PC outside of the memory.
def reservedProgram : HexProgram := { words := [0xFC000000#32], error := none }

-- The CPU comes from one state without an instruction to the next.
structure Astray (cpu : SingleCycleCpu) : Prop where
  mem : cpu.mem = loadedMemory reservedProgram.words
  pc : cpu.pc = 0#32 ∨ cpu.pc = kExceptionVector
  ps : cpu.ps = {}

theorem Astray.not_decodes {cpu : SingleCycleCpu} (h : Astray cpu) : ¬cpu.Decodes := by
  rintro ⟨raw, d, hr, hd⟩
  rw [h.mem] at hr
  rcases h.pc with hpc | hpc
  · have hword : (loadedMemory reservedProgram.words).readWord 0#32 = some 0xFC000000#32 :=
      @readWord_loadedMemory reservedProgram.words (by decide) 0 _ rfl
    rw [hpc, hword] at hr
    have hnone : Decoder.decode 0xFC000000#32 = none := by decide
    rw [← Option.some.inj hr, hnone] at hd
    cases hd
  · rw [hpc, readWord_loadedMemory_vector] at hr
    cases hr

theorem Astray.step {cpu : SingleCycleCpu} (h : Astray cpu) :
    cpu.step.1 = .Exception ∧ Astray cpu.step.2 := by
  have hps := (SingleCycleCpu.step_ps_of_not_decodes h.not_decodes).1.trans h.ps
  cases hr : cpu.mem.readWord cpu.pc with
  | none =>
    rw [SingleCycleCpu.step_fault hr] at hps ⊢
    exact ⟨rfl, h.mem, .inr rfl, hps⟩
  | some raw =>
    cases hd : Decoder.decode raw with
    | none =>
      rw [SingleCycleCpu.step_reserved hr hd] at hps ⊢
      exact ⟨rfl, h.mem, .inr rfl, hps⟩
    | some d => exact absurd ⟨raw, d, hr, hd⟩ h.not_decodes

theorem Astray.tracesExactly {cpu : SingleCycleCpu} (h : Astray cpu) :
    (Cpu.singleCycle cpu).TracesExactly := by
  refine ⟨fun hdec => absurd hdec h.not_decodes, fun _ => ?_⟩
  rw [Cpu.traced, Cpu.tracedStage, h.ps]
  rfl

theorem Astray.doSteps {ui : Ui} {cpu : SingleCycleCpu} (h : Astray cpu)
    (hcpu : ui.cpu = .singleCycle cpu) (k : ℕ) :
    ∃ cpu, Astray cpu ∧ (ui.doSteps k).cpu = .singleCycle cpu := by
  induction k with
  | zero => exact ⟨cpu, h, hcpu⟩
  | succ k ih =>
    obtain ⟨cpu, hstray, hcpu⟩ := ih
    refine ⟨cpu.step.2, hstray.step.2, ?_⟩
    rw [Ui.doSteps_succ]
    change (Ui.cpu _).step.2 = _
    rw [hcpu]
    rfl

-- After any actions and a reset, steps that show what they complete leave the last eight
-- completions in the trace.
theorem execTrace_completed (actions : List Action) {restart : Action} (hrestart : restart.Resets)
    (n : ℕ) :
    let start := (actions.foldl Ui.act {}).act restart
    (∀ k < n, (start.doSteps k).cpu.TracesExactly) →
      ∀ k ≤ n, (start.doSteps k).execTrace = lastEight (start.cpu.completedRun k) := by
  intro start hexact k hk
  exact Ui.execTrace_doSteps ((Ui.agrees_acts actions).act restart)
    (Ui.execTrace_reset _ hrestart) fun i hi => hexact i (by omega)

-- The second addi of the first program takes its operand from the first. The second program
-- has no instruction, so the snapshot stays empty.
theorem execTrace_completed_loaded :
    (let start := switched.act (.load forwardProgram);
      (start.doSteps 4).cpu.pipelineState.fwdExToExA = true ∧ (start.doSteps 8).execTrace =
        [⟨0#32, 0x20080001#32⟩, ⟨4#32, 0x21090001#32⟩, ⟨8#32, 0x08000002#32⟩]) ∧
    let start := ({} : Ui).act (.load reservedProgram)
    ∀ k ≤ 20, (start.doSteps k).doStep.1 = .Exception ∧
      (start.doSteps k).execTrace = lastEight (start.cpu.completedRun k) := by
  constructor
  · intro start
    have hagrees : start.Agrees := (Ui.agrees_acts [.selectModel 1, .apply]).act _
    have hmode : start.cpu.mode = .Pipelined := by
      rw [act_load_pipelined rfl (by decide)]
      rfl
    obtain ⟨hforward, hcompleted⟩ := forward_completed
    have hload : Action.Resets (.load forwardProgram) := trivial
    have htrace := execTrace_completed [.selectModel 1, .apply] hload 8
      (fun k _ => Cpu.tracesExactly_of_pipelined ((hagrees.mode_doSteps k).trans hmode)) 8 le_rfl
    exact ⟨hforward, htrace.trans (congrArg lastEight hcompleted)⟩
  · intro start k hk
    have hload : Action.Resets (.load reservedProgram) := trivial
    have hcpu := @act_load_singleCycle reservedProgram rfl (by decide)
    have hastray : Astray { SingleCycleCpu.create kMemBytes with
      mem := loadedMemory reservedProgram.words } := ⟨by dsimp only, .inl rfl, rfl⟩
    obtain ⟨cpu, hstray, hnow⟩ := hastray.doSteps hcpu k
    refine ⟨?_, execTrace_completed [] hload 20 (fun i _ => ?_) k hk⟩
    · change (Ui.cpu _).step.1 = _
      rw [hnow]
      exact hstray.step.1
    · obtain ⟨cpu, hstray, hnow⟩ := hastray.doSteps hcpu i
      rw [List.foldl_nil, hnow]
      exact hstray.tracesExactly

section Syscall

-- A SYSCALL traps, and is shown as if it had completed.
theorem syscall_shown {ui : Ui} {cpu : SingleCycleCpu} (h : ui.Agrees) (htrace : ui.execTrace = [])
    (hcpu : ui.cpu = .singleCycle cpu) (hr : cpu.mem.readWord cpu.pc = some 0x0000000C#32) :
    (ui.doSteps 1).execTrace = [{ pc := cpu.pc, raw := 0x0000000C#32 }] ∧
      ui.cpu.completedRun 1 = [] := by
  let syscall : DecodedInstr :=
    { raw := 0x0000000C#32, opcode := .SPECIAL, format := .R, fields := .r { funct := .SYSCALL } }
  have hd : Decoder.decode 0x0000000C#32 = some syscall := by decide
  have htrap : cpu.arch.trapped = true := by
    rw [Arch.trapped, Arch.outcome_decoded hr hd]
    rfl
  obtain ⟨htraced, hcompleted⟩ := Cpu.traced_of_decodes hr hd
  rw [htrap, if_pos rfl] at hcompleted
  constructor
  · rw [Ui.doSteps_succ, Ui.doSteps, Function.iterate_zero_apply, h.execTrace_doStep, htrace, hcpu,
      htraced]
    rfl
  · rw [Cpu.completedRun, Simulation.trace_succ, hcpu]
    simp [hcompleted]

-- A program of one SYSCALL.
def syscallProgram : HexProgram := { words := [0x0000000C#32], error := none }

theorem execTrace_trapped : ¬∀ (actions : List Action) (restart : Action), restart.Resets →
    ∀ n, let start := (actions.foldl Ui.act {}).act restart
      (start.doSteps n).execTrace = lastEight (start.cpu.completedRun n) := by
  intro hall
  have hexact := hall [] (.load syscallProgram) trivial 1
  have hr : (loadedMemory syscallProgram.words).readWord 0#32 = some 0x0000000C#32 :=
    @readWord_loadedMemory syscallProgram.words (by decide) 0 _ rfl
  have hcpu := @act_load_singleCycle syscallProgram rfl (by decide)
  have hfresh : ({} : Ui).Agrees := rfl
  obtain ⟨hshown, hnone⟩ := syscall_shown (hfresh.act (.load syscallProgram))
    (Ui.execTrace_reset _ trivial) hcpu (by simp only [SingleCycleCpu.create]; exact hr)
  simp only [List.foldl_nil] at hexact
  rw [hshown, hnone] at hexact
  cases hexact

end Syscall

end ClearCore.Nsc
