import ClearCore.Qt.Assembler.EndToEnd
import ClearCore.Quick.Simulator.Contracts
import ClearCore.Quick.Simulator.Freshness

-- A program from the editor to the registers that QML shows when it has halted.

namespace ClearCore.Quick

open Isa Mips Qt Assembler

namespace Processor

def run (processor : Processor) (k : ℕ) : Processor :=
  (fun p => (IMipsProcessor.step p).2)^[k] processor

theorem run_succ (processor : Processor) (k : ℕ) :
    processor.run (k + 1) = (IMipsProcessor.step (processor.run k)).2 :=
  Function.iterate_succ_apply' _ _ _

theorem run_single (cpu : SingleCycleCpu) (k : ℕ) : run (single cpu) k = single (cpu.run k) := by
  induction k with
  | zero => rfl
  | succ k ih =>
    rw [run_succ, ih, SingleCycleCpu.run_succ]
    rfl

theorem run_pipelined (cpu : PipelinedCpu) (k : ℕ) :
    run (pipelined cpu) k = pipelined (cpu.run k) := by
  induction k with
  | zero => rfl
  | succ k ih =>
    rw [run_succ, ih, PipelinedCpu.run_succ]
    rfl

-- It is Ok for `k` cycles and halts in the next one.
structure HaltsAfter (processor : Processor) (k : ℕ) : Prop where
  ok : ∀ i < k, (IMipsProcessor.step (processor.run i)).1 = .Ok
  halt : (IMipsProcessor.step (processor.run k)).1 = .Halt

-- Where a load leaves the source machine.
def start (processor : Processor) (words : List Word) : Arch where
  regs := .initial
  mem := Memory.loadWordsFrom 0#32 0 words (.ofSize (IMipsProcessor.mem processor).size)
  cp0 := (IMipsProcessor.cp0 processor).reset
  pc := 0#32

-- Both CPU models come to the end of the source machine.
theorem halts {processor : Processor} {source : Text} {n : ℕ} {final : Arch}
    (hok : (assemble source).ok = true) (hsmall : (assemble source).words.length < 2 ^ 26)
    (hfits : (assemble source).words.length * 4 ≤ (IMipsProcessor.mem processor).size)
    (h : Halts (sourceLines source) (processor.start (assemble source).words) n final) :
    ∃ k < 4 * (n + 4),
      HaltsAfter ((IMipsProcessor.reset processor true).withText (assemble source).words) k ∧
      IMipsProcessor.regs (((IMipsProcessor.reset processor true).withText
        (assemble source).words).run (k + 1)) = final.regs ∧
      IMipsProcessor.mem (((IMipsProcessor.reset processor true).withText
        (assemble source).words).run (k + 1)) = final.mem := by
  have hwords : (Memory.ofSize (IMipsProcessor.mem processor).size).loadWords 0#32
      (assemble source).words = some (true, (processor.start (assemble source).words).mem) := by
    rw [Memory.loadWords_zero, if_pos]
    · rfl
    · rw [Memory.size, Memory.ofSize, Array.size_replicate]
      exact hfits
  have hload := TextLoaded.of_loadWords hok hsmall hwords
  cases processor with
  | single cpu =>
    let loaded : SingleCycleCpu := { cpu.reset true with
      mem := Memory.loadWordsFrom 0#32 0 (assemble source).words cpu.mem.reset, pc := 0#32 }
    have hrun : Halts (sourceLines source) loaded.arch n final := h
    obtain ⟨hbefore, hhalt, hfinal⟩ := hrun.singleCycle hload
    refine ⟨n, by omega, ⟨fun i hi => ?_, ?_⟩, ?_, ?_⟩
    · change (IMipsProcessor.step (run (single loaded) i)).1 = .Ok
      rw [run_single]
      exact hbefore i hi
    · change (IMipsProcessor.step (run (single loaded) n)).1 = .Halt
      rw [run_single]
      exact hhalt
    · change IMipsProcessor.regs (run (single loaded) (n + 1)) = _
      rw [run_single, SingleCycleCpu.run_succ, ← hfinal]
      rfl
    · change IMipsProcessor.mem (run (single loaded) (n + 1)) = _
      rw [run_single, SingleCycleCpu.run_succ, ← hfinal]
      rfl
  | pipelined cpu =>
    let reference : SingleCycleCpu :=
      { regs := .initial, cp0 := cpu.cp0.reset
        mem := Memory.loadWordsFrom 0#32 0 (assemble source).words cpu.mem.reset }
    let loaded : PipelinedCpu := { cpu.reset true with
      mem := Memory.loadWordsFrom 0#32 0 (assemble source).words cpu.mem.reset, pc := 0#32 }
    have hrun : Halts (sourceLines source) reference.arch n final := h
    have hempty : loaded.Empty := ⟨rfl, rfl, rfl, rfl⟩
    obtain ⟨k, hk, hbefore, hhalt, hregs, hmem, -⟩ := hrun.pipelined hload hempty rfl
    refine ⟨k, hk, ⟨fun i hi => ?_, ?_⟩, ?_, ?_⟩
    · change (IMipsProcessor.step (run (pipelined loaded) i)).1 = .Ok
      rw [run_pipelined]
      exact hbefore i hi
    · change (IMipsProcessor.step (run (pipelined loaded) k)).1 = .Halt
      rw [run_pipelined]
      exact hhalt
    · change IMipsProcessor.regs (run (pipelined loaded) (k + 1)) = _
      rw [run_pipelined, PipelinedCpu.run_succ]
      exact hregs
    · change IMipsProcessor.mem (run (pipelined loaded) (k + 1)) = _
      rw [run_pipelined, PipelinedCpu.run_succ]
      exact hmem

-- A reset forgets what has been loaded.
theorem reset_loadProgram {processor processor' : Processor} {words : List Word} {addr : Word}
    {ok : Bool} (h : IMipsProcessor.loadProgram processor words addr = some (ok, processor')) :
    IMipsProcessor.reset processor' true = IMipsProcessor.reset processor true := by
  have hreset : ∀ {mem mem' : Memory}, mem'.size = mem.size → mem'.reset = mem.reset :=
    fun hsize => congrArg Memory.ofSize hsize
  cases processor with
  | single cpu =>
    obtain ⟨⟨fits, cpu'⟩, hload, heq⟩ := Option.map_eq_some_iff.mp h
    obtain ⟨-, rfl⟩ := Prod.mk.inj heq
    have hmem := hreset (LawfulProcessor.size_loadProgram (P := SingleCycleCpu) hload)
    obtain ⟨⟨fits', mem⟩, -, heq⟩ := Option.map_eq_some_iff.mp hload
    cases fits' <;>
    · obtain ⟨-, rfl⟩ := Prod.mk.inj heq
      change single { regs := _, cp0 := _, mem := mem.reset } = _
      rw [show mem.reset = cpu.mem.reset from hmem]
      rfl
  | pipelined cpu =>
    obtain ⟨⟨fits, cpu'⟩, hload, heq⟩ := Option.map_eq_some_iff.mp h
    obtain ⟨-, rfl⟩ := Prod.mk.inj heq
    have hmem := hreset (LawfulProcessor.size_loadProgram (P := PipelinedCpu) hload)
    obtain ⟨⟨fits', mem⟩, -, heq⟩ := Option.map_eq_some_iff.mp hload
    cases fits' <;>
    · obtain ⟨-, rfl⟩ := Prod.mk.inj heq
      change pipelined { regs := _, cp0 := _, mem := mem.reset } = _
      rw [show mem.reset = cpu.mem.reset from hmem]
      rfl

theorem reset_reset (processor : Processor) :
    IMipsProcessor.reset (IMipsProcessor.reset processor true) true =
      IMipsProcessor.reset processor true := by
  have hmem : ∀ mem : Memory, mem.reset.reset = mem.reset :=
    fun _ => congrArg Memory.ofSize Array.size_replicate
  cases processor with
  | single cpu =>
    change single { regs := _, cp0 := _, mem := cpu.mem.reset.reset } = _
    rw [hmem]
    rfl
  | pipelined cpu =>
    change pipelined { regs := _, cp0 := _, mem := cpu.mem.reset.reset } = _
    rw [hmem]
    rfl

theorem reset_anew {ctl : SimulatorController Processor} {processor : Processor}
    (h : ctl.Anew processor) :
    IMipsProcessor.reset processor true = IMipsProcessor.reset ctl.processor true := by
  obtain rfl | ⟨words, addr, ok, hload⟩ := h
  · exact reset_reset _
  · rw [reset_loadProgram hload, reset_reset]

end Processor

namespace Ui

variable {past : SimulatorController Processor → Prop} {ui : Ui} {memBytes k : ℕ}

-- A program that fits is in the memory of a processor that has been reset.
theorem load_fits (h : ui.sim.Sound memBytes) {words : List Word}
    (hfits : words.length * 4 ≤ memBytes) :
    ∃ result, ui.load words = some result ∧ result.1 = [] ∧
      result.2.sim.ctl.processor =
        (IMipsProcessor.reset ui.sim.ctl.processor true).withText words ∧
      result.2.sim.ctl.breakpoints = ui.sim.ctl.breakpoints ∧ result.2.sim.running = false ∧
      result.2.sim.programLoaded = true := by
  obtain ⟨cleared, hcleared, haligned⟩ := h.stop.reset
  obtain ⟨emitted, hemitted, -, hprocessor⟩ := haligned.loadProgram words
  rw [decide_eq_true hfits] at hemitted
  have hload := load_eq_some hcleared hemitted
  obtain ⟨hctl, -, hloaded⟩ := finishLoad_kept
    ((((ui.withCtl ui.sim.ctl.stop).receive cleared).withProgram words).receive emitted) true
  obtain ⟨middle, program, hanew, rfl⟩ := SimulatorController.reset_cases hcleared
  obtain ⟨processor, loaded, -, rfl⟩ := SimulatorController.loadProgram_cases hemitted
  refine ⟨_, hload, rfl, ?_, ?_, ?_, hloaded⟩
  · rw [hctl, receive_ctl, hprocessor hfits]
    congr 1
    exact Processor.reset_anew hanew
  · rw [hctl, receive_ctl]
    rfl
  · rw [Simulator.running, hctl, receive_ctl]
    rfl

theorem ending_eq_none {ctl : SimulatorController Processor} (hbreak : ctl.breakpoints = ∅)
    (hok : (IMipsProcessor.step ctl.processor).1 = .Ok) : ctl.ending = none := by
  rw [SimulatorController.ending, hok]
  simp [hbreak]

-- Timeouts of a run without breakpoints.
theorem run_timeouts (hrunning : ui.sim.running = true) (hbreak : ui.sim.ctl.breakpoints = ∅)
    (hok : ∀ i < k, (IMipsProcessor.step (ui.sim.ctl.processor.run i)).1 = .Ok) :
    ∃ next, ui.run (List.replicate k .timeout) = some next ∧ next.sim.running = true ∧
      next.sim.ctl.breakpoints = ∅ ∧ next.sim.ctl.processor = ui.sim.ctl.processor.run k := by
  induction k generalizing ui with
  | zero => exact ⟨ui, rfl, hrunning, hbreak, rfl⟩
  | succ k ih =>
    have hending := ending_eq_none hbreak (hok 0 (by omega))
    have htimeout : ui.timeout = ui.receive ui.sim.ctl.doStep := if_pos hrunning
    have hctl : ui.timeout.sim.ctl = { ui.sim.ctl with
        processor := ui.sim.ctl.next
        stats := ui.sim.ctl.cycleStats
        timerActive := ui.sim.ctl.timerActive && ui.sim.ctl.ending.isNone } := by
      rw [htimeout, receive_ctl, SimulatorController.doStep_ctl]
    have hprocessor : ui.timeout.sim.ctl.processor = (IMipsProcessor.step ui.sim.ctl.processor).2 := by
      rw [hctl]
      rfl
    have hstill : ui.timeout.sim.running = true := by
      rw [Simulator.running, hctl, hending]
      exact Bool.and_eq_true_iff.mpr ⟨hrunning, rfl⟩
    have hnone : ui.timeout.sim.ctl.breakpoints = ∅ := by
      rw [hctl]
      exact hbreak
    obtain ⟨next, hrun, hactive, hnone, hend⟩ := ih hstill hnone fun i hi => by
      rw [hprocessor]
      exact hok (i + 1) (by omega)
    refine ⟨next, hrun, hactive, hnone, ?_⟩
    rw [hend, hprocessor]
    rfl

-- The registers and the memory of the processor, as QML shows them.
structure Displays (ui : Ui) (regs : RegisterFile) (mem : Memory) : Prop where
  rows : ∀ i, ui.qml.rows i = RegisterModel.data ⟨regs.regs, regs.lastWritten⟩ i
  dump : ui.qml.dump = memoryRows mem ui.qml.baseAddress 64

theorem Behind.displays (h : ui.Behind past 0) :
    ui.Displays (IMipsProcessor.regs ui.sim.ctl.processor)
      (IMipsProcessor.mem ui.sim.ctl.processor) := by
  obtain ⟨old, -, hshows, hprocessor, -, j, hj, mid, -, hmid, hdump⟩ := h.panes
  obtain rfl := Nat.le_zero.mp hj
  rw [hprocessor]
  rw [hmid] at hdump
  exact ⟨hshows.rows, hdump⟩

-- The timeout in which the processor halts ends the run.
theorem timeout_halt (h : ui.Consistent) (hlags : ui.Lags (fun _ => True) k) (hrunning : ui.sim.running = true)
    (hhalt : (IMipsProcessor.step ui.sim.ctl.processor).1 = .Halt) :
    ui.timeout.qml.status = "Halted".toList ∧ ui.timeout.qml.running = false ∧
      ui.timeout.Displays (IMipsProcessor.regs ui.sim.ctl.next)
        (IMipsProcessor.mem ui.sim.ctl.next) := by
  have hending : ui.sim.ctl.ending = some .halted := by
    rw [SimulatorController.ending, hhalt]
  have htimeout : ui.timeout = ui.receive ui.sim.ctl.doStep := if_pos hrunning
  have hstop : ui.timeout.sim.running = false := by
    rw [htimeout, Simulator.running, receive_ctl, SimulatorController.doStep_ctl, hending]
    exact Bool.and_false _
  obtain ⟨hnext, hheard⟩ := h.timeout
  refine ⟨?_, ?_, ?_⟩
  · refine (hnext.coherent .status (Set.notMem_empty _)).trans ?_
    rw [htimeout]
    refine (congrArg Simulator.status (receive_sim ui ui.sim.ctl.doStep.1 _)).trans ?_
    rw [SimulatorController.doStep_signals, hending, List.foldl_append]
    rfl
  · rcases hheard with heq | ⟨-, hsame⟩
    · rw [heq, hstop]
    · rw [hstop, hrunning] at hsame
      cases hsame
  · obtain ⟨k', hlast, hzero⟩ := hlags.timeout trivial
    rw [hzero hrunning (.inl hstop)] at hlast
    have hprocessor : ui.timeout.sim.ctl.processor = ui.sim.ctl.next := by
      rw [htimeout, receive_ctl, SimulatorController.doStep_ctl]
    rw [← hprocessor]
    exact (hlast.behind hnext.coherent).displays

theorem assembleAndLoad_ok {source : Text} (hok : (assemble source).ok = true) :
    ui.assembleAndLoad source = ui.load (assemble source).words := by
  have herror : (assemble source).error = none := by
    simpa [AssemblerResult.ok] using hok
  rw [Ui.assembleAndLoad, herror]

-- Run, when the timer does not.
theorem runPause_starts (hloaded : ui.sim.programLoaded = true)
    (hstopped : ui.sim.running = false) :
    ui.runPause.sim.running = true ∧ ui.runPause.sim.ctl.processor = ui.sim.ctl.processor ∧
      ui.runPause.sim.ctl.breakpoints = ui.sim.ctl.breakpoints := by
  rw [Ui.runPause, hloaded, hstopped, if_neg (by decide), if_neg (by decide), emit_sim,
    setStatus_sim]
  exact ⟨rfl, rfl, rfl⟩

-- The state before the timeout that ends the run.
theorem run_until_halt (h : ui.sim.Sound memBytes) {source : Text}
    (hok : (assemble source).ok = true)
    (hfits : (assemble source).words.length * 4 ≤ memBytes) (hbreak : ui.sim.ctl.breakpoints = ∅)
    (hhalts : Processor.HaltsAfter
      ((IMipsProcessor.reset ui.sim.ctl.processor true).withText (assemble source).words) k) :
    ∃ last, ui.run (.assembleAndLoad source :: .runPause :: List.replicate k .timeout) =
        some last ∧ last.sim.running = true ∧
      last.sim.ctl.processor =
        ((IMipsProcessor.reset ui.sim.ctl.processor true).withText (assemble source).words).run k := by
  obtain ⟨result, hload, -, hprocessor, hbps, hstopped, hprogram⟩ := load_fits h hfits
  obtain ⟨hrunning, hprocessor', hbps'⟩ := runPause_starts hprogram hstopped
  rw [hprocessor] at hprocessor'
  rw [hbps, hbreak] at hbps'
  have htimeouts := run_timeouts hrunning hbps' fun i hi => by
    rw [hprocessor']
    exact hhalts.ok i hi
  obtain ⟨last, hlast, hactive, -, hend⟩ := htimeouts
  refine ⟨last, ?_, hactive, hend.trans (by rw [hprocessor'])⟩
  have hact : ui.act (.assembleAndLoad source) = some result.2 := by
    rw [act, assembleAndLoad_ok hok, hload]
    rfl
  rw [Ui.run, hact]
  exact hlast

-- Whatever has been done before: a program whose source machine halts is loaded and run, and
-- when it has halted QML shows the registers and the memory of the source machine.
theorem run_halts {inputs : List Input} {source : Text} {n : ℕ} {final : Arch}
    (hmem : memBytes ≤ 2 ^ 27) (hrun : (create memBytes).run inputs = some ui)
    (hbreak : ui.sim.ctl.breakpoints = ∅) (hok : (assemble source).ok = true)
    (hfits : (assemble source).words.length * 4 ≤ memBytes)
    (h : Halts (sourceLines source) (ui.sim.ctl.processor.start (assemble source).words) n final) :
    ∃ k < 4 * (n + 4), ∃ ended,
      ui.run (.assembleAndLoad source :: .runPause :: List.replicate (k + 1) .timeout) =
          some ended ∧
        ended.qml.status = "Halted".toList ∧ ended.qml.running = false ∧
        ended.Displays final.regs final.mem := by
  have hsound : ui.sim.Sound memBytes := by
    obtain ⟨other, hother, hsound⟩ := sound_run (sound_create memBytes) inputs
    obtain rfl := Option.some.inj (hrun.symm.trans hother)
    exact hsound
  have hsize : (IMipsProcessor.mem ui.sim.ctl.processor).size = memBytes := hsound.aligned.size
  obtain ⟨k, hk, hhalts, hregs, hmemory⟩ :=
    Processor.halts hok (by omega) (by rw [hsize]; exact hfits) h
  obtain ⟨last, hlast, hrunning, hprocessor⟩ := run_until_halt hsound hok hfits hbreak hhalts
  have hall : (create memBytes).run
      (inputs ++ .assembleAndLoad source :: .runPause :: List.replicate k .timeout) = some last := by
    rw [run_append, hrun]
    exact hlast
  obtain ⟨hconsistent, -⟩ := (consistent_create memBytes).run (fun hr => by cases hr) hall
  obtain ⟨m, hlags⟩ := (lags_create trivial).run hall fun _ _ => trivial
  have hhalt : (IMipsProcessor.step last.sim.ctl.processor).1 = .Halt := by
    rw [hprocessor]
    exact hhalts.halt
  obtain ⟨hstatus, hbutton, hdisplays⟩ := timeout_halt hconsistent hlags hrunning hhalt
  refine ⟨k, hk, last.timeout, ?_, hstatus, hbutton, ?_⟩
  · rw [List.replicate_succ', ← List.cons_append, ← List.cons_append, run_append, hlast]
    rfl
  · rw [← hregs, ← hmemory, Processor.run_succ, ← hprocessor]
    exact hdisplays

theorem run_halts_countdown :
    ∃ k < 4 * (3 + 4), ∃ ended,
      (create 16).run (.assembleAndLoad countdown :: .runPause :: List.replicate (k + 1) .timeout) =
          some ended ∧
        ended.qml.status = "Halted".toList ∧ ended.qml.running = false := by
  let start : Arch := (create 16).sim.ctl.processor.start (assemble countdown).words
  have hnil : (create 16).run [] = some (create 16) := rfl
  have hrun : (sourceRun (sourceLines countdown) start 4).map (·.pc) = some 12#32 := by decide
  obtain ⟨final, hfinal, hpc⟩ := Option.map_eq_some_iff.mp hrun
  have h : Halts (sourceLines countdown) start 3 final := by
    refine ⟨hfinal, ⟨"j".toList, ["end".toList], ?_, .inl rfl⟩, ?_, by decide⟩
    · rw [hpc]
      decide
    · rw [hpc]
      decide
  obtain ⟨k, hk, ended, hended, hstatus, hbutton, -⟩ :=
    run_halts (by decide) hnil rfl (by decide) (by decide) h
  exact ⟨k, hk, ended, hended, hstatus, hbutton⟩

end Ui

end ClearCore.Quick
