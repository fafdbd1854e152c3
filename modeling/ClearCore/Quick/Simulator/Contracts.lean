import ClearCore.Mips.Processor.Lemmas
import ClearCore.Quick.Simulator.Running

-- No input fails a contract of the processor: what the bridge asks it to load is always aligned.

namespace ClearCore.Quick

open Isa Mips Qt

namespace Processor

-- A program in memory, from address 0 on.
def withText (processor : Processor) (words : List Word) : Processor :=
  processor.update
    (fun cpu => { cpu with mem := Memory.loadWordsFrom 0#32 0 words cpu.mem, pc := 0#32 })
    (fun cpu => { cpu with mem := Memory.loadWordsFrom 0#32 0 words cpu.mem, pc := 0#32 })

theorem loadProgram_zero (processor : Processor) (words : List Word) :
    IMipsProcessor.loadProgram processor words 0#32 =
      some (if words.length * 4 ≤ (IMipsProcessor.mem processor).size then
        (true, processor.withText words) else (false, processor)) := by
  cases processor with
  | single cpu =>
    change (cpu.loadProgram words 0#32).map (fun loaded => (loaded.1, single loaded.2)) =
      some (if words.length * 4 ≤ cpu.mem.size then _ else _)
    rw [SingleCycleCpu.loadProgram, Memory.loadWords_zero]
    split <;> rfl
  | pipelined cpu =>
    change (cpu.loadProgram words 0#32).map (fun loaded => (loaded.1, pipelined loaded.2)) =
      some (if words.length * 4 ≤ cpu.mem.size then _ else _)
    rw [PipelinedCpu.loadProgram, Memory.loadWords_zero]
    split <;> rfl

theorem size_step (processor : Processor) :
    (IMipsProcessor.mem (IMipsProcessor.step processor).2).size =
      (IMipsProcessor.mem processor).size := by
  cases processor with
  | single cpu => exact LawfulProcessor.size_step cpu
  | pipelined cpu => exact LawfulProcessor.size_step cpu

theorem size_reset (processor : Processor) (clearMemory : Bool) :
    (IMipsProcessor.mem (IMipsProcessor.reset processor clearMemory)).size =
      (IMipsProcessor.mem processor).size := by
  cases processor with
  | single cpu => exact LawfulProcessor.size_reset cpu clearMemory
  | pipelined cpu => exact LawfulProcessor.size_reset cpu clearMemory

theorem size_withText (processor : Processor) (words : List Word) :
    (IMipsProcessor.mem (processor.withText words)).size =
      (IMipsProcessor.mem processor).size := by
  cases processor <;> exact Memory.size_loadWordsFrom 0#32 0 words _

end Processor

-- What the controller keeps to itself: programs from address 0 on.
structure Aligned (ctl : SimulatorController Processor) (memBytes : ℕ) : Prop where
  size : (IMipsProcessor.mem ctl.processor).size = memBytes
  loaded : ∀ program ∈ ctl.loaded, program.addr = 0#32

section Controller

variable {ctl : SimulatorController Processor} {memBytes : ℕ}

theorem Aligned.doStep (h : Aligned ctl memBytes) : Aligned ctl.doStep.2 memBytes := by
  rw [SimulatorController.doStep_ctl]
  exact ⟨(Processor.size_step _).trans h.size, h.loaded⟩

-- A load from address 0 on comes back, with the words in memory if they fit.
theorem Aligned.loadProgram (h : Aligned ctl memBytes) (words : List Word) :
    ∃ emitted, ctl.loadProgram words 0#32 =
        some (decide (words.length * 4 ≤ memBytes), emitted) ∧
      Aligned emitted.2 memBytes ∧
      (words.length * 4 ≤ memBytes → emitted.2.processor =
        (IMipsProcessor.reset ctl.processor true).withText words) := by
  have hsize := (Processor.size_reset ctl.processor true).trans h.size
  have hload := Processor.loadProgram_zero (IMipsProcessor.reset ctl.processor true) words
  rw [hsize] at hload
  rw [SimulatorController.loadProgram]
  dsimp only
  rw [hload]
  by_cases hfits : words.length * 4 ≤ memBytes
  · rw [if_pos hfits, decide_eq_true hfits]
    refine ⟨_, rfl, ⟨?_, ?_⟩, fun _ => rfl⟩
    · exact (Processor.size_withText _ words).trans hsize
    · rintro program ⟨⟩
      rfl
  · rw [if_neg hfits, decide_eq_false hfits]
    refine ⟨_, rfl, ⟨hsize, ?_⟩, fun hin => absurd hin hfits⟩
    rintro program ⟨⟩

theorem Aligned.reset (h : Aligned ctl memBytes) :
    ∃ emitted, ctl.reset = some emitted ∧ Aligned emitted.2 memBytes := by
  have hsize := (Processor.size_reset ctl.processor true).trans h.size
  rw [SimulatorController.reset]
  cases hloaded : ctl.loaded with
  | none =>
    refine ⟨_, rfl, hsize, ?_⟩
    rintro program ⟨⟩
  | some program =>
    have haddr := h.loaded program hloaded
    have hload := Processor.loadProgram_zero (IMipsProcessor.reset ctl.processor true) program.words
    dsimp only
    rw [haddr, hload]
    by_cases hfits : program.words.length * 4 ≤ memBytes
    · rw [hsize, if_pos hfits]
      refine ⟨_, rfl, (Processor.size_withText _ _).trans hsize, ?_⟩
      rintro other ⟨⟩
      exact haddr
    · rw [hsize, if_neg hfits]
      refine ⟨_, rfl, hsize, ?_⟩
      rintro other ⟨⟩

end Controller

-- The memory keeps its size, and the timer runs for a loaded program only.
structure Simulator.Sound (sim : Simulator) (memBytes : ℕ) : Prop where
  aligned : Aligned sim.ctl memBytes
  memBytes : sim.memBytes = memBytes
  running : sim.running = true → sim.programLoaded = true

section Sound

variable {sim : Simulator} {memBytes : ℕ}

theorem Simulator.sound_of_stopped (haligned : Aligned sim.ctl memBytes)
    (hmemBytes : sim.memBytes = memBytes) (hstop : sim.running = false) : sim.Sound memBytes :=
  ⟨haligned, hmemBytes, fun hrunning => absurd (hstop.symm.trans hrunning) Bool.false_ne_true⟩

theorem Simulator.Sound.stop (h : sim.Sound memBytes) : Aligned sim.ctl.stop memBytes :=
  ⟨h.aligned.size, h.aligned.loaded⟩

end Sound

namespace Ui

variable {ui : Ui} {memBytes : ℕ}

theorem sound_doStep (h : ui.sim.Sound memBytes) :
    (ui.receive ui.sim.ctl.doStep).sim.Sound memBytes := by
  refine ⟨?_, ?_, ?_⟩
  · rw [receive_ctl]
    exact h.aligned.doStep
  · rw [receive_memBytes]
    exact h.memBytes
  · rw [Simulator.running, receive_ctl, receive_programLoaded, SimulatorController.doStep_ctl]
    intro hrunning
    exact h.running (Bool.and_eq_true_iff.mp hrunning).1

theorem sound_setStatus (h : ui.sim.Sound memBytes) (s : Text) :
    (ui.setStatus s).sim.Sound memBytes := by
  rw [setStatus_sim]
  exact ⟨h.aligned, h.memBytes, h.running⟩

-- A new state of the controller that has been stopped.
theorem sound_anew (ui : Ui) {ctl : SimulatorController Processor} {processor : Processor}
    {loaded : Option LoadedProgram} (haligned : Aligned (ctl.anew processor loaded) memBytes)
    (hmemBytes : ui.sim.memBytes = memBytes) (signals : List Signal) :
    (ui.receive (signals, ctl.anew processor loaded)).sim.Sound memBytes := by
  apply Simulator.sound_of_stopped
  · rw [receive_ctl]
    exact haligned
  · rw [receive_memBytes]
    exact hmemBytes
  · exact receive_anew_running _ _ _ _ _

theorem sound_reset (h : ui.sim.Sound memBytes) :
    ∃ next, ui.reset = some next ∧ next.sim.Sound memBytes := by
  obtain ⟨cleared, hcleared, haligned⟩ := h.stop.reset
  refine ⟨_, reset_eq_some hcleared, sound_setStatus ?_ _⟩
  obtain ⟨processor, loaded, -, rfl⟩ := SimulatorController.reset_cases hcleared
  rw [emitAll_sim]
  exact sound_anew (ui.withCtl ui.sim.ctl.stop).clear haligned h.memBytes _

theorem sound_finishLoad {ok : Bool} (h : ui.sim.Sound memBytes)
    (hstop : ui.sim.running = false) : (ui.finishLoad ok).2.sim.Sound memBytes := by
  obtain ⟨hctl, hmemBytes, -⟩ := finishLoad_kept ui ok
  apply Simulator.sound_of_stopped
  · rw [hctl]
    exact h.aligned
  · rw [hmemBytes]
    exact h.memBytes
  · rw [Simulator.running, hctl]
    exact hstop

-- A load comes back, and succeeds if the program fits.
theorem sound_load (h : ui.sim.Sound memBytes) (words : List Word) :
    ∃ result, ui.load words = some result ∧ result.2.sim.Sound memBytes ∧
      result.2.sim.programLoaded = decide (words.length * 4 ≤ memBytes) := by
  obtain ⟨cleared, hcleared, haligned⟩ := h.stop.reset
  obtain ⟨emitted, hemitted, haligned', -⟩ := haligned.loadProgram words
  have hload := load_eq_some hcleared hemitted
  obtain ⟨processor, loaded, -, rfl⟩ := SimulatorController.loadProgram_cases hemitted
  refine ⟨_, hload, sound_finishLoad ?_ ?_, (finishLoad_kept _ _).2.2⟩
  · apply sound_anew _ haligned'
    change (Ui.receive _ cleared).sim.memBytes = memBytes
    rw [receive_memBytes]
    exact h.memBytes
  · exact receive_anew_running _ _ _ _ _

theorem sound_assembleAndLoad (h : ui.sim.Sound memBytes) (source : Text) :
    ∃ result, ui.assembleAndLoad source = some result ∧ result.2.sim.Sound memBytes := by
  rw [Ui.assembleAndLoad]
  split
  · exact ⟨_, rfl, h⟩
  · obtain ⟨result, hload, hnext, -⟩ := sound_load h (Assembler.assemble source).words
    exact ⟨result, hload, hnext⟩

theorem aligned_fresh (ui : Ui) : Aligned ui.fresh.sim.ctl ui.sim.memBytes := by
  constructor
  · change (IMipsProcessor.mem (makeProcessor ui.sim.memBytes ui.sim.model)).size = _
    cases ui.sim.model <;> exact Array.size_replicate
  · rintro program ⟨⟩

theorem sound_reload (ui : Ui) :
    ∃ loaded, ui.fresh.reload = some loaded ∧ loaded.sim.Sound ui.sim.memBytes := by
  have haligned := aligned_fresh ui
  obtain ⟨emitted, hemitted, haligned', -⟩ := haligned.loadProgram ui.sim.lastProgram
  rw [reload]
  split
  · exact ⟨_, rfl, Simulator.sound_of_stopped haligned rfl rfl⟩
  · refine ⟨_, Option.bind_eq_some_iff.mpr ⟨_, hemitted, rfl⟩, ?_⟩
    obtain ⟨processor, loaded, -, rfl⟩ := SimulatorController.loadProgram_cases hemitted
    have hsound := sound_anew ui.fresh haligned' rfl
    exact Simulator.sound_of_stopped (hsound _).aligned (hsound _).memBytes
      (receive_anew_running _ _ _ _ _)

theorem sound_setModel (h : ui.sim.Sound memBytes) (m : CpuModel) :
    ∃ next, ui.setModel m = some next ∧ next.sim.Sound memBytes := by
  rw [Ui.setModel]
  split
  · exact ⟨ui, rfl, h⟩
  · obtain ⟨loaded, hloaded, hsound⟩ :=
      sound_reload { ui with sim := { ui.sim with model := m } }
    rw [rebuild_eq_some hloaded]
    refine ⟨_, rfl, ?_⟩
    rw [emit_sim]
    apply sound_setStatus
    rw [emitAll_sim, ← h.memBytes]
    exact hsound

theorem sound_act (h : ui.sim.Sound memBytes) (input : Input) :
    ∃ next, ui.act input = some next ∧ next.sim.Sound memBytes := by
  cases input with
  | step =>
    refine ⟨_, rfl, ?_⟩
    rw [Ui.step]
    split
    · exact h
    · dsimp only
      split
      · exact sound_setStatus (sound_doStep h) _
      · exact sound_doStep h
  | timeout =>
    refine ⟨_, rfl, ?_⟩
    rw [Ui.timeout]
    split
    · exact sound_doStep h
    · exact h
  | runPause =>
    refine ⟨_, rfl, ?_⟩
    rw [Ui.runPause]
    split
    · exact h
    · rename_i hloaded
      have htimer : ∀ timerActive,
          (ui.withCtl { ui.sim.ctl with timerActive }).sim.Sound memBytes := by
        intro timerActive
        refine ⟨⟨h.aligned.size, h.aligned.loaded⟩, h.memBytes, fun _ => ?_⟩
        change ui.sim.programLoaded = true
        simpa using hloaded
      split <;> exact sound_setStatus (htimer _) _
  | reset => exact sound_reset h
  | assembleAndLoad source =>
    obtain ⟨result, hload, hnext⟩ := sound_assembleAndLoad h source
    exact ⟨result.2, Option.map_eq_some_iff.mpr ⟨_, hload, rfl⟩, hnext⟩
  | setSpeed s =>
    refine ⟨_, rfl, ?_⟩
    rw [Ui.setSpeed]
    dsimp only
    split
    · exact h
    · exact ⟨⟨h.aligned.size, h.aligned.loaded⟩, h.memBytes, h.running⟩
  | setModel m => exact sound_setModel h m
  | toggleBreakpoint pc =>
    refine ⟨_, rfl, ?_⟩
    rw [Ui.toggleBreakpoint]
    split <;> exact ⟨⟨h.aligned.size, h.aligned.loaded⟩, h.memBytes, h.running⟩
  | go base => exact ⟨_, rfl, h⟩

theorem sound_run (h : ui.sim.Sound memBytes) (inputs : List Input) :
    ∃ next, ui.run inputs = some next ∧ next.sim.Sound memBytes := by
  induction inputs generalizing ui with
  | nil => exact ⟨ui, rfl, h⟩
  | cons input rest ih =>
    obtain ⟨middle, hact, hmiddle⟩ := sound_act h input
    obtain ⟨next, hrun, hnext⟩ := ih hmiddle
    exact ⟨next, Option.bind_eq_some_iff.mpr ⟨middle, hact, hrun⟩, hnext⟩

theorem sound_create (memBytes : ℕ) : (create memBytes).sim.Sound memBytes := by
  refine Simulator.sound_of_stopped ⟨Array.size_replicate, ?_⟩ rfl rfl
  rintro program ⟨⟩

-- Whatever the user does, no contract of the processor fails, the memory keeps its size, and
-- the timer runs for a loaded program only.
theorem run_isSome (memBytes : ℕ) (inputs : List Input) :
    ∃ ui, (create memBytes).run inputs = some ui ∧ ui.sim.memory.size = memBytes ∧
      (ui.sim.running = true → ui.sim.programLoaded = true) := by
  obtain ⟨ui, hrun, hsound⟩ := sound_run (sound_create memBytes) inputs
  exact ⟨ui, hrun, hsound.aligned.size, hsound.running⟩

end Ui

end ClearCore.Quick
