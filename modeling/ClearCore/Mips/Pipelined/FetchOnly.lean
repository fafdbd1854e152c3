import ClearCore.Mips.Pipelined.FlushCause

-- As long as MEM has nothing to load or to store, the words that are fetched are all that a
-- run depends on in the memory.

namespace ClearCore.Mips.PipelinedCpu

open Isa

theorem memoryAccess_bypass (mem mem' : Memory) {exMem : ExMem} (h : ¬exMem.ctrl.Accesses) :
    memoryAccess mem exMem = ((memoryAccess mem' exMem).1, mem) := by
  obtain ⟨hr, hw⟩ := not_or.mp h
  unfold memoryAccess
  cases exMem.valid <;> simp [hr, hw]

variable {cpu : PipelinedCpu} {mem : Memory}

-- MEM accesses nothing, and IF finds the same word.
structure FetchesAlike (cpu : PipelinedCpu) (mem : Memory) : Prop where
  bypass : ¬cpu.exMem.ctrl.Accesses
  word : mem.readWord cpu.pc = cpu.mem.readWord cpu.pc

theorem FetchesAlike.runStages (h : cpu.FetchesAlike mem) :
    ({ cpu with mem } : PipelinedCpu).runStages = { cpu.runStages with memory := mem } := by
  have hfetch : fetch mem cpu.pc = fetch cpu.mem cpu.pc := by
    unfold fetch
    rw [h.word]
  have hstays : (memoryAccess cpu.mem cpu.exMem).2 = cpu.mem :=
    congrArg Prod.snd (memoryAccess_bypass cpu.mem cpu.mem h.bypass)
  unfold PipelinedCpu.runStages
  dsimp only
  rw [memoryAccess_bypass mem cpu.mem h.bypass, hstays, hfetch]
  unfold writeBack
  cases cpu.memWb.valid <;> rfl

theorem FetchesAlike.step (h : cpu.FetchesAlike mem) :
    ({ cpu with mem } : PipelinedCpu).step.2 = { cpu.step.2 with mem } := by
  unfold PipelinedCpu.step
  dsimp only
  rw [h.runStages]
  rfl

theorem run_fetchesAlike {n : ℕ} (h : ∀ b < n, (cpu.run b).FetchesAlike mem) :
    ({ cpu with mem } : PipelinedCpu).run n = { cpu.run n with mem } := by
  induction n with
  | zero => rfl
  | succ n ih =>
    rw [run_succ, run_succ, ih fun b hb => h b (Nat.lt_succ_of_lt hb)]
    exact (h n (Nat.lt_succ_self n)).step

-- IF finds a word of a text that lies from address 0 on.
def FetchesText (cpu : PipelinedCpu) (words : List Word) : Prop :=
  cpu.exMem.ctrl.memRead = false ∧ cpu.exMem.ctrl.memWrite = false ∧
    ∃ j < words.length, cpu.pc = BitVec.ofNat 32 (j * 4) ∧ cpu.mem.readWord cpu.pc = words[j]?

instance (cpu : PipelinedCpu) (words : List Word) : Decidable (cpu.FetchesText words) :=
  inferInstanceAs (Decidable (_ ∧ _ ∧ _))

theorem run_of_text {words : List Word} {n : ℕ} (h : ∀ b < n, (cpu.run b).FetchesText words)
    (hwords : ∀ {j}, j < words.length → mem.readWord (BitVec.ofNat 32 (j * 4)) = words[j]?) :
    ({ cpu with mem } : PipelinedCpu).run n = { cpu.run n with mem } := by
  refine run_fetchesAlike fun b hb => ?_
  obtain ⟨hread, hwrite, j, hj, hpc, hword⟩ := h b hb
  refine ⟨by rw [Control.Accesses, hread, hwrite]; decide, ?_⟩
  rw [hword, hpc]
  exact hwords hj

end ClearCore.Mips.PipelinedCpu
