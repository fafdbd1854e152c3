import ClearCore.Mips.Pipelined.Trace

namespace ClearCore.Mips

open Isa

theorem bits_target (word : Word) : Decoder.bits word 25 0 = word &&& 0x03FFFFFF#32 := by
  simp [Decoder.bits]

-- IF recognises the self-targeting jumps by their fields.
theorem selfJump_iff (pc raw : Word) :
    PipelinedCpu.selfJump pc raw = true ↔ Arch.SelfTargeting pc raw := by
  have hop : Opcode.ofBits (((raw >>> 26) &&& 0x3F#32).setWidth 6) = Decoder.rawOpcode raw := rfl
  simp only [PipelinedCpu.selfJump, hop, ← bits_target, Bool.and_eq_true, decide_eq_true_eq]
  constructor
  · rintro ⟨hj, ht⟩
    have hf : Decoder.formatOf (Decoder.rawOpcode raw) = .J := by
      rcases hj with hj | hj <;> rw [hj] <;> rfl
    exact ⟨_, Decoder.decode_of_jump hf, rfl, ht⟩
  · rintro ⟨d, hd, hj, ht⟩
    cases hdec : Decoder.decode_decoded hd with
    | special | cop0 | immediate => cases hj
    | jump op hop' =>
      refine ⟨?_, ht⟩
      rw [← Decoder.decode_opcode hd]
      exact Decoder.formatOf_eq_J hop'

namespace PipelinedCpu

section Spinning

variable {cpu : PipelinedCpu} {arch : Arch}

-- At a self-targeting jump no trap comes up.
theorem Sim.spins (h : cpu.Sim arch) (hs : arch.Spins) (ht : cpu.pendingTrap = none) :
    cpu.runStages.trap = none ∧ cpu.step.2.pendingTrap = none := by
  have hnt := hs.step_eq.1
  cases h.cycle with
  | pending trap ht' hadv => simp [ht] at ht'
  | bubble _ hv hex hadv =>
    rw [trap_of_ex ht, step_pendingTrap, hex]
    exact ⟨rfl, rfl⟩
  | trapping _ hv raw code badAddr hout htrap hnext hadv => simp [Arch.trapped, hout] at hnt
  | passing _ hv raw d hr hd hno hperf hadv =>
    refine ⟨by rw [trap_of_ex ht, hperf.trap, hno], ?_⟩
    have hout := Arch.outcome_decoded hr hd
    rw [step_pendingTrap, h.mem]
    cases hact : (arch.action d).perform arch.mem arch.pc with
    | trap code badAddr =>
      rw [hact] at hout
      simp [Arch.trapped, hout] at hnt
    | done gpr store mem cp0 next => exact (memoryAccess_done hperf.carries hact).1

-- The halt marks behind EX are those of self-targeting jumps, and once one is
-- there the machine stands at that jump.
structure Marked (cpu : PipelinedCpu) (arch : Arch) : Prop where
  ex : cpu.exMem.valid = true → cpu.exMem.isHalt = selfJump cpu.exMem.pc cpu.exMem.raw
  wb : cpu.memWb.valid = true → cpu.memWb.isHalt = selfJump cpu.memWb.pc cpu.memWb.raw
  exSpins : cpu.exMem.valid = true → cpu.exMem.isHalt = true → arch.Spins
  wbSpins : cpu.memWb.valid = true → cpu.memWb.isHalt = true →
    arch.Spins ∧ cpu.pendingTrap = none

theorem Empty.marked (h : cpu.Empty) : cpu.Marked arch := by
  constructor <;> simp [h.exMem, h.memWb]

-- A valid MEM/WB comes from an EX/MEM that did not trap.
theorem step_memWb_valid (hv : cpu.step.2.memWb.valid = true) :
    cpu.pendingTrap = none ∧ cpu.exMem.valid = true ∧ cpu.step.2.memWb.pc = cpu.exMem.pc ∧
      cpu.step.2.memWb.raw = cpu.exMem.raw ∧ cpu.step.2.memWb.isHalt = cpu.exMem.isHalt := by
  rw [step_memWb] at hv ⊢
  have ht : cpu.pendingTrap = none := by
    by_contra ht
    simp [(memoryAccess_trap_next ht).1] at hv
  have hx : cpu.exMem.valid = true := by
    by_contra hx
    simp [memoryAccess_invalid cpu.mem (by simpa using hx)] at hv
  obtain ⟨-, hpc, hraw, -, -, -, hhalt⟩ := memoryAccess_next hx ht
  exact ⟨ht, hx, hpc, hraw, hhalt⟩

theorem Marked.step (hm : cpu.Marked arch) (h : cpu.Sim arch) :
    cpu.step.2.Marked (if cpu.advance then arch.step else arch) := by
  have hkeep : arch.Spins → (if cpu.advance then arch.step else arch).Spins := by
    intro hs
    cases cpu.advance
    · exact hs
    · exact hs.step
  have hex : cpu.step.2.exMem.valid = true →
      cpu.step.2.exMem.isHalt = selfJump cpu.step.2.exMem.pc cpu.step.2.exMem.raw ∧
        (cpu.step.2.exMem.isHalt = true → arch.Spins) := by
    rw [step_exMem]
    cases h.cycle with
    | pending trap ht hadv => simp [ex_of_pending ht]
    | bubble ht hv hx hadv => simp [hx]
    | trapping ht hv raw code badAddr hout htrap hnext hadv => simp [hnext]
    | passing ht hv raw d hr hd hno hperf hadv =>
      intro _
      have hholds := hperf.carries.holds hno
      rw [Decoder.decode_raw hd] at hholds
      rw [hholds.isHalt, hholds.pc, hholds.raw, selfJump_iff]
      exact ⟨rfl, fun hself => ⟨raw, hr, hself⟩⟩
  constructor
  · exact fun hv => (hex hv).1
  · intro hv
    obtain ⟨-, hx, hpc, hraw, hhalt⟩ := step_memWb_valid hv
    rw [hpc, hraw, hhalt]
    exact hm.ex hx
  · exact fun hv hhalt => hkeep ((hex hv).2 hhalt)
  · intro hv hself
    obtain ⟨ht, hx, -, -, hhalt⟩ := step_memWb_valid hv
    have hs := hm.exSpins hx (hhalt ▸ hself)
    exact ⟨hkeep hs, (h.spins hs ht).2⟩

theorem Marked.halt_iff (hm : cpu.Marked arch) (h : cpu.Sim arch) :
    cpu.step.1 = .Halt ↔ cpu.memWb.valid = true ∧ cpu.memWb.isHalt = true := by
  have hstep : cpu.step.1 = stepResult cpu.runStages := rfl
  rw [hstep, stepResult, runStages_halted]
  constructor
  · intro hh
    split_ifs at hh with _ hw
    simpa using hw
  · rintro ⟨hv, hself⟩
    obtain ⟨hs, ht⟩ := hm.wbSpins hv hself
    simp [(h.spins hs ht).1, hv, hself]

end Spinning

end PipelinedCpu

end ClearCore.Mips
