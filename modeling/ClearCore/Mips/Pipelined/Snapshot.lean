import ClearCore.Mips.Pipelined.FlushCause
import ClearCore.Mips.Pipelined.Forwarding

-- What can be told of a pipeline register from the word in the snapshot of it.

namespace ClearCore.Mips

open Isa

section Nop

variable {d : DecodedInstr}

theorem eq_nop (h : Decoder.decode 0#32 = some d) :
    d = { raw := 0#32, opcode := .SPECIAL, format := .R, fields := .r {} } := by
  have hnop : Decoder.decode 0#32 =
      some { raw := 0#32, opcode := .SPECIAL, format := .R, fields := .r {} } := by decide
  exact Option.some.inj (h.symm.trans hnop)

theorem destinationRegister_nop (h : Decoder.decode 0#32 = some d) :
    destinationRegister d = some 0#5 := by
  rw [eq_nop h]
  decide

theorem sources_nop (h : Decoder.decode 0#32 = some d) {r : RegIdx} (hr : d.Sources r) :
    r = 0#5 := by
  have hfields : sourceRegisters d = { b := some 0#5 } := by
    rw [eq_nop h]
    decide
  rw [DecodedInstr.Sources, hfields] at hr
  rcases hr with ha | hb
  · cases ha
  · exact (Option.some.inj hb).symm

theorem not_accesses_nop (h : Decoder.decode 0#32 = some d) : ¬(deriveControl d).Accesses := by
  rw [eq_nop h]
  rintro (hread | hwrite)
  · cases hread
  · cases hwrite

end Nop

theorem controlAfterEx_accesses (d : DecodedInstr) :
    (controlAfterEx d).Accesses ↔ (deriveControl d).Accesses := by
  unfold controlAfterEx
  split_ifs <;> rfl

theorem memWb_gpr_of_invalid {memWb : MemWb} (h : memWb.valid = false) : memWb.gpr = none := by
  rw [MemWb.gpr, h]
  rfl

-- What WB writes goes by the register that the word names.
theorem MemWb.WellFormed.gpr {memWb : MemWb} {d : DecodedInstr} (h : memWb.WellFormed d)
    (hv : memWb.valid = true) :
    memWb.gpr =
      ((destinationRegister d).filter fun dest => decide (dest ≠ 0#5)).map (·, memWb.value) := by
  rw [MemWb.gpr, hv, h.destination]
  cases memWb.ctrl.regWrite with
  | false => rfl
  | true =>
    by_cases hz : memWb.writeReg = 0#5
    · simp [gprWrite, hz]
    · simp [gprWrite, hz]

namespace PipelinedCpu

variable {cpu : PipelinedCpu}

theorem step_regs_eq (cpu : PipelinedCpu) : cpu.step.2.regs = commitGpr cpu.regs cpu.memWb.gpr :=
  runStages_regs cpu

-- A register that a cycle changes is the one that WB writes.
theorem gpr_of_changed {r : RegIdx} (h : cpu.step.2.regs.read r ≠ cpu.regs.read r) :
    cpu.memWb.gpr = some (r, cpu.step.2.regs.read r) := by
  have hread := read_commit_memWb cpu.regs cpu.memWb r
  rw [← step_regs_eq] at hread
  split at hread
  · rename_i hwrites
    simp only [Bool.and_eq_true, decide_eq_true_eq] at hwrites
    obtain ⟨⟨hvalid, hz⟩, rfl⟩ := hwrites
    rw [MemWb.gpr, hvalid.1, hvalid.2, hread]
    exact if_neg hz
  · exact absurd hread h

theorem read_of_gpr {dest : RegIdx} {value : Word} (h : cpu.memWb.gpr = some (dest, value)) :
    cpu.step.2.regs.read dest = value ∧ dest ≠ 0#5 := by
  have hne : dest ≠ 0#5 := by
    rw [MemWb.gpr] at h
    split at h
    · rw [gprWrite] at h
      split at h
      · cases h
      · rename_i hz
        obtain ⟨rfl, -⟩ := Prod.mk.inj (Option.some.inj h)
        exact hz
    · cases h
  refine ⟨?_, hne⟩
  rw [step_regs_eq, h, commitGpr, RegisterFile.read_write]
  simp [hne]

-- MEM leaves the memory alone unless the word is that of a load or store.
theorem mem_of_not_accesses (h : ¬(cpu.exMem.valid = true ∧ cpu.exMem.ctrl.Accesses)) :
    cpu.step.2.mem = cpu.mem := by
  rw [step_mem, drainMem]
  cases hv : cpu.exMem.valid with
  | false => rw [memoryAccess_invalid _ hv]
  | true =>
    have hctrl : ¬cpu.exMem.ctrl.Accesses := fun ha => h ⟨hv, ha⟩
    simp only [Control.Accesses, not_or, Bool.not_eq_true] at hctrl
    simp [memoryAccess, hv, hctrl.1, hctrl.2]

end PipelinedCpu

end ClearCore.Mips
