import ClearCore.Mips.Pipelined.Run

namespace ClearCore.Mips

open Isa

namespace PipelinedCpu

-- The CP0 access step() applies for the instruction in EX.
def cp0Applied (cpu : PipelinedCpu) : Cp0Access :=
  if cpu.runStages.trap.isSome then .none else cpu.runStages.ex.cp0Access

-- The trap a step raises.
def raised (cpu : PipelinedCpu) : Option TrapRecord :=
  cpu.runStages.trap.map fun trap => .ofCp0 trap.pc cpu.step.2.cp0

-- The traps raised by the first `k` cycles.
def traps (cpu : PipelinedCpu) (k : ℕ) : List TrapRecord :=
  Simulation.trace (fun c => c.step.2) (fun c => c.raised.toList) cpu k

end PipelinedCpu

-- The pipeline with what the instructions in EX/MEM and MEM/WB have already done:
-- EX applied their CP0 access, MEM their store.
structure Watched where
  cpu : PipelinedCpu
  exCp0 : Cp0Access := .none
  wbCp0 : Cp0Access := .none
  wbStore : Option (Word × Word) := none

namespace Watched

def step (w : Watched) : Watched where
  cpu := w.cpu.step.2
  exCp0 := w.cpu.cp0Applied
  wbCp0 := w.exCp0
  wbStore := PipelinedCpu.memStore w.cpu.mem w.cpu.exMem

-- The instruction WB retires in the coming cycle.
def retiring (w : Watched) : Option Retirement :=
  if w.cpu.memWb.valid then
    some { pc := w.cpu.memWb.pc, raw := w.cpu.memWb.raw, gpr := w.cpu.memWb.gpr
           store := w.wbStore, cp0 := w.wbCp0 }
  else none

-- The instruction in EX/MEM, unless MEM is about to trap on it.
def carried (w : Watched) : Option Retirement :=
  if w.cpu.exMem.valid && w.cpu.pendingTrap.isNone then
    some { pc := w.cpu.exMem.pc, raw := w.cpu.exMem.raw
           gpr := (PipelinedCpu.memoryAccess w.cpu.mem w.cpu.exMem).1.next.gpr
           store := PipelinedCpu.memStore w.cpu.mem w.cpu.exMem, cp0 := w.exCp0 }
  else none

theorem step_retiring (w : Watched) : w.step.retiring = w.carried := by
  simp only [retiring, carried, step, PipelinedCpu.step_memWb]
  cases ht : w.cpu.pendingTrap with
  | some trap =>
    have ht' : (PipelinedCpu.memoryAccess w.cpu.mem w.cpu.exMem).1.trap ≠ none := by
      rw [← PipelinedCpu.pendingTrap, ht]
      simp
    have hn := (PipelinedCpu.memoryAccess_trap_next ht').1
    simp [hn]
  | none =>
    cases hv : w.cpu.exMem.valid with
    | false => simp [PipelinedCpu.memoryAccess_invalid _ hv]
    | true =>
      obtain ⟨hnv, hpc, hraw, -⟩ := PipelinedCpu.memoryAccess_next hv ht
      simp [hnv, hpc, hraw]

-- What passes EX is what the reference machine completes.
theorem step_carried {w : Watched} {arch : Arch} (h : w.cpu.Drains arch)
    (hc : w.cpu.Cycle arch) :
    w.step.carried = if w.cpu.advance then arch.retirement else none := by
  simp only [carried, step, PipelinedCpu.step_pendingTrap, PipelinedCpu.step_exMem,
    PipelinedCpu.step_mem]
  cases hc with
  | pending trap ht hadv => simp [hadv, PipelinedCpu.ex_of_pending ht]
  | bubble ht hv hex hadv => simp [hadv, hex]
  | trapping ht hv raw code badAddr hout htrap hnext hadv =>
    simp [hadv, hnext, Arch.retirement, hout]
  | passing ht hv raw d hr hd hno hperf hadv =>
    have htrap : w.cpu.runStages.trap = none := by
      rw [PipelinedCpu.trap_of_ex ht, hperf.trap, hno]
    have hout := Arch.outcome_decoded hr hd
    simp only [h.mem, hadv, if_true]
    cases hact : (arch.action d).perform arch.mem arch.pc with
    | trap code badAddr =>
      rw [hact] at hout
      simp [PipelinedCpu.memoryAccess_trap hperf.carries hact hno, Arch.retirement, hout]
    | done gpr store mem cp0 next =>
      rw [hact] at hout
      obtain ⟨hmt, hholds, -, hstore⟩ := PipelinedCpu.memoryAccess_done hperf.carries hact
      have hcp0 : w.cpu.cp0Applied = cp0 := by
        simp [PipelinedCpu.cp0Applied, htrap, hperf.cp0, (Action.perform_done_fields hact).1]
      have hex := hperf.carries.holds hno
      rw [Decoder.decode_raw hd] at hex
      simp [hmt, hex.valid, hex.pc, hex.raw, hholds.gpr, hstore, hcp0, Arch.retirement, hout]

-- The instructions that have passed EX and not retired, oldest first.
def pending (w : Watched) : List Retirement := w.retiring.toList ++ w.carried.toList

theorem retiring_pending {w : Watched} {arch : Arch} (h : w.cpu.Drains arch)
    (hc : w.cpu.Cycle arch) :
    w.retiring.toList ++ w.step.pending =
      w.pending ++ if w.cpu.advance then arch.retirement.toList else [] := by
  rw [pending, pending, step_retiring, step_carried h hc]
  cases w.cpu.advance <;> simp

end Watched

namespace PipelinedCpu

-- The instructions retired by the first `k` cycles.
def retired (cpu : PipelinedCpu) (k : ℕ) : List Retirement :=
  Simulation.trace Watched.step (fun w => w.retiring.toList) { cpu } k

def watched (cpu : PipelinedCpu) (k : ℕ) : Watched := Watched.step^[k] { cpu }

theorem watched_succ (cpu : PipelinedCpu) (k : ℕ) :
    cpu.watched (k + 1) = (cpu.watched k).step := Function.iterate_succ_apply' _ _ _

theorem retired_succ (cpu : PipelinedCpu) (k : ℕ) :
    cpu.retired (k + 1) = cpu.retired k ++ (cpu.watched k).retiring.toList := rfl

@[simp] theorem watched_cpu (cpu : PipelinedCpu) (k : ℕ) : (cpu.watched k).cpu = cpu.run k := by
  induction k with
  | zero => rfl
  | succ k ih => rw [watched_succ, run_succ, ← ih]; rfl

-- The trap MEM is about to raise, as it will be recorded.
def pendingRecord (cpu : PipelinedCpu) : Option TrapRecord :=
  cpu.pendingTrap.map fun trap => .ofCp0 trap.pc cpu.drainCp0

theorem raised_pending {cpu : PipelinedCpu} {arch : Arch} (h : cpu.Drains arch)
    (hc : cpu.Cycle arch) :
    cpu.raised.toList ++ cpu.step.2.pendingRecord.toList =
      cpu.pendingRecord.toList ++ if cpu.advance then arch.trapRecord.toList else [] := by
  have hdrains := h.step hc
  cases hc with
  | pending trap ht hadv =>
    have htrap := trap_of_pending ht
    have hdrain : cpu.step.2.cp0 = cpu.drainCp0 := by rw [(step_of_trap htrap).1, drainCp0, ht]
    have hnone : cpu.step.2.pendingTrap = none := by
      rw [step_pendingTrap, ex_of_pending ht]
      rfl
    simp [-step_cp0, hadv, raised, pendingRecord, htrap, ht, hnone, hdrain]
  | bubble ht hv hex hadv =>
    have htrap : cpu.runStages.trap = none := by rw [trap_of_ex ht, hex]
    have hnone : cpu.step.2.pendingTrap = none := by
      rw [step_pendingTrap, hex]
      rfl
    simp [hadv, raised, pendingRecord, htrap, ht, hnone]
  | trapping ht hv raw code badAddr hout htrap hnext hadv =>
    have htr := (trap_of_ex ht).trans htrap
    have hnone : cpu.step.2.pendingTrap = none := by
      rw [step_pendingTrap, hnext]
      rfl
    have hcp0 : cpu.step.2.cp0 = arch.step.cp0 := by
      rw [hadv, if_pos rfl] at hdrains
      rw [← hdrains.cp0, drainCp0, hnone]
    have htrapped : arch.trapped = true := by simp [Arch.trapped, hout]
    simp [-step_cp0, hadv, raised, pendingRecord, htr, ht, hnone, hcp0, Arch.trapRecord, htrapped]
  | passing ht hv raw d hr hd hno hperf hadv =>
    have htrap : cpu.runStages.trap = none := by rw [trap_of_ex ht, hperf.trap, hno]
    rw [hadv, if_pos rfl] at hdrains
    have hout := Arch.outcome_decoded hr hd
    cases hact : (arch.action d).perform arch.mem arch.pc with
    | trap code badAddr =>
      have hpend : cpu.step.2.pendingTrap = some { code, pc := arch.pc, badAddr } := by
        rw [step_pendingTrap, h.mem, memoryAccess_trap hperf.carries hact hno]
      rw [hact] at hout
      simp [hadv, raised, pendingRecord, htrap, ht, hpend, hdrains.cp0, Arch.trapRecord,
        Arch.trapped, hout]
    | done gpr store mem cp0 next =>
      have hpend : cpu.step.2.pendingTrap = none := by
        rw [step_pendingTrap, h.mem, (memoryAccess_done hperf.carries hact).1]
      rw [hact] at hout
      simp [hadv, raised, pendingRecord, htrap, ht, hpend, Arch.trapRecord, Arch.trapped, hout]

end PipelinedCpu

end ClearCore.Mips
