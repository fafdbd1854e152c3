import ClearCore.Mips.Pipelined.Exceptions
import ClearCore.Mips.Processor

-- What becomes of the instructions in flight when the PC of a CPU that has already
-- run is set from outside.

namespace ClearCore.Mips

open Isa

-- The pipeline with a mark on what IF/ID and ID/EX held when the PC was set.
structure Redirected where
  cpu : PipelinedCpu
  ifOld : Bool
  idOld : Bool

namespace Redirected

-- IF/ID moves on to ID/EX; a stall keeps it where it is.
def step (w : Redirected) : Redirected where
  cpu := w.cpu.step.2
  ifOld :=
    let out := w.cpu.runStages
    if out.flushFromEx || out.flushFromId || !out.stallLoadUse then false else w.ifOld
  idOld := w.ifOld

-- The instruction EX consumes in the coming cycle, and whether it is a marked one.
def effect (w : Redirected) : Option (Word × Bool) :=
  if w.cpu.advance then some (w.cpu.idEx.pc, w.idOld) else none

def run (w : Redirected) (k : ℕ) : Redirected := step^[k] w

-- The next instruction to take effect is the one at `addr`, and no marked one ever
-- does.
def TakesOver (w : Redirected) (addr : Word) : Prop :=
  (∃ k, (∀ j < k, (w.run j).effect = none) ∧ (w.run k).effect = some (addr, false)) ∧
    ∀ k pc, (w.run k).effect ≠ some (pc, true)

end Redirected

namespace PipelinedCpu

-- The pipeline at the moment its PC has been set.
def redirected (cpu : PipelinedCpu) : Redirected := { cpu, ifOld := true, idOld := true }

end PipelinedCpu

namespace Redirected

theorem step_idOld (w : Redirected) : w.step.idOld = w.ifOld := rfl

-- The mark of IF/ID is never set anew.
theorem step_ifOld {w : Redirected} (h : w.ifOld = false) : w.step.ifOld = false := by
  simp [step, h]

theorem effect_none {w : Redirected} (h : w.cpu.advance = false) : w.effect = none := by
  simp [effect, h]

-- With no mark left, no marked instruction takes effect.
theorem effect_unmarked {w : Redirected} (hi : w.ifOld = false) (hx : w.idOld = false) (k : ℕ)
    (pc : Word) : (w.run k).effect ≠ some (pc, true) := by
  induction k generalizing w with
  | zero =>
    simp only [run, Function.iterate_zero, id_eq, effect]
    by_cases ha : w.cpu.advance <;> simp [ha, hx]
  | succ k ih => exact ih (step_ifOld hi) hi

theorem takesOver_step {w : Redirected} (h : w.effect = none) (addr : Word) :
    w.TakesOver addr ↔ w.step.TakesOver addr := by
  constructor
  · rintro ⟨⟨k, hbefore, hk⟩, hold⟩
    refine ⟨?_, fun j => hold (j + 1)⟩
    cases k with
    | zero => simp [run, h] at hk
    | succ k => exact ⟨k, fun j hj => hbefore (j + 1) (by omega), hk⟩
  · rintro ⟨⟨k, hbefore, hk⟩, hold⟩
    refine ⟨⟨k + 1, ?_, hk⟩, ?_⟩
    · intro j hj
      cases j with
      | zero => exact h
      | succ j => exact hbefore j (by omega)
    · intro j
      cases j with
      | zero => simp [run, h]
      | succ j => exact hold j

theorem takesOver_unique {w : Redirected} {addr addr' : Word} (h : w.TakesOver addr)
    (h' : w.TakesOver addr') : addr = addr' := by
  obtain ⟨⟨k, hbefore, hk⟩, -⟩ := h
  obtain ⟨⟨k', hbefore', hk'⟩, -⟩ := h'
  rcases Nat.lt_trichotomy k k' with hlt | rfl | hlt
  · simp [hbefore' k hlt] at hk
  · rw [hk] at hk'
    simpa using hk'
  · simp [hbefore k' hlt] at hk'

theorem not_takesOver_of_marked {w : Redirected} (hadv : w.cpu.advance = true)
    (hx : w.idOld = true) (addr : Word) : ¬w.TakesOver addr := by
  rintro ⟨-, hold⟩
  exact hold 0 w.cpu.idEx.pc (by simp [run, effect, hadv, hx])

end Redirected

namespace PipelinedCpu

section Redirect

variable {cpu : PipelinedCpu}

theorem decode_pc (regs : RegisterFile) (ifId : IfId) : (decode regs ifId).next.pc = ifId.pc := by
  unfold decode
  split
  · rfl
  · split <;> rfl

-- A cycle whose EX holds a bubble.
theorem step_of_bubble (hp : cpu.pendingTrap = none) (hx : cpu.idEx.valid = false) :
    cpu.step.2.pendingTrap = none ∧ cpu.step.2.idEx = cpu.idStage.next ∧
      (cpu.ifId.valid = false → cpu.step.2.ifId = fetch cpu.drainMem cpu.pc) := by
  have hex : cpu.runStages.ex = {} := by rw [runStages_ex cpu hp, execute_invalid _ _ _ hx]
  have htrap : cpu.runStages.trap = none := by rw [trap_of_ex hp, hex]
  obtain ⟨hid, -, hif⟩ := step_of_flow htrap (by rw [hex]) (loadUseHazard_invalid _ hx)
  refine ⟨?_, hid, ?_⟩
  · rw [step_pendingTrap, hex]
    rfl
  · intro hi
    simpa [idStage_empty hi] using hif

-- An empty front end goes on at its PC.
theorem takesOver_of_empty {w : Redirected} (hp : w.cpu.pendingTrap = none)
    (hx : w.cpu.idEx.valid = false) (hi : w.cpu.ifId.valid = false) : w.TakesOver w.cpu.pc := by
  have hnone : w.effect = none := Redirected.effect_none (by simp [advance, hx])
  obtain ⟨hp', hx', hi'⟩ := step_of_bubble hp hx
  rw [idStage_empty hi] at hx'
  have hfetch := hi' hi
  have hold : w.step.ifOld = false := by
    have hex : w.cpu.runStages.ex = {} := by rw [runStages_ex w.cpu hp, execute_invalid _ _ _ hx]
    simp [Redirected.step, runStages_stall, loadUseHazard_invalid _ hx]
  rw [Redirected.takesOver_step hnone]
  have hempty : w.step.cpu.idEx.valid = false := by rw [show w.step.cpu.idEx = {} from hx']
  rw [Redirected.takesOver_step (Redirected.effect_none (by simp [advance, hempty]))]
  have hpend : w.step.cpu.pendingTrap = none := hp'
  obtain ⟨hp'', hx'', -⟩ := step_of_bubble hpend hempty
  have hfetched : w.step.cpu.ifId = fetch w.cpu.drainMem w.cpu.pc := hfetch
  rw [idStage_fetch hfetched] at hx''
  have hidEx : w.step.step.cpu.idEx.valid = true ∧ w.step.step.cpu.idEx.pc = w.cpu.pc := by
    rw [show w.step.step.cpu.idEx = _ from hx'', decode_valid, decode_pc, fetch_pc]
    exact ⟨rfl, rfl⟩
  refine ⟨⟨0, by simp, ?_⟩, Redirected.effect_unmarked (Redirected.step_ifOld hold) hold⟩
  have hadv : w.step.step.cpu.advance = true := by
    simp [advance, show w.step.step.cpu.pendingTrap = none from hp'', hidEx.1]
  simp [Redirected.run, Redirected.effect, hadv, hidEx.2, Redirected.step_idOld, hold]

theorem step_of_pending {trap : Trap} (hp : cpu.pendingTrap = some trap) :
    cpu.step.2.pendingTrap = none ∧ cpu.step.2.idEx = {} ∧ cpu.step.2.ifId = {} ∧
      cpu.step.2.pc = kExceptionVector := by
  obtain ⟨-, hpc, hi, hx⟩ := step_of_trap (trap_of_pending hp)
  refine ⟨?_, hx, hi, hpc⟩
  rw [step_pendingTrap, ex_of_pending hp]
  rfl

-- The pipeline can be redirected to `addr`: its front end is empty, or MEM is about
-- to trap and `addr` is the exception vector.
def Redirectable (cpu : PipelinedCpu) (addr : Word) : Prop :=
  cpu.pendingTrap.isSome = true ∧ addr = kExceptionVector ∨
    cpu.pendingTrap.isSome = false ∧ cpu.idEx.valid = false ∧ cpu.ifId.valid = false

theorem redirected_takesOver (cpu : PipelinedCpu) (addr : Word) (hpc : cpu.pc = addr) :
    cpu.redirected.TakesOver addr ↔ cpu.Redirectable addr := by
  unfold Redirectable
  cases hp : cpu.pendingTrap with
  | some trap =>
    have hnone : cpu.redirected.effect = none :=
      Redirected.effect_none (by simp [advance, redirected, hp])
    obtain ⟨hp', hx, hi, hvec⟩ := step_of_pending hp
    have hover := takesOver_of_empty (w := cpu.redirected.step) hp'
      (by rw [show cpu.redirected.step.cpu.idEx = {} from hx])
      (by rw [show cpu.redirected.step.cpu.ifId = {} from hi])
    rw [show cpu.redirected.step.cpu.pc = kExceptionVector from hvec] at hover
    rw [Redirected.takesOver_step hnone]
    simp only [Option.isSome_some, true_and, Bool.true_eq_false, false_and, or_false]
    exact ⟨fun h => Redirected.takesOver_unique h hover, fun h => h ▸ hover⟩
  | none =>
    simp only [Option.isSome_none, Bool.false_eq_true, false_and, true_and, false_or]
    cases hx : cpu.idEx.valid with
    | true =>
      simpa using Redirected.not_takesOver_of_marked (w := cpu.redirected)
        (by simp [redirected, advance, hp, hx]) rfl addr
    | false =>
      cases hi : cpu.ifId.valid with
      | false =>
        have hover := takesOver_of_empty (w := cpu.redirected) hp hx hi
        simpa [redirected, hpc] using hover
      | true =>
        obtain ⟨hp', hx', -⟩ := step_of_bubble hp hx
        have hvalid : cpu.step.2.idEx.valid = true := by rw [hx', cpu.idStage_valid, hi]
        rw [Redirected.takesOver_step (Redirected.effect_none (by simp [redirected, advance, hx]))]
        simpa using Redirected.not_takesOver_of_marked (w := cpu.redirected.step)
          (by simp [-step_idEx, Redirected.step, redirected, advance, hp', hvalid]) rfl addr

theorem loadData_isSome_congr {mem mem' : Memory} (hs : mem.size = mem'.size) (op : Opcode)
    (addr : Word) : (loadData mem op addr).isSome = (loadData mem' op addr).isSome := by
  cases op <;> simp [loadData, Memory.readWord_isSome_congr hs, Memory.readHalf_isSome_congr hs,
    Memory.readByte_isSome_congr hs]

theorem storeData_isSome_congr {mem mem' : Memory} (hs : mem.size = mem'.size) (op : Opcode)
    (addr value : Word) :
    (storeData mem op addr value).isSome = (storeData mem' op addr value).isSome := by
  cases op <;> simp [storeData, Memory.writeWord_isSome_congr hs]

-- Whether MEM traps does not depend on what memory holds.
theorem memoryAccess_trap_congr {mem mem' : Memory} (hs : mem.size = mem'.size) (exMem : ExMem) :
    (memoryAccess mem exMem).1.trap.isSome = (memoryAccess mem' exMem).1.trap.isSome := by
  have hl := loadData_isSome_congr hs exMem.opcode exMem.alu.value
  have hst := storeData_isSome_congr hs exMem.opcode exMem.alu.value exMem.rtVal
  unfold memoryAccess
  cases exMem.valid with
  | false => rfl
  | true =>
    cases exMem.ctrl.memRead <;> cases exMem.ctrl.memWrite <;>
      cases h1 : loadData mem exMem.opcode exMem.alu.value <;>
      cases h2 : loadData mem' exMem.opcode exMem.alu.value <;>
      cases h3 : storeData mem exMem.opcode exMem.alu.value exMem.rtVal <;>
      cases h4 : storeData mem' exMem.opcode exMem.alu.value exMem.rtVal <;>
      simp_all

theorem loadProgram_takesOver {cpu cpu' : PipelinedCpu} {words : List Word} {addr : Word}
    (h : cpu.loadProgram words addr = some (true, cpu')) :
    cpu'.redirected.TakesOver addr ↔ cpu.Redirectable addr := by
  unfold loadProgram at h
  cases hl : cpu.mem.loadWords addr words with
  | none => simp [hl] at h
  | some loaded =>
    obtain ⟨fits, mem⟩ := loaded
    have hsize := Memory.size_loadWords hl
    cases fits with
    | false => simp [hl] at h
    | true =>
      simp only [hl, Option.map_some, if_true, Option.some.injEq, Prod.mk.injEq, true_and] at h
      subst h
      rw [redirected_takesOver _ addr rfl]
      simp only [Redirectable, pendingTrap, memoryAccess_trap_congr hsize]

end Redirect

end PipelinedCpu

namespace SingleCycleCpu

-- The next step executes the instruction at `addr`: it completes it or traps on it.
def ExecutesNext (cpu : SingleCycleCpu) (addr : Word) : Prop :=
  (∃ r, cpu.completion = some r ∧ r.pc = addr ∧ cpu.raised = none) ∨
    ∃ t, cpu.raised = some t ∧ t.pc = addr ∧ cpu.completion = none

theorem executesNext_pc (cpu : SingleCycleCpu) : cpu.ExecutesNext cpu.pc := by
  rw [ExecutesNext, completion_eq, raised_eq, Arch.trapRecord]
  rcases hout : cpu.arch.outcome with ⟨raw, code | ⟨gpr, store, mem, cp0, next⟩⟩
  · right
    simp [Arch.trapped, Arch.retirement, hout, TrapRecord.ofCp0]
  · left
    simp [Arch.trapped, Arch.retirement, hout]

end SingleCycleCpu

-- Redirecting a CPU that has already run. The single-cycle CPU goes on at the new
-- address from any state, the pipeline only if nothing of the old path is in front
-- of MEM.
theorem redirect_takesEffect (addr : Word) :
    (∀ cpu : SingleCycleCpu, SingleCycleCpu.ExecutesNext { cpu with pc := addr } addr) ∧
    (∀ (cpu cpu' : SingleCycleCpu) (words : List Word),
      cpu.loadProgram words addr = some (true, cpu') → cpu'.ExecutesNext addr) ∧
    (∀ cpu : PipelinedCpu,
      (PipelinedCpu.redirected { cpu with pc := addr }).TakesOver addr ↔ cpu.Redirectable addr) ∧
    ∀ (cpu cpu' : PipelinedCpu) (words : List Word),
      cpu.loadProgram words addr = some (true, cpu') →
        (cpu'.redirected.TakesOver addr ↔ cpu.Redirectable addr) := by
  refine ⟨?_, ?_, ?_, ?_⟩
  · intro cpu
    exact SingleCycleCpu.executesNext_pc _
  · intro cpu cpu' words h
    have hpc : cpu'.pc = addr := by
      unfold SingleCycleCpu.loadProgram at h
      cases hl : cpu.mem.loadWords addr words with
      | none => simp [hl] at h
      | some loaded =>
        obtain ⟨fits, mem⟩ := loaded
        cases fits with
        | false => simp [hl] at h
        | true =>
          simp only [hl, Option.map_some, if_true, Option.some.injEq, Prod.mk.injEq,
            true_and] at h
          rw [← h]
    rw [← hpc]
    exact cpu'.executesNext_pc
  · intro cpu
    exact PipelinedCpu.redirected_takesOver _ addr rfl
  · intro cpu cpu' words h
    exact PipelinedCpu.loadProgram_takesOver h

-- One cycle after a start the fetched instruction is in the way.
theorem redirect_afterFetch :
    ∃ cpu : PipelinedCpu, Reachable 16 cpu ∧ (cpu.mem.readWord 8#32).isSome = true ∧
      ¬(PipelinedCpu.redirected { cpu with pc := 8#32 }).TakesOver 8#32 := by
  refine ⟨(PipelinedCpu.create 16).step.2, .step .create, by decide, ?_⟩
  rw [PipelinedCpu.redirected_takesOver _ _ rfl, PipelinedCpu.Redirectable]
  decide

end ClearCore.Mips
