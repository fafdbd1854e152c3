import ClearCore.Mips.Pipelined.Stages
import ClearCore.Mips.Processor
import ClearCore.Mips.SingleCycle.Theorems

-- What both CPU models have in common: the memory keeps its size, and the code of
-- the last exception, which a reset keeps, has no effect on a run.

namespace ClearCore.Mips

open Isa

def Cp0.forget (cp0 : Cp0) : Cp0 := { cp0 with lastExc := .RI }

-- The CPU with the code of its last exception dropped.
def forget {P : Type} [IMipsProcessor P] (cpu : P) : P :=
  IMipsProcessor.setCp0 cpu (IMipsProcessor.cp0 cpu).forget

class LawfulProcessor (P : Type) [IMipsProcessor P] : Prop where
  forget_create (memBytes : Nat) :
    forget (IMipsProcessor.create memBytes : P) = IMipsProcessor.create memBytes
  reset_eq (cpu : P) :
    forget (IMipsProcessor.reset cpu true) = IMipsProcessor.create (IMipsProcessor.mem cpu).size
  loadProgram_forget (cpu : P) (words : List Word) (addr : Word) :
    IMipsProcessor.loadProgram (forget cpu) words addr =
      (IMipsProcessor.loadProgram cpu words addr).map (Prod.map id forget)
  step_forget (cpu : P) :
    (IMipsProcessor.step (forget cpu)).1 = (IMipsProcessor.step cpu).1 ∧
      forget (IMipsProcessor.step (forget cpu)).2 = forget (IMipsProcessor.step cpu).2 ∧
      ((IMipsProcessor.step cpu).1 = .Exception →
        IMipsProcessor.cp0 (IMipsProcessor.step (forget cpu)).2 =
          IMipsProcessor.cp0 (IMipsProcessor.step cpu).2)
  forget_cp0 (cpu : P) : IMipsProcessor.cp0 (forget cpu) = (IMipsProcessor.cp0 cpu).forget
  forget_regs (cpu : P) : IMipsProcessor.regs (forget cpu) = IMipsProcessor.regs cpu
  forget_mem (cpu : P) : IMipsProcessor.mem (forget cpu) = IMipsProcessor.mem cpu
  forget_pc (cpu : P) : IMipsProcessor.pc (forget cpu) = IMipsProcessor.pc cpu
  forget_hi (cpu : P) : IMipsProcessor.hi (forget cpu) = IMipsProcessor.hi cpu
  forget_lo (cpu : P) : IMipsProcessor.lo (forget cpu) = IMipsProcessor.lo cpu
  forget_cycleCount (cpu : P) :
    IMipsProcessor.cycleCount (forget cpu) = IMipsProcessor.cycleCount cpu
  forget_pipelineState (cpu : P) :
    IMipsProcessor.pipelineState (forget cpu) = IMipsProcessor.pipelineState cpu
  size_create (memBytes : Nat) :
    (IMipsProcessor.mem (IMipsProcessor.create memBytes : P)).size = memBytes
  size_step (cpu : P) :
    (IMipsProcessor.mem (IMipsProcessor.step cpu).2).size = (IMipsProcessor.mem cpu).size
  size_reset (cpu : P) (clearMemory : Bool) :
    (IMipsProcessor.mem (IMipsProcessor.reset cpu clearMemory)).size =
      (IMipsProcessor.mem cpu).size
  size_loadProgram {cpu cpu' : P} {words : List Word} {addr : Word} {fits : Bool}
    (h : IMipsProcessor.loadProgram cpu words addr = some (fits, cpu')) :
    (IMipsProcessor.mem cpu').size = (IMipsProcessor.mem cpu).size
  size_edit {cpu cpu' : P} (h : Edited cpu cpu') :
    (IMipsProcessor.mem cpu').size = (IMipsProcessor.mem cpu).size
  -- whether a load succeeds is decided by the address and the size alone
  loadProgram_fits (cpu : P) (words : List Word) (addr : Word) :
    (IMipsProcessor.loadProgram cpu words addr).map Prod.fst =
      if addr.toNat % 4 = 0 then
        some (decide (addr.toNat + words.length * 4 ≤ (IMipsProcessor.mem cpu).size))
      else none
  loadProgram_misfit {cpu cpu' : P} {words : List Word} {addr : Word}
    (h : IMipsProcessor.loadProgram cpu words addr = some (false, cpu')) : cpu' = cpu

-- What is set through an accessor is read back through it.
class LawfulAccess (P : Type) [IMipsProcessor P] : Prop where
  mem_setMem (cpu : P) (mem : Memory) : IMipsProcessor.mem (IMipsProcessor.setMem cpu mem) = mem
  pc_setPc (cpu : P) (pc : Word) : IMipsProcessor.pc (IMipsProcessor.setPc cpu pc) = pc

instance : LawfulAccess SingleCycleCpu where
  mem_setMem _ _ := rfl
  pc_setPc _ _ := rfl

instance : LawfulAccess PipelinedCpu where
  mem_setMem _ _ := rfl
  pc_setPc _ _ := rfl

-- What the accessors reach of a CPU.
structure Visible where
  regs : RegisterFile
  mem : Memory
  cp0 : Cp0
  hi : Word
  lo : Word
  pc : Word

def visible {P : Type} [IMipsProcessor P] (cpu : P) : Visible where
  regs := IMipsProcessor.regs cpu
  mem := IMipsProcessor.mem cpu
  cp0 := IMipsProcessor.cp0 cpu
  hi := IMipsProcessor.hi cpu
  lo := IMipsProcessor.lo cpu
  pc := IMipsProcessor.pc cpu

-- An accessor sets what it is for, and nothing else that can be reached.
class LawfulSetters (P : Type) [IMipsProcessor P] : Prop where
  setRegs (cpu : P) (regs : RegisterFile) :
    visible (IMipsProcessor.setRegs cpu regs) = { visible cpu with regs }
  setMem (cpu : P) (mem : Memory) :
    visible (IMipsProcessor.setMem cpu mem) = { visible cpu with mem }
  setCp0 (cpu : P) (cp0 : Cp0) :
    visible (IMipsProcessor.setCp0 cpu cp0) = { visible cpu with cp0 }
  setHi (cpu : P) (hi : Word) : visible (IMipsProcessor.setHi cpu hi) = { visible cpu with hi }
  setLo (cpu : P) (lo : Word) : visible (IMipsProcessor.setLo cpu lo) = { visible cpu with lo }
  setPc (cpu : P) (pc : Word) : visible (IMipsProcessor.setPc cpu pc) = { visible cpu with pc }
  setMem_mem (cpu : P) : IMipsProcessor.setMem cpu (IMipsProcessor.mem cpu) = cpu

instance : LawfulSetters SingleCycleCpu where
  setRegs _ _ := rfl
  setMem _ _ := rfl
  setCp0 _ _ := rfl
  setHi _ _ := rfl
  setLo _ _ := rfl
  setPc _ _ := rfl
  setMem_mem _ := rfl

instance : LawfulSetters PipelinedCpu where
  setRegs _ _ := rfl
  setMem _ _ := rfl
  setCp0 _ _ := rfl
  setHi _ _ := rfl
  setLo _ _ := rfl
  setPc _ _ := rfl
  setMem_mem _ := rfl

theorem loadWords_fst (mem : Memory) (words : List Word) (addr : Word) :
    (mem.loadWords addr words).map Prod.fst =
      if addr.toNat % 4 = 0 then some (decide (addr.toNat + words.length * 4 ≤ mem.size))
      else none := by
  by_cases ha : addr.toNat % 4 = 0
  · have hz := (Memory.and_three_eq_zero addr).mpr ha
    by_cases hb : addr.toNat + words.length * 4 ≤ mem.data.size <;>
      simp [Memory.loadWords, Memory.loadWordsFits, Memory.inBounds, Memory.size, ha, hz, hb]
  · have hz : ¬addr &&& 0x3#32 = 0#32 := fun h => ha ((Memory.and_three_eq_zero addr).mp h)
    simp [Memory.loadWords, ha, hz]

theorem loadWords_misfit {mem mem' : Memory} {words : List Word} {addr : Word}
    (h : mem.loadWords addr words = some (false, mem')) : mem' = mem := by
  unfold Memory.loadWords Memory.loadWordsFits at h
  split_ifs at h <;> simp only [Option.some.injEq, Prod.mk.injEq, Bool.true_eq_false] at h
  · exact h.1.elim
  · exact h.2.symm

@[simp] theorem raise_forget (cp0 : Cp0) (code : ExceptionCode) (pc badAddr : Word) :
    cp0.forget.raise code pc badAddr = cp0.raise code pc badAddr := rfl

@[simp] theorem forget_forget (cp0 : Cp0) : cp0.forget.forget = cp0.forget := rfl

theorem apply_forget (access : Cp0Access) (cp0 : Cp0) :
    (access.apply cp0.forget).forget = (access.apply cp0).forget := by
  cases access with
  | none => rfl
  | eret => rfl
  | write reg value =>
    simp only [Cp0Access.apply, Cp0.write]
    split_ifs <;> rfl

theorem size_storeData {mem mem' : Memory} {op : Opcode} {addr value : Word}
    (h : storeData mem op addr value = some mem') : mem'.size = mem.size := by
  cases op <;> simp only [storeData, reduceCtorEq] at h
  exact Memory.size_writeWord h

theorem size_perform {mem mem' : Memory} {pc : Word} {act : Action}
    {gpr : Option (RegIdx × Word)} {store : Option (Word × Word)} {cp0 : Cp0Access} {next : Word}
    (h : act.perform mem pc = .done gpr store mem' cp0 next) : mem'.size = mem.size := by
  cases Action.perform_completes h with
  | load | done => rfl
  | store hs => exact size_storeData hs

theorem Arch.size_step (arch : Arch) : arch.step.mem.size = arch.mem.size := by
  cases hout : arch.outcome.2 with
  | trap code badAddr => rw [step_of_trap hout]
  | done gpr store mem cp0 next =>
    rw [step_of_done hout]
    cases hr : arch.mem.readWord arch.pc with
    | none => simp [outcome_fault hr] at hout
    | some raw =>
      cases hd : Decoder.decode raw with
      | none => simp [outcome_reserved hr hd] at hout
      | some d =>
        rw [outcome_decoded hr hd] at hout
        exact size_perform hout

namespace SingleCycleCpu

theorem step_forget (cpu : SingleCycleCpu) :
    (forget cpu).step.1 = cpu.step.1 ∧ forget (forget cpu).step.2 = forget cpu.step.2 ∧
      (cpu.step.1 = .Exception → (forget cpu).step.2.cp0 = cpu.step.2.cp0) := by
  cases hr : cpu.mem.readWord cpu.pc with
  | none =>
    have hr' : (forget cpu).mem.readWord (forget cpu).pc = none := hr
    rw [step_fault hr, step_fault hr']
    exact ⟨rfl, rfl, fun _ => rfl⟩
  | some raw =>
    have hr' : (forget cpu).mem.readWord (forget cpu).pc = some raw := hr
    cases hd : Decoder.decode raw with
    | none =>
      rw [step_reserved hr hd, step_reserved hr' hd]
      exact ⟨rfl, rfl, fun _ => rfl⟩
    | some d =>
      have hact : ((forget cpu).arch.action d).perform (forget cpu).mem (forget cpu).pc =
          (cpu.arch.action d).perform cpu.mem cpu.pc := rfl
      rw [step_decoded hr hd, step_decoded hr' hd, hact]
      cases (cpu.arch.action d).perform cpu.mem cpu.pc with
      | trap code badAddr => exact ⟨rfl, rfl, fun _ => rfl⟩
      | done gpr store mem cp0 next =>
        refine ⟨rfl, ?_, ?_⟩
        · have hcp0 := apply_forget cp0 cpu.cp0
          simp only [forget, IMipsProcessor.setCp0, IMipsProcessor.cp0, resolve, hcp0]
        · simp only [resolve]
          split <;> simp

end SingleCycleCpu

instance : LawfulProcessor SingleCycleCpu where
  forget_create _ := rfl
  reset_eq _ := rfl
  loadProgram_forget cpu words addr := by
    change (cpu.mem.loadWords addr words).map _ = ((cpu.mem.loadWords addr words).map _).map _
    rw [Option.map_map]
    congr 1
    funext ⟨fits, mem⟩
    cases fits <;> rfl
  step_forget := SingleCycleCpu.step_forget
  forget_cp0 _ := rfl
  forget_regs _ := rfl
  forget_mem _ := rfl
  forget_pc _ := rfl
  forget_hi _ := rfl
  forget_lo _ := rfl
  forget_cycleCount _ := rfl
  forget_pipelineState _ := rfl
  size_create memBytes := Memory.size_ofSize memBytes
  size_step cpu := by
    have h := cpu.arch.size_step
    rw [← cpu.step_arch] at h
    exact h
  size_reset cpu clearMemory := by
    cases clearMemory with
    | false => rfl
    | true => exact Memory.size_ofSize _
  size_loadProgram {cpu cpu' words addr fits} h := by
    obtain ⟨⟨fits', mem⟩, hl, he⟩ := Option.map_eq_some_iff.mp h
    have hsize := Memory.size_loadWords hl
    cases fits' <;> simp only [Bool.false_eq_true, if_false, if_true, Prod.mk.injEq] at he <;>
      (rw [← he.2]; exact hsize)
  size_edit h := by
    cases h with
    | setMem mem hsize => exact hsize
    | _ => rfl
  loadProgram_fits cpu words addr := by
    refine Eq.trans ?_ (loadWords_fst cpu.mem words addr)
    change ((cpu.mem.loadWords addr words).map _).map _ = _
    rw [Option.map_map]
    congr 1
    funext ⟨fits, mem⟩
    cases fits <;> rfl
  loadProgram_misfit {cpu cpu' words addr} h := by
    obtain ⟨⟨fits, mem⟩, hl, he⟩ := Option.map_eq_some_iff.mp h
    cases fits with
    | true => simp at he
    | false =>
      obtain rfl := loadWords_misfit hl
      simp only [Bool.false_eq_true, if_false, Prod.mk.injEq, true_and] at he
      exact he.symm

namespace PipelinedCpu

-- EX reads CP0 only for MFC0 and ERET.
theorem execute_forget (cp0 : Cp0) (inp : IdEx) (exMem : ExMem) (memWb : MemWb) :
    execute cp0.forget inp exMem memWb = execute cp0 inp exMem memWb := by
  have hread : ∀ reg, cp0.forget.read reg = cp0.read reg := fun _ => rfl
  have hepc : cp0.forget.epc = cp0.epc := rfl
  simp only [execute, executeDecoded, hread, hepc]

theorem runStages_forget (cpu : PipelinedCpu) : (forget cpu).runStages = cpu.runStages := by
  have hex := execute_forget cpu.cp0 cpu.idEx cpu.exMem cpu.memWb
  have hf : forget cpu = { cpu with cp0 := cpu.cp0.forget } := rfl
  cases hv : cpu.memWb.valid <;>
    simp only [hf, runStages, hex, writeBack, hv, Bool.not_true, Bool.not_false, if_true,
      Bool.false_eq_true, if_false]

theorem nextCp0_forget (cp0 : Cp0) (out : StageOutcomes) :
    (nextCp0 cp0.forget out).forget = (nextCp0 cp0 out).forget ∧
      (out.trap.isSome = true → nextCp0 cp0.forget out = nextCp0 cp0 out) := by
  unfold nextCp0
  cases out.trap with
  | some trap => exact ⟨rfl, fun _ => rfl⟩
  | none =>
    refine ⟨?_, by simp⟩
    cases out.ex.mtc0 with
    | none => cases out.ex.eret <;> rfl
    | some mtc0 =>
      have hw := apply_forget (.write mtc0.reg mtc0.value) cp0
      simp only [Cp0Access.apply] at hw
      cases out.ex.eret with
      | false => exact hw
      | true =>
        have he := congrArg Cp0.eret hw
        exact he

theorem step_forget (cpu : PipelinedCpu) :
    (forget cpu).step.1 = cpu.step.1 ∧ forget (forget cpu).step.2 = forget cpu.step.2 ∧
      (cpu.step.1 = .Exception → (forget cpu).step.2.cp0 = cpu.step.2.cp0) := by
  obtain ⟨hforget, hsame⟩ := nextCp0_forget cpu.cp0 cpu.runStages
  have hcp0 : (forget cpu).step =
      (cpu.step.1, { cpu.step.2 with cp0 := nextCp0 cpu.cp0.forget cpu.runStages }) := by
    simp only [step, cpu.runStages_forget]
    rfl
  refine ⟨by rw [hcp0], ?_, ?_⟩
  · rw [hcp0]
    simp only [forget, IMipsProcessor.setCp0, IMipsProcessor.cp0, hforget, step_cp0]
  · intro hx
    rw [hcp0]
    apply hsame
    have hstep : cpu.step.1 = stepResult cpu.runStages := rfl
    rw [hstep, stepResult] at hx
    by_contra hn
    cases hh : cpu.runStages.halted <;> simp [hn, hh] at hx

theorem size_memoryAccess (mem : Memory) (exMem : ExMem) :
    (memoryAccess mem exMem).2.size = mem.size := by
  unfold memoryAccess
  split
  · rfl
  · cases hl : (if exMem.ctrl.memRead then loadData mem exMem.opcode exMem.alu.value
        else some 0#32) with
    | none => simp [hl]
    | some value =>
      simp only [hl]
      split
      · cases hs : storeData mem exMem.opcode exMem.alu.value exMem.rtVal with
        | none => rfl
        | some mem' => exact size_storeData hs
      · rfl

end PipelinedCpu

instance : LawfulProcessor PipelinedCpu where
  forget_create _ := rfl
  reset_eq _ := rfl
  loadProgram_forget cpu words addr := by
    change (cpu.mem.loadWords addr words).map _ = ((cpu.mem.loadWords addr words).map _).map _
    rw [Option.map_map]
    congr 1
    funext ⟨fits, mem⟩
    cases fits <;> rfl
  step_forget := PipelinedCpu.step_forget
  forget_cp0 _ := rfl
  forget_regs _ := rfl
  forget_mem _ := rfl
  forget_pc _ := rfl
  forget_hi _ := rfl
  forget_lo _ := rfl
  forget_cycleCount _ := rfl
  forget_pipelineState _ := rfl
  size_create memBytes := Memory.size_ofSize memBytes
  size_step cpu := PipelinedCpu.size_memoryAccess cpu.mem cpu.exMem
  size_reset cpu clearMemory := by
    cases clearMemory with
    | false => rfl
    | true => exact Memory.size_ofSize _
  size_loadProgram {cpu cpu' words addr fits} h := by
    obtain ⟨⟨fits', mem⟩, hl, he⟩ := Option.map_eq_some_iff.mp h
    have hsize := Memory.size_loadWords hl
    cases fits' <;> simp only [Bool.false_eq_true, if_false, if_true, Prod.mk.injEq] at he <;>
      (rw [← he.2]; exact hsize)
  size_edit h := by
    cases h with
    | setMem mem hsize => exact hsize
    | _ => rfl
  loadProgram_fits cpu words addr := by
    refine Eq.trans ?_ (loadWords_fst cpu.mem words addr)
    change ((cpu.mem.loadWords addr words).map _).map _ = _
    rw [Option.map_map]
    congr 1
    funext ⟨fits, mem⟩
    cases fits <;> rfl
  loadProgram_misfit {cpu cpu' words addr} h := by
    obtain ⟨⟨fits, mem⟩, hl, he⟩ := Option.map_eq_some_iff.mp h
    cases fits with
    | true => simp at he
    | false =>
      obtain rfl := loadWords_misfit hl
      simp only [Bool.false_eq_true, if_false, Prod.mk.injEq, true_and] at he
      exact he.symm

end ClearCore.Mips
