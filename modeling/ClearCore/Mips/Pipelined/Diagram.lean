import ClearCore.Library.Conveyor
import ClearCore.Mips.Pipelined.CycleCount
import ClearCore.Mips.Pipelined.Redirect

-- The stage snapshots of a run as a pipeline diagram: what they show against the
-- instructions that are in the stages.

namespace ClearCore.Isa

-- Index 0 = IF, 1 = ID, 2 = EX, 3 = MEM, 4 = WB.
def Stages.get (stages : Stages) : Fin 5 → StageSnapshot
  | 0 => stages.ifs
  | 1 => stages.id
  | 2 => stages.ex
  | 3 => stages.mem
  | 4 => stages.wb

-- The PC and word of a valid snapshot.
def StageSnapshot.shown (snap : StageSnapshot) : Option (Word × Word) :=
  if snap.valid then some (snap.pc, snap.raw) else none

end ClearCore.Isa

namespace ClearCore.Mips

open Isa

-- An instruction of a run: the cycle of its fetch tells it from all others.
structure DynamicInstr where
  fetched : ℕ
  pc : Word
  raw : Word
deriving DecidableEq, Repr

def DynamicInstr.shown (d : DynamicInstr) : Word × Word := (d.pc, d.raw)

-- The instruction in an inter-stage register. A failed fetch is none.
def IfId.shown (ifId : IfId) : Option (Word × Word) :=
  if ifId.valid && !ifId.fetchFault then some (ifId.pc, ifId.instr) else none

def IdEx.shown (idEx : IdEx) : Option (Word × Word) :=
  if idEx.valid && decide (idEx.earlyTrap ≠ some .AdEL) then some (idEx.pc, idEx.decoded.raw)
  else none

def ExMem.shown (exMem : ExMem) : Option (Word × Word) :=
  if exMem.valid then some (exMem.pc, exMem.raw) else none

def MemWb.shown (memWb : MemWb) : Option (Word × Word) :=
  if memWb.valid then some (memWb.pc, memWb.raw) else none

namespace PipelinedCpu

-- The hazard unit holds IF/ID, and no trap of MEM flushes it.
def Held (cpu : PipelinedCpu) : Prop :=
  loadUseHazard cpu.idEx cpu.ifId = true ∧ cpu.pendingTrap = none

instance (cpu : PipelinedCpu) : Decidable cpu.Held := inferInstanceAs (Decidable (_ ∧ _))

-- The instruction IF fetches in a cycle that neither stalls nor flushes it.
def fetchedInstr (cpu : PipelinedCpu) : Option DynamicInstr :=
  (cpu.runStages.memory.readWord cpu.pc).map fun raw =>
    { fetched := cpu.cycle + 1, pc := cpu.pc, raw }

-- The stage an instruction of each stage is in a cycle later, unless it is squashed.
def nextStage (cpu : PipelinedCpu) : Fin 5 → Option (Fin 5)
  | 0 => some 1
  | 1 =>
      if cpu.runStages.flushFromEx then none
      else if cpu.runStages.stallLoadUse then some 1
      else some 2
  | 2 => if cpu.runStages.trap.isSome then none else some 3
  | 3 => if cpu.runStages.mem.trap.isSome then none else some 4
  | 4 => none

end PipelinedCpu

-- The pipeline with the instruction in each of its registers.
structure Occupied where
  cpu : PipelinedCpu
  ifId : Option DynamicInstr := none
  idEx : Option DynamicInstr := none
  exMem : Option DynamicInstr := none
  memWb : Option DynamicInstr := none

namespace Occupied

def step (p : Occupied) : Occupied :=
  let out := p.cpu.runStages
  { cpu := p.cpu.step.2
    ifId :=
      if out.flushFromEx || out.flushFromId then none
      else if out.stallLoadUse then p.ifId
      else p.cpu.fetchedInstr
    idEx := if out.flushFromEx || out.stallLoadUse then none else p.ifId
    exMem := if out.trap.isSome then none else p.idEx
    memWb := if out.mem.trap.isSome then none else p.exMem }

def run (p : Occupied) (k : ℕ) : Occupied := step^[k] p

def line (p : Occupied) : ℕ → Option DynamicInstr
  | 0 => p.ifId
  | 1 => p.idEx
  | 2 => p.exMem
  | 3 => p.memWb
  | _ + 4 => none

-- The instruction in each stage of the coming cycle: IF has the one it hands on, the other
-- stages have the one in the register they read.
def occupant (p : Occupied) : Fin 5 → Option DynamicInstr
  | 0 => p.step.ifId
  | 1 => p.ifId
  | 2 => p.idEx
  | 3 => p.exMem
  | 4 => p.memWb

-- What a pipeline diagram owes its reader in a cycle.
structure Diagram (p : Occupied) : Prop where
  -- a snapshot shows the instruction in its stage
  shown : ∀ k, (p.step.cpu.ps.stages.get k).shown = (p.occupant k).map DynamicInstr.shown
  -- IF shows what it fetches in this cycle
  starts : ∀ {d}, p.occupant 0 = some d → p.cpu.fetchedInstr = some d
  once : ∀ {i j d}, p.occupant i = some d → p.occupant j = some d → i = j
  older : ∀ {i j d e}, i < j → p.occupant i = some d → p.occupant j = some e →
    e.fetched < d.fetched
  -- an instruction is in its next stage a cycle later, or never seen again
  moves : ∀ {k d}, p.occupant k = some d →
    match p.cpu.nextStage k with
    | some j => p.step.occupant j = some d
    | none => ∀ n j, (p.step.run n).occupant j ≠ some d
  -- and has come from the stage before
  comes : ∀ {j d}, p.step.occupant j = some d → j ≠ 0 →
    ∃ k, p.occupant k = some d ∧ p.cpu.nextStage k = some j
  retired : p.step.cpu.ps.retired = (p.occupant 4).isSome
  retires : ∀ w : Watched, w.cpu = p.cpu →
    w.retiring.map (fun r => (r.pc, r.raw)) = (p.occupant 4).map DynamicInstr.shown

end Occupied

namespace PipelinedCpu

variable {cpu : PipelinedCpu}

section Shown

variable (mem : Memory)

theorem fetch_shown (pc : Word) :
    (fetch mem pc).shown = (mem.readWord pc).map fun raw => (pc, raw) := by
  unfold fetch
  cases mem.readWord pc <;> rfl

theorem decode_shown (regs : RegisterFile) {ifId : IfId} (hv : ifId.valid = true) :
    (decode regs ifId).next.shown = ifId.shown := by
  unfold decode IfId.shown
  cases hf : ifId.fetchFault with
  | true => simp [IdEx.shown]
  | false =>
    cases hd : Decoder.decode ifId.instr with
    | none => simp [IdEx.shown, hv]
    | some d => simp [IdEx.shown, hv, Decoder.decode_raw hd]

theorem idStage_shown (cpu : PipelinedCpu) : cpu.idStage.next.shown = cpu.ifId.shown := by
  unfold idStage
  cases hv : cpu.ifId.valid with
  | false => simp [IfId.shown, IdEx.shown, hv]
  | true => exact decode_shown _ hv

theorem memoryAccess_shown (exMem : ExMem) :
    (memoryAccess mem exMem).1.next.shown =
      if (memoryAccess mem exMem).1.trap.isSome then none else exMem.shown := by
  cases ht : (memoryAccess mem exMem).1.trap with
  | some trap =>
    rw [(memoryAccess_trap_next (by rw [ht]; simp)).1]
    rfl
  | none =>
    cases hv : exMem.valid with
    | false => simp [memoryAccess_invalid _ hv, ExMem.shown, MemWb.shown, hv]
    | true =>
      obtain ⟨hnv, hpc, hraw, -⟩ := memoryAccess_next hv ht
      simp [ExMem.shown, MemWb.shown, hv, hnv, hpc, hraw]

theorem execute_shown (cp0 : Cp0) (inp : IdEx) (exMem : ExMem) (memWb : MemWb) :
    (execute cp0 inp exMem memWb).next.shown =
      if (execute cp0 inp exMem memWb).trap.isSome then none else inp.shown := by
  cases hv : inp.valid with
  | false => simp [execute_invalid _ _ _ hv, ExMem.shown, IdEx.shown, hv]
  | true =>
    rcases execute_settles cp0 inp exMem memWb hv with
      ⟨trap, ht, -, hnext⟩ | ⟨ht, hnv, hpc, hraw⟩
    · rw [ht, hnext]
      rfl
    · have hearly : inp.earlyTrap = none := by
        cases he : inp.earlyTrap with
        | none => rfl
        | some code => simp [execute, hv, he] at ht
      simp [ht, ExMem.shown, IdEx.shown, hv, hearly, hnv, hpc, hraw]

theorem step_exMem_shown (cpu : PipelinedCpu) :
    cpu.step.2.exMem.shown = if cpu.runStages.trap.isSome then none else cpu.idEx.shown := by
  rw [step_exMem]
  cases hp : cpu.pendingTrap with
  | some trap =>
    rw [ex_of_pending hp, trap_of_pending hp]
    rfl
  | none => rw [trap_of_ex hp, runStages_ex cpu hp, execute_shown]

theorem flushFromEx_false (hf : cpu.runStages.flushFromEx = false) :
    cpu.runStages.trap = none ∧ cpu.runStages.ex.redirect = none := by
  cases ht : cpu.runStages.trap with
  | some trap => simp [StageOutcomes.flushFromEx, ht] at hf
  | none => exact ⟨rfl, by simpa [StageOutcomes.flushFromEx, StageOutcomes.redirect, ht] using hf⟩

-- The three ways a cycle fills IF/ID and ID/EX.
theorem step_front_cases (cpu : PipelinedCpu) :
    (cpu.runStages.flushFromEx = true ∧ cpu.step.2.ifId = {} ∧ cpu.step.2.idEx = {}) ∨
      (cpu.runStages.flushFromEx = false ∧ cpu.runStages.flushFromId = false ∧
        cpu.runStages.stallLoadUse = true ∧ cpu.step.2.ifId = cpu.ifId ∧
        cpu.step.2.idEx = {}) ∨
      (cpu.runStages.flushFromEx = false ∧ cpu.runStages.stallLoadUse = false ∧
        cpu.step.2.idEx = cpu.idStage.next ∧
        cpu.step.2.ifId =
          if cpu.runStages.flushFromId then {} else fetch cpu.runStages.memory cpu.pc) := by
  cases hf : cpu.runStages.flushFromEx with
  | true => exact .inl ⟨rfl, by simp [nextIfId, hf], by simp [nextIdEx, hf]⟩
  | false =>
    obtain ⟨ht, hr⟩ := flushFromEx_false hf
    cases hs : cpu.runStages.stallLoadUse with
    | true =>
      obtain ⟨-, hifId, hidEx⟩ := step_of_stall ht hr hs
      have hid : cpu.runStages.flushFromId = false := by
        rw [StageOutcomes.flushFromId, runStages_id, ← runStages_stall, hs]
        rfl
      exact .inr (.inl ⟨rfl, hid, rfl, hifId, hidEx⟩)
    | false =>
      obtain ⟨hidEx, -, hifId⟩ := step_of_flow ht hr hs
      rw [← runStages_id_of_flow ht hr hs] at hifId
      exact .inr (.inr ⟨rfl, rfl, hidEx, hifId⟩)

end Shown

section Load

-- A load in ID/EX has been decoded.
def LoadDecoded (idEx : IdEx) : Prop :=
  idEx.ctrl.memRead = true → idEx.earlyTrap = none ∧
    ∃ raw, Decoder.decode raw = some idEx.decoded ∧ idEx.ctrl = deriveControl idEx.decoded

theorem decode_loadDecoded (regs : RegisterFile) (ifId : IfId) :
    LoadDecoded (decode regs ifId).next := by
  intro hload
  unfold decode at hload ⊢
  cases hf : ifId.fetchFault with
  | true => simp [hf] at hload
  | false =>
    cases hd : Decoder.decode ifId.instr with
    | none => simp [hf, hd] at hload
    | some d => exact ⟨rfl, ifId.instr, hd, rfl⟩

theorem step_loadDecoded (cpu : PipelinedCpu) : LoadDecoded cpu.step.2.idEx := by
  rcases cpu.step_front_cases with ⟨-, -, hx⟩ | ⟨-, -, -, -, hx⟩ | ⟨-, -, hx, -⟩
  · rw [hx]
    intro hload
    cases hload
  · rw [hx]
    intro hload
    cases hload
  · rw [hx, idStage]
    split
    · exact decode_loadDecoded _ _
    · intro hload
      cases hload

theorem Empty.loadDecoded_run (h : cpu.Empty) (n : ℕ) : LoadDecoded (cpu.run n).idEx := by
  cases n with
  | zero =>
    intro hload
    rw [run, Function.iterate_zero, id, h.idEx] at hload
    cases hload
  | succ n =>
    rw [run_succ]
    exact step_loadDecoded _

-- The load of a hazard flushes nothing, so nothing but a trap of MEM does.
theorem Held.keeps (h : cpu.Held) (hload : LoadDecoded cpu.idEx) :
    cpu.runStages.flushFromEx = false := by
  obtain ⟨hs, hp⟩ := h
  obtain ⟨hv, hread, -⟩ := loadUseHazard_load hs
  obtain ⟨hearly, raw, hd, hctrl⟩ := hload hread
  rw [hctrl] at hread
  have hex := executeDecoded_load cpu.cp0 cpu.idEx
    (forwardOperands cpu.idEx cpu.exMem cpu.memWb) hd hread
  have hrun : cpu.runStages.ex =
      executeDecoded cpu.cp0 cpu.idEx (forwardOperands cpu.idEx cpu.exMem cpu.memWb) := by
    rw [runStages_ex cpu hp]
    simp [execute, hv, hearly]
  simp [StageOutcomes.flushFromEx, StageOutcomes.redirect, trap_of_ex hp, hrun, hex]

end Load

end PipelinedCpu

namespace Occupied

open PipelinedCpu

-- The registers hold the instructions they are said to, the older ones further along.
structure Sound (p : Occupied) : Prop where
  ifId : p.cpu.ifId.shown = p.ifId.map DynamicInstr.shown
  idEx : p.cpu.idEx.shown = p.idEx.map DynamicInstr.shown
  exMem : p.cpu.exMem.shown = p.exMem.map DynamicInstr.shown
  memWb : p.cpu.memWb.shown = p.memWb.map DynamicInstr.shown
  ordered : Conveyor.Ordered DynamicInstr.fetched (p.cpu.cycle + 1) p.line

-- IF/ID keeps its instruction in a stall that nothing flushes.
def Stays (p : Occupied) (k : ℕ) : Prop :=
  k = 0 ∧ p.cpu.runStages.flushFromEx = false ∧ p.cpu.runStages.stallLoadUse = true

section Step

variable {p : Occupied}

@[simp] theorem step_cpu (p : Occupied) : p.step.cpu = p.cpu.step.2 := rfl

theorem fetchedInstr_fetched {cpu : PipelinedCpu} {d : DynamicInstr}
    (h : cpu.fetchedInstr = some d) : d.fetched = cpu.cycle + 1 := by
  obtain ⟨raw, -, rfl⟩ := Option.map_eq_some_iff.mp h
  rfl

theorem step_ifId_cases {d : DynamicInstr} (h : p.step.ifId = some d) :
    p.Stays 0 ∧ p.ifId = some d ∨ p.cpu.fetchedInstr = some d := by
  simp only [step] at h
  cases hf : p.cpu.runStages.flushFromEx with
  | true => simp [hf] at h
  | false =>
    cases hj : p.cpu.runStages.flushFromId with
    | true => simp [hj] at h
    | false =>
      cases hs : p.cpu.runStages.stallLoadUse with
      | true => exact .inl ⟨⟨rfl, hf, hs⟩, by simpa [hf, hj, hs] using h⟩
      | false => exact .inr (by simpa [hf, hj, hs] using h)

theorem step_ifId_held (hf : p.cpu.runStages.flushFromEx = false)
    (hj : p.cpu.runStages.flushFromId = false) (hs : p.cpu.runStages.stallLoadUse = true) :
    p.step.ifId = p.ifId := by
  simp [step, hf, hj, hs]

theorem step_move (p : Occupied) :
    Conveyor.Move DynamicInstr.fetched p.Stays (p.cpu.cycle + 1) p.line p.step.line := by
  intro k d hd
  match k with
  | 0 =>
    rcases step_ifId_cases hd with ⟨hstays, hifId⟩ | hnew
    · exact .inr (.inl ⟨hstays, hifId⟩)
    · exact .inl ⟨rfl, fetchedInstr_fetched hnew⟩
  | 1 =>
    simp only [line, step, Option.ite_none_left_eq_some] at hd
    refine .inr (.inr ⟨0, rfl, ?_, hd.2⟩)
    rintro ⟨-, -, hs⟩
    simp [hs] at hd
  | 2 =>
    simp only [line, step, Option.ite_none_left_eq_some] at hd
    exact .inr (.inr ⟨1, rfl, by simp [Stays], hd.2⟩)
  | 3 =>
    simp only [line, step, Option.ite_none_left_eq_some] at hd
    exact .inr (.inr ⟨2, rfl, by simp [Stays], hd.2⟩)
  | k + 4 => cases hd

theorem Sound.step (h : p.Sound) : p.step.Sound where
  ifId := by
    rw [step_cpu]
    rcases p.cpu.step_front_cases with ⟨hf, hifId, -⟩ | ⟨hf, hj, hs, hifId, -⟩ |
      ⟨hf, hs, -, hifId⟩
    · have hnone : p.step.ifId = none := by simp [Occupied.step, hf]
      rw [hifId, hnone]
      rfl
    · rw [hifId, step_ifId_held hf hj hs, h.ifId]
    · cases hj : p.cpu.runStages.flushFromId with
      | true =>
        have hnone : p.step.ifId = none := by simp [Occupied.step, hj]
        rw [hifId, hj, hnone]
        rfl
      | false =>
        have hnew : p.step.ifId = p.cpu.fetchedInstr := by simp [Occupied.step, hf, hj, hs]
        rw [hifId, hj, if_neg Bool.false_ne_true, fetch_shown, hnew, fetchedInstr, Option.map_map]
        rfl
  idEx := by
    rw [step_cpu]
    rcases p.cpu.step_front_cases with ⟨hf, -, hidEx⟩ | ⟨hf, -, hs, -, hidEx⟩ |
      ⟨hf, hs, hidEx, -⟩
    · have hnone : p.step.idEx = none := by simp [Occupied.step, hf]
      rw [hidEx, hnone]
      rfl
    · have hnone : p.step.idEx = none := by simp [Occupied.step, hs]
      rw [hidEx, hnone]
      rfl
    · have hmoved : p.step.idEx = p.ifId := by simp [Occupied.step, hf, hs]
      rw [hidEx, idStage_shown, hmoved, h.ifId]
  exMem := by
    rw [step_cpu, step_exMem_shown, h.idEx]
    cases ht : p.cpu.runStages.trap <;> simp [Occupied.step, ht]
  memWb := by
    rw [step_cpu, step_memWb, memoryAccess_shown, h.exMem]
    cases ht : (memoryAccess p.cpu.mem p.cpu.exMem).1.trap <;> simp [Occupied.step, ht]
  ordered := (step_move p).ordered h.ordered

-- The instruction of a stage is the one of its next stage a cycle later.
theorem step_occupant {k j : Fin 5} (hk : p.cpu.nextStage k = some j) :
    p.step.occupant j = p.occupant k := by
  match k with
  | 0 =>
    obtain rfl := Option.some.inj hk
    rfl
  | 1 =>
    rcases p.cpu.step_front_cases with ⟨hf, -⟩ | ⟨hf, hj, hs, -⟩ | ⟨hf, hs, -⟩
    · simp [nextStage, hf] at hk
    · obtain rfl : 1 = j := by simpa [nextStage, hf, hs] using hk
      exact step_ifId_held hf hj hs
    · obtain rfl : 2 = j := by simpa [nextStage, hf, hs] using hk
      simp [occupant, step, hf, hs]
  | 2 =>
    simp only [nextStage, Option.ite_none_left_eq_some, Option.some.injEq] at hk
    obtain ⟨ht, rfl⟩ := hk
    exact if_neg ht
  | 3 =>
    simp only [nextStage, Option.ite_none_left_eq_some, Option.some.injEq] at hk
    obtain ⟨ht, rfl⟩ := hk
    exact if_neg ht
  | 4 => cases hk

theorem occupant_comes {j : Fin 5} {d : DynamicInstr} (hd : p.step.occupant j = some d)
    (hj : j ≠ 0) : ∃ k, p.occupant k = some d ∧ p.cpu.nextStage k = some j := by
  match j with
  | 0 => exact absurd rfl hj
  | 1 => exact ⟨0, hd, rfl⟩
  | 2 =>
    simp only [occupant, step, Option.ite_none_left_eq_some, Bool.or_eq_true, not_or,
      Bool.not_eq_true] at hd
    obtain ⟨⟨hf, hs⟩, hd⟩ := hd
    exact ⟨1, hd, by simp [nextStage, hf, hs]⟩
  | 3 =>
    simp only [occupant, step, Option.ite_none_left_eq_some] at hd
    exact ⟨2, hd.2, if_neg hd.1⟩
  | 4 =>
    simp only [occupant, step, Option.ite_none_left_eq_some] at hd
    exact ⟨3, hd.2, if_neg hd.1⟩

theorem occupant_line (p : Occupied) {k : Fin 5} (hk : k ≠ 0) :
    p.occupant k = p.line (k.val - 1) := by
  match k with
  | 0 => exact absurd rfl hk
  | 1 | 2 | 3 | 4 => rfl

-- A squashed or retiring instruction does not stay, and the slot behind it is empty.
theorem nextStage_none {k : Fin 5} (hk : p.cpu.nextStage k = none) :
    k ≠ 0 ∧ ¬p.Stays (k.val - 1) ∧ p.step.line (k.val - 1 + 1) = none := by
  match k with
  | 0 => cases hk
  | 1 =>
    cases hf : p.cpu.runStages.flushFromEx with
    | true => exact ⟨by decide, by simp [Stays, hf], by simp [line, step, hf]⟩
    | false =>
      simp only [nextStage, hf, Bool.false_eq_true, if_false] at hk
      split at hk <;> cases hk
  | 2 =>
    simp only [nextStage, ite_eq_left_iff, reduceCtorEq, imp_false, not_not] at hk
    exact ⟨by decide, by simp [Stays], if_pos hk⟩
  | 3 =>
    simp only [nextStage, ite_eq_left_iff, reduceCtorEq, imp_false, not_not] at hk
    exact ⟨by decide, by simp [Stays], if_pos hk⟩
  | 4 => exact ⟨by decide, by simp [Stays], rfl⟩

end Step

section Run

theorem run_succ (p : Occupied) (n : ℕ) : p.run (n + 1) = (p.run n).step :=
  Function.iterate_succ_apply' _ _ _

theorem run_cpu (p : Occupied) (n : ℕ) : (p.run n).cpu = p.cpu.run n := by
  induction n with
  | zero => rfl
  | succ n ih => rw [run_succ, step_cpu, ih, PipelinedCpu.run_succ]

theorem Sound.run {p : Occupied} (h : p.Sound) (n : ℕ) : (p.run n).Sound := by
  induction n with
  | zero => exact h
  | succ n ih =>
    rw [run_succ]
    exact ih.step

theorem run_line_move (p : Occupied) (n : ℕ) :
    Conveyor.Move DynamicInstr.fetched (p.run n).Stays (p.cpu.cycle + 1 + n) (p.run n).line
      (p.run (n + 1)).line := by
  have hnow : p.cpu.cycle + 1 + n = (p.run n).cpu.cycle + 1 := by
    rw [run_cpu, run_cycle]
    omega
  rw [hnow, run_succ]
  exact step_move _

-- What no register holds any more is in no stage of a later cycle.
theorem gone {p : Occupied} {d : DynamicInstr} (hold : d.fetched < p.cpu.cycle + 1)
    (hgone : ∀ k, p.line k ≠ some d) (n : ℕ) (j : Fin 5) : (p.run n).occupant j ≠ some d := by
  have hline : ∀ n k, (p.run n).line k ≠ some d :=
    Conveyor.gone_run hold hgone p.run_line_move
  by_cases hj : j = 0
  · rw [hj]
    have hnext := hline (n + 1) 0
    rwa [run_succ] at hnext
  · rw [occupant_line _ hj]
    exact hline n _

end Run

section Laws

variable {p : Occupied}

theorem Sound.shown (h : p.Sound) (k : Fin 5) :
    (p.step.cpu.ps.stages.get k).shown = (p.occupant k).map DynamicInstr.shown := by
  match k with
  | 0 => exact h.step.ifId
  | 1 => exact h.ifId
  | 2 => exact h.idEx
  | 3 => exact h.exMem
  | 4 => exact h.memWb

theorem Sound.retires (h : p.Sound) {w : Watched} (hw : w.cpu = p.cpu) :
    w.retiring.map (fun r => (r.pc, r.raw)) = (p.occupant 4).map DynamicInstr.shown := by
  refine Eq.trans ?_ h.memWb
  rw [Watched.retiring, hw, MemWb.shown]
  split <;> rfl

theorem Sound.retired (h : p.Sound) : p.step.cpu.ps.retired = (p.occupant 4).isSome := by
  have hwb := congrArg Option.isSome h.memWb
  rw [Option.isSome_map, MemWb.shown] at hwb
  refine Eq.trans ?_ hwb
  rw [step_cpu, step_retired]
  cases p.cpu.memWb.valid <;> rfl

theorem Sound.moves (h : p.Sound) {k : Fin 5} {d : DynamicInstr} (hd : p.occupant k = some d) :
    match p.cpu.nextStage k with
    | some j => p.step.occupant j = some d
    | none => ∀ n j, (p.step.run n).occupant j ≠ some d := by
  cases hk : p.cpu.nextStage k with
  | some j => exact (step_occupant hk).trans hd
  | none =>
    obtain ⟨hzero, hstays, hnext⟩ := nextStage_none hk
    rw [occupant_line _ hzero] at hd
    have hpast := h.ordered.past hd
    refine gone (Nat.lt_succ_of_lt hpast) ?_
    exact (step_move p).leaves h.ordered hd hstays (by rw [hnext]; exact Option.some_ne_none _ ∘ Eq.symm)

-- Out of a held cycle IF hands on what it fetches.
theorem starts (hn : ¬p.cpu.Held) {d : DynamicInstr} (hd : p.occupant 0 = some d) :
    p.cpu.fetchedInstr = some d := by
  rcases step_ifId_cases hd with ⟨⟨-, hf, hs⟩, -⟩ | hnew
  · exact absurd ⟨hs, (trap_none (flushFromEx_false hf).1).1⟩ hn
  · exact hnew

theorem Sound.older (h : p.Sound) (hn : ¬p.cpu.Held) {i j : Fin 5} {d e : DynamicInstr}
    (hij : i < j) (hd : p.occupant i = some d) (he : p.occupant j = some e) :
    e.fetched < d.fetched := by
  have hj : j ≠ 0 := Fin.ne_zero_of_lt hij
  rw [occupant_line _ hj] at he
  by_cases hi : i = 0
  · rw [hi] at hd
    rw [fetchedInstr_fetched (starts hn hd)]
    exact h.ordered.past he
  · rw [occupant_line _ hi] at hd
    exact h.ordered.older (by omega) hd he

theorem Sound.once (h : p.Sound) (hn : ¬p.cpu.Held) {i j : Fin 5} {d : DynamicInstr}
    (hi : p.occupant i = some d) (hj : p.occupant j = some d) : i = j := by
  rcases lt_trichotomy i j with hlt | heq | hgt
  · exact absurd (h.older hn hlt hi hj) (Nat.lt_irrefl _)
  · exact heq
  · exact absurd (h.older hn hgt hj hi) (Nat.lt_irrefl _)

theorem Sound.diagram (h : p.Sound) (hn : ¬p.cpu.Held) : p.Diagram where
  shown := h.shown
  starts := starts hn
  once := h.once hn
  older := h.older hn
  moves := h.moves
  comes := occupant_comes
  retired := h.retired
  retires _ hw := h.retires hw

-- In a held cycle IF and ID both show the instruction in IF/ID.
theorem Sound.held_twice (h : p.Sound) (hload : LoadDecoded p.cpu.idEx) (hheld : p.cpu.Held) :
    ∃ d, p.occupant 0 = some d ∧ p.occupant 1 = some d := by
  obtain ⟨-, -, hv, hf⟩ := loadUseHazard_load hheld.1
  have hifId : p.ifId.map DynamicInstr.shown = some (p.cpu.ifId.pc, p.cpu.ifId.instr) := by
    rw [← h.ifId]
    simp [IfId.shown, hv, hf]
  obtain ⟨d, hd, -⟩ := Option.map_eq_some_iff.mp hifId
  have hkeeps := hheld.keeps hload
  have hstays : p.occupant 0 = p.ifId := by
    rcases p.cpu.step_front_cases with ⟨hf, -⟩ | ⟨hf, hj, hs, -⟩ | ⟨-, hs, -⟩
    · rw [hkeeps] at hf
      cases hf
    · exact step_ifId_held hf hj hs
    · rw [runStages_stall, hheld.1] at hs
      cases hs
  exact ⟨d, hstays.trans hd, hd⟩

end Laws

end Occupied

namespace PipelinedCpu

def occupied (cpu : PipelinedCpu) : Occupied := { cpu }

theorem Empty.sound {cpu : PipelinedCpu} (h : cpu.Empty) : cpu.occupied.Sound where
  ifId := by
    rw [occupied, h.ifId]
    rfl
  idEx := by
    rw [occupied, h.idEx]
    rfl
  exMem := by
    rw [occupied, h.exMem]
    rfl
  memWb := by
    rw [occupied, h.memWb]
    rfl
  ordered := {
    past := by
      intro k d hd
      match k with
      | 0 | 1 | 2 | 3 | _ + 4 => cases hd
    older := by
      intro i j d e _ hd
      match i with
      | 0 | 1 | 2 | 3 | _ + 4 => cases hd }

-- The stages of a cycle are displayed as a pipeline diagram just when the cycle does not hold
-- IF/ID.
theorem diagram_iff (cpu : PipelinedCpu) (h : cpu.Empty) (n : ℕ) :
    (cpu.occupied.run n).Diagram ↔ ¬(cpu.run n).Held := by
  have hsound := h.sound.run n
  have hcpu : (cpu.occupied.run n).cpu = cpu.run n := cpu.occupied.run_cpu n
  rw [← hcpu]
  constructor
  · intro hdiagram hheld
    have hload : LoadDecoded (cpu.occupied.run n).cpu.idEx := by
      rw [hcpu]
      exact h.loadDecoded_run n
    obtain ⟨d, hif, hid⟩ := hsound.held_twice hload hheld
    exact absurd (hdiagram.once hif hid) (by decide)
  · exact hsound.diagram

-- lw $t0, 0($0); addu $t1, $t0, $t0; j 8
def loadUseProgram : PipelinedCpu where
  regs := .initial
  mem := Memory.loadWordsFrom 0#32 0 [0x8C080000#32, 0x01084821#32, 0x08000002#32] (.ofSize 16)

theorem diagram_iff_loadUse :
    (loadUseProgram.occupied.run 1).Diagram ∧ (loadUseProgram.occupied.run 3).Diagram :=
  ⟨(diagram_iff loadUseProgram ⟨rfl, rfl, rfl, rfl⟩ 1).mpr (by decide),
    (diagram_iff loadUseProgram ⟨rfl, rfl, rfl, rfl⟩ 3).mpr (by decide)⟩

-- In its third cycle the addu waits in ID for the load, and is displayed in IF as well.
theorem stall_shownTwice :
    loadUseProgram.Empty ∧
      (loadUseProgram.run 3).ps.stages.ifs.shown = some (4#32, 0x01084821#32) ∧
      (loadUseProgram.run 3).ps.stages.id.shown = some (4#32, 0x01084821#32) ∧
      ¬(loadUseProgram.occupied.run 2).Diagram := by
  refine ⟨⟨rfl, rfl, rfl, rfl⟩, by decide, by decide, fun hdiagram => ?_⟩
  have hif : (loadUseProgram.occupied.run 2).occupant 0 =
      some { fetched := 2, pc := 4#32, raw := 0x01084821#32 } := by decide
  have hid : (loadUseProgram.occupied.run 2).occupant 1 =
      some { fetched := 2, pc := 4#32, raw := 0x01084821#32 } := by decide
  exact absurd (hdiagram.once hif hid) (by decide)

end PipelinedCpu

end ClearCore.Mips
