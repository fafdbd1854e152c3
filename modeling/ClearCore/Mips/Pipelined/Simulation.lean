import ClearCore.Mips.Pipelined.Stages

-- The simulation between the pipeline and the reference machine. The machine runs
-- ahead: it has performed every instruction that has passed EX, and stands at the
-- one in EX, or at the next one to reach EX.

namespace ClearCore.Mips

open Isa

namespace PipelinedCpu

theorem fetch_step (arch : Arch) {pc : Word} (hne : arch.storeAddr ≠ some pc) :
    fetch arch.step.mem pc = fetch arch.mem pc := by
  simp only [fetch, arch.step_readWord hne]

-- The stores of the instruction in EX and of its successor miss the words fetched
-- in their shadow.
structure Fresh (cpu : PipelinedCpu) (arch : Arch) : Prop where
  next : cpu.idEx.valid = true ∨ cpu.ifId.valid = true → arch.storeAddr ≠ some arch.step.pc
  afterNext : cpu.idEx.valid = true → cpu.ifId.valid = true → arch.step.trapped = false →
    arch.storeAddr ≠ some arch.step.step.pc ∧ arch.step.storeAddr ≠ some arch.step.step.pc

-- CP0 once the trap MEM is about to raise has been raised.
def drainCp0 (cpu : PipelinedCpu) : Cp0 :=
  match cpu.pendingTrap with
  | none => cpu.cp0
  | some trap => cpu.cp0.raise trap.code trap.pc trap.badAddr

-- The front end against a machine that stands at `arch.pc`: what ID/EX and IF/ID
-- hold, and where the fetch goes on.
structure Front (cpu : PipelinedCpu) (arch : Arch) : Prop where
  ex : cpu.idEx.valid = true →
    cpu.idEx = (decode cpu.regs (fetch arch.mem arch.pc)).next
  id : cpu.idEx.valid = false → cpu.ifId.valid = true → cpu.ifId = fetch arch.mem arch.pc
  empty : cpu.idEx.valid = false → cpu.ifId.valid = false → cpu.pc = arch.pc
  fetched : cpu.ifId.valid = true → cpu.pc = cpu.ifId.pc + 4#32
  jump : cpu.idEx.valid = true → cpu.ifId.valid = false →
    cpu.idEx.decoded.format = .J ∧
      cpu.pc = Action.jumpTarget arch.pc cpu.idEx.decoded.j.target
  sequential : cpu.idEx.valid = true → cpu.ifId.valid = true →
    cpu.idEx.decoded.format ≠ .J ∧ cpu.ifId.pc = arch.pc + 4#32
  -- the hazard unit has kept a load and its user apart
  load : cpu.idEx.valid = true → cpu.exMem.valid = true → cpu.exMem.ctrl.memRead = true →
    cpu.idEx.earlyTrap = none → cpu.exMem.writeReg ≠ 0#5 →
    (sourceRegisters cpu.idEx.decoded).a ≠ some cpu.exMem.writeReg ∧
      (sourceRegisters cpu.idEx.decoded).b ≠ some cpu.exMem.writeReg

-- What has passed EX leads to the state of the machine.
structure Drains (cpu : PipelinedCpu) (arch : Arch) : Prop where
  regs : cpu.drainRegs = arch.regs
  mem : cpu.drainMem = arch.mem
  cp0 : cpu.drainCp0 = arch.cp0
  consistent : cpu.exMem.Consistent
  vector : cpu.pendingTrap ≠ none → arch.pc = kExceptionVector

-- EX has the instruction of the machine. The one behind it may be an old word.
structure Aligned (cpu : PipelinedCpu) (arch : Arch) : Prop extends cpu.Drains arch where
  front : cpu.pendingTrap = none → cpu.Front arch

structure Sim (cpu : PipelinedCpu) (arch : Arch) : Prop extends cpu.Aligned arch where
  successor : cpu.pendingTrap = none → cpu.idEx.valid = true → cpu.ifId.valid = true →
    arch.trapped = false → arch.step.pc = cpu.ifId.pc →
      cpu.ifId = fetch arch.step.mem arch.step.pc

-- Whether this cycle's EX consumes an instruction.
def advance (cpu : PipelinedCpu) : Bool := cpu.pendingTrap.isNone && cpu.idEx.valid

section Execute

variable {cpu : PipelinedCpu} {arch : Arch}

theorem Drains.cp0_eq (h : cpu.Drains arch) (ht : cpu.pendingTrap = none) : cpu.cp0 = arch.cp0 := by
  have hc := h.cp0
  simpa [drainCp0, ht] using hc

-- The operands of the instruction in EX are those the reference machine reads, as
-- far as the instruction reads them.
theorem Aligned.operands_eq (h : cpu.Aligned arch) (ht : cpu.pendingTrap = none)
    (hv : cpu.idEx.valid = true) {raw : Word} {d : DecodedInstr}
    (hr : arch.mem.readWord arch.pc = some raw) (hd : Decoder.decode raw = some d) :
    let ops := forwardOperands cpu.idEx cpu.exMem cpu.memWb
    ((sourceRegisters d).a ≠ none → ops.a = arch.operandA d) ∧
      ((sourceRegisters d).b ≠ none → ops.b = arch.operandB d) := by
  have hfront := h.front ht
  have hex := hfront.ex hv
  rw [decode_decoded _ _ _ hr hd] at hex
  have hrs : cpu.idEx.rs = d.rsIdx := by rw [hex]
  have hrt : cpu.idEx.rt = d.rtIdx := by rw [hex]
  have hdec : cpu.idEx.decoded = d := by rw [hex]
  have hearly : cpu.idEx.earlyTrap = none := by rw [hex]
  have hload := hfront.load hv
  rw [hdec] at hload
  constructor
  · intro hne
    obtain ⟨r, hsrc⟩ := Option.ne_none_iff_exists'.mp hne
    have hidx := sourceRegisters_a hd hsrc
    rw [forwardOperands_a cpu cpu.idEx h.consistent ht (by rw [hex]), h.regs, hrs, Arch.operandA]
    intro hxv hxr hwr
    by_contra hz
    have hw : cpu.exMem.writeReg ≠ 0#5 := by rwa [hwr]
    apply (hload hxv hxr hearly hw).1
    rw [hsrc, hidx, hwr, hrs]
  · intro hne
    obtain ⟨r, hsrc⟩ := Option.ne_none_iff_exists'.mp hne
    have hidx := sourceRegisters_b hd hsrc
    rw [forwardOperands_b cpu cpu.idEx h.consistent ht (by rw [hex]), h.regs, hrt, Arch.operandB]
    intro hxv hxr hwr
    by_contra hz
    have hw : cpu.exMem.writeReg ≠ 0#5 := by rwa [hwr]
    apply (hload hxv hxr hearly hw).2
    rw [hsrc, hidx, hwr, hrt]

theorem Aligned.action_eq (h : cpu.Aligned arch) (ht : cpu.pendingTrap = none)
    (hv : cpu.idEx.valid = true) {raw : Word} {d : DecodedInstr}
    (hr : arch.mem.readWord arch.pc = some raw) (hd : Decoder.decode raw = some d) :
    let ops := forwardOperands cpu.idEx cpu.exMem cpu.memWb
    Action.ofInstr d cpu.cp0 arch.pc ops.a ops.b = arch.action d := by
  obtain ⟨ha, hb⟩ := h.operands_eq ht hv hr hd
  rw [h.cp0_eq ht]
  exact Action.ofInstr_congr hd arch.cp0 arch.pc ha hb

-- EX traps exactly as the reference machine does, or performs its action.
theorem Aligned.execute_cases (h : cpu.Aligned arch) (ht : cpu.pendingTrap = none)
    (hv : cpu.idEx.valid = true) :
    (∃ raw code badAddr, arch.outcome = (raw, .trap code badAddr) ∧
      cpu.runStages.ex.trap = some { code, pc := arch.pc, badAddr } ∧
      cpu.runStages.ex.next = {}) ∨
    ∃ raw d, arch.mem.readWord arch.pc = some raw ∧ Decoder.decode raw = some d ∧
      (arch.action d).trapOf arch.pc = none ∧
      cpu.runStages.ex.Performs d arch.pc (selfJump arch.pc raw) (arch.action d) := by
  have hex := (h.front ht).ex hv
  rw [runStages_ex cpu ht]
  cases hr : arch.mem.readWord arch.pc with
  | none =>
    rw [decode_fault _ _ _ hr] at hex
    refine .inl ⟨0#32, .AdEL, arch.pc, Arch.outcome_fault hr, ?_⟩
    simp [hex, execute]
  | some raw =>
    cases hd : Decoder.decode raw with
    | none =>
      rw [decode_reserved _ _ _ hr hd] at hex
      refine .inl ⟨raw, .RI, 0#32, Arch.outcome_reserved hr hd, ?_⟩
      simp [hex, execute]
    | some d =>
      have hact := h.action_eq ht hv hr hd
      rw [decode_decoded _ _ _ hr hd] at hex
      have hdec : cpu.idEx.decoded = d := by rw [hex]
      have hearly : cpu.idEx.earlyTrap = none := by rw [hex]
      have hd' : Decoder.decode raw = some cpu.idEx.decoded := by rw [hdec, hd]
      have hperf := executeDecoded_performs cpu.cp0 cpu.idEx
        (forwardOperands cpu.idEx cpu.exMem cpu.memWb) hd' (by rw [hex]) (by rw [hex])
      rw [hdec, show cpu.idEx.pc = arch.pc by rw [hex],
        show cpu.idEx.isHalt = selfJump arch.pc raw by rw [hex], hact] at hperf
      have hexec : execute cpu.cp0 cpu.idEx cpu.exMem cpu.memWb =
          executeDecoded cpu.cp0 cpu.idEx (forwardOperands cpu.idEx cpu.exMem cpu.memWb) := by
        simp [execute, hv, hearly]
      rw [hexec]
      cases hto : (arch.action d).trapOf arch.pc with
      | none => exact .inr ⟨raw, d, rfl, hd, hto, hperf⟩
      | some trap =>
        cases hac : arch.action d with
        | trap code =>
          have hn := hperf.carries
          have htr := hperf.trap
          rw [hac] at hn htr
          exact .inl ⟨raw, code, 0#32, by rw [Arch.outcome_decoded hr hd, hac]; rfl, htr, hn⟩
        | load | store | done => simp [hac, Action.trapOf] at hto

-- What can happen in a cycle: MEM raises a trap, EX holds a bubble, EX traps, or EX
-- lets an instruction pass.
inductive Cycle (cpu : PipelinedCpu) (arch : Arch) : Prop
  | pending (trap : Trap) (ht : cpu.pendingTrap = some trap) (hadv : cpu.advance = false)
  | bubble (ht : cpu.pendingTrap = none) (hv : cpu.idEx.valid = false)
      (hex : cpu.runStages.ex = {}) (hadv : cpu.advance = false)
  | trapping (ht : cpu.pendingTrap = none) (hv : cpu.idEx.valid = true) (raw : Word)
      (code : ExceptionCode) (badAddr : Word) (hout : arch.outcome = (raw, .trap code badAddr))
      (htrap : cpu.runStages.ex.trap = some { code, pc := arch.pc, badAddr })
      (hnext : cpu.runStages.ex.next = {}) (hadv : cpu.advance = true)
  | passing (ht : cpu.pendingTrap = none) (hv : cpu.idEx.valid = true) (raw : Word)
      (d : DecodedInstr) (hr : arch.mem.readWord arch.pc = some raw)
      (hd : Decoder.decode raw = some d) (hno : (arch.action d).trapOf arch.pc = none)
      (hperf : cpu.runStages.ex.Performs d arch.pc (selfJump arch.pc raw) (arch.action d))
      (hadv : cpu.advance = true)

-- What IF/ID and ID/EX hold does not matter in a cycle without an instruction for EX.
theorem cycle_of_idle (ha : cpu.advance = false) : cpu.Cycle arch := by
  cases ht : cpu.pendingTrap with
  | some trap => exact .pending trap ht ha
  | none =>
    have hv : cpu.idEx.valid = false := by simpa [advance, ht] using ha
    refine .bubble ht hv ?_ ha
    rw [runStages_ex cpu ht, execute_invalid _ _ _ hv]

theorem Aligned.cycle (h : cpu.Aligned arch) : cpu.Cycle arch := by
  cases ht : cpu.pendingTrap with
  | some trap => exact cycle_of_idle (by simp [advance, ht])
  | none =>
    cases hv : cpu.idEx.valid with
    | false => exact cycle_of_idle (by simp [advance, hv])
    | true =>
      have hadv : cpu.advance = true := by simp [advance, ht, hv]
      rcases h.execute_cases ht hv with ⟨raw, code, badAddr, hout, htrap, hnext⟩ |
        ⟨raw, d, hr, hd, hno, hperf⟩
      · exact .trapping ht hv raw code badAddr hout htrap hnext hadv
      · exact .passing ht hv raw d hr hd hno hperf hadv

end Execute

section Simulation

variable {cpu : PipelinedCpu} {arch : Arch}

theorem Front.of_empty (hid : cpu.ifId = {}) (hex : cpu.idEx = {}) (hpc : cpu.pc = arch.pc) :
    cpu.Front arch := by
  constructor <;> simp [hid, hex, hpc]

theorem Drains.fetch_mem (h : cpu.Drains arch) (pc : Word) :
    fetch cpu.drainMem pc = fetch arch.mem pc := by
  rw [h.mem]

theorem idStage_empty (hv : cpu.ifId.valid = false) : cpu.idStage = {} := by
  simp [idStage, hv]

theorem idStage_fetch {mem : Memory} {pc : Word} (hid : cpu.ifId = fetch mem pc) :
    cpu.idStage = decode cpu.step.2.regs (fetch mem pc) := by
  simp [idStage, hid]

-- The front end after a cycle without flush or stall. `next` is the machine at the
-- instruction in IF/ID, or at the one fetched now if IF/ID was empty.
section Flow

variable {next : Arch} (ht : cpu.runStages.trap = none) (hr : cpu.runStages.ex.redirect = none)
  (hs : loadUseHazard cpu.idEx cpu.ifId = false)

include ht hr hs

theorem front_of_flow (hid : cpu.ifId.valid = true → cpu.ifId = fetch next.mem next.pc)
    (hfetched : cpu.ifId.valid = true → cpu.pc = cpu.ifId.pc + 4#32)
    (hempty : cpu.ifId.valid = false →
      cpu.pc = next.pc ∧ fetch cpu.drainMem cpu.pc = fetch next.mem cpu.pc)
    (hload : cpu.ifId.valid = true → cpu.step.2.exMem.valid = true →
      cpu.step.2.exMem.ctrl.memRead = true → cpu.step.2.idEx.earlyTrap = none →
      cpu.step.2.exMem.writeReg ≠ 0#5 →
      (sourceRegisters cpu.step.2.idEx.decoded).a ≠ some cpu.step.2.exMem.writeReg ∧
        (sourceRegisters cpu.step.2.idEx.decoded).b ≠ some cpu.step.2.exMem.writeReg) :
    cpu.step.2.Front next := by
  obtain ⟨hx, hp, hi⟩ := step_of_flow ht hr hs
  cases hv : cpu.ifId.valid with
  | false =>
    obtain ⟨hpc, hmem⟩ := hempty hv
    rw [idStage_empty hv] at hx hp hi
    rw [hpc] at hmem
    constructor <;> simp [-step_idEx, -step_pc, -step_ifId, hx, hp, hi, hpc, hmem]
  | true =>
    have hfe := hid hv
    have hpc : cpu.pc = next.pc + 4#32 := by rw [hfetched hv, hfe, fetch_pc]
    have hld := hload hv
    rw [idStage_fetch hfe] at hx hp hi
    have hvalid : cpu.step.2.idEx.valid = true := by
      rw [hx]
      exact decode_valid _ _
    cases hj : (decode cpu.step.2.regs (fetch next.mem next.pc)).jump with
    | none =>
      rw [hj] at hp hi
      simp only [Option.isSome_none, Bool.false_eq_true, if_false, Option.getD_none] at hp hi
      have hformat := decode_noJump _ _ _ hj
      rw [← hx] at hformat
      refine ⟨fun _ => hx, ?_, ?_, ?_, ?_, ?_, fun _ => hld⟩
      · simp [-step_idEx, hvalid]
      · simp [-step_idEx, hvalid]
      · simp [-step_ifId, -step_pc, hi, hp]
      · simp [-step_ifId, hi]
      · simp [-step_ifId, -step_idEx, hi, hformat, hpc]
    | some target =>
      rw [hj] at hp hi
      simp only [Option.isSome_some, if_true, Option.getD_some] at hp hi
      obtain ⟨hformat, htarget⟩ := decode_jump _ _ _ hj
      rw [← hx] at hformat htarget
      refine ⟨fun _ => hx, ?_, ?_, ?_, ?_, ?_, fun _ => hld⟩
      · simp [-step_idEx, hvalid]
      · simp [-step_idEx, hvalid]
      · simp [-step_ifId, hi]
      · intro _ _
        exact ⟨hformat, hp.trans htarget⟩
      · simp [-step_ifId, hi]

theorem successor_of_flow (hfresh : cpu.ifId.valid = true → next.trapped = false →
      next.step.pc = cpu.pc → fetch cpu.drainMem cpu.pc = fetch next.step.mem cpu.pc)
    (hx : cpu.step.2.idEx.valid = true) (hi : cpu.step.2.ifId.valid = true)
    (hnt : next.trapped = false) (hnext : next.step.pc = cpu.step.2.ifId.pc) :
    cpu.step.2.ifId = fetch next.step.mem next.step.pc := by
  obtain ⟨hidEx, -, hifId⟩ := step_of_flow ht hr hs
  rw [hidEx, idStage_valid] at hx
  rw [hifId] at hi hnext ⊢
  cases hj : cpu.idStage.jump.isSome with
  | true => simp [hj] at hi
  | false =>
    simp only [hj, Bool.false_eq_true, if_false, fetch_pc] at hnext ⊢
    rw [hfresh hx hnt hnext, hnext]

end Flow

-- With no load-use hazard the instruction in ID does not read what the load in EX
-- writes.
theorem loadUseHazard_clear {regs : RegisterFile} {mem : Memory} {pc : Word} {inEx : IdEx}
    (hs : loadUseHazard inEx (fetch mem pc) = false) (hv : inEx.valid = true)
    (hr : inEx.ctrl.memRead = true) (hz : inEx.rt ≠ 0#5)
    (he : (decode regs (fetch mem pc)).next.earlyTrap = none) :
    (sourceRegisters (decode regs (fetch mem pc)).next.decoded).a ≠ some inEx.rt ∧
      (sourceRegisters (decode regs (fetch mem pc)).next.decoded).b ≠ some inEx.rt := by
  cases hw : mem.readWord pc with
  | none => simp [decode_fault _ _ _ hw] at he
  | some raw =>
    cases hd : Decoder.decode raw with
    | none => simp [decode_reserved _ _ _ hw hd] at he
    | some d =>
      rw [decode_decoded _ _ _ hw hd]
      simpa [loadUseHazard, hv, hr, fetch, hw, hd, hz] using hs

-- Without a trap, step() applies the CP0 access EX asks for.
theorem nextCp0_of_pass (cpu : PipelinedCpu) (ht : cpu.runStages.trap = none)
    (hx : cpu.runStages.ex.mtc0 = none ∨ cpu.runStages.ex.eret = false) :
    nextCp0 cpu.cp0 cpu.runStages = cpu.runStages.ex.cp0Access.apply cpu.cp0 := by
  unfold nextCp0 ExOutcome.cp0Access
  rw [ht]
  rcases hx with hm | he
  · cases he : cpu.runStages.ex.eret <;> simp [hm, Cp0Access.apply]
  · cases hm : cpu.runStages.ex.mtc0 <;> simp [he, Cp0Access.apply]

-- MEM raises the trap it was left with.
theorem Drains.step_pending (h : cpu.Drains arch) {trap : Trap}
    (ht : cpu.pendingTrap = some trap) : cpu.step.2.Sim arch := by
  have hex := ex_of_pending ht
  obtain ⟨hcp0, hpc, hifId, hidEx⟩ := step_of_trap (trap_of_pending ht)
  have hpend : cpu.step.2.pendingTrap = none := by rw [step_pendingTrap, hex]; rfl
  have hvec : arch.pc = kExceptionVector := h.vector (by simp [ht])
  refine ⟨⟨⟨?_, ?_, ?_, ?_, ?_⟩, ?_⟩, ?_⟩
  · rw [step_drainRegs, hex, ← h.regs]
    rfl
  · rw [step_drainMem, hex, ← h.mem]
    rfl
  · rw [drainCp0, hpend, hcp0, ← h.cp0, drainCp0, ht]
  · rw [step_exMem, hex]
    exact ⟨rfl, by simp⟩
  · simp [hpend]
  · exact fun _ => .of_empty hifId hidEx (hpc.trans hvec.symm)
  · simp [-step_idEx, hidEx]

-- A bubble in EX: the front end moves on, the machine waits.
theorem Drains.step_bubble (h : cpu.Drains arch) (ht : cpu.pendingTrap = none)
    (hex : cpu.runStages.ex = {}) : cpu.step.2.Drains arch := by
  have htrap : cpu.runStages.trap = none := by rw [trap_of_ex ht, hex]
  have hpend : cpu.step.2.pendingTrap = none := by rw [step_pendingTrap, hex]; rfl
  constructor
  · rw [step_drainRegs, hex, ← h.regs]
    rfl
  · rw [step_drainMem, hex, ← h.mem]
    rfl
  · rw [drainCp0, hpend, step_cp0, nextCp0_of_pass cpu htrap (by simp [hex]), hex, ← h.cp0_eq ht]
    rfl
  · rw [step_exMem, hex]
    exact ⟨rfl, by simp⟩
  · simp [hpend]

theorem Aligned.step_bubble (h : cpu.Aligned arch) (ht : cpu.pendingTrap = none)
    (hv : cpu.idEx.valid = false) (hex : cpu.runStages.ex = {}) : cpu.step.2.Aligned arch := by
  have htrap : cpu.runStages.trap = none := by rw [trap_of_ex ht, hex]
  have hfront := h.front ht
  refine ⟨h.toDrains.step_bubble ht hex, fun _ => ?_⟩
  apply front_of_flow htrap (by rw [hex]) (loadUseHazard_invalid _ hv)
  · exact hfront.id hv
  · exact hfront.fetched
  · intro hi
    exact ⟨hfront.empty hv hi, h.fetch_mem _⟩
  · simp [hex]

theorem Aligned.step_idle (h : cpu.Aligned arch) (ha : cpu.advance = false) :
    cpu.step.2.Aligned arch := by
  cases h.cycle with
  | pending trap ht hadv => exact (h.step_pending ht).toAligned
  | bubble ht hv hex hadv => exact h.step_bubble ht hv hex
  | trapping ht hv raw code badAddr hout htrap hnext hadv => simp [ha] at hadv
  | passing ht hv raw d hr hd hno hperf hadv => simp [ha] at hadv

theorem Sim.step_idle (h : cpu.Sim arch) (ha : cpu.advance = false)
    (hf : cpu.ifId.valid = true → arch.trapped = false → arch.storeAddr ≠ some arch.step.pc) :
    cpu.step.2.Sim arch := by
  cases h.cycle with
  | pending trap ht hadv => exact h.step_pending ht
  | bubble ht hv hex hadv =>
    have htrap : cpu.runStages.trap = none := by rw [trap_of_ex ht, hex]
    refine ⟨h.toAligned.step_idle ha, fun _ => ?_⟩
    apply successor_of_flow htrap (by rw [hex]) (loadUseHazard_invalid _ hv)
    intro hi hnt hnext
    rw [h.fetch_mem, ← hnext, fetch_step arch (hf hi hnt)]
  | trapping ht hv raw code badAddr hout htrap hnext hadv => simp [ha] at hadv
  | passing ht hv raw d hr hd hno hperf hadv => simp [ha] at hadv

theorem Drains.step_trapping (h : cpu.Drains arch) (ht : cpu.pendingTrap = none)
    {code : ExceptionCode} {badAddr : Word} (hout : arch.outcome.2 = .trap code badAddr)
    (htrap : cpu.runStages.ex.trap = some { code, pc := arch.pc, badAddr })
    (hnext : cpu.runStages.ex.next = {}) : cpu.step.2.Sim arch.step := by
  obtain ⟨hcp0, hpc, hifId, hidEx⟩ := step_of_trap ((trap_of_ex ht).trans htrap)
  have hpend : cpu.step.2.pendingTrap = none := by rw [step_pendingTrap, hnext]; rfl
  rw [Arch.step_of_trap hout]
  refine ⟨⟨⟨?_, ?_, ?_, ?_, ?_⟩, ?_⟩, ?_⟩
  · rw [step_drainRegs, hnext, ← h.regs]
    rfl
  · rw [step_drainMem, hnext, ← h.mem]
    rfl
  · rw [drainCp0, hpend, hcp0, h.cp0_eq ht]
  · rw [step_exMem, hnext]
    exact ⟨rfl, by simp⟩
  · simp [hpend]
  · exact fun _ => .of_empty hifId hidEx hpc
  · simp [-step_idEx, hidEx]

theorem Drains.step_performing (h : cpu.Drains arch) (ht : cpu.pendingTrap = none) {raw : Word}
    {d : DecodedInstr} (hr : arch.mem.readWord arch.pc = some raw)
    (hd : Decoder.decode raw = some d) (hno : (arch.action d).trapOf arch.pc = none)
    (hperf : cpu.runStages.ex.Performs d arch.pc (selfJump arch.pc raw) (arch.action d)) :
    cpu.step.2.Drains arch.step ∧ (cpu.step.2.pendingTrap = none →
      arch.trapped = false ∧ arch.step.pc = (arch.action d).nextPc arch.pc) := by
  have htrap : cpu.runStages.trap = none := by rw [trap_of_ex ht, hperf.trap, hno]
  have hcp0 : cpu.step.2.cp0 = (arch.action d).cp0Access.apply arch.cp0 := by
    rw [step_cp0, nextCp0_of_pass cpu htrap hperf.exclusive, hperf.cp0, h.cp0_eq ht]
  have hout := Arch.outcome_decoded hr hd
  cases hact : (arch.action d).perform arch.mem arch.pc with
  | trap code badAddr =>
    have hma := memoryAccess_trap hperf.carries hact hno
    rw [hact] at hout
    have hpend : cpu.step.2.pendingTrap = some { code, pc := arch.pc, badAddr } := by
      rw [step_pendingTrap, h.mem, hma]
    rw [Arch.step_of_trap (congrArg Prod.snd hout)]
    refine ⟨⟨?_, ?_, ?_, ?_, ?_⟩, by simp [hpend]⟩
    · rw [step_drainRegs, h.regs, h.mem, hma]
      rfl
    · rw [step_drainMem, h.mem, hma]
    · rw [drainCp0, hpend, hcp0, Action.perform_trap_cp0 hact]
      rfl
    · exact hperf.carries.consistent
    · exact fun _ => rfl
  | done gpr store mem cp0 next =>
    obtain ⟨hmt, hholds, hmem, -⟩ := memoryAccess_done hperf.carries hact
    obtain ⟨hcp, hnext⟩ := Action.perform_done_fields hact
    rw [hact] at hout
    have hpend : cpu.step.2.pendingTrap = none := by rw [step_pendingTrap, h.mem, hmt]
    have hstep := Arch.step_of_done (congrArg Prod.snd hout)
    refine ⟨⟨?_, ?_, ?_, ?_, ?_⟩, fun _ => ⟨by simp [Arch.trapped, hout], by rw [hstep, hnext]⟩⟩
    · rw [step_drainRegs, h.regs, h.mem, hholds.gpr, hstep]
    · rw [step_drainMem, h.mem, hmem, hstep]
    · rw [drainCp0, hpend, hcp0, hcp, hstep]
    · exact hperf.carries.consistent
    · simp [hpend]

-- The machine steps exactly when EX consumes an instruction.
theorem Drains.step (h : cpu.Drains arch) (hc : cpu.Cycle arch) :
    cpu.step.2.Drains (if cpu.advance then arch.step else arch) := by
  cases hc with
  | pending trap ht hadv => simpa [hadv] using (h.step_pending ht).toDrains
  | bubble ht hv hex hadv => simpa [hadv] using h.step_bubble ht hex
  | trapping ht hv raw code badAddr hout htrap hnext hadv =>
    simpa [hadv] using (h.step_trapping ht (congrArg Prod.snd hout) htrap hnext).toDrains
  | passing ht hv raw d hr hd hno hperf hadv =>
    simpa [hadv] using (h.step_performing ht hr hd hno hperf).1

-- The front end after EX has let an instruction pass that will complete.
section Performing

variable (h : cpu.Sim arch) (ht : cpu.pendingTrap = none) (hv : cpu.idEx.valid = true)
  {raw : Word} {d : DecodedInstr} (hr : arch.mem.readWord arch.pc = some raw)
  (hd : Decoder.decode raw = some d) (hno : (arch.action d).trapOf arch.pc = none)
  (hperf : cpu.runStages.ex.Performs d arch.pc (selfJump arch.pc raw) (arch.action d))
  (hnt : arch.trapped = false) (hpc : arch.step.pc = (arch.action d).nextPc arch.pc)

include h ht hv hr hd hno hperf hnt hpc

theorem Sim.ifId_performing (hredirect : cpu.runStages.ex.redirect = none)
    (hi : cpu.ifId.valid = true) : cpu.ifId = fetch arch.step.mem arch.step.pc := by
  have hex := (h.front ht).ex hv
  rw [decode_decoded _ _ _ hr hd] at hex
  obtain ⟨hformat, hnext⟩ := (h.front ht).sequential hv hi
  rw [show cpu.idEx.decoded = d by rw [hex]] at hformat
  apply h.successor ht hv hi hnt
  rw [hpc, hperf.sequential hredirect hno hformat, hnext]

theorem Sim.front_performing (hf : arch.storeAddr ≠ some arch.step.pc) :
    cpu.step.2.Front arch.step := by
  have hfront := h.front ht
  have hex := hfront.ex hv
  rw [decode_decoded _ _ _ hr hd] at hex
  have hdec : cpu.idEx.decoded = d := by rw [hex]
  have hctrl : cpu.idEx.ctrl = deriveControl d := by rw [hex]
  have hrt : cpu.idEx.rt = d.rtIdx := by rw [hex]
  have htrap : cpu.runStages.trap = none := by rw [trap_of_ex ht, hperf.trap, hno]
  have hstored : fetch arch.step.mem arch.step.pc = fetch arch.mem arch.step.pc :=
    fetch_step arch hf
  cases hredirect : cpu.runStages.ex.redirect with
  | some target =>
    obtain ⟨hp, hi, hx⟩ := step_of_redirect htrap hredirect
    refine .of_empty hi hx ?_
    rw [hp, hpc, (hperf.redirect target hredirect).2]
  | none =>
    have hsucc := h.ifId_performing ht hv hr hd hno hperf hnt hpc hredirect
    cases hs : loadUseHazard cpu.idEx cpu.ifId with
    | true =>
      obtain ⟨hp, hi, hx⟩ := step_of_stall htrap hredirect hs
      have hiv : cpu.ifId.valid = true := by
        by_contra hn
        simp [loadUseHazard_empty cpu.idEx (by simpa using hn)] at hs
      constructor <;> simp [-step_idEx, -step_pc, -step_ifId, hp, hi, hx, hsucc hiv,
        hfront.fetched hiv]
    | false =>
      apply front_of_flow htrap hredirect hs hsucc hfront.fetched
      · intro hi
        obtain ⟨hformat, htarget⟩ := hfront.jump hv hi
        rw [hdec] at hformat htarget
        have hnext : cpu.pc = arch.step.pc := by rw [htarget, hpc, (hperf.jump hformat).2.2]
        rw [h.fetch_mem, hnext, hstored]
        exact ⟨rfl, rfl⟩
      · intro hi hxv hxr hearly hz
        rw [step_exMem] at hxr hz ⊢
        obtain ⟨hread, hreg⟩ := hperf.load hxr
        rw [hreg, ← hrt] at hz ⊢
        have hx := (step_of_flow htrap hredirect hs).1
        rw [idStage_fetch (hsucc hi)] at hx
        rw [hx] at hearly ⊢
        rw [hsucc hi] at hs
        exact loadUseHazard_clear hs hv (by rw [hctrl, hread]) hz hearly

end Performing

theorem Sim.successor_performing (h : cpu.Sim arch) (hf : cpu.Fresh arch)
    (hv : cpu.idEx.valid = true) (htrap : cpu.runStages.trap = none) (hx : cpu.step.2.idEx.valid = true)
    (hi : cpu.step.2.ifId.valid = true) (hnt : arch.step.trapped = false)
    (hnext : arch.step.step.pc = cpu.step.2.ifId.pc) :
    cpu.step.2.ifId = fetch arch.step.step.mem arch.step.step.pc := by
  cases hredirect : cpu.runStages.ex.redirect with
  | some target => simp [-step_idEx, (step_of_redirect htrap hredirect).2.2] at hx
  | none =>
    cases hs : loadUseHazard cpu.idEx cpu.ifId with
    | true => simp [-step_idEx, (step_of_stall htrap hredirect hs).2.2] at hx
    | false =>
      refine successor_of_flow htrap hredirect hs (fun hi' _ hnext' => ?_) hx hi hnt hnext
      obtain ⟨hmiss, hmiss'⟩ := hf.afterNext hv hi' hnt
      rw [h.fetch_mem, ← hnext', fetch_step arch.step hmiss', fetch_step arch hmiss]

-- EX has the next instruction of the machine, unless the last one was stored over it.
theorem Sim.step_aligned (h : cpu.Sim arch)
    (hf : arch.trapped = false → arch.storeAddr ≠ some arch.step.pc) :
    cpu.step.2.Aligned (if cpu.advance then arch.step else arch) := by
  have hdrains := h.toDrains.step h.cycle
  cases h.cycle with
  | pending trap ht hadv => simpa [hadv] using h.toAligned.step_idle hadv
  | bubble ht hv hex hadv => simpa [hadv] using h.toAligned.step_idle hadv
  | trapping ht hv raw code badAddr hout htrap hnext hadv =>
    simpa [hadv] using (h.step_trapping ht (congrArg Prod.snd hout) htrap hnext).toAligned
  | passing ht hv raw d hr hd hno hperf hadv =>
    simp only [hadv, if_true] at hdrains ⊢
    refine ⟨hdrains, fun hpend => ?_⟩
    obtain ⟨hnt, hpc⟩ := (h.step_performing ht hr hd hno hperf).2 hpend
    exact h.front_performing ht hv hr hd hno hperf hnt hpc (hf hnt)

-- What is fetched behind an instruction that traps does not matter.
theorem Sim.step (h : cpu.Sim arch) (hf : arch.trapped = false → cpu.Fresh arch) :
    cpu.step.2.Sim (if cpu.advance then arch.step else arch) := by
  cases h.cycle with
  | pending trap ht hadv => simpa [hadv] using h.step_pending ht
  | bubble ht hv hex hadv =>
    simpa [hadv] using h.step_idle hadv fun hi hnt => (hf hnt).next (.inr hi)
  | trapping ht hv raw code badAddr hout htrap hnext hadv =>
    simpa [hadv] using h.step_trapping ht (congrArg Prod.snd hout) htrap hnext
  | passing ht hv raw d hr hd hno hperf hadv =>
    have haligned := h.step_aligned fun hnt => (hf hnt).next (.inl hv)
    simp only [hadv, if_true] at haligned ⊢
    refine ⟨haligned, fun hpend => ?_⟩
    obtain ⟨hnt, -⟩ := (h.step_performing ht hr hd hno hperf).2 hpend
    have htrap : cpu.runStages.trap = none := by rw [trap_of_ex ht, hperf.trap, hno]
    exact h.successor_performing (hf hnt) hv htrap

end Simulation

end PipelinedCpu

end ClearCore.Mips
