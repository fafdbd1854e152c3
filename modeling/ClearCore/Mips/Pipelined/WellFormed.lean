import ClearCore.Mips.Pipelined.Halt
import ClearCore.Mips.Pipelined.Indicators

-- The pipeline registers agree with the words of the instructions they carry.

namespace ClearCore.Mips

open Isa

def Control.OneAccess (ctrl : Control) : Prop := ¬(ctrl.memRead = true ∧ ctrl.memWrite = true)

-- The control word of an instruction that has passed EX: MFC0 gets its write there.
def controlAfterEx (d : DecodedInstr) : Control :=
  if d.opcode = .COP0 ∧ d.r.rs = 0x00#5 then { deriveControl d with regWrite := true }
  else deriveControl d

structure IfId.WellFormed (ifId : IfId) : Prop where
  pc4 : ifId.pc4 = ifId.pc + 4#32
  halt : ifId.isHalt = true → Arch.SelfTargeting ifId.pc ifId.instr

structure IdEx.WellFormed (idEx : IdEx) : Prop where
  pc4 : idEx.pc4 = idEx.pc + 4#32
  decoded : Decoder.decode idEx.decoded.raw = some idEx.decoded
  ctrl : idEx.ctrl = deriveControl idEx.decoded
  halt : idEx.isHalt = true → Arch.SelfTargeting idEx.pc idEx.decoded.raw

structure ExMem.WellFormed (exMem : ExMem) (d : DecodedInstr) : Prop where
  decoded : Decoder.decode exMem.raw = some d
  opcode : exMem.opcode = d.opcode
  ctrl : exMem.ctrl = controlAfterEx d
  destination : destinationRegister d = if exMem.ctrl.regWrite then some exMem.writeReg else none
  halt : exMem.isHalt = true → Arch.SelfTargeting exMem.pc exMem.raw

structure MemWb.WellFormed (memWb : MemWb) (d : DecodedInstr) : Prop where
  decoded : Decoder.decode memWb.raw = some d
  ctrl : memWb.ctrl = controlAfterEx d
  destination : destinationRegister d = if memWb.ctrl.regWrite then some memWb.writeReg else none
  halt : memWb.isHalt = true → Arch.SelfTargeting memWb.pc memWb.raw

theorem deriveControl_oneAccess (d : DecodedInstr) : (deriveControl d).OneAccess := by
  unfold deriveControl Control.OneAccess
  cases d.format with
  | R =>
    simp only [Control.rTypeControl]
    split_ifs
    · simp
    · cases d.r.funct <;> simp
  | I => cases d.opcode <;> simp [Control.iTypeControl]
  | J | Unknown => simp

theorem Control.oneAccess_default : ({} : Control).OneAccess := by
  rintro ⟨hr, -⟩
  cases hr

theorem Decoder.format_eq_formatOf {word : Word} {d : DecodedInstr}
    (h : Decoder.decode word = some d) : d.format = Decoder.formatOf d.opcode := by
  cases Decoder.decode_decoded h with
  | special r himpl => rfl
  | cop0 r => rfl
  | jump op hop => exact hop.symm
  | immediate op i hop => exact hop.symm

theorem IdEx.executed_eq_some {idEx : IdEx} {d : DecodedInstr} :
    idEx.executed = some d ↔ idEx.valid = true ∧ idEx.earlyTrap = none ∧ idEx.decoded = d := by
  unfold IdEx.executed
  cases idEx.valid <;> cases idEx.earlyTrap <;> simp

namespace PipelinedCpu

-- ID/EX takes what ID makes of a word from IF/ID.
theorem decode_wellFormed (regs : RegisterFile) {ifId : IfId} (h : ifId.WellFormed)
    (he : (decode regs ifId).next.earlyTrap = none) : (decode regs ifId).next.WellFormed := by
  unfold decode at he ⊢
  cases hf : ifId.fetchFault with
  | true => simp [hf] at he
  | false =>
    cases hd : Decoder.decode ifId.instr with
    | none => simp [hf, hd] at he
    | some d =>
      have hraw := Decoder.decode_raw hd
      exact {
        pc4 := h.pc4
        decoded := by
          show Decoder.decode d.raw = some d
          rw [hraw, hd]
        ctrl := rfl
        halt := by
          show ifId.isHalt = true → Arch.SelfTargeting ifId.pc d.raw
          rw [hraw]
          exact h.halt }

theorem decode_oneAccess (regs : RegisterFile) (ifId : IfId) :
    (decode regs ifId).next.ctrl.OneAccess := by
  unfold decode
  cases ifId.fetchFault with
  | true => exact Control.oneAccess_default
  | false =>
    cases Decoder.decode ifId.instr with
    | none => exact Control.oneAccess_default
    | some d => exact deriveControl_oneAccess d

theorem fetch_wellFormed (mem : Memory) (pc : Word) : (fetch mem pc).WellFormed := by
  unfold fetch
  cases mem.readWord pc with
  | none => exact ⟨rfl, fun hh => by cases hh⟩
  | some word => exact ⟨rfl, (selfJump_iff pc word).mp⟩

-- The fields that an instruction takes along through EX.
theorem executeDecoded_control (cp0 : Cp0) (inp : IdEx) (ops : ExOperands)
    (hr : inp.decoded.opcode = .COP0 → inp.decoded.format = .R)
    (ht : (executeDecoded cp0 inp ops).trap = none) :
    (executeDecoded cp0 inp ops).next.opcode = inp.decoded.opcode ∧
      (executeDecoded cp0 inp ops).next.isHalt = inp.isHalt ∧
      (executeDecoded cp0 inp ops).next.ctrl =
        if inp.decoded.opcode = .COP0 ∧ inp.decoded.r.rs = 0x00#5 then
          { inp.ctrl with regWrite := true } else inp.ctrl := by
  by_cases hcop : inp.decoded.opcode = .COP0
  · have hf := hr hcop
    simp only [executeDecoded, hcop, hf]
    by_cases hmf : inp.decoded.r.rs = 0x00#5
    · simp [hmf, exMemOf, hcop]
    · simp only [hmf]
      split_ifs <;> simp_all [exMemOf]
  · simp only [executeDecoded, hcop, false_and, if_false] at ht ⊢
    split_ifs at ht ⊢
    all_goals first
      | exact ⟨rfl, rfl, rfl⟩
      | skip
    cases hop : Alu.control inp.decoded with
    | none => simp [hop] at ht
    | some aluop =>
      simp only [hop] at ht ⊢
      split_ifs at ht ⊢
      exact ⟨rfl, rfl, rfl⟩

theorem executeDecoded_oneAccess (cp0 : Cp0) {inp : IdEx} (ops : ExOperands)
    (h : inp.ctrl.OneAccess) : (executeDecoded cp0 inp ops).next.ctrl.OneAccess := by
  simp only [executeDecoded]
  split_ifs
  all_goals first
    | exact h
    | exact Control.oneAccess_default
    | skip
  cases Alu.control inp.decoded with
  | none => exact Control.oneAccess_default
  | some aluop =>
    simp only
    split
    · exact Control.oneAccess_default
    · exact h

theorem executeDecoded_wellFormed (cp0 : Cp0) {inp : IdEx} (ops : ExOperands)
    (h : inp.WellFormed) (ht : (executeDecoded cp0 inp ops).trap = none) :
    (executeDecoded cp0 inp ops).next.WellFormed inp.decoded := by
  have hformat : inp.decoded.opcode = .COP0 → inp.decoded.format = .R := by
    intro hcop
    rw [Decoder.format_eq_formatOf h.decoded, hcop]
    rfl
  obtain ⟨hop, hhalt, hctrl⟩ := executeDecoded_control cp0 inp ops hformat ht
  rcases executeDecoded_settles cp0 inp ops with ⟨trap, htrap, -⟩ | ⟨-, -, hpc, hraw⟩
  · cases ht.symm.trans htrap
  · obtain ⟨d, hd, hdst⟩ := executeDecoded_destination cp0 inp ops h.decoded h.ctrl ht
    obtain rfl := Option.some.inj (h.decoded.symm.trans hd)
    exact {
      decoded := by rw [hraw, h.decoded]
      opcode := hop
      ctrl := by rw [hctrl, h.ctrl, controlAfterEx]
      destination := hdst
      halt := by
        rw [hhalt, hpc, hraw]
        exact h.halt }

structure WellFormed (cpu : PipelinedCpu) : Prop where
  ifId : cpu.ifId.valid = true → cpu.ifId.WellFormed
  idEx : cpu.idEx.valid = true → cpu.idEx.earlyTrap = none → cpu.idEx.WellFormed
  exMem : cpu.exMem.valid = true → ∃ d, cpu.exMem.WellFormed d
  memWb : cpu.memWb.valid = true → ∃ d, cpu.memWb.WellFormed d
  oneAccess : cpu.idEx.ctrl.OneAccess ∧ cpu.exMem.ctrl.OneAccess ∧ cpu.memWb.ctrl.OneAccess

theorem WellFormed.of_bubbles {cpu : PipelinedCpu} (hi : cpu.ifId = {}) (hx : cpu.idEx = {})
    (hm : cpu.exMem = {}) (hw : cpu.memWb = {}) : cpu.WellFormed where
  ifId := by simp [hi]
  idEx := by simp [hx]
  exMem := by simp [hm]
  memWb := by simp [hw]
  oneAccess := by
    rw [hx, hm, hw]
    exact ⟨Control.oneAccess_default, Control.oneAccess_default, Control.oneAccess_default⟩

section Step

variable {cpu : PipelinedCpu}

theorem WellFormed.step_ifId (h : cpu.WellFormed) (hv : cpu.step.2.ifId.valid = true) :
    cpu.step.2.ifId.WellFormed := by
  rcases cpu.step_front_cases with ⟨-, hi, -⟩ | ⟨-, -, -, hi, -⟩ | ⟨-, -, -, hi⟩
  · rw [hi] at hv
    cases hv
  · rw [hi] at hv ⊢
    exact h.ifId hv
  · rw [hi] at hv ⊢
    cases hj : cpu.runStages.flushFromId with
    | true => simp [hj] at hv
    | false => exact fetch_wellFormed _ _

-- A bubble, or what ID makes of IF/ID in a cycle without a load-use stall.
theorem step_idEx_cases (cpu : PipelinedCpu) :
    cpu.step.2.idEx = {} ∨
      cpu.ifId.valid = true ∧ loadUseHazard cpu.idEx cpu.ifId = false ∧
        cpu.step.2.idEx = (decode cpu.step.2.regs cpu.ifId).next := by
  rcases cpu.step_front_cases with ⟨-, -, hx⟩ | ⟨-, -, -, -, hx⟩ | ⟨-, hs, hx, -⟩
  · exact .inl hx
  · exact .inl hx
  · rw [idStage] at hx
    cases hv : cpu.ifId.valid with
    | false => exact .inl (by simpa [hv] using hx)
    | true => exact .inr ⟨rfl, hs, by simpa only [hv, if_true] using hx⟩

theorem WellFormed.step_idEx (h : cpu.WellFormed) (hv : cpu.step.2.idEx.valid = true)
    (he : cpu.step.2.idEx.earlyTrap = none) : cpu.step.2.idEx.WellFormed := by
  rcases cpu.step_idEx_cases with hx | ⟨hi, -, hx⟩
  · rw [hx] at hv
    cases hv
  · rw [hx] at he ⊢
    exact decode_wellFormed _ (h.ifId hi) he

-- A bubble, or what EX makes of an instruction that does not trap.
theorem step_exMem_cases (cpu : PipelinedCpu) :
    cpu.step.2.exMem = {} ∨
      cpu.runStages.trap = none ∧ cpu.idEx.valid = true ∧ cpu.idEx.earlyTrap = none ∧
        ∃ ops, (executeDecoded cpu.cp0 cpu.idEx ops).trap = none ∧
          cpu.step.2.exMem = (executeDecoded cpu.cp0 cpu.idEx ops).next := by
  rw [step_exMem]
  cases hp : cpu.pendingTrap with
  | some trap => exact .inl (by rw [ex_of_pending hp])
  | none =>
    rw [trap_of_ex hp, runStages_ex cpu hp]
    cases hx : cpu.idEx.executed with
    | none => exact .inl (execute_of_none _ _ _ hx).1
    | some d =>
      rw [(execute_of_executed _ _ _ hx).2]
      rcases executeDecoded_settles cpu.cp0 cpu.idEx
        (forwardOperands cpu.idEx cpu.exMem cpu.memWb) with ⟨-, -, -, hnext⟩ | ⟨ht, -⟩
      · exact .inl hnext
      · obtain ⟨hv, he, -⟩ := IdEx.executed_eq_some.mp hx
        exact .inr ⟨ht, hv, he, _, ht, rfl⟩

theorem WellFormed.step_exMem (h : cpu.WellFormed) (hv : cpu.step.2.exMem.valid = true) :
    ∃ d, cpu.step.2.exMem.WellFormed d := by
  rcases cpu.step_exMem_cases with hm | ⟨-, hx, he, ops, ht, hm⟩
  · rw [hm] at hv
    cases hv
  · rw [hm]
    exact ⟨_, executeDecoded_wellFormed _ ops (h.idEx hx he) ht⟩

-- MEM hands an instruction on with its control word and its halt mark.
theorem memoryAccess_wellFormed {mem : Memory} {exMem : ExMem} {d : DecodedInstr}
    (h : exMem.WellFormed d) (hv : exMem.valid = true)
    (ht : (memoryAccess mem exMem).1.trap = none) : (memoryAccess mem exMem).1.next.WellFormed d := by
  obtain ⟨-, hpc, hraw, hctrl, -, hreg, hhalt⟩ := memoryAccess_next hv ht
  exact {
    decoded := by rw [hraw, h.decoded]
    ctrl := by rw [hctrl, h.ctrl]
    destination := by rw [hctrl, hreg, h.destination]
    halt := by
      rw [hhalt, hpc, hraw]
      exact h.halt }

theorem WellFormed.step_memWb (h : cpu.WellFormed) (hv : cpu.step.2.memWb.valid = true) :
    ∃ d, cpu.step.2.memWb.WellFormed d := by
  obtain ⟨ht, hx, -⟩ := step_memWb_valid hv
  obtain ⟨d, hd⟩ := h.exMem hx
  exact ⟨d, memoryAccess_wellFormed hd hx ht⟩

theorem step_memWb_invalid (hv : cpu.step.2.memWb.valid = false) : cpu.step.2.memWb = {} := by
  rw [step_memWb] at hv ⊢
  cases hx : cpu.exMem.valid with
  | false => rw [memoryAccess_invalid cpu.mem hx]
  | true =>
    cases ht : (memoryAccess cpu.mem cpu.exMem).1.trap with
    | some trap => exact (memoryAccess_trap_next (by simp [ht])).1
    | none =>
      obtain ⟨hvalid, -⟩ := memoryAccess_next hx ht
      cases hvalid.symm.trans hv

theorem WellFormed.step_oneAccess (h : cpu.WellFormed) :
    cpu.step.2.idEx.ctrl.OneAccess ∧ cpu.step.2.exMem.ctrl.OneAccess ∧
      cpu.step.2.memWb.ctrl.OneAccess := by
  refine ⟨?_, ?_, ?_⟩
  · rcases cpu.step_idEx_cases with hx | ⟨-, -, hx⟩
    · rw [hx]
      exact Control.oneAccess_default
    · rw [hx]
      exact decode_oneAccess _ _
  · rcases cpu.step_exMem_cases with hm | ⟨-, -, -, ops, -, hm⟩
    · rw [hm]
      exact Control.oneAccess_default
    · rw [hm]
      exact executeDecoded_oneAccess _ ops h.oneAccess.1
  · cases hv : cpu.step.2.memWb.valid with
    | true =>
      obtain ⟨ht, hx, -⟩ := step_memWb_valid hv
      obtain ⟨-, -, -, hctrl, -⟩ := memoryAccess_next hx ht
      rw [PipelinedCpu.step_memWb, hctrl]
      exact h.oneAccess.2.1
    | false =>
      rw [step_memWb_invalid hv]
      exact Control.oneAccess_default

theorem WellFormed.step (h : cpu.WellFormed) : cpu.step.2.WellFormed where
  ifId := h.step_ifId
  idEx := h.step_idEx
  exMem := h.step_exMem
  memWb := h.step_memWb
  oneAccess := h.step_oneAccess

end Step

theorem wellFormed_of_reachable {memBytes : ℕ} {cpu : PipelinedCpu} (h : Reachable memBytes cpu) :
    cpu.WellFormed := by
  induction h with
  | create => exact .of_bubbles rfl rfl rfl rfl
  | step _ ih => exact ih.step
  | loadProgram _ hload ih =>
    obtain ⟨⟨fits, mem⟩, -, hres⟩ := Option.map_eq_some_iff.mp hload
    cases fits <;>
      · simp only [if_true, Bool.false_eq_true, if_false, Prod.mk.injEq] at hres
        rw [← hres.2]
        exact ⟨ih.ifId, ih.idEx, ih.exMem, ih.memWb, ih.oneAccess⟩
  | reset _ clearMemory => exact .of_bubbles rfl rfl rfl rfl
  | edit _ hedit ih => cases hedit <;> exact ⟨ih.ifId, ih.idEx, ih.exMem, ih.memWb, ih.oneAccess⟩

-- mfc0 $t0, $12 in MEM/WB and, behind it, a jal to its own address.
theorem wellFormed_holding :
    ((holding 0x40086000#32 0x0C000001#32).run 4).memWb.ctrl.regWrite = true ∧
      ((holding 0x40086000#32 0x0C000001#32).run 4).exMem.isHalt = true ∧
      ((holding 0x40086000#32 0x0C000001#32).run 4).WellFormed :=
  ⟨by decide, by decide, wellFormed_of_reachable (holding_reachable _ _ 4)⟩

end PipelinedCpu

end ClearCore.Mips
