import ClearCore.Mips.Pipelined.Diagram
import ClearCore.Mips.Processor

-- The forwarding and stall indicators of a cycle against the registers that its
-- instructions read and write.

namespace ClearCore.Mips

open Isa

-- SYSCALL and BREAK have a code in the place of rs and rt.
def TakesCode (d : DecodedInstr) : Prop :=
  d.opcode = .SPECIAL ∧ (d.r.funct = .SYSCALL ∨ d.r.funct = .BREAK)

instance (d : DecodedInstr) : Decidable (TakesCode d) := inferInstanceAs (Decidable (_ ∧ _))

-- The registers an instruction reads.
def readRegisters (d : DecodedInstr) : SourceRegisters :=
  if TakesCode d then {} else sourceRegisters d

-- The register fields of an instruction that it does not read.
def unreadFields (d : DecodedInstr) : SourceRegisters where
  a := if (readRegisters d).a = none then some d.rsIdx else none
  b := if (readRegisters d).b = none then some d.rtIdx else none

theorem readRegisters_a {raw : Word} {d : DecodedInstr} (hd : Decoder.decode raw = some d)
    {r : RegIdx} (h : (readRegisters d).a = some r) : r = d.rsIdx := by
  unfold readRegisters at h
  split at h
  · cases h
  · exact sourceRegisters_a hd h

theorem readRegisters_b {raw : Word} {d : DecodedInstr} (hd : Decoder.decode raw = some d)
    {r : RegIdx} (h : (readRegisters d).b = some r) : r = d.rtIdx := by
  unfold readRegisters at h
  split at h
  · cases h
  · exact sourceRegisters_b hd h

theorem sourceRegisters_of_takesCode {raw : Word} {d : DecodedInstr}
    (hd : Decoder.decode raw = some d) (h : TakesCode d) :
    (sourceRegisters d).a = some d.rsIdx ∧ (sourceRegisters d).b = some d.rtIdx := by
  obtain ⟨hop, hfunct⟩ := h
  cases Decoder.decode_decoded hd with
  | special r himpl =>
    obtain ⟨rs, rt, rd, shamt, funct⟩ := r
    rcases hfunct with hf | hf <;>
      · obtain rfl : funct = _ := hf
        exact ⟨rfl, rfl⟩
  | cop0 r => cases hop
  | jump op hj => rcases Decoder.formatOf_eq_J hj with rfl | rfl <;> cases hop
  | immediate op i hi =>
    obtain rfl : op = _ := hop
    cases hi

-- A load writes its rt.
theorem destinationRegister_of_load {raw : Word} {d : DecodedInstr}
    (hd : Decoder.decode raw = some d) (h : (deriveControl d).memRead = true) :
    destinationRegister d = some d.rtIdx := by
  cases Decoder.decode_decoded hd with
  | special r himpl =>
    obtain ⟨rs, rt, rd, shamt, funct⟩ := r
    cases funct <;> simp [deriveControl, Control.rTypeControl, DecodedInstr.r] at h
  | cop0 r => simp [deriveControl, Control.rTypeControl] at h
  | jump op hj => simp [deriveControl] at h
  | immediate op i hi => cases op <;> simp_all [deriveControl, Control.iTypeControl,
      destinationRegister, DecodedInstr.rtIdx]

def WritesRegister (raw : Word) (r : RegIdx) : Prop :=
  ∃ d, Decoder.decode raw = some d ∧ destinationRegister d = some r

-- The instruction in a pipeline register produces the value of `r` there. A load in EX/MEM
-- has an address.
def ExMem.Produces (exMem : ExMem) (r : RegIdx) : Prop :=
  exMem.valid = true ∧ exMem.ctrl.memRead = false ∧ WritesRegister exMem.raw r

def MemWb.Produces (memWb : MemWb) (r : RegIdx) : Prop :=
  memWb.valid = true ∧ WritesRegister memWb.raw r

-- The write that a control word stands for is the one of the instruction.
def WritesFor (ctrl : Control) (writeReg : RegIdx) (raw : Word) : Prop :=
  ∃ d, Decoder.decode raw = some d ∧
    destinationRegister d = if ctrl.regWrite then some writeReg else none

theorem WritesFor.writesRegister {ctrl : Control} {writeReg : RegIdx} {raw : Word}
    (h : WritesFor ctrl writeReg raw) (r : RegIdx) :
    WritesRegister raw r ↔ ctrl.regWrite = true ∧ writeReg = r := by
  obtain ⟨d, hd, hdst⟩ := h
  constructor
  · rintro ⟨d', hd', hr⟩
    obtain rfl := Option.some.inj (hd.symm.trans hd')
    rw [hdst] at hr
    simpa using hr
  · rintro ⟨hw, hr⟩
    exact ⟨d, hd, by rw [hdst, if_pos hw, hr]⟩

theorem ExMem.produces_iff {exMem : ExMem}
    (h : exMem.valid = true → WritesFor exMem.ctrl exMem.writeReg exMem.raw) (r : RegIdx) :
    exMem.Produces r ↔ exMem.valid = true ∧ exMem.ctrl.memRead = false ∧
      exMem.ctrl.regWrite = true ∧ exMem.writeReg = r :=
  and_congr_right fun hv => and_congr_right fun _ => (h hv).writesRegister r

theorem MemWb.produces_iff {memWb : MemWb}
    (h : memWb.valid = true → WritesFor memWb.ctrl memWb.writeReg memWb.raw) (r : RegIdx) :
    memWb.Produces r ↔ memWb.valid = true ∧ memWb.ctrl.regWrite = true ∧ memWb.writeReg = r :=
  and_congr_right fun hv => (h hv).writesRegister r

-- The instruction that EX executes, if ID has not given it a trap.
def IdEx.executed (idEx : IdEx) : Option DecodedInstr :=
  if idEx.valid && idEx.earlyTrap.isNone then some idEx.decoded else none

def IdEx.Labelled (idEx : IdEx) : Prop :=
  ∀ d, idEx.executed = some d → (∃ raw, Decoder.decode raw = some d) ∧
    idEx.ctrl = deriveControl d ∧ idEx.rs = d.rsIdx ∧ idEx.rt = d.rtIdx

theorem IdEx.Labelled.of_none {idEx : IdEx} (h : idEx.executed = none) : idEx.Labelled := by
  intro d hd
  rw [h] at hd
  cases hd

namespace PipelinedCpu

theorem executeDecoded_destination (cp0 : Cp0) (inp : IdEx) (ops : ExOperands) {raw : Word}
    (hd : Decoder.decode raw = some inp.decoded) (hc : inp.ctrl = deriveControl inp.decoded)
    (ht : (executeDecoded cp0 inp ops).trap = none) :
    WritesFor (executeDecoded cp0 inp ops).next.ctrl (executeDecoded cp0 inp ops).next.writeReg
      raw := by
  refine ⟨inp.decoded, hd, ?_⟩
  generalize hdec : inp.decoded = d at hd
  rw [hdec] at hc
  cases Decoder.decode_decoded hd with
  | special r himpl =>
    obtain ⟨rs, rt, rd, shamt, funct⟩ := r
    cases funct with
    | ERET | unnamed => simp [Decoder.implementedSpecial] at himpl
    | SYSCALL | BREAK => simp [executeDecoded, hdec, DecodedInstr.r] at ht
    | ADD =>
      cases ho : (Alu.execute .ADD ops.a ops.b shamt).overflow <;>
        simp [executeDecoded, hdec, hc, ho, DecodedInstr.r, destinationRegister, exMemOf,
          deriveControl, Control.rTypeControl, Alu.control, Alu.rTypeOp, aluB, aluShamt,
          isSignedOp, aluWriteReg] at ht ⊢
    | SUB =>
      cases ho : (Alu.execute .SUB ops.a ops.b shamt).overflow <;>
        simp [executeDecoded, hdec, hc, ho, DecodedInstr.r, destinationRegister, exMemOf,
          deriveControl, Control.rTypeControl, Alu.control, Alu.rTypeOp, aluB, aluShamt,
          isSignedOp, aluWriteReg] at ht ⊢
    | _ =>
      simp [executeDecoded, hdec, hc, DecodedInstr.r, destinationRegister, exMemOf,
        deriveControl, Control.rTypeControl, Alu.control, Alu.rTypeOp, isSignedOp, aluWriteReg]
  | cop0 r =>
    by_cases hmf : r.rs = 0x00#5
    · simp [executeDecoded, hdec, DecodedInstr.r, hmf, destinationRegister]
    by_cases hmt : r.rs = 0x04#5
    · simp [executeDecoded, hdec, hc, DecodedInstr.r, hmt, destinationRegister, exMemOf,
        deriveControl, Control.rTypeControl]
    by_cases her : r.rs = 0x10#5 ∧ r.funct = .ERET <;>
      simp [executeDecoded, hdec, hc, DecodedInstr.r, hmf, hmt, her, destinationRegister, exMemOf,
        deriveControl, Control.rTypeControl]
  | jump op hop =>
    rcases Decoder.formatOf_eq_J hop with rfl | rfl <;>
      simp [executeDecoded, hdec, destinationRegister, exMemOf, hc, deriveControl]
  | immediate op i hop =>
    cases op with
    | SPECIAL | COP0 | J | JAL | unnamed => simp [Decoder.formatOf] at hop
    | BEQ | BNE =>
      simp [executeDecoded, hdec, hc, DecodedInstr.i, destinationRegister, exMemOf, deriveControl,
        Control.iTypeControl]
    | ADDI =>
      cases ho : (Alu.execute .ADD ops.a (Decoder.signExtend i.imm) 0#5).overflow <;>
        simp [executeDecoded, hdec, hc, ho, DecodedInstr.i, destinationRegister, exMemOf,
          deriveControl, Control.iTypeControl, Alu.control, Alu.iTypeOp, aluB, aluShamt,
          isSignedOp, aluWriteReg] at ht ⊢
    | _ =>
      simp [executeDecoded, hdec, hc, DecodedInstr.i, destinationRegister, exMemOf,
        deriveControl, Control.iTypeControl, Alu.control, Alu.iTypeOp, isSignedOp, aluWriteReg]

theorem executeDecoded_forwarded (cp0 : Cp0) (inp : IdEx) (ops : ExOperands) :
    (executeDecoded cp0 inp ops).forwarded = ops.paths := by
  simp only [executeDecoded]
  split_ifs
  all_goals first | rfl | skip
  cases Alu.control inp.decoded with
  | none => rfl
  | some aluop =>
    simp only
    split <;> rfl

-- The instruction EX executes, and the one ID decodes.
def exInstr (cpu : PipelinedCpu) : Option DecodedInstr := cpu.idEx.executed

def idInstr (cpu : PipelinedCpu) : Option DecodedInstr :=
  if cpu.ifId.valid && !cpu.ifId.fetchFault then Decoder.decode cpu.ifId.instr else none

theorem decode_labelled (regs : RegisterFile) (ifId : IfId) : (decode regs ifId).next.Labelled := by
  unfold decode
  cases hf : ifId.fetchFault with
  | true => exact .of_none rfl
  | false =>
    cases hd : Decoder.decode ifId.instr with
    | none => exact .of_none rfl
    | some d =>
      intro d' h
      obtain rfl : d = d' := Option.some.inj h
      exact ⟨⟨_, hd⟩, rfl, rfl, rfl⟩

theorem step_idEx_labelled (cpu : PipelinedCpu) : cpu.step.2.idEx.Labelled := by
  rcases cpu.step_front_cases with ⟨-, -, hx⟩ | ⟨-, -, -, -, hx⟩ | ⟨-, -, hx, -⟩
  · rw [hx]
    exact .of_none rfl
  · rw [hx]
    exact .of_none rfl
  · rw [hx, idStage]
    split
    · exact decode_labelled _ _
    · exact .of_none rfl

-- The pipeline registers carry the indices and control words of their instructions.
structure Labelled (cpu : PipelinedCpu) : Prop where
  idEx : cpu.idEx.Labelled
  load : LoadDecoded cpu.idEx
  exMem : cpu.exMem.valid = true → WritesFor cpu.exMem.ctrl cpu.exMem.writeReg cpu.exMem.raw
  memWb : cpu.memWb.valid = true → WritesFor cpu.memWb.ctrl cpu.memWb.writeReg cpu.memWb.raw

theorem execute_of_executed (cp0 : Cp0) {inp : IdEx} (exMem : ExMem) (memWb : MemWb)
    {d : DecodedInstr} (h : inp.executed = some d) :
    inp.decoded = d ∧ execute cp0 inp exMem memWb =
      executeDecoded cp0 inp (forwardOperands inp exMem memWb) := by
  unfold IdEx.executed at h
  split at h
  · rename_i hx
    simp only [Bool.and_eq_true, Option.isNone_iff_eq_none] at hx
    exact ⟨Option.some.inj h, by simp [execute, hx]⟩
  · cases h

-- An instruction that EX does not execute leaves the bubble and no indicator.
theorem execute_of_none (cp0 : Cp0) {inp : IdEx} (exMem : ExMem) (memWb : MemWb)
    (h : inp.executed = none) :
    (execute cp0 inp exMem memWb).next = {} ∧ (execute cp0 inp exMem memWb).forwarded = {} := by
  unfold execute
  cases hv : inp.valid with
  | false => exact ⟨rfl, rfl⟩
  | true =>
    cases he : inp.earlyTrap with
    | some code => exact ⟨rfl, rfl⟩
    | none => simp [IdEx.executed, hv, he] at h

theorem Labelled.step {cpu : PipelinedCpu} (h : cpu.Labelled) : cpu.step.2.Labelled where
  idEx := cpu.step_idEx_labelled
  load := cpu.step_loadDecoded
  exMem := by
    rw [step_exMem]
    intro hv
    cases hp : cpu.pendingTrap with
    | some trap => simp [ex_of_pending hp] at hv
    | none =>
      rw [runStages_ex cpu hp] at hv ⊢
      cases hx : cpu.idEx.executed with
      | none => simp [(execute_of_none cpu.cp0 cpu.exMem cpu.memWb hx).1] at hv
      | some d =>
        obtain ⟨hdec, hexec⟩ := execute_of_executed cpu.cp0 cpu.exMem cpu.memWb hx
        obtain ⟨⟨raw, hd⟩, hctrl, -⟩ := h.idEx _ hx
        rw [hexec] at hv ⊢
        rcases executeDecoded_settles cpu.cp0 cpu.idEx
          (forwardOperands cpu.idEx cpu.exMem cpu.memWb) with ⟨-, -, -, hnext⟩ | ⟨ht, -, -, hraw⟩
        · simp [hnext] at hv
        · rw [hraw, hdec, Decoder.decode_raw hd]
          rw [← hdec] at hd hctrl
          exact executeDecoded_destination _ _ _ hd hctrl ht
  memWb := by
    rw [step_memWb]
    intro hv
    cases hx : cpu.exMem.valid with
    | false => simp [memoryAccess_invalid _ hx] at hv
    | true =>
      cases ht : (memoryAccess cpu.mem cpu.exMem).1.trap with
      | some trap => simp [(memoryAccess_trap_next (by rw [ht]; simp)).1] at hv
      | none =>
        obtain ⟨-, -, hraw, hctrl, -, hdst, -⟩ := memoryAccess_next hx ht
        rw [hraw, hctrl, hdst]
        exact h.exMem hx

theorem Labelled.of_bubbles {cpu : PipelinedCpu} (hx : cpu.idEx = {}) (hm : cpu.exMem = {})
    (hw : cpu.memWb = {}) : cpu.Labelled where
  idEx := by
    rw [hx]
    exact .of_none rfl
  load := by
    rw [hx]
    intro hload
    cases hload
  exMem := by simp [hm]
  memWb := by simp [hw]

theorem labelled_of_reachable {memBytes : ℕ} {cpu : PipelinedCpu} (h : Reachable memBytes cpu) :
    cpu.Labelled := by
  induction h with
  | create => exact .of_bubbles rfl rfl rfl
  | step _ ih => exact ih.step
  | loadProgram _ hload ih =>
    obtain ⟨⟨fits, mem⟩, -, hres⟩ := Option.map_eq_some_iff.mp hload
    cases fits <;>
      · simp only [if_true, Bool.false_eq_true, if_false, Prod.mk.injEq] at hres
        rw [← hres.2]
        exact ⟨ih.idEx, ih.load, ih.exMem, ih.memWb⟩
  | reset _ clearMemory => exact .of_bubbles rfl rfl rfl
  | edit _ hedit ih => cases hedit <;> exact ⟨ih.idEx, ih.load, ih.exMem, ih.memWb⟩

def Reads (d : DecodedInstr) (r : RegIdx) : Prop :=
  (readRegisters d).a = some r ∨ (readRegisters d).b = some r

-- What the indicators of a cycle owe their reader: the consumer reads the register on the
-- side shown, and the instruction in the named register produces it.
structure IndicatorsExact (cpu : PipelinedCpu) : Prop where
  exToExA : cpu.step.2.ps.fwdExToExA = true →
    ∃ d r, cpu.exInstr = some d ∧ (readRegisters d).a = some r ∧ cpu.exMem.Produces r
  exToExB : cpu.step.2.ps.fwdExToExB = true →
    ∃ d r, cpu.exInstr = some d ∧ (readRegisters d).b = some r ∧ cpu.exMem.Produces r
  memToExA : cpu.step.2.ps.fwdMemToExA = true →
    ∃ d r, cpu.exInstr = some d ∧ (readRegisters d).a = some r ∧ cpu.memWb.Produces r
  memToExB : cpu.step.2.ps.fwdMemToExB = true →
    ∃ d r, cpu.exInstr = some d ∧ (readRegisters d).b = some r ∧ cpu.memWb.Produces r
  loadStall : cpu.step.2.ps.loadStall = true →
    ∃ load d r, cpu.exInstr = some load ∧ (deriveControl load).memRead = true ∧
      destinationRegister load = some r ∧ cpu.idInstr = some d ∧ Reads d r

structure NoStrayField (cpu : PipelinedCpu) : Prop where
  -- of the instruction in EX, unless a trap of MEM squashes it
  ex : ∀ d r, cpu.pendingTrap = none → cpu.exInstr = some d → r ≠ 0#5 →
    (unreadFields d).a = some r ∨ (unreadFields d).b = some r →
    ¬cpu.exMem.Produces r ∧ ¬cpu.memWb.Produces r
  -- of a SYSCALL or BREAK in ID
  id : ∀ load d r, cpu.exInstr = some load → (deriveControl load).memRead = true →
    destinationRegister load = some r → r ≠ 0#5 → cpu.idInstr = some d → TakesCode d →
    d.rsIdx ≠ r ∧ d.rtIdx ≠ r

section Side

variable {flagEx flagWb : Bool} {field : RegIdx} {reads : Option RegIdx}
  {exMem memWb : RegIdx → Prop}

-- One operand: its two indicators are exact just when its field is read or names no
-- register that is being produced.
theorem side_exact (hread : ∀ r, reads = some r → r = field)
    (hex : flagEx = true ↔ field ≠ 0#5 ∧ exMem field)
    (hwb : flagWb = true ↔ field ≠ 0#5 ∧ memWb field ∧ flagEx = false) :
    ((flagEx = true → ∃ r, reads = some r ∧ exMem r) ∧
      (flagWb = true → ∃ r, reads = some r ∧ memWb r)) ↔
    ∀ r, r ≠ 0#5 → (if reads = none then some field else none) = some r → ¬exMem r ∧ ¬memWb r := by
  constructor
  · rintro ⟨hA, hB⟩ r hz hunread
    split at hunread
    · rename_i hnone
      obtain rfl := Option.some.inj hunread
      have hoff : flagEx = false := by
        by_contra hon
        obtain ⟨r, hr, -⟩ := hA (by simpa using hon)
        simp [hnone] at hr
      refine ⟨fun hp => ?_, fun hp => ?_⟩
      · have hon := hex.mpr ⟨hz, hp⟩
        rw [hoff] at hon
        cases hon
      · obtain ⟨r, hr, -⟩ := hB (hwb.mpr ⟨hz, hp, hoff⟩)
        simp [hnone] at hr
    · cases hunread
  · intro h
    cases hr : reads with
    | none =>
      have hno := fun hz => h field hz (by rw [hr, if_pos rfl])
      refine ⟨fun hA => ?_, fun hB => ?_⟩
      · obtain ⟨hz, hp⟩ := hex.mp hA
        exact absurd hp (hno hz).1
      · obtain ⟨hz, hp, -⟩ := hwb.mp hB
        exact absurd hp (hno hz).2
    | some r =>
      obtain rfl := hread r hr
      exact ⟨fun hA => ⟨_, rfl, (hex.mp hA).2⟩, fun hB => ⟨_, rfl, (hwb.mp hB).2.1⟩⟩

end Side

section Flags

variable {cpu : PipelinedCpu} {d : DecodedInstr}

theorem step_forwarded (cpu : PipelinedCpu) :
    let ps := cpu.step.2.ps
    let paths := cpu.runStages.ex.forwarded
    ps.fwdExToExA = paths.exMemA ∧ ps.fwdExToExB = paths.exMemB ∧
      ps.fwdMemToExA = paths.memWbA ∧ ps.fwdMemToExB = paths.memWbB := ⟨rfl, rfl, rfl, rfl⟩

theorem forwarded_of_executed (hp : cpu.pendingTrap = none) (hx : cpu.exInstr = some d) :
    cpu.runStages.ex.forwarded = (forwardOperands cpu.idEx cpu.exMem cpu.memWb).paths := by
  rw [runStages_ex cpu hp, (execute_of_executed _ _ _ hx).2, executeDecoded_forwarded]

theorem forwarded_of_idle (h : ¬(cpu.pendingTrap = none ∧ ∃ d, cpu.exInstr = some d)) :
    cpu.runStages.ex.forwarded = {} := by
  cases hp : cpu.pendingTrap with
  | some trap => rw [ex_of_pending hp]
  | none =>
    cases hx : cpu.exInstr with
    | some d => exact absurd ⟨hp, d, hx⟩ h
    | none => rw [runStages_ex cpu hp, (execute_of_none _ _ _ hx).2]

theorem Labelled.paths (h : cpu.Labelled) :
    let paths := (forwardOperands cpu.idEx cpu.exMem cpu.memWb).paths
    (paths.exMemA = true ↔ cpu.idEx.rs ≠ 0#5 ∧ cpu.exMem.Produces cpu.idEx.rs) ∧
    (paths.exMemB = true ↔ cpu.idEx.rt ≠ 0#5 ∧ cpu.exMem.Produces cpu.idEx.rt) ∧
    (paths.memWbA = true ↔
      cpu.idEx.rs ≠ 0#5 ∧ cpu.memWb.Produces cpu.idEx.rs ∧ paths.exMemA = false) ∧
    (paths.memWbB = true ↔
      cpu.idEx.rt ≠ 0#5 ∧ cpu.memWb.Produces cpu.idEx.rt ∧ paths.exMemB = false) := by
  simp only [ExMem.produces_iff h.exMem, MemWb.produces_iff h.memWb, forwardOperands]
  refine ⟨?_, ?_, ?_, ?_⟩ <;>
    simp only [Bool.and_eq_true, Bool.not_eq_true', decide_eq_true_eq] <;> grind

-- The forwarding indicators of the operand on one side.
theorem Labelled.forwards_iff (h : cpu.Labelled) (hp : cpu.pendingTrap = none)
    (hx : cpu.exInstr = some d) :
    let paths := cpu.runStages.ex.forwarded
    ((paths.exMemA = true → ∃ r, (readRegisters d).a = some r ∧ cpu.exMem.Produces r) ∧
        (paths.memWbA = true → ∃ r, (readRegisters d).a = some r ∧ cpu.memWb.Produces r) ↔
      ∀ r, r ≠ 0#5 → (unreadFields d).a = some r →
        ¬cpu.exMem.Produces r ∧ ¬cpu.memWb.Produces r) ∧
    ((paths.exMemB = true → ∃ r, (readRegisters d).b = some r ∧ cpu.exMem.Produces r) ∧
        (paths.memWbB = true → ∃ r, (readRegisters d).b = some r ∧ cpu.memWb.Produces r) ↔
      ∀ r, r ≠ 0#5 → (unreadFields d).b = some r →
        ¬cpu.exMem.Produces r ∧ ¬cpu.memWb.Produces r) := by
  obtain ⟨⟨raw, hd⟩, -, hrs, hrt⟩ := h.idEx d hx
  obtain ⟨hexA, hexB, hwbA, hwbB⟩ := h.paths
  rw [hrs] at hexA hwbA
  rw [hrt] at hexB hwbB
  simp only [forwarded_of_executed hp hx]
  exact ⟨side_exact (fun r => readRegisters_a hd) hexA hwbA,
    side_exact (fun r => readRegisters_b hd) hexB hwbB⟩

theorem idInstr_eq_some : cpu.idInstr = some d ↔
    cpu.ifId.valid = true ∧ cpu.ifId.fetchFault = false ∧
      Decoder.decode cpu.ifId.instr = some d := by
  unfold idInstr
  cases cpu.ifId.valid <;> cases cpu.ifId.fetchFault <;> simp

-- The hazard unit compares the register of the load with the fields the table gives it.
theorem Labelled.loadUseHazard_iff (h : cpu.Labelled) :
    loadUseHazard cpu.idEx cpu.ifId = true ↔
      ∃ load d r, cpu.exInstr = some load ∧ (deriveControl load).memRead = true ∧
        destinationRegister load = some r ∧ r ≠ 0#5 ∧ cpu.idInstr = some d ∧
        ((sourceRegisters d).a = some r ∨ (sourceRegisters d).b = some r) := by
  constructor
  · intro hs
    obtain ⟨hv, hread, hvalid, hfault⟩ := loadUseHazard_load hs
    have hx : cpu.exInstr = some cpu.idEx.decoded := by
      simp [exInstr, IdEx.executed, hv, (h.load hread).1]
    obtain ⟨⟨raw, hd⟩, hctrl, -, hrt⟩ := h.idEx _ hx
    rw [hctrl] at hread
    unfold loadUseHazard at hs
    split at hs
    · cases hs
    · cases hdec : Decoder.decode cpu.ifId.instr with
      | none => simp [hdec] at hs
      | some d =>
        simp only [hdec, Bool.and_eq_true, Bool.or_eq_true, decide_eq_true_eq] at hs
        refine ⟨_, d, _, hx, hread, destinationRegister_of_load hd hread, ?_,
          idInstr_eq_some.mpr ⟨hvalid, hfault, hdec⟩, ?_⟩
        · rw [← hrt]
          exact hs.1
        · rw [← hrt]
          exact hs.2
  · rintro ⟨load, d, r, hx, hread, hdst, hz, hid, hsrc⟩
    obtain ⟨⟨raw, hd⟩, hctrl, -, hrt⟩ := h.idEx _ hx
    obtain ⟨hvalid, hfault, hdec⟩ := idInstr_eq_some.mp hid
    rw [destinationRegister_of_load hd hread, ← hrt, Option.some.injEq] at hdst
    have hv : cpu.idEx.valid = true := by
      by_contra hv
      simp [exInstr, IdEx.executed, hv] at hx
    simp [loadUseHazard, hv, hctrl, hread, hvalid, hfault, hdec, hdst, hz, hsrc]

theorem Labelled.stall_iff (h : cpu.Labelled) :
    (loadUseHazard cpu.idEx cpu.ifId = true →
      ∃ load d r, cpu.exInstr = some load ∧ (deriveControl load).memRead = true ∧
        destinationRegister load = some r ∧ cpu.idInstr = some d ∧ Reads d r) ↔
    ∀ load d r, cpu.exInstr = some load → (deriveControl load).memRead = true →
      destinationRegister load = some r → r ≠ 0#5 → cpu.idInstr = some d → TakesCode d →
      d.rsIdx ≠ r ∧ d.rtIdx ≠ r := by
  rw [h.loadUseHazard_iff]
  constructor
  · intro he load d r hx hread hdst hz hid hcode
    obtain ⟨ha, hb⟩ := sourceRegisters_of_takesCode (idInstr_eq_some.mp hid).2.2 hcode
    -- a code that names the register would be shown as a reader of it
    have hno : ¬((sourceRegisters d).a = some r ∨ (sourceRegisters d).b = some r) := by
      intro hsrc
      obtain ⟨-, d', r', -, -, -, hid', hreads⟩ := he ⟨load, d, r, hx, hread, hdst, hz, hid, hsrc⟩
      obtain rfl := Option.some.inj (hid.symm.trans hid')
      rw [Reads, readRegisters, if_pos hcode] at hreads
      rcases hreads with hr | hr <;> cases hr
    rw [ha, hb] at hno
    simpa only [Option.some.injEq, not_or] using hno
  · rintro hcond ⟨load, d, r, hx, hread, hdst, hz, hid, hsrc⟩
    refine ⟨load, d, r, hx, hread, hdst, hid, ?_⟩
    by_cases hcode : TakesCode d
    · obtain ⟨ha, hb⟩ := sourceRegisters_of_takesCode (idInstr_eq_some.mp hid).2.2 hcode
      obtain ⟨hrs, hrt⟩ := hcond load d r hx hread hdst hz hid hcode
      rw [ha, hb, Option.some.injEq, Option.some.injEq] at hsrc
      exact absurd hsrc (by simp [hrs, hrt])
    · rwa [Reads, readRegisters, if_neg hcode]

theorem exists_executed (hx : cpu.exInstr = some d) (p : DecodedInstr → RegIdx → Prop) :
    (∃ d' r, cpu.exInstr = some d' ∧ p d' r) ↔ ∃ r, p d r := by
  simp [hx]

end Flags

-- The indicators of every cycle are exact just when no field that is not read names a
-- register that an older instruction produces.
theorem indicatorsExact_iff {memBytes : ℕ} {cpu : PipelinedCpu} (h : Reachable memBytes cpu) :
    cpu.IndicatorsExact ↔ cpu.NoStrayField := by
  have hl := labelled_of_reachable h
  constructor
  · intro he
    refine ⟨fun d r hp hx hz hfield => ?_, hl.stall_iff.mp he.loadStall⟩
    obtain ⟨hA, hB⟩ := hl.forwards_iff hp hx
    rcases hfield with ha | hb
    · refine hA.mp ⟨fun hon => ?_, fun hon => ?_⟩ r hz ha
      · exact (exists_executed hx _).mp (he.exToExA hon)
      · exact (exists_executed hx _).mp (he.memToExA hon)
    · refine hB.mp ⟨fun hon => ?_, fun hon => ?_⟩ r hz hb
      · exact (exists_executed hx _).mp (he.exToExB hon)
      · exact (exists_executed hx _).mp (he.memToExB hon)
  · intro hn
    by_cases hidle : cpu.pendingTrap = none ∧ ∃ d, cpu.exInstr = some d
    · obtain ⟨hp, d, hx⟩ := hidle
      obtain ⟨hA, hB⟩ := hl.forwards_iff hp hx
      obtain ⟨hexA, hwbA⟩ := hA.mpr fun r hz ha => hn.ex d r hp hx hz (.inl ha)
      obtain ⟨hexB, hwbB⟩ := hB.mpr fun r hz hb => hn.ex d r hp hx hz (.inr hb)
      exact {
        exToExA := fun hon => (exists_executed hx _).mpr (hexA hon)
        exToExB := fun hon => (exists_executed hx _).mpr (hexB hon)
        memToExA := fun hon => (exists_executed hx _).mpr (hwbA hon)
        memToExB := fun hon => (exists_executed hx _).mpr (hwbB hon)
        loadStall := hl.stall_iff.mpr hn.id }
    · obtain ⟨hexA, hexB, hwbA, hwbB⟩ := cpu.step_forwarded
      rw [forwarded_of_idle hidle] at hexA hexB hwbA hwbB
      exact {
        exToExA := fun hon => by cases hexA.symm.trans hon
        exToExB := fun hon => by cases hexB.symm.trans hon
        memToExA := fun hon => by cases hwbA.symm.trans hon
        memToExB := fun hon => by cases hwbB.symm.trans hon
        loadStall := hl.stall_iff.mpr hn.id }

theorem reachable_run {memBytes : ℕ} {cpu : PipelinedCpu} (h : Reachable memBytes cpu) (k : ℕ) :
    Reachable memBytes (cpu.run k) := by
  induction k with
  | zero => exact h
  | succ k ih =>
    rw [run_succ]
    exact .step ih

-- A CPU of 16 bytes with two instructions in memory.
def holding (first second : Word) : PipelinedCpu :=
  { create 16 with mem := Memory.loadWordsFrom 0#32 0 [first, second] (.ofSize 16) }

theorem holding_reachable (first second : Word) (k : ℕ) :
    Reachable 16 ((holding first second).run k) :=
  reachable_run (.edit .create (.setMem _ (Memory.size_loadWordsFrom _ _ _ _))) k

-- addi $t0, $0, 1; addu $t1, $t0, $t0
theorem indicatorsExact_dependent :
    ((holding 0x20080001#32 0x01084821#32).run 4).ps.fwdExToExA = true ∧
      ((holding 0x20080001#32 0x01084821#32).run 3).IndicatorsExact := by
  refine ⟨by decide, (indicatorsExact_iff (holding_reachable _ _ 3)).mpr ⟨?_, ?_⟩⟩
  · intro d r _ hx _ hfield
    obtain rfl := Option.some.inj hx
    rcases hfield with hr | hr <;> cases hr
  · intro load d r hx hread
    obtain rfl := Option.some.inj hx
    cases hread

-- addi $t0, $0, 1; addi $t0, $t1, 2: the destination is shown as an operand.
-- lw $t0, 0($0); syscall with $t0 in its code: ID is shown to wait for the load.
theorem stray_field_shown :
    (((holding 0x20080001#32 0x21280002#32).run 4).ps.fwdExToExB = true ∧
      ¬((holding 0x20080001#32 0x21280002#32).run 3).IndicatorsExact) ∧
    ((holding 0x8C080000#32 0x0100000C#32).run 3).ps.loadStall = true ∧
      ¬((holding 0x8C080000#32 0x0100000C#32).run 2).IndicatorsExact := by
  refine ⟨⟨by decide, fun h => ?_⟩, by decide, fun h => ?_⟩
  · obtain ⟨d, r, hx, hr, -⟩ := h.exToExB (by decide)
    obtain rfl := Option.some.inj hx
    cases hr
  · obtain ⟨load, d, r, -, -, -, hid, hr⟩ := h.loadStall (by decide)
    obtain rfl := Option.some.inj hid
    rcases hr with hr | hr <;> cases hr

end PipelinedCpu

end ClearCore.Mips
