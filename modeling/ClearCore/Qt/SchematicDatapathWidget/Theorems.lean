import ClearCore.Mips.Pipelined.Snapshot
import ClearCore.Qt.SchematicDatapathWidget

-- The schematic of a cycle, against what the pipeline does in it.

namespace ClearCore.Qt

open Isa Mips PipelinedCpu Numeral

-- The value at an input of a forwarding mux.
def MuxInput.value (cpu : PipelinedCpu) (read : Word) : MuxInput → Word
  | .register => read
  | .exMem => cpu.exMem.alu.value
  | .memWb => cpu.memWb.value

-- The label of a write to a register.
def writeText : Option (RegIdx × Word) → List Char
  | none => []
  | some (dest, value) => '$' :: registerAbiName dest ++ " = ".toList ++ hexText value

def stallText (load : DecodedInstr) (pc : Word) : List Char :=
  "Load-use hazard: ".toList ++ formatDecoded load pc ++
    " — its data arrives after MEM, so the dependent instruction waits one cycle".toList

-- What the schematic shows is what the pipeline does in the cycle that `cpu` begins.
structure Datapath.Depicts (pic : Datapath) (cpu : PipelinedCpu) : Prop where
  label : pic.valueWb = writeText cpu.memWb.gpr
  changed : ∀ r, cpu.step.2.regs.read r ≠ cpu.regs.read r → pic.registersLit = true ∧
    pic.writebackWire = true ∧ pic.valueWb = writeText (some (r, cpu.step.2.regs.read r))
  lit : pic.registersLit = true ↔
    cpu.memWb.valid = true ∧ cpu.memWb.raw ≠ 0#32 ∧ cpu.memWb.ctrl.regWrite = true
  selected : ∀ dest value, cpu.memWb.gpr = some (dest, value) →
    value = if pic.wbMux then cpu.memWb.memVal else cpu.memWb.aluVal
  memory : pic.memoryLit = true ↔ cpu.exMem.valid = true ∧ cpu.exMem.ctrl.Accesses
  untouched : pic.memoryLit = false → cpu.step.2.mem = cpu.mem
  operands : cpu.pendingTrap = none → ∀ d, cpu.exInstr = some d →
    ∃ paths, cpu.runStages.ex = executeDecoded cpu.cp0 cpu.idEx
      ⟨pic.muxA.value cpu cpu.idEx.rsVal, pic.muxB.value cpu cpu.idEx.rtVal, paths⟩
  wires : (pic.fwdExMemWire = true ↔ pic.muxA = .exMem ∨ pic.muxB = .exMem) ∧
    (pic.fwdMemWbWire = true ↔ pic.muxA = .memWb ∨ pic.muxB = .memWb)
  immediate : ∀ d ops, cpu.idInstr = some d → d.format = .I → (deriveControl d).aluSrc = true →
    pic.valueImm = "imm=".toList ++
      if (deriveControl d).ext = .Zero then decimal (aluB (deriveControl d) d ops).toNat
      else signed (aluB (deriveControl d) d ops).toInt
  redirected : pic.pcMux = cpu.flushCause.isSome ∧ (pic.pcMux = true →
    cpu.step.2.ifId = {} ∧ cpu.step.2.idEx = {})
  stall : pic.pcMux = false → cpu.runStages.stallLoadUse = true →
    cpu.step.2.ifId = cpu.ifId ∧
      pic.hazard = some (.stall, stallText cpu.idEx.decoded cpu.idEx.pc)
  quiet : pic.hazard = none ↔ pic.pcMux = false ∧ cpu.runStages.stallLoadUse = false

variable {cpu : PipelinedCpu}

-- The instruction of the stage, but for a nop.
theorem decodedStage_eq_some {snap : StageSnapshot} {d : DecodedInstr} :
    decodedStage snap = some d ↔
      snap.valid = true ∧ snap.raw ≠ 0#32 ∧ Decoder.decode snap.raw = some d := by
  unfold decodedStage
  cases snap.valid <;> by_cases hraw : snap.raw = 0#32 <;> simp [hraw]

theorem decodedStage_wb (h : cpu.WellFormed) (hv : cpu.memWb.valid = true)
    (hraw : cpu.memWb.raw ≠ 0#32) :
    ∃ d, decodedStage cpu.step.2.ps.stages.wb = some d ∧ cpu.memWb.WellFormed d := by
  obtain ⟨d, hd⟩ := h.memWb hv
  exact ⟨d, decodedStage_eq_some.mpr ⟨hv, hraw, hd.decoded⟩, hd⟩

namespace DatapathFields

theorem wbDest_step (h : cpu.WellFormed) :
    wbDest cpu.step.2.ps =
      if cpu.memWb.valid = true ∧ cpu.memWb.raw ≠ 0#32 ∧ cpu.memWb.ctrl.regWrite = true then
        some cpu.memWb.writeReg else none := by
  rw [wbDest]
  by_cases hword : cpu.memWb.valid = true ∧ cpu.memWb.raw ≠ 0#32
  · obtain ⟨d, hstage, hd⟩ := decodedStage_wb h hword.1 hword.2
    rw [hstage, Option.bind_some, hd.destination]
    simp [hword]
  · have hnone : decodedStage cpu.step.2.ps.stages.wb = none := by
      rw [Option.eq_none_iff_forall_ne_some]
      intro d hd
      obtain ⟨hv, hraw, -⟩ := decodedStage_eq_some.mp hd
      exact hword ⟨hv, hraw⟩
    rw [hnone, if_neg fun hall => hword ⟨hall.1, hall.2.1⟩]
    rfl

-- A nop writes nothing.
theorem raw_of_gpr (h : cpu.WellFormed) {dest : RegIdx} {value : Word}
    (hgpr : cpu.memWb.gpr = some (dest, value)) :
    cpu.memWb.valid = true ∧ cpu.memWb.raw ≠ 0#32 ∧ cpu.memWb.ctrl.regWrite = true ∧
      cpu.memWb.writeReg = dest ∧ cpu.memWb.value = value := by
  have hne := (read_of_gpr hgpr).2
  rw [MemWb.gpr] at hgpr
  split at hgpr
  · rename_i hwrites
    obtain ⟨hv, hw⟩ := Bool.and_eq_true_iff.mp hwrites
    rw [gprWrite] at hgpr
    split at hgpr
    · cases hgpr
    · obtain ⟨rfl, rfl⟩ := Prod.mk.inj (Option.some.inj hgpr)
      refine ⟨hv, fun hraw => hne ?_, hw, rfl, rfl⟩
      obtain ⟨d, hd⟩ := h.memWb hv
      have hdest := hd.destination
      rw [if_pos hw, destinationRegister_nop (hraw ▸ hd.decoded)] at hdest
      exact (Option.some.inj hdest).symm
  · cases hgpr

variable {fields : DatapathFields}

theorem wbText_step (h : cpu.WellFormed) (hstate : fields.state = cpu.step.2.ps)
    (hregs : fields.regValues = cpu.step.2.regs.read) :
    fields.wbText = writeText cpu.memWb.gpr := by
  rw [wbText, hstate, hregs, wbDest_step h]
  cases hgpr : cpu.memWb.gpr with
  | none =>
    split
    · rename_i dest hdest
      obtain ⟨⟨hv, -, hw⟩, hsome⟩ := Option.ite_none_right_eq_some.mp hdest
      obtain rfl := Option.some.inj hsome
      rw [MemWb.gpr, hv, hw, Bool.and_self, if_pos rfl, gprWrite] at hgpr
      by_cases hz : cpu.memWb.writeReg = 0#5
      · rw [if_neg (not_not.mpr hz), writeText]
      · rw [if_neg hz] at hgpr
        cases hgpr
    · rfl
  | some write =>
    obtain ⟨dest, value⟩ := write
    obtain ⟨hv, hraw, hw, rfl, hvalue⟩ := raw_of_gpr h hgpr
    obtain ⟨hread, hne⟩ := read_of_gpr hgpr
    rw [if_pos ⟨hv, hraw, hw⟩]
    change (if cpu.memWb.writeReg ≠ 0#5 then _ else _) = _
    rw [if_pos hne, hread, writeText]

theorem controlOf_of_none {snap : StageSnapshot} (h : decodedStage snap = none) :
    controlOf snap = {} := by
  rw [controlOf, h]
  rfl

-- A nop goes by the control word of the bubble.
theorem controlOf_mem (h : cpu.WellFormed) :
    (controlOf cpu.step.2.ps.stages.mem).Accesses ↔
      cpu.exMem.valid = true ∧ cpu.exMem.ctrl.Accesses := by
  constructor
  · intro ha
    cases hstage : decodedStage cpu.step.2.ps.stages.mem with
    | none =>
      rw [controlOf_of_none hstage] at ha
      exact absurd ha Control.not_accesses_default
    | some d =>
      obtain ⟨hv, -, hd⟩ := decodedStage_eq_some.mp hstage
      obtain ⟨d', hd'⟩ := h.exMem hv
      obtain rfl := Option.some.inj (hd'.decoded.symm.trans hd)
      rw [controlOf, hstage] at ha
      exact ⟨hv, hd'.ctrl ▸ (controlAfterEx_accesses _).mpr ha⟩
  · rintro ⟨hv, ha⟩
    obtain ⟨d, hd⟩ := h.exMem hv
    rw [hd.ctrl, controlAfterEx_accesses] at ha
    have hraw : cpu.exMem.raw ≠ 0#32 := fun hraw => not_accesses_nop (hraw ▸ hd.decoded) ha
    have hstage : decodedStage cpu.step.2.ps.stages.mem = some d :=
      decodedStage_eq_some.mpr ⟨hv, hraw, hd.decoded⟩
    rw [controlOf, hstage]
    exact ha

theorem controlOf_wb (h : cpu.WellFormed) {dest : RegIdx} {value : Word}
    (hgpr : cpu.memWb.gpr = some (dest, value)) :
    (controlOf cpu.step.2.ps.stages.wb).memToReg = cpu.memWb.ctrl.memToReg := by
  obtain ⟨hv, hraw, -⟩ := raw_of_gpr h hgpr
  obtain ⟨d, hstage, hd⟩ := decodedStage_wb h hv hraw
  rw [controlOf, hstage, hd.ctrl, controlAfterEx_memToReg, controlAfterEx_memRead,
    ← deriveControl_memToReg]
  rfl

-- An operand comes over one path.
theorem paths_apart (cpu : PipelinedCpu) :
    let paths := cpu.runStages.ex.forwarded
    (paths.memWbA = true → paths.exMemA = false) ∧ (paths.memWbB = true → paths.exMemB = false) := by
  by_cases hexec : cpu.pendingTrap = none ∧ ∃ d, cpu.exInstr = some d
  · obtain ⟨hp, d, hx⟩ := hexec
    rw [forwarded_of_executed hp hx]
    simp only [forwardOperands, Bool.and_eq_true, Bool.not_eq_true']
    exact ⟨And.right, And.right⟩
  · rw [forwarded_of_idle hexec]
    exact ⟨fun _ => rfl, fun _ => rfl⟩

theorem muxInput_eq_exMem {exMem memWb : Bool} : muxInput exMem memWb = .exMem ↔ exMem = true := by
  cases exMem <;> cases memWb <;> simp [muxInput]

theorem muxInput_eq_memWb {exMem memWb : Bool} (h : memWb = true → exMem = false) :
    muxInput exMem memWb = .memWb ↔ memWb = true := by
  cases exMem <;> cases memWb <;> simp_all [muxInput]

theorem executes_step (hp : cpu.pendingTrap = none) {d : DecodedInstr} (hx : cpu.exInstr = some d) :
    let ps := cpu.step.2.ps
    ∃ paths, cpu.runStages.ex = executeDecoded cpu.cp0 cpu.idEx
      ⟨(muxInput ps.fwdExToExA ps.fwdMemToExA).value cpu cpu.idEx.rsVal,
        (muxInput ps.fwdExToExB ps.fwdMemToExB).value cpu cpu.idEx.rtVal, paths⟩ := by
  obtain ⟨hexA, hexB, hwbA, hwbB⟩ := step_forwarded cpu
  have hpaths := forwarded_of_executed hp hx
  have hex : cpu.runStages.ex =
      executeDecoded cpu.cp0 cpu.idEx (forwardOperands cpu.idEx cpu.exMem cpu.memWb) := by
    rw [runStages_ex cpu hp]
    exact (execute_of_executed _ _ _ hx).2
  dsimp only
  refine ⟨(forwardOperands cpu.idEx cpu.exMem cpu.memWb).paths, hex.trans (congrArg _ ?_)⟩
  rw [hexA, hexB, hwbA, hwbB, hpaths]
  have hvalue : ∀ (fromEx fromWb : Bool) (read : Word),
      (muxInput fromEx (fromWb && !fromEx)).value cpu read =
        if fromWb && !fromEx then cpu.memWb.value
        else if fromEx then cpu.exMem.alu.value else read := by
    intro fromEx fromWb read
    cases fromEx <;> cases fromWb <;> rfl
  simp only [forwardOperands, hvalue]

theorem aluB_immediate {ctrl : Control} {d : DecodedInstr} (hI : d.format = .I)
    (hsrc : ctrl.aluSrc = true) (ops : ExOperands) :
    aluB ctrl d ops =
      if ctrl.ext = .Sign then Decoder.signExtend d.i.imm else d.i.imm.setWidth 32 := by
  rw [aluB, if_pos ⟨hsrc, hI⟩]

theorem immText_step {d : DecodedInstr} (hd : cpu.idInstr = some d) (hI : d.format = .I)
    (hsrc : (deriveControl d).aluSrc = true) (ops : ExOperands) :
    immText cpu.step.2.ps.stages.id = "imm=".toList ++
      if (deriveControl d).ext = .Zero then decimal (aluB (deriveControl d) d ops).toNat
      else signed (aluB (deriveControl d) d ops).toInt := by
  obtain ⟨hv, hfault, hdecode⟩ := idInstr_eq_some.mp hd
  have hraw : cpu.ifId.instr ≠ 0#32 := by
    intro hraw
    rw [hraw] at hdecode
    rw [eq_nop hdecode] at hI
    cases hI
  have hstage : decodedStage cpu.step.2.ps.stages.id = some d := by
    refine decodedStage_eq_some.mpr ⟨?_, hraw, hdecode⟩
    change (cpu.ifId.valid && !cpu.ifId.fetchFault) = true
    rw [hv, hfault]
    rfl
  rw [immText, hstage, aluB_immediate hI hsrc]
  dsimp only
  rw [if_pos hI]
  cases hext : (deriveControl d).ext with
  | Zero =>
    have hvalue : (d.i.imm.setWidth 32).toNat = d.i.imm.toNat :=
      BitVec.toNat_setWidth_of_le (by omega)
    rw [if_pos rfl, if_pos rfl, if_neg (by simp), hvalue]
  | Sign =>
    have hvalue : (Decoder.signExtend d.i.imm).toInt = d.i.imm.toInt :=
      BitVec.toInt_signExtend_of_le (by omega)
    rw [if_neg (by simp), if_neg (by simp), if_pos rfl, hvalue]

-- The load that ID waits for is the instruction in EX.
theorem hazardText_stall (hl : cpu.Labelled) (hflush : cpu.runStages.flushFromEx = false)
    (hstall : cpu.runStages.stallLoadUse = true) :
    hazardText cpu.step.2.ps = some (.stall, stallText cpu.idEx.decoded cpu.idEx.pc) := by
  obtain ⟨load, -, -, hx, hread, -⟩ := hl.loadUseHazard_iff.mp hstall
  obtain ⟨⟨raw, hd⟩, -⟩ := hl.idEx load hx
  obtain ⟨hv, htrap, rfl⟩ := IdEx.executed_eq_some.mp hx
  have hword : cpu.idEx.decoded.raw = raw := Decoder.decode_raw hd
  have hraw : raw ≠ 0#32 := fun hraw => not_accesses_nop (hraw ▸ hd) (.inl hread)
  have hstage : decodedStage cpu.step.2.ps.stages.ex = some cpu.idEx.decoded := by
    refine decodedStage_eq_some.mpr ⟨?_, ?_, ?_⟩
    · change (cpu.idEx.valid && decide (cpu.idEx.earlyTrap ≠ some .AdEL)) = true
      rw [hv, htrap]
      rfl
    · change cpu.idEx.decoded.raw ≠ 0#32
      rwa [hword]
    · change Decoder.decode cpu.idEx.decoded.raw = _
      rwa [hword]
  have hno : cpu.step.2.ps.branchFlush = false := hflush
  have hload : cpu.step.2.ps.loadStall = true := hstall
  rw [hazardText, hno, hload, hstage]
  rfl

theorem hazardText_eq_none (cpu : PipelinedCpu) : hazardText cpu.step.2.ps = none ↔
    cpu.runStages.flushFromEx = false ∧ cpu.runStages.stallLoadUse = false := by
  have hflush : cpu.step.2.ps.branchFlush = cpu.runStages.flushFromEx := rfl
  have hstall : cpu.step.2.ps.loadStall = cpu.runStages.stallLoadUse := rfl
  rw [hazardText, hflush, hstall]
  cases cpu.runStages.flushFromEx <;> cases cpu.runStages.stallLoadUse <;> simp

theorem registersLit_picture (h : cpu.WellFormed) (hstate : fields.state = cpu.step.2.ps) :
    fields.picture.registersLit = true ↔
      cpu.memWb.valid = true ∧ cpu.memWb.raw ≠ 0#32 ∧ cpu.memWb.ctrl.regWrite = true := by
  change (wbDest fields.state).isSome = true ↔ _
  rw [hstate, wbDest_step h]
  split <;> simp_all

theorem memoryLit_picture (h : cpu.WellFormed) (hstate : fields.state = cpu.step.2.ps) :
    fields.picture.memoryLit = true ↔ cpu.exMem.valid = true ∧ cpu.exMem.ctrl.Accesses := by
  rw [← controlOf_mem h, ← hstate]
  exact Bool.or_eq_true _ _ ▸ Iff.rfl

theorem pcMux_picture (hstate : fields.state = cpu.step.2.ps) :
    fields.picture.pcMux = cpu.runStages.flushFromEx := by
  change fields.state.branchFlush = _
  rw [hstate]
  rfl

-- A wire is lit with the inputs that it leads to.
theorem wires_step (cpu : PipelinedCpu) :
    let ps := cpu.step.2.ps
    ((ps.fwdExToExA || ps.fwdExToExB) = true ↔
        muxInput ps.fwdExToExA ps.fwdMemToExA = .exMem ∨
          muxInput ps.fwdExToExB ps.fwdMemToExB = .exMem) ∧
      ((ps.fwdMemToExA || ps.fwdMemToExB) = true ↔
        muxInput ps.fwdExToExA ps.fwdMemToExA = .memWb ∨
          muxInput ps.fwdExToExB ps.fwdMemToExB = .memWb) := by
  obtain ⟨hA, hB⟩ := paths_apart cpu
  obtain ⟨hexA, hexB, hwbA, hwbB⟩ := step_forwarded cpu
  dsimp only
  rw [hexA, hexB, hwbA, hwbB, muxInput_eq_exMem, muxInput_eq_exMem, muxInput_eq_memWb hA,
    muxInput_eq_memWb hB, Bool.or_eq_true, Bool.or_eq_true]
  exact ⟨Iff.rfl, Iff.rfl⟩

theorem ifId_of_stall (hno : cpu.runStages.flushFromEx = false)
    (hstall : cpu.runStages.stallLoadUse = true) : cpu.step.2.ifId = cpu.ifId := by
  rcases cpu.step_front_cases with ⟨hflush, -⟩ | ⟨-, -, -, hkept, -⟩ | ⟨-, hgo, -⟩
  · rw [hno] at hflush
    cases hflush
  · exact hkept
  · rw [hstall] at hgo
    cases hgo

theorem front_of_flush (hflush : cpu.runStages.flushFromEx = true) :
    cpu.step.2.ifId = {} ∧ cpu.step.2.idEx = {} :=
  ⟨by rw [step_ifId, nextIfId, if_pos hflush], by rw [step_idEx, nextIdEx, if_pos hflush]⟩

-- The picture of a cycle that the pipeline can do.
theorem depicts_picture {memBytes : ℕ} (hreach : Reachable memBytes cpu)
    (hstate : fields.state = cpu.step.2.ps) (hregs : fields.regValues = cpu.step.2.regs.read) :
    fields.picture.Depicts cpu := by
  have h := wellFormed_of_reachable hreach
  have hl := labelled_of_reachable hreach
  have hlabel : fields.picture.valueWb = writeText cpu.memWb.gpr := wbText_step h hstate hregs
  have hlit := registersLit_picture h hstate
  have hmemory := memoryLit_picture h hstate
  have hpcMux := pcMux_picture hstate
  constructor
  case label => exact hlabel
  case lit => exact hlit
  case memory => exact hmemory
  case changed =>
    intro r hne
    have hgpr := gpr_of_changed hne
    obtain ⟨hv, hraw, hw, -⟩ := raw_of_gpr h hgpr
    have hon := hlit.mpr ⟨hv, hraw, hw⟩
    exact ⟨hon, hon, by rw [hlabel, hgpr]⟩
  case selected =>
    intro dest value hgpr
    obtain ⟨-, -, -, -, rfl⟩ := raw_of_gpr h hgpr
    change _ = if (controlOf fields.state.stages.wb).memToReg then _ else _
    rw [hstate, controlOf_wb h hgpr]
    rfl
  case untouched =>
    intro hdark
    refine mem_of_not_accesses fun ha => ?_
    rw [hmemory.mpr ha] at hdark
    cases hdark
  case operands =>
    intro hp d hx
    change ∃ paths, cpu.runStages.ex = executeDecoded cpu.cp0 cpu.idEx
      ⟨(muxInput fields.state.fwdExToExA fields.state.fwdMemToExA).value cpu _,
        (muxInput fields.state.fwdExToExB fields.state.fwdMemToExB).value cpu _, paths⟩
    rw [hstate]
    exact executes_step hp hx
  case wires =>
    have hwires := wires_step cpu
    rw [← hstate] at hwires
    exact hwires
  case immediate =>
    intro d ops hd hI hsrc
    change immText fields.state.stages.id = _
    rw [hstate]
    exact immText_step hd hI hsrc ops
  case redirected =>
    rw [hpcMux]
    exact ⟨(flushCause_isSome cpu).symm, front_of_flush⟩
  case stall =>
    intro hno hstall
    rw [hpcMux] at hno
    refine ⟨ifId_of_stall hno hstall, ?_⟩
    change hazardText fields.state = _
    rw [hstate]
    exact hazardText_stall hl hno hstall
  case quiet =>
    change hazardText fields.state = none ↔ _
    rw [hstate, hpcMux]
    exact hazardText_eq_none cpu

end DatapathFields

end ClearCore.Qt
