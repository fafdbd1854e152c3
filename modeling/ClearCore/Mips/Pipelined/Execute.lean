import ClearCore.Mips.Pipelined
import ClearCore.Mips.Semantics.Lemmas
import ClearCore.Mips.SingleCycle.Theorems

namespace ClearCore.Mips

open Isa

-- The GPR write WB performs for a MEM/WB register.
def MemWb.gpr (memWb : MemWb) : Option (RegIdx × Word) :=
  if memWb.valid && memWb.ctrl.regWrite then gprWrite memWb.writeReg memWb.value else none

-- The CP0 access EX asks step() to apply.
def ExOutcome.cp0Access (out : ExOutcome) : Cp0Access :=
  match out.mtc0 with
  | some mtc0 => .write mtc0.reg mtc0.value
  | none => if out.eret then .eret else .none

def Action.trapOf (pc : Word) : Action → Option Trap
  | .trap code => some { code, pc, badAddr := 0#32 }
  | _ => none

-- An EX/MEM register holding what is left of an action: its memory access and
-- its register write.
@[mk_iff]
structure ExMem.Holds (exMem : ExMem) (pc raw : Word) (isHalt : Bool) : Prop where
  valid : exMem.valid = true
  pc : exMem.pc = pc
  raw : exMem.raw = raw
  isHalt : exMem.isHalt = isHalt

def ExMem.Carries (exMem : ExMem) (pc raw : Word) (isHalt : Bool) : Action → Prop
  | .trap _ => exMem = {}
  | .load op addr dst =>
      exMem.Holds pc raw isHalt ∧ exMem.ctrl.memRead = true ∧ exMem.ctrl.memWrite = false ∧
        exMem.ctrl.memToReg = true ∧ exMem.ctrl.regWrite = true ∧ exMem.alu.value = addr ∧
        exMem.opcode = op ∧ exMem.writeReg = dst
  | .store op addr value =>
      exMem.Holds pc raw isHalt ∧ exMem.ctrl.memRead = false ∧ exMem.ctrl.memWrite = true ∧
        exMem.ctrl.memToReg = false ∧ exMem.ctrl.regWrite = false ∧ exMem.alu.value = addr ∧
        exMem.opcode = op ∧ exMem.rtVal = value
  | .done gpr _ _ =>
      exMem.Holds pc raw isHalt ∧ exMem.ctrl.memRead = false ∧ exMem.ctrl.memWrite = false ∧
        exMem.ctrl.memToReg = false ∧
        gpr = if exMem.ctrl.regWrite then gprWrite exMem.writeReg exMem.alu.value else none

theorem ExMem.Carries.holds {exMem : ExMem} {pc pc' raw : Word} {isHalt : Bool} {act : Action}
    (h : exMem.Carries pc raw isHalt act) (hno : act.trapOf pc' = none) :
    exMem.Holds pc raw isHalt := by
  cases act with
  | trap code => simp [Action.trapOf] at hno
  | load | store | done => exact h.1

-- The outcome of EX on an instruction, in terms of its action. J and JAL were
-- resolved in ID, so EX redirects for every other transfer and only for those.
structure ExOutcome.Performs (out : ExOutcome) (d : DecodedInstr) (pc : Word) (isHalt : Bool)
    (act : Action) : Prop where
  carries : out.next.Carries pc d.raw isHalt act
  trap : out.trap = act.trapOf pc
  cp0 : out.cp0Access = act.cp0Access
  exclusive : out.mtc0 = none ∨ out.eret = false
  redirect : ∀ target, out.redirect = some target → act.trapOf pc = none ∧ act.nextPc pc = target
  sequential : out.redirect = none → act.trapOf pc = none → d.format ≠ .J →
    act.nextPc pc = pc + 4#32
  jump : d.format = .J → out.redirect = none ∧ act.trapOf pc = none ∧
    act.nextPc pc = Action.jumpTarget pc d.j.target
  load : out.next.ctrl.memRead = true →
    (deriveControl d).memRead = true ∧ out.next.writeReg = d.rtIdx

namespace PipelinedCpu

theorem performs_jump (cp0 : Cp0) (inp : IdEx) (ops : ExOperands) (raw target : Word) (op : Opcode)
    (hd : inp.decoded = { raw, opcode := op, format := .J, fields := .j { target } })
    (hc : inp.ctrl = deriveControl inp.decoded) (hpc : inp.pc4 = inp.pc + 4#32) :
    (executeDecoded cp0 inp ops).Performs inp.decoded inp.pc inp.isHalt
      (.ofInstr inp.decoded cp0 inp.pc ops.a ops.b) := by
  rw [hd] at hc ⊢
  by_cases hop : op = .JAL <;>
    constructor <;>
    simp [executeDecoded, hd, hop, Action.ofInstr, ExMem.Carries, ExMem.holds_iff, exMemOf, hc,
      deriveControl, hpc, gprWrite, Action.trapOf, Action.cp0Access, Action.nextPc,
      ExOutcome.cp0Access]

theorem performs_cop0 (cp0 : Cp0) (inp : IdEx) (ops : ExOperands) (raw : Word) (r : RFields)
    (hd : inp.decoded = { raw, opcode := .COP0, format := .R, fields := .r r })
    (hc : inp.ctrl = deriveControl inp.decoded) :
    (executeDecoded cp0 inp ops).Performs inp.decoded inp.pc inp.isHalt
      (.ofInstr inp.decoded cp0 inp.pc ops.a ops.b) := by
  rw [hd] at hc ⊢
  simp only [executeDecoded, hd, Action.ofInstr, Action.ofCop0, DecodedInstr.r, reduceCtorEq,
    if_false, if_true, false_and]
  by_cases hmf : r.rs = 0x00#5
  · constructor <;>
      simp [hmf, ExMem.Carries, ExMem.holds_iff, exMemOf, hd, hc, deriveControl,
        Control.rTypeControl, Action.trapOf, Action.cp0Access, Action.nextPc, ExOutcome.cp0Access]
  by_cases hmt : r.rs = 0x04#5
  · constructor <;>
      simp [hmt, ExMem.Carries, ExMem.holds_iff, exMemOf, hd, hc, deriveControl,
        Control.rTypeControl, Action.trapOf, Action.cp0Access, Action.nextPc, ExOutcome.cp0Access]
  by_cases her : r.rs = 0x10#5 ∧ r.funct = .ERET
  · constructor <;>
      simp [her, ExMem.Carries, ExMem.holds_iff, exMemOf, hd, hc, deriveControl,
        Control.rTypeControl, Action.trapOf, Action.cp0Access, Action.nextPc, ExOutcome.cp0Access]
  · constructor <;>
      simp [hmf, hmt, her, ExMem.Carries, ExMem.holds_iff, exMemOf, hd, hc, deriveControl,
        Control.rTypeControl, Action.trapOf, Action.cp0Access, Action.nextPc, ExOutcome.cp0Access]

theorem performs_branch (cp0 : Cp0) (inp : IdEx) (ops : ExOperands) (raw : Word) (op : Opcode)
    (i : IFields) (hop : op = .BEQ ∨ op = .BNE)
    (hd : inp.decoded = { raw, opcode := op, format := .I, fields := .i i })
    (hc : inp.ctrl = deriveControl inp.decoded) (hpc : inp.pc4 = inp.pc + 4#32) :
    (executeDecoded cp0 inp ops).Performs inp.decoded inp.pc inp.isHalt
      (.ofInstr inp.decoded cp0 inp.pc ops.a ops.b) := by
  rw [hd] at hc ⊢
  rcases hop with rfl | rfl <;>
    by_cases he : ops.a = ops.b <;>
    constructor <;>
    simp [executeDecoded, hd, Action.ofInstr, Action.ofImmediate, DecodedInstr.i, subu_zero, he,
      ExMem.Carries, ExMem.holds_iff, exMemOf, hc, deriveControl, Control.iTypeControl,
      Action.trapOf, Action.cp0Access, Action.nextPc, ExOutcome.cp0Access, hpc,
      Action.branchTarget]

theorem performs_immediate (cp0 : Cp0) (inp : IdEx) (ops : ExOperands) (raw : Word) (op : Opcode)
    (i : IFields) (hop : Decoder.formatOf op = .I) (hb : ¬(op = .BEQ ∨ op = .BNE))
    (hd : inp.decoded = { raw, opcode := op, format := .I, fields := .i i })
    (hc : inp.ctrl = deriveControl inp.decoded) :
    (executeDecoded cp0 inp ops).Performs inp.decoded inp.pc inp.isHalt
      (.ofInstr inp.decoded cp0 inp.pc ops.a ops.b) := by
  rw [hd] at hc ⊢
  cases op with
  | SPECIAL | COP0 | J | JAL | unnamed => simp [Decoder.formatOf] at hop
  | BEQ | BNE => simp at hb
  | ADDI =>
    cases ho : (Alu.execute .ADD ops.a (Decoder.signExtend i.imm) 0#5).overflow <;>
      constructor <;>
      simp [executeDecoded, hd, Action.ofInstr, Action.ofImmediate, DecodedInstr.i, Alu.control,
        Alu.iTypeOp, aluB, aluShamt, isSignedOp, aluWriteReg, Action.ofAlu, ExMem.Carries,
        ExMem.holds_iff, exMemOf, hc, deriveControl, Control.iTypeControl, Action.trapOf,
        Action.cp0Access, Action.nextPc, ExOutcome.cp0Access, ho]
  | _ =>
    constructor <;>
      simp [executeDecoded, hd, Action.ofInstr, Action.ofImmediate, DecodedInstr.i, Alu.control,
        Alu.iTypeOp, aluB, aluShamt, isSignedOp, aluWriteReg, Action.ofAlu, ExMem.Carries,
        ExMem.holds_iff, exMemOf, hc, deriveControl, Control.iTypeControl, Action.trapOf,
        Action.cp0Access, Action.nextPc, ExOutcome.cp0Access, addu_value, DecodedInstr.rtIdx]

theorem performs_special (cp0 : Cp0) (inp : IdEx) (ops : ExOperands) (raw : Word) (r : RFields)
    (himpl : Decoder.implementedSpecial r.funct)
    (hd : inp.decoded = { raw, opcode := .SPECIAL, format := .R, fields := .r r })
    (hc : inp.ctrl = deriveControl inp.decoded) (hpc : inp.pc4 = inp.pc + 4#32) :
    (executeDecoded cp0 inp ops).Performs inp.decoded inp.pc inp.isHalt
      (.ofInstr inp.decoded cp0 inp.pc ops.a ops.b) := by
  rw [hd] at hc ⊢
  obtain ⟨rs, rt, rd, shamt, funct⟩ := r
  cases funct with
  | ERET | unnamed => simp [Decoder.implementedSpecial] at himpl
  | ADD =>
    cases ho : (Alu.execute .ADD ops.a ops.b shamt).overflow <;>
      constructor <;>
      simp [executeDecoded, hd, Action.ofInstr, Action.ofSpecial, DecodedInstr.r, Alu.control,
        Alu.rTypeOp, aluB, aluShamt, isSignedOp, aluWriteReg, Action.ofAlu, ExMem.Carries,
        ExMem.holds_iff, exMemOf, hc, deriveControl, Control.rTypeControl, Action.trapOf,
        Action.cp0Access, Action.nextPc, ExOutcome.cp0Access, ho]
  | SUB =>
    cases ho : (Alu.execute .SUB ops.a ops.b shamt).overflow <;>
      constructor <;>
      simp [executeDecoded, hd, Action.ofInstr, Action.ofSpecial, DecodedInstr.r, Alu.control,
        Alu.rTypeOp, aluB, aluShamt, isSignedOp, aluWriteReg, Action.ofAlu, ExMem.Carries,
        ExMem.holds_iff, exMemOf, hc, deriveControl, Control.rTypeControl, Action.trapOf,
        Action.cp0Access, Action.nextPc, ExOutcome.cp0Access, ho]
  | _ =>
    constructor <;>
      simp [executeDecoded, hd, Action.ofInstr, Action.ofSpecial, DecodedInstr.r, Alu.control,
        Alu.rTypeOp, aluB, aluShamt, isSignedOp, aluWriteReg, Action.ofAlu, ExMem.Carries,
        ExMem.holds_iff, exMemOf, hc, deriveControl, Control.rTypeControl, Action.trapOf,
        Action.cp0Access, Action.nextPc, ExOutcome.cp0Access, hpc]

-- EX performs the action of the instruction in ID/EX on the operands it is given.
theorem executeDecoded_performs (cp0 : Cp0) (inp : IdEx) (ops : ExOperands) {raw : Word}
    (hd : Decoder.decode raw = some inp.decoded)
    (hc : inp.ctrl = deriveControl inp.decoded) (hpc : inp.pc4 = inp.pc + 4#32) :
    (executeDecoded cp0 inp ops).Performs inp.decoded inp.pc inp.isHalt
      (.ofInstr inp.decoded cp0 inp.pc ops.a ops.b) := by
  generalize hdec : inp.decoded = d at hd
  rw [← hdec]
  cases Decoder.decode_decoded hd with
  | special r himpl => exact performs_special cp0 inp ops raw r himpl hdec hc hpc
  | cop0 r => exact performs_cop0 cp0 inp ops raw r hdec hc
  | jump op hop => exact performs_jump cp0 inp ops raw _ op hdec hc hpc
  | immediate op i hop =>
    by_cases hb : op = .BEQ ∨ op = .BNE
    · exact performs_branch cp0 inp ops raw op i hb hdec hc hpc
    · exact performs_immediate cp0 inp ops raw op i hop hb hdec hc

end PipelinedCpu

end ClearCore.Mips
