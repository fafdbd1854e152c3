import ClearCore.Mips.DataMemory
import ClearCore.Mips.PipelineUnits

namespace ClearCore.Mips

open Isa

structure PipelinedCpu where
  regs : RegisterFile
  mem : Memory
  cp0 : Cp0 := {}
  pc : Word := 0#32
  hi : Word := 0#32
  lo : Word := 0#32
  ctrl : Control := {}
  cycle : Nat := 0
  ps : PipelineState := {}
  ifId : IfId := {}
  idEx : IdEx := {}
  exMem : ExMem := {}
  memWb : MemWb := {}

-- A trap a stage detected; step() raises the oldest of a cycle.
structure Trap where
  code : ExceptionCode := .RI
  pc : Word := 0#32
  badAddr : Word := 0#32
deriving DecidableEq, Repr

structure MemOutcome where
  next : MemWb := {}
  trap : Option Trap := none
deriving DecidableEq, Repr

structure Mtc0Write where
  reg : RegIdx := 0#5
  value : Word := 0#32
deriving DecidableEq, Repr

structure ExOutcome where
  next : ExMem := {}
  trap : Option Trap := none
  redirect : Option Word := none
  eret : Bool := false
  mtc0 : Option Mtc0Write := none
  forwarded : ForwardingPaths := {}
deriving DecidableEq, Repr

structure IdOutcome where
  next : IdEx := {}
  jump : Option Word := none
deriving DecidableEq, Repr

namespace PipelinedCpu

def create (memBytes : Nat) : PipelinedCpu :=
  { regs := .initial, mem := .ofSize memBytes }

-- WB: true when a halt retired.
def writeBack (cpu : PipelinedCpu) (inp : MemWb) : Bool × PipelinedCpu :=
  if !inp.valid then (false, cpu)
  else
    (inp.isHalt,
      { cpu with
        ctrl := inp.ctrl
        regs :=
          if inp.ctrl.regWrite && decide (inp.writeReg ≠ 0#5) then
            cpu.regs.write inp.writeReg inp.value
          else cpu.regs })

-- MEM performs its own load or store.
def memoryAccess (mem : Memory) (inp : ExMem) : MemOutcome × Memory :=
  if !inp.valid then ({}, mem)
  else
    let addr := inp.alu.value
    let next : MemWb := {
      valid := true, pc := inp.pc, raw := inp.raw, ctrl := inp.ctrl, aluVal := addr
      writeReg := inp.writeReg, isHalt := inp.isHalt }
    match if inp.ctrl.memRead then loadData mem inp.opcode addr else some 0#32 with
    | none => ({ trap := some { code := .AdEL, pc := inp.pc, badAddr := addr } }, mem)
    | some memVal =>
        if inp.ctrl.memWrite then
          match storeData mem inp.opcode addr inp.rtVal with
          | none => ({ trap := some { code := .AdES, pc := inp.pc, badAddr := addr } }, mem)
          | some mem => ({ next := { next with memVal } }, mem)
        else ({ next := { next with memVal } }, mem)

-- The fields of EX/MEM that every instruction which does not trap fills in.
def exMemOf (inp : IdEx) (ops : ExOperands) : ExMem :=
  { pc := inp.pc, raw := inp.decoded.raw, ctrl := inp.ctrl, opcode := inp.decoded.opcode
    rtVal := ops.b, isHalt := inp.isHalt, valid := true }

-- The shift amount and ALU operand B of a regular ALU instruction.
def aluShamt (dec : DecodedInstr) (ops : ExOperands) : BitVec 5 :=
  if dec.format = .R then
    if dec.r.funct = .SLLV ∨ dec.r.funct = .SRLV then (ops.a &&& 0x1F#32).setWidth 5
    else dec.r.shamt
  else 0#5

def aluB (ctrl : Control) (dec : DecodedInstr) (ops : ExOperands) : Word :=
  if ctrl.aluSrc ∧ dec.format = .I then
    if ctrl.ext = .Sign then Decoder.signExtend dec.i.imm else dec.i.imm.setWidth 32
  else ops.b

-- ADD, SUB and ADDI trap on signed overflow.
def isSignedOp (dec : DecodedInstr) : Bool :=
  let funct := if dec.format = .R then dec.r.funct else .SLL
  decide (funct = .ADD ∨ funct = .SUB) || decide (dec.opcode = .ADDI)

def aluWriteReg (ctrl : Control) (dec : DecodedInstr) : RegIdx :=
  if ctrl.regDst ∧ dec.format = .R then dec.r.rd
  else if dec.format = .I then dec.i.rt
  else 0#5

-- EX on an instruction without an early trap. A trapping instruction leaves the bubble.
def executeDecoded (cp0 : Cp0) (inp : IdEx) (ops : ExOperands) : ExOutcome :=
  let dec := inp.decoded
  let next := exMemOf inp ops
  let forwarded := ops.paths
  if dec.format = .J then
    if dec.opcode = .JAL then
      { next := { next with alu := { value := inp.pc4 }, writeReg := 31#5 }, forwarded }
    else { next, forwarded }
  else if dec.format = .I ∧ (dec.opcode = .BEQ ∨ dec.opcode = .BNE) then
    let cmp := Alu.execute .SUBU ops.a ops.b 0#5
    let taken := if dec.opcode = .BEQ then cmp.zero else !cmp.zero
    { next, forwarded
      redirect :=
        if taken then some (inp.pc4 + (Decoder.signExtend dec.i.imm <<< 2)) else none }
  else if dec.opcode = .SPECIAL ∧ (dec.r.funct = .JR ∨ dec.r.funct = .JALR) then
    if dec.r.funct = .JALR then
      { next := { next with alu := { value := inp.pc4 }, writeReg := dec.r.rd }
        redirect := some ops.a, forwarded }
    else { next, redirect := some ops.a, forwarded }
  else if dec.opcode = .SPECIAL ∧ (dec.r.funct = .SYSCALL ∨ dec.r.funct = .BREAK) then
    { trap := some { code := if dec.r.funct = .SYSCALL then .Sys else .Bp, pc := inp.pc }
      forwarded }
  else if dec.opcode = .COP0 then
    let sub := dec.r.rs
    if sub = 0x00#5 then
      { next := { next with
          ctrl := { next.ctrl with regWrite := true }
          alu := { value := cp0.read dec.r.rd }
          writeReg := dec.r.rt }
        forwarded }
    else if sub = 0x04#5 then
      { next, mtc0 := some { reg := dec.r.rd, value := ops.b }, forwarded }
    else if sub = 0x10#5 ∧ dec.r.funct = .ERET then
      { next, eret := true, redirect := some cp0.epc, forwarded }
    else { next, forwarded }
  else
    match Alu.control dec with
    | none => { trap := some { code := .RI, pc := inp.pc }, forwarded }
    | some aluop =>
        let res := Alu.execute aluop ops.a (aluB inp.ctrl dec ops) (aluShamt dec ops)
        if res.overflow && isSignedOp dec then
          { trap := some { code := .Ov, pc := inp.pc }, forwarded }
        else
          { next := { next with alu := res, writeReg := aluWriteReg inp.ctrl dec }, forwarded }

def execute (cp0 : Cp0) (inp : IdEx) (exMem : ExMem) (memWb : MemWb) : ExOutcome :=
  if !inp.valid then {}
  else
    match inp.earlyTrap with
    | some code =>
        { trap := some { code, pc := inp.pc, badAddr := if code = .AdEL then inp.pc else 0#32 } }
    | none => executeDecoded cp0 inp (forwardOperands inp exMem memWb)

-- ID reads the register file after WB wrote it.
def decode (regs : RegisterFile) (inp : IfId) : IdOutcome :=
  let next : IdEx := { valid := true, pc := inp.pc, pc4 := inp.pc4 }
  if inp.fetchFault then { next := { next with earlyTrap := some .AdEL } }
  else
    match Decoder.decode inp.instr with
    | none => { next := { next with earlyTrap := some .RI, decoded := { raw := inp.instr } } }
    | some dec =>
        let rs := if dec.format = .R then dec.r.rs else if dec.format = .I then dec.i.rs else 0#5
        let rt := if dec.format = .R then dec.r.rt else if dec.format = .I then dec.i.rt else 0#5
        { next := { next with
            ctrl := deriveControl dec, decoded := dec, rsVal := regs.read rs
            rtVal := regs.read rt, rs, rt, isHalt := inp.isHalt }
          jump :=
            if dec.format = .J then some ((inp.pc4 &&& 0xF0000000#32) ||| (dec.j.target <<< 2))
            else none }

-- The "spin-in-place" halt idiom: a J/JAL whose target is its own address.
def selfJump (pc word : Word) : Bool :=
  let rawOp := Opcode.ofBits (((word >>> 26) &&& 0x3F#32).setWidth 6)
  decide (rawOp = .J ∨ rawOp = .JAL) &&
    decide ((((pc + 4#32) &&& 0xF0000000#32) ||| ((word &&& 0x03FFFFFF#32) <<< 2)) = pc)

def fetch (mem : Memory) (pc : Word) : IfId :=
  let next : IfId := { valid := true, pc, pc4 := pc + 4#32 }
  match mem.readWord pc with
  | none => { next with fetchFault := true }
  | some word => { next with instr := word, isHalt := selfJump pc word }

-- What the stages of one cycle produce, oldest first, from the pipeline registers
-- as they were at its start.
structure StageOutcomes where
  halted : Bool
  regs : RegisterFile
  ctrl : Control
  mem : MemOutcome
  memory : Memory
  ex : ExOutcome
  stallLoadUse : Bool
  id : IdOutcome
  fetched : IfId

def runStages (cpu : PipelinedCpu) : StageOutcomes :=
  let (halted, afterWb) := cpu.writeBack cpu.memWb
  let (mem, memory) := memoryAccess cpu.mem cpu.exMem
  let ex := if mem.trap.isSome then {} else execute cpu.cp0 cpu.idEx cpu.exMem cpu.memWb
  let stallLoadUse := loadUseHazard cpu.idEx cpu.ifId
  let exFlushes := mem.trap.isSome || ex.trap.isSome || ex.redirect.isSome
  { halted, regs := afterWb.regs, ctrl := afterWb.ctrl, mem, memory, ex, stallLoadUse
    id :=
      if stallLoadUse || exFlushes || !cpu.ifId.valid then {} else decode afterWb.regs cpu.ifId
    fetched := if stallLoadUse || exFlushes then {} else fetch memory cpu.pc }

namespace StageOutcomes

-- The trap raised this cycle: the oldest stage's.
def trap (out : StageOutcomes) : Option Trap := if out.mem.trap.isSome then out.mem.trap else out.ex.trap

-- The control transfer EX applies, unless a trap squashes it.
def redirect (out : StageOutcomes) : Option Word :=
  if out.trap.isSome then none else out.ex.redirect

def flushFromEx (out : StageOutcomes) : Bool := out.trap.isSome || out.redirect.isSome

def flushFromId (out : StageOutcomes) : Bool := out.id.jump.isSome

end StageOutcomes

-- CP0 after the resolve part of step().
def nextCp0 (cp0 : Cp0) (out : StageOutcomes) : Cp0 :=
  match out.trap with
  | some trap => cp0.raise trap.code trap.pc trap.badAddr
  | none =>
      let cp0 := match out.ex.mtc0 with
        | some mtc0 => cp0.write mtc0.reg mtc0.value
        | none => cp0
      if out.ex.eret then cp0.eret else cp0

def branchPc (out : StageOutcomes) : Word :=
  if out.trap.isSome then kExceptionVector else out.redirect.getD 0#32

def nextPc (pc : Word) (out : StageOutcomes) : Word :=
  if out.flushFromEx then branchPc out
  else if out.flushFromId then out.id.jump.getD 0#32
  else if out.stallLoadUse then pc
  else pc + 4#32

def nextIfId (ifId : IfId) (out : StageOutcomes) : IfId :=
  if out.flushFromEx then {}
  else if out.flushFromId then {}
  else if out.stallLoadUse then ifId
  else out.fetched

def nextIdEx (out : StageOutcomes) : IdEx :=
  if out.flushFromEx then {}
  else if out.flushFromId then out.id.next
  else if out.stallLoadUse then {}
  else out.id.next

def nextState (cpu : PipelinedCpu) (cycle : Nat) (newIf : IfId) (out : StageOutcomes) :
    PipelineState :=
  let stall := out.stallLoadUse
  let flush := out.flushFromEx
  { stages := {
      ifs := {
        name := "IF", valid := newIf.valid && !newIf.fetchFault, stalled := stall
        flushed := flush || out.flushFromId, pc := newIf.pc, raw := newIf.instr }
      id := {
        name := "ID", valid := cpu.ifId.valid && !cpu.ifId.fetchFault, stalled := stall
        flushed := flush, pc := cpu.ifId.pc, raw := cpu.ifId.instr }
      ex := {
        name := "EX", valid := cpu.idEx.valid && decide (cpu.idEx.earlyTrap ≠ some .AdEL)
        pc := cpu.idEx.pc, raw := cpu.idEx.decoded.raw }
      mem := { name := "MEM", valid := cpu.exMem.valid, pc := cpu.exMem.pc, raw := cpu.exMem.raw }
      wb := { name := "WB", valid := cpu.memWb.valid, pc := cpu.memWb.pc, raw := cpu.memWb.raw } }
    fwdExToExA := out.ex.forwarded.exMemA
    fwdExToExB := out.ex.forwarded.exMemB
    fwdMemToExA := out.ex.forwarded.memWbA
    fwdMemToExB := out.ex.forwarded.memWbB
    loadStall := stall
    branchFlush := flush
    retired := cpu.memWb.valid
    cycle }

def stepResult (out : StageOutcomes) : StepResult :=
  if out.trap.isSome then .Exception else if out.halted then .Halt else .Ok

def step (cpu : PipelinedCpu) : StepResult × PipelinedCpu :=
  let cycle := cpu.cycle + 1
  let out := cpu.runStages
  let newIf := nextIfId cpu.ifId out
  (stepResult out,
    { cpu with
      regs := out.regs
      mem := out.memory
      cp0 := nextCp0 cpu.cp0 out
      pc := nextPc cpu.pc out
      ctrl := out.ctrl
      cycle
      ps := nextState cpu cycle newIf out
      ifId := newIf
      idEx := nextIdEx out
      exMem := out.ex.next
      memWb := out.mem.next })

def loadProgram (cpu : PipelinedCpu) (words : List Word) (addr : Word) :
    Option (Bool × PipelinedCpu) :=
  (cpu.mem.loadWords addr words).map fun (fits, mem) =>
    if fits then (true, { cpu with mem, pc := addr }) else (false, { cpu with mem })

def reset (cpu : PipelinedCpu) (clearMemory : Bool) : PipelinedCpu where
  regs := cpu.regs.reset
  cp0 := cpu.cp0.reset
  mem := if clearMemory then cpu.mem.reset else cpu.mem

end PipelinedCpu

end ClearCore.Mips
