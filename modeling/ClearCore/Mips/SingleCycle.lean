import ClearCore.Isa.Processor
import ClearCore.Mips.Alu
import ClearCore.Mips.Control
import ClearCore.Mips.Cp0
import ClearCore.Mips.DataMemory

namespace ClearCore.Mips

open Isa

structure SingleCycleCpu where
  regs : RegisterFile
  mem : Memory
  cp0 : Cp0 := {}
  pc : Word := 0#32
  hi : Word := 0#32
  lo : Word := 0#32
  ctrl : Control := {}
  cycle : Nat := 0
  ps : PipelineState := {}

-- What exec_rtype and exec_itype hand back through their reference parameters.
structure ExecOut where
  cpu : SingleCycleCpu
  nextPc : Word
  exc : StepResult := .Ok

namespace SingleCycleCpu

def kRa : RegIdx := 31#5

def create (memBytes : Nat) : SingleCycleCpu :=
  { regs := .initial, mem := .ofSize memBytes }

-- The source also returns StepResult::Exception.
def raise (cpu : SingleCycleCpu) (code : ExceptionCode) (faultingPc : Word)
    (badAddr : Word := 0#32) : SingleCycleCpu :=
  { cpu with cp0 := cpu.cp0.raise code faultingPc badAddr, pc := kExceptionVector }

-- `none` is the `false` that step() turns into StepResult::Fault.
def execRtype (cpu : SingleCycleCpu) (d : DecodedInstr) (pc4 nextPc : Word) : Option ExecOut :=
  let r := d.r
  let f := r.funct
  if d.opcode = .COP0 then
    if r.rs = 0x00#5 then
      some { cpu := { cpu with regs := cpu.regs.write r.rt (cpu.cp0.read r.rd) }, nextPc }
    else if r.rs = 0x04#5 then
      some { cpu := { cpu with cp0 := cpu.cp0.write r.rd (cpu.regs.read r.rt) }, nextPc }
    else if r.rs = 0x10#5 ∧ f = .ERET then
      some { cpu := { cpu with cp0 := cpu.cp0.eret }, nextPc := cpu.cp0.epc }
    else
      some { cpu, nextPc }
  else if f = .SYSCALL then
    some { cpu := cpu.raise .Sys (pc4 - 4#32), nextPc, exc := .Exception }
  else if f = .BREAK then
    some { cpu := cpu.raise .Bp (pc4 - 4#32), nextPc, exc := .Exception }
  else if f = .JR then
    some { cpu, nextPc := cpu.regs.read r.rs }
  else if f = .JALR then
    -- the target is read before the link is written
    some { cpu := { cpu with regs := cpu.regs.write r.rd pc4 }, nextPc := cpu.regs.read r.rs }
  else
    match Alu.control d with
    | none => none
    | some op =>
        let a := cpu.regs.read r.rs
        let b := cpu.regs.read r.rt
        let shamt := if f = .SLLV ∨ f = .SRLV then (a &&& 0x1F#32).setWidth 5 else r.shamt
        let res := Alu.execute op a b shamt
        if res.overflow ∧ (f = .ADD ∨ f = .SUB) then
          some { cpu := cpu.raise .Ov (pc4 - 4#32), nextPc, exc := .Exception }
        else
          some { cpu := { cpu with regs := cpu.regs.write r.rd res.value }, nextPc }

def execItype (cpu : SingleCycleCpu) (d : DecodedInstr) (pc4 nextPc : Word) : Option ExecOut :=
  let i := d.i
  let op := d.opcode
  let rsVal := cpu.regs.read i.rs
  let rtVal := cpu.regs.read i.rt
  if op = .BEQ ∨ op = .BNE then
    match Alu.control d with
    | none => none
    | some aluop =>
        let res := Alu.execute aluop rsVal rtVal 0#5
        let taken := if op = .BEQ then res.zero else !res.zero
        if taken then
          some { cpu, nextPc := pc4 + (Decoder.signExtend i.imm <<< 2) }
        else
          some { cpu, nextPc }
  else
    let imm :=
      if cpu.ctrl.ext = .Sign then Decoder.signExtend i.imm else i.imm.setWidth 32
    match Alu.control d with
    | none => none
    | some aluop =>
        let res := Alu.execute aluop rsVal imm 0#5
        if res.overflow ∧ op = .ADDI then
          some { cpu := cpu.raise .Ov (pc4 - 4#32), nextPc, exc := .Exception }
        else if cpu.ctrl.memRead then
          match loadData cpu.mem op res.value with
          | none => some { cpu := cpu.raise .AdEL (pc4 - 4#32) res.value, nextPc,
                           exc := .Exception }
          | some loaded =>
              some { cpu := { cpu with regs := cpu.regs.write i.rt loaded }, nextPc }
        else if cpu.ctrl.memWrite then
          match storeData cpu.mem op res.value rtVal with
          | none => some { cpu := cpu.raise .AdES (pc4 - 4#32) res.value, nextPc,
                           exc := .Exception }
          | some mem => some { cpu := { cpu with mem }, nextPc }
        else
          some { cpu := { cpu with regs := cpu.regs.write i.rt res.value }, nextPc }

-- The J/JAL case of the switch in step().
def execJtype (cpu : SingleCycleCpu) (d : DecodedInstr) (pc4 : Word) : ExecOut where
  cpu := if d.opcode = .JAL then { cpu with regs := cpu.regs.write kRa pc4 } else cpu
  nextPc := (pc4 &&& 0xF0000000#32) ||| (d.j.target <<< 2)

-- The end of step(), after the switch.
def finish (curPc : Word) (out : ExecOut) : StepResult × SingleCycleCpu :=
  if out.exc = .Exception then (.Exception, out.cpu)
  else
    (if out.nextPc = curPc then .Halt else .Ok,
      { out.cpu with ps := { out.cpu.ps with retired := true }, pc := out.nextPc })

-- The snapshot step() fills once the word at PC has decoded.
def snapshot (cycle : Nat) (curPc raw : Word) : PipelineState :=
  { stages := { ex := { name := "EX", valid := true, pc := curPc, raw } }, cycle }

-- The part of step() that runs on a decoded instruction.
def stepDecoded (cpu : SingleCycleCpu) (raw : Word) (d : DecodedInstr) :
    StepResult × SingleCycleCpu :=
  let curPc := cpu.pc
  let pc4 := curPc + 4#32
  let cpu := { cpu with ctrl := deriveControl d, ps := snapshot cpu.cycle curPc raw }
  match d.format with
  | .J => finish curPc (cpu.execJtype d pc4)
  | .R =>
      match cpu.execRtype d pc4 pc4 with
      | none => (.Fault, cpu)
      | some out => finish curPc out
  | .I =>
      match cpu.execItype d pc4 pc4 with
      | none => (.Fault, cpu)
      | some out => finish curPc out
  | .Unknown => (.Exception, cpu.raise .RI curPc)

def step (cpu : SingleCycleCpu) : StepResult × SingleCycleCpu :=
  let cpu := { cpu with cycle := cpu.cycle + 1 }
  match cpu.mem.readWord cpu.pc with
  | none => (.Exception, cpu.raise .AdEL cpu.pc cpu.pc)
  | some fetched =>
      match Decoder.decode fetched with
      | none => (.Exception, cpu.raise .RI cpu.pc)
      | some d => cpu.stepDecoded fetched d

-- `none` is a failed Expects, which ends the program.
def loadProgram (cpu : SingleCycleCpu) (words : List Word) (addr : Word) :
    Option (Bool × SingleCycleCpu) :=
  (cpu.mem.loadWords addr words).map fun (fits, mem) =>
    if fits then (true, { cpu with mem, pc := addr }) else (false, { cpu with mem })

def reset (cpu : SingleCycleCpu) (clearMemory : Bool) : SingleCycleCpu where
  regs := cpu.regs.reset
  cp0 := cpu.cp0.reset
  mem := if clearMemory then cpu.mem.reset else cpu.mem

end SingleCycleCpu

end ClearCore.Mips
