import ClearCore.Isa.Processor
import ClearCore.Mips.Alu
import ClearCore.Mips.Control
import ClearCore.Mips.Cp0

namespace ClearCore.Mips

open Isa

-- The four inter-stage registers. The default value of each is the bubble.
structure IfId where
  pc : Word := 0#32
  pc4 : Word := 0#32
  instr : Word := 0#32
  valid : Bool := false
  isHalt : Bool := false
  fetchFault : Bool := false
deriving DecidableEq, Repr

structure IdEx where
  pc : Word := 0#32
  pc4 : Word := 0#32
  ctrl : Control := {}
  decoded : DecodedInstr := {}
  rsVal : Word := 0#32
  rtVal : Word := 0#32
  rs : RegIdx := 0#5
  rt : RegIdx := 0#5
  valid : Bool := false
  isHalt : Bool := false
  earlyTrap : Option ExceptionCode := none
deriving DecidableEq, Repr

structure ExMem where
  pc : Word := 0#32
  raw : Word := 0#32
  ctrl : Control := {}
  alu : AluResult := {}
  rtVal : Word := 0#32
  writeReg : RegIdx := 0#5
  opcode : Opcode := .SPECIAL
  valid : Bool := false
  isHalt : Bool := false
deriving DecidableEq, Repr

structure MemWb where
  pc : Word := 0#32
  raw : Word := 0#32
  ctrl : Control := {}
  aluVal : Word := 0#32
  memVal : Word := 0#32
  writeReg : RegIdx := 0#5
  valid : Bool := false
  isHalt : Bool := false
deriving DecidableEq, Repr

-- The registers an instruction reads; `none` is the -1 of the source.
structure SourceRegisters where
  a : Option RegIdx := none
  b : Option RegIdx := none
deriving DecidableEq, Repr

def sourceRegisters (d : DecodedInstr) : SourceRegisters :=
  if d.opcode = .COP0 then
    { a := none, b := if d.r.rs = 0x04#5 then some d.r.rt else none }
  else
    match d.format with
    | .R =>
        match d.r.funct with
        | .SLL | .SRL | .SRA => { b := some d.r.rt }
        | .JR | .JALR => { a := some d.r.rs }
        | _ => { a := some d.r.rs, b := some d.r.rt }
    | .I =>
        match d.opcode with
        | .LUI => {}
        | .SW | .BEQ | .BNE => { a := some d.i.rs, b := some d.i.rt }
        | _ => { a := some d.i.rs }
    | _ => {}

def destinationRegister (d : DecodedInstr) : Option RegIdx :=
  if d.opcode = .COP0 then (if d.r.rs = 0x00#5 then some d.r.rt else none)
  else if d.opcode = .JAL then some 31#5
  else if !(deriveControl d).regWrite then none
  else some (if d.format = .R then d.r.rd else d.i.rt)

def loadUseHazard (inEx : IdEx) (inId : IfId) : Bool :=
  if !inEx.valid || !inEx.ctrl.memRead || !inId.valid || inId.fetchFault then false
  else
    match Decoder.decode inId.instr with
    | none => false
    | some decoded =>
        let src := sourceRegisters decoded
        let loadDst := inEx.rt
        decide (loadDst ≠ 0#5) && (decide (src.a = some loadDst) || decide (src.b = some loadDst))

structure ForwardingPaths where
  exMemA : Bool := false
  exMemB : Bool := false
  memWbA : Bool := false
  memWbB : Bool := false
deriving DecidableEq, Repr

structure ExOperands where
  a : Word := 0#32
  b : Word := 0#32
  paths : ForwardingPaths := {}
deriving DecidableEq, Repr

-- The value WB writes for this MEM/WB register.
def MemWb.value (memWb : MemWb) : Word :=
  if memWb.ctrl.memToReg then memWb.memVal else memWb.aluVal

def forwardOperands (inEx : IdEx) (exMem : ExMem) (memWb : MemWb) : ExOperands :=
  let fromEx := exMem.valid && exMem.ctrl.regWrite && !exMem.ctrl.memRead &&
    decide (exMem.writeReg ≠ 0#5)
  let exMemA := fromEx && decide (exMem.writeReg = inEx.rs)
  let exMemB := fromEx && decide (exMem.writeReg = inEx.rt)
  let fromWb := memWb.valid && memWb.ctrl.regWrite && decide (memWb.writeReg ≠ 0#5)
  let memWbA := fromWb && decide (memWb.writeReg = inEx.rs) && !exMemA
  let memWbB := fromWb && decide (memWb.writeReg = inEx.rt) && !exMemB
  { a := if memWbA then memWb.value else if exMemA then exMem.alu.value else inEx.rsVal
    b := if memWbB then memWb.value else if exMemB then exMem.alu.value else inEx.rtVal
    paths := { exMemA, exMemB, memWbA, memWbB } }

end ClearCore.Mips
