import ClearCore.Mips.Pipelined.Diagram
import ClearCore.Qt.PipelineEventsWidget
import ClearCore.Qt.RegisterWidget
import Mathlib.Data.Finset.Basic

namespace ClearCore.Qt

open Isa Mips Numeral

-- The colour of a label or of a bar.
inductive Tone
  | plain
  | dim
  | stall
  | flush
deriving DecidableEq, Repr

-- The inputs of a forwarding mux, and the colour of its dot.
inductive MuxInput
  | register
  | exMem
  | memWb
deriving DecidableEq, Repr

-- What stands above a column, and in it.
structure StageColumn where
  text : List Char
  tone : Tone
  pc : List Char
  bright : Bool
  breakpoint : Bool
deriving DecidableEq, Repr

-- What the schematic shows. Geometry and the colours of the theme are left out.
structure Datapath where
  columns : List StageColumn
  cycle : ℕ
  bars : List Tone
  fwdExMemWire : Bool
  fwdExMemStub : Bool
  fwdMemWbWire : Bool
  fwdMemWbStub : Bool
  branchWire : Bool
  memoryLit : Bool
  registersLit : Bool
  writebackWire : Bool
  pcMux : Bool
  muxA : MuxInput
  muxB : MuxInput
  wbMux : Bool
  valuePc : List Char
  valueImm : List Char
  valueWb : List Char
  hazard : Option (Tone × List Char)
  dark : Bool
deriving DecidableEq, Repr

structure DatapathFields where
  state : PipelineState := {}
  regValues : RegIdx → Word := fun _ => 0#32
  breakpoints : Finset Word := ∅
  darkMode : Bool := false

-- The instruction of a stage; a nop is not decoded.
def decodedStage (snap : StageSnapshot) : Option DecodedInstr :=
  if snap.valid && decide (snap.raw ≠ 0#32) then Decoder.decode snap.raw else none

namespace DatapathFields

def stageText (snap : StageSnapshot) : List Char × Tone :=
  if snap.flushed then ("nop (flush)".toList, .flush)
  else if snap.stalled then ("nop (stall)".toList, .stall)
  else if snap.valid then
    (if snap.raw = 0#32 then "nop".toList
      else ((decodedStage snap).map (formatDecoded · snap.pc)).getD "(?/?)".toList, .plain)
  else ("—".toList, .dim)

def column (fields : DatapathFields) (snap : StageSnapshot) : StageColumn where
  text := (stageText snap).1
  tone := (stageText snap).2
  pc := if snap.valid then hexText snap.pc else []
  bright := snap.valid
  breakpoint := snap.valid && decide (snap.pc ∈ fields.breakpoints)

def barTone (snap : StageSnapshot) : Tone :=
  if snap.flushed then .flush else if snap.stalled then .stall else .plain

def controlOf (snap : StageSnapshot) : Control :=
  ((decodedStage snap).map deriveControl).getD {}

-- `none` is the -1 of the source.
def wbDest (state : PipelineState) : Option RegIdx :=
  (decodedStage state.stages.wb).bind destinationRegister

def muxInput (exMem memWb : Bool) : MuxInput :=
  if exMem then .exMem else if memWb then .memWb else .register

-- The immediate as the extender hands it to the ALU.
def immText (snap : StageSnapshot) : List Char :=
  match decodedStage snap with
  | some d =>
      if d.format = .I then
        "imm=".toList ++
          if (deriveControl d).ext = .Zero then decimal d.i.imm.toNat else signed d.i.imm.toInt
      else []
  | none => []

def wbText (fields : DatapathFields) : List Char :=
  match wbDest fields.state with
  | some dest =>
      if dest ≠ 0#5 then
        '$' :: registerAbiName dest ++ " = ".toList ++ hexText (fields.regValues dest)
      else []
  | none => []

def hazardText (state : PipelineState) : Option (Tone × List Char) :=
  if state.branchFlush then
    some (.flush, "Branch taken: ".toList ++
      ((decodedStage state.stages.mem).map
        (formatDecoded · state.stages.mem.pc)).getD "branch".toList ++
      " — PC redirected, younger instructions flushed".toList)
  else if state.loadStall then
    some (.stall, "Load-use hazard: ".toList ++
      ((decodedStage state.stages.ex).map
        (formatDecoded · state.stages.ex.pc)).getD "lw".toList ++
      " — its data arrives after MEM, so the dependent instruction waits one cycle".toList)
  else none

-- applyState
def picture (fields : DatapathFields) : Datapath :=
  let state := fields.state
  let stages := state.stages
  let wbWrites := (wbDest state).isSome
  { columns := [stages.ifs, stages.id, stages.ex, stages.mem, stages.wb].map fields.column
    cycle := state.cycle
    bars := [stages.id, stages.ex, stages.mem, stages.wb].map barTone
    fwdExMemWire := state.fwdExToExA || state.fwdExToExB
    fwdExMemStub := state.fwdExToExB
    fwdMemWbWire := state.fwdMemToExA || state.fwdMemToExB
    fwdMemWbStub := state.fwdMemToExB
    branchWire := state.branchFlush
    memoryLit := (controlOf stages.mem).memRead || (controlOf stages.mem).memWrite
    registersLit := wbWrites
    writebackWire := wbWrites
    pcMux := state.branchFlush
    muxA := muxInput state.fwdExToExA state.fwdMemToExA
    muxB := muxInput state.fwdExToExB state.fwdMemToExB
    wbMux := (controlOf stages.wb).memToReg
    valuePc := if stages.ifs.valid then hexText stages.ifs.pc else []
    valueImm := immText stages.id
    valueWb := fields.wbText
    hazard := hazardText state
    dark := fields.darkMode }

end DatapathFields

abbrev SchematicDatapathWidget := LazyView DatapathFields Datapath

namespace SchematicDatapathWidget

def create : SchematicDatapathWidget := { model := {}, picture := DatapathFields.picture {} }

-- The tokens that glide from stage to stage are left out.
def setCycleState (w : SchematicDatapathWidget) (state : PipelineState) (regs : RegIdx → Word) :
    SchematicDatapathWidget :=
  w.present DatapathFields.picture { w.model with state, regValues := regs }

def setBreakpoints (w : SchematicDatapathWidget) (bps : Finset Word) : SchematicDatapathWidget :=
  w.draw DatapathFields.picture { w.model with breakpoints := bps }

def setDarkMode (w : SchematicDatapathWidget) (dark : Bool) : SchematicDatapathWidget :=
  w.draw DatapathFields.picture { w.model with darkMode := dark }

def showEvent (w : SchematicDatapathWidget) : SchematicDatapathWidget :=
  w.reveal DatapathFields.picture

-- The breakpoint that the context menu, Space or B asks to toggle on a stage.
def breakpointToggle (w : SchematicDatapathWidget) (stage : Fin 5) : Option Word :=
  let snap := w.model.state.stages.get stage
  if snap.valid then some snap.pc else none

end SchematicDatapathWidget

end ClearCore.Qt
