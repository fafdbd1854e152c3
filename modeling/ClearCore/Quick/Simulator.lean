import ClearCore.Quick.QuickSimulator

-- The bridge between the controller and QML: what it keeps, when it notifies, and what the
-- QML side has read. `QuickSimulator` is the part of it that draws the trace grid.

namespace ClearCore.Quick

open Isa Mips Qt Numeral

abbrev Text := List Char

inductive CpuModel
  | pipelined
  | single
deriving DecidableEq, Repr

-- The std::unique_ptr<IProcessor> of the controller.
inductive Processor
  | single (cpu : SingleCycleCpu)
  | pipelined (cpu : PipelinedCpu)

def makeProcessor (memBytes : ℕ) : CpuModel → Processor
  | .single => .single (.create memBytes)
  | .pipelined => .pipelined (.create memBytes)

namespace Processor

def read {α : Type} (f : SingleCycleCpu → α) (g : PipelinedCpu → α) : Processor → α
  | .single cpu => f cpu
  | .pipelined cpu => g cpu

def update (f : SingleCycleCpu → SingleCycleCpu) (g : PipelinedCpu → PipelinedCpu) :
    Processor → Processor
  | .single cpu => .single (f cpu)
  | .pipelined cpu => .pipelined (g cpu)

def loadProgram (processor : Processor) (words : List Word) (addr : Word) :
    Option (Bool × Processor) :=
  processor.read
    (fun cpu => (cpu.loadProgram words addr).map fun loaded => (loaded.1, .single loaded.2))
    (fun cpu => (cpu.loadProgram words addr).map fun loaded => (loaded.1, .pipelined loaded.2))

def step (processor : Processor) : StepResult × Processor :=
  (processor.read (fun cpu => cpu.step.1) (fun cpu => cpu.step.1),
    processor.update (fun cpu => cpu.step.2) (fun cpu => cpu.step.2))

end Processor

instance : IMipsProcessor Processor where
  create memBytes := makeProcessor memBytes .pipelined
  loadProgram := Processor.loadProgram
  step := Processor.step
  reset processor clearMemory :=
    processor.update (·.reset clearMemory) (·.reset clearMemory)
  pc := Processor.read (·.pc) (·.pc)
  setPc processor pc := processor.update ({ · with pc }) ({ · with pc })
  regs := Processor.read (·.regs) (·.regs)
  setRegs processor regs := processor.update ({ · with regs }) ({ · with regs })
  mem := Processor.read (·.mem) (·.mem)
  setMem processor mem := processor.update ({ · with mem }) ({ · with mem })
  cp0 := Processor.read (·.cp0) (·.cp0)
  setCp0 processor cp0 := processor.update ({ · with cp0 }) ({ · with cp0 })
  hi := Processor.read (·.hi) (·.hi)
  setHi processor hi := processor.update ({ · with hi }) ({ · with hi })
  lo := Processor.read (·.lo) (·.lo)
  setLo processor lo := processor.update ({ · with lo }) ({ · with lo })
  cycleCount := Processor.read (·.cycle) (·.cycle)
  pipelineState := Processor.read (·.ps) (·.ps)

-- `lastWritten` is -1 for none.
structure RegisterModel where
  values : RegIdx → Word := fun _ => 0#32
  lastWritten : Option RegIdx := none

-- The roles of one row of the model.
structure RegisterRow where
  number : ℕ
  name : Text
  hex : Text
  dec : Text
  changed : Bool
deriving DecidableEq

def RegisterModel.data (model : RegisterModel) (i : RegIdx) : RegisterRow where
  number := i.toNat
  name := '$' :: registerAbiName i
  hex := hex32 (model.values i)
  dec := signed (model.values i).toInt
  changed := decide (model.lastWritten = some i)

-- One element of the list of stages.
structure StageMap where
  name : String
  valid : Bool
  stalled : Bool
  flushed : Bool
  pc : Text
  text : Text
deriving DecidableEq, Repr

def stageMap (st : StageSnapshot) : StageMap where
  name := st.name
  valid := st.valid
  stalled := st.stalled
  flushed := st.flushed
  pc := if st.valid then hex32 st.pc else []
  text :=
    if st.valid then disasm st.raw st.pc
    else if st.stalled then "bubble (stall)".toList
    else if st.flushed then "bubble (flush)".toList
    else "—".toList

def stageMaps (ps : PipelineState) : List StageMap :=
  (List.finRange 5).map fun s => stageMap (ps.stages.get s)

structure HazardMap where
  fwdExA : Bool
  fwdExB : Bool
  fwdMemA : Bool
  fwdMemB : Bool
  loadStall : Bool
  branchFlush : Bool
deriving DecidableEq, Repr

def hazardMap (ps : PipelineState) : HazardMap where
  fwdExA := ps.fwdExToExA
  fwdExB := ps.fwdExToExB
  fwdMemA := ps.fwdMemToExA
  fwdMemB := ps.fwdMemToExB
  loadStall := ps.loadStall
  branchFlush := ps.branchFlush

-- The hex columns of byte `b` of a dump line.
def hexCell (byte : Option Byte) (b : ℕ) : Text :=
  (match byte with
    | some byte => zeroPadded 2 (Nat.toDigits 16 byte.toNat) ++ [' ']
    | none => "-- ".toList) ++
    if b = 7 then [' '] else []

-- Printable ASCII only; anything else shows as '.'.
def asciiCell : Option Byte → Char
  | some byte => if 0x20 ≤ byte.toNat ∧ byte.toNat < 0x7F then Char.ofNat byte.toNat else '.'
  | none => ' '

def memoryRow (mem : Memory) (addr : Word) : Text :=
  let byte (b : ℕ) := mem.readByte (addr + BitVec.ofNat 32 b)
  zeroPadded 8 (Nat.toDigits 16 addr.toNat) ++ "  ".toList ++
    ((List.range 16).flatMap fun b => hexCell (byte b) b) ++ " |".toList ++
    ((List.range 16).map fun b => asciiCell (byte b)) ++ "|".toList

def memoryRows (mem : Memory) (base : Word) (rows : ℕ) : List Text :=
  (List.range rows).map fun r =>
    memoryRow mem ((base &&& ~~~0xF#32) + BitVec.ofNat 32 (16 * r))

-- `hazards` is `none` for the empty map, and `memBytes` kMemorySize.
structure Simulator where
  ctl : SimulatorController Processor
  regModel : RegisterModel := {}
  stages : List StageMap := []
  hazards : Option HazardMap := none
  stats : SimulatorStatistics := {}
  trace : List TraceRow := []
  traceRowsCache : List TraceRow := []
  lastProgram : List Word := []
  status : Text := "Idle".toList
  model : CpuModel := .pipelined
  speed : ℤ := 60
  programLoaded : Bool := false
  memBytes : ℕ

-- What QML keeps of the properties; `rows` are the delegates of the registers, and
-- `baseAddress` and `dump` belong to the memory pane.
structure Qml where
  running : Bool
  status : Text
  speed : ℤ
  model : CpuModel
  programLoaded : Bool
  stages : List StageMap
  hazards : Option HazardMap
  stats : SimulatorStatistics
  traceRows : List TraceRow
  rows : RegIdx → RegisterRow
  baseAddress : Word
  dump : List Text

-- The notifications that QML reads properties on.
inductive Notify
  | runningChanged
  | statusChanged
  | speedChanged
  | modelChanged
  | programLoadedChanged
  | pipelineChanged
  | statsChanged
  | traceChanged
  | dataChanged (i : RegIdx)
  | modelReset
deriving DecidableEq

namespace Simulator

def running (sim : Simulator) : Bool := sim.ctl.timerActive

def memory (sim : Simulator) : Memory := IMipsProcessor.mem sim.ctl.processor

-- What a QML side reads when it is built.
def readAll (sim : Simulator) (baseAddress : Word) : Qml where
  running := sim.running
  status := sim.status
  speed := sim.speed
  model := sim.model
  programLoaded := sim.programLoaded
  stages := sim.stages
  hazards := sim.hazards
  stats := sim.stats
  traceRows := sim.traceRowsCache
  rows := sim.regModel.data
  baseAddress := baseAddress
  dump := memoryRows sim.memory baseAddress 64

end Simulator

namespace Qml

def refresh (qml : Qml) (sim : Simulator) : Qml :=
  { qml with dump := memoryRows sim.memory qml.baseAddress 64 }

def hear (qml : Qml) (sim : Simulator) : Notify → Qml
  | .runningChanged => { qml with running := sim.running }
  | .statusChanged => { qml with status := sim.status }
  | .speedChanged => { qml with speed := sim.speed }
  | .modelChanged => { qml with model := sim.model }
  | .programLoadedChanged => ({ qml with programLoaded := sim.programLoaded }).refresh sim
  | .pipelineChanged => ({ qml with stages := sim.stages, hazards := sim.hazards }).refresh sim
  | .statsChanged => { qml with stats := sim.stats }
  | .traceChanged => { qml with traceRows := sim.traceRowsCache }
  | .dataChanged i => { qml with rows := Function.update qml.rows i (sim.regModel.data i) }
  | .modelReset => { qml with rows := sim.regModel.data }

end Qml

structure Ui where
  sim : Simulator
  qml : Qml

namespace Ui

def emit (ui : Ui) (signal : Notify) : Ui := { ui with qml := ui.qml.hear ui.sim signal }

def setStatus (ui : Ui) (s : Text) : Ui :=
  if s = ui.sim.status then ui
  else emit { ui with sim := { ui.sim with status := s } } .statusChanged

def withRegModel (ui : Ui) (regModel : RegisterModel) : Ui :=
  { ui with sim := { ui.sim with regModel } }

-- The body of the loop of RegisterModel::refresh.
def refreshRow (regs : RegisterFile) (prevWritten : Option RegIdx) (ui : Ui) (i : RegIdx) : Ui :=
  let model := ui.sim.regModel
  let valueChanged := decide (model.values i ≠ regs.regs i)
  let markChanged := decide (regs.lastWritten = some i) != decide (prevWritten = some i)
  let ui := ui.withRegModel
    { model with values := Function.update model.values i (regs.regs i) }
  if valueChanged || markChanged then ui.emit (.dataChanged i) else ui

def allRows : List RegIdx := (List.range 32).map (BitVec.ofNat 5)

def refreshRegisters (ui : Ui) (regs : RegisterFile) : Ui :=
  let model := ui.sim.regModel
  allRows.foldl (refreshRow regs model.lastWritten)
    (ui.withRegModel { model with lastWritten := regs.lastWritten })

def resetRegisters (ui : Ui) : Ui := (ui.withRegModel {}).emit .modelReset

def appendTrace (ui : Ui) (ps : PipelineState) : Ui :=
  if TraceRow.kTraceMaxCycles < ps.cycle then ui
  else
    let trace := Quick.appendTrace ui.sim.trace ps
    emit { ui with sim := { ui.sim with trace, traceRowsCache := trace } } .traceChanged

def onPipeline (ui : Ui) (ps : PipelineState) : Ui :=
  let ui : Ui :=
    { ui with sim := { ui.sim with stages := stageMaps ps, hazards := some (hazardMap ps) } }
  let ui := ui.refreshRegisters (IMipsProcessor.regs ui.sim.ctl.processor)
  (ui.appendTrace ps).emit .pipelineChanged

def statusException (epc : Word) (name : String) : Text :=
  "Exception ".toList ++ name.toList ++ " @ ".toList ++ hex32 epc

def statusBreakpoint (pc : Word) : Text := "Breakpoint @ ".toList ++ hex32 pc

-- The slots of connectController.
def onSignal (ui : Ui) : Signal → Ui
  | .pipelineStateChanged ps => ui.onPipeline ps
  | .statisticsUpdated stats => emit { ui with sim := { ui.sim with stats } } .statsChanged
  | .halted => (ui.setStatus "Halted".toList).emit .runningChanged
  | .faulted => (ui.setStatus "Faulted".toList).emit .runningChanged
  | .exceptionRaised epc name => (ui.setStatus (statusException epc name)).emit .runningChanged
  | .breakpointHit pc => (ui.setStatus (statusBreakpoint pc)).emit .runningChanged
  | .cycleExecuted _ | .programLoaded _ => ui

def withCtl (ui : Ui) (ctl : SimulatorController Processor) : Ui :=
  { ui with sim := { ui.sim with ctl } }

-- The controller emits once its own state is up to date.
def receive (ui : Ui) (emitted : List Signal × SimulatorController Processor) : Ui :=
  emitted.1.foldl onSignal (ui.withCtl emitted.2)

def step (ui : Ui) : Ui :=
  if !ui.sim.programLoaded then ui
  else
    let ui := ui.receive ui.sim.ctl.stepCycle
    if ui.sim.status = "Idle".toList ∨ "Breakpoint".toList <+: ui.sim.status then
      ui.setStatus "Paused".toList
    else ui

-- A timeout of the run timer.
def timeout (ui : Ui) : Ui := if ui.sim.ctl.timerActive then ui.receive ui.sim.ctl.doStep else ui

def runPause (ui : Ui) : Ui :=
  if !ui.sim.programLoaded then ui
  else if ui.sim.running then
    ((ui.withCtl ui.sim.ctl.stop).setStatus "Paused".toList).emit .runningChanged
  else ((ui.withCtl ui.sim.ctl.run).setStatus "Running".toList).emit .runningChanged

def emitAll (ui : Ui) (signals : List Notify) : Ui := signals.foldl emit ui

-- What a reset and a new controller empty.
def clear (ui : Ui) : Ui :=
  resetRegisters
    { ui with
      sim := { ui.sim with
        stats := {}, trace := [], traceRowsCache := [], stages := [], hazards := none } }

-- `none`, here and below, is a failed Expects of the processor, which ends the program.
def reset (ui : Ui) : Option Ui := do
  let ui := (ui.withCtl ui.sim.ctl.stop).clear
  let ui := ui.receive (← ui.sim.ctl.reset)
  let ui := ui.emitAll [.statsChanged, .traceChanged, .pipelineChanged, .runningChanged]
  return ui.setStatus "Idle".toList

def tooLarge : Text := "Program too large for memory.".toList

def statusLoaded (count : ℕ) : Text :=
  "Loaded ".toList ++ decimal count ++ " instructions".toList

def withProgram (ui : Ui) (words : List Word) : Ui :=
  { ui with sim := { ui.sim with lastProgram := words } }

def withLoaded (ui : Ui) (ok : Bool) : Ui := { ui with sim := { ui.sim with programLoaded := ok } }

-- What assembleAndLoad does once the program is in memory, or is not, and its return value.
def finishLoad (ui : Ui) (ok : Bool) : Text × Ui :=
  let ui := ui.withLoaded ok
  let ui := resetRegisters
    { ui with sim := { ui.sim with stats := {}, trace := [], traceRowsCache := [] } }
  let ui := ui.emitAll [.programLoadedChanged, .statsChanged, .traceChanged, .runningChanged]
  if !ok then (tooLarge, ui.setStatus tooLarge)
  else ([], ui.setStatus (statusLoaded ui.sim.lastProgram.length))

-- The part of assembleAndLoad after the assembler.
def load (ui : Ui) (words : List Word) : Option (Text × Ui) := do
  let ui := ui.withCtl ui.sim.ctl.stop
  let ui := ui.receive (← ui.sim.ctl.reset)
  let ui := ui.withProgram words
  let (ok, emitted) ← ui.sim.ctl.loadProgram words 0
  return (ui.receive emitted).finishLoad ok

def assembleAndLoad (ui : Ui) (source : Text) : Option (Text × Ui) :=
  let result := Assembler.assemble source
  match result.error with
  | some error => some (error, ui)
  | none => ui.load result.words

-- The program of the controller before goes into the new one.
def reload (ui : Ui) : Option Ui :=
  if ui.sim.lastProgram = [] then some ui
  else do
    let (ok, emitted) ← ui.sim.ctl.loadProgram ui.sim.lastProgram 0
    return ((ui.receive emitted).withLoaded ok).emit .programLoadedChanged

def rebuildController (ui : Ui) : Option Ui := do
  let ctl : SimulatorController Processor :=
    { processor := makeProcessor ui.sim.memBytes ui.sim.model }
  let ui ← (ui.withCtl (ctl.setExecutionSpeed ui.sim.speed)).clear.reload
  let ui := ui.emitAll [.statsChanged, .traceChanged, .pipelineChanged]
  return ui.setStatus "Idle".toList

def setModel (ui : Ui) (m : CpuModel) : Option Ui :=
  if m = ui.sim.model then some ui
  else (rebuildController { ui with sim := { ui.sim with model := m } }).map (·.emit .modelChanged)

def setSpeed (ui : Ui) (s : ℤ) : Ui :=
  let s := max 0 (min s 100)
  if s = ui.sim.speed then ui
  else
    emit { ui with sim := { ui.sim with speed := s, ctl := ui.sim.ctl.setExecutionSpeed s } }
      .speedChanged

def toggleBreakpoint (ui : Ui) (pc : Word) : Ui :=
  if pc ∈ ui.sim.ctl.breakpoints then ui.withCtl (ui.sim.ctl.clearBreakpoint pc)
  else ui.withCtl (ui.sim.ctl.setBreakpoint pc)

-- A new base address in the memory pane.
def go (ui : Ui) (base : Word) : Ui :=
  { ui with qml := ({ ui.qml with baseAddress := base }).refresh ui.sim }

-- The simulator as it is built, and the QML side built on it.
def create (memBytes : ℕ) : Ui :=
  let ctl : SimulatorController Processor := { processor := makeProcessor memBytes .pipelined }
  let sim : Simulator := { ctl := ctl.setExecutionSpeed 60, memBytes }
  { sim, qml := sim.readAll 0#32 }

-- What the user does, and the timeouts of the run timer.
inductive Input
  | step
  | timeout
  | runPause
  | reset
  | assembleAndLoad (source : Text)
  | setSpeed (s : ℤ)
  | setModel (m : CpuModel)
  | toggleBreakpoint (pc : Word)
  | go (base : Word)
deriving DecidableEq, Repr

def act (ui : Ui) : Input → Option Ui
  | .step => some ui.step
  | .timeout => some ui.timeout
  | .runPause => some ui.runPause
  | .reset => ui.reset
  | .assembleAndLoad source => (ui.assembleAndLoad source).map (·.2)
  | .setSpeed s => some (ui.setSpeed s)
  | .setModel m => ui.setModel m
  | .toggleBreakpoint pc => some (ui.toggleBreakpoint pc)
  | .go base => some (ui.go base)

def run (ui : Ui) : List Input → Option Ui
  | [] => some ui
  | input :: inputs => (ui.act input).bind fun ui => ui.run inputs

end Ui

end ClearCore.Quick
