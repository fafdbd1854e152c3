import ClearCore.Mips.Pipelined
import ClearCore.Mips.ProgramLoader
import ClearCore.Qt.Assembler
import ClearCore.Qt.MemoryWidget
import ClearCore.Qt.PipelineTraceWidget.Table
import ClearCore.Qt.SchematicDatapathWidget
import ClearCore.Qt.SimulatorController

-- The window over the controller: what it keeps, and what it does with the controller's
-- signals and with the user's input.

namespace ClearCore.Qt

open Isa Mips Numeral

-- The panels that draw only while they are visible.
inductive Panel
  | datapath
  | registers
  | memory
  | trace
deriving DecidableEq, Repr

structure MemoryPanel where
  widget : MemoryWidget := {}
  visible : Bool := false

-- `pauseShown` is the text of the Run/Pause action, `stats` the statistics labels, which show
-- nothing at first, and `now` the clock. The CPI labels, the messages of the status bar and
-- the styles are left out.
structure MainWindow where
  ctl : SimulatorController PipelinedCpu
  datapath : SchematicDatapathWidget := SchematicDatapathWidget.create
  registers : RegisterWidget := RegisterWidget.create
  memory : MemoryPanel := {}
  trace : TraceView := TraceView.create
  events : PipelineEventsWidget := {}
  statusCycles : ℕ := 0
  statusInstrs : ℕ := 0
  stats : Option SimulatorStatistics := none
  pauseShown : Bool := false
  source : List Char := []
  asmStatus : List Char := []
  assembledWords : List Word := []
  now : ℤ := 0

namespace MainWindow

def cpu (w : MainWindow) : PipelinedCpu := w.ctl.processor

def cycleCount (w : MainWindow) : ℕ := w.cpu.cycle

def setRunState (w : MainWindow) (running : Bool) : MainWindow := { w with pauseShown := running }

def logEvent (w : MainWindow) (kind : Kind) (cycle : ℕ) (text : List Char) : MainWindow :=
  { w with events := w.events.logEvent kind cycle text }

-- The controller is stopped, and the action says so.
def stop (w : MainWindow) : MainWindow := setRunState { w with ctl := w.ctl.stop } false

def onPipelineStateChanged (w : MainWindow) (state : PipelineState) : MainWindow :=
  let vals := w.cpu.regs.read
  { w with
    datapath := w.datapath.setCycleState state vals
    registers := w.registers.updateCycle w.now state vals
    trace := w.trace.updateCycle state
    events := w.events.updateCycle state
    memory :=
      if w.memory.visible then { w.memory with widget := w.memory.widget.updateDisplay w.cpu.mem }
      else w.memory }

def onStatisticsUpdated (w : MainWindow) (stats : SimulatorStatistics) : MainWindow :=
  { w with stats := some stats, statusInstrs := stats.instructionsRetired }

def onHalted (w : MainWindow) : MainWindow :=
  w.stop.logEvent .Success w.cycleCount "program halted (spin-loop detected)".toList

def onFaulted (w : MainWindow) : MainWindow :=
  w.stop.logEvent .Error w.cycleCount "processor fault".toList

def onExceptionRaised (w : MainWindow) (epc : Word) (name : String) : MainWindow :=
  w.stop.logEvent .Error w.cycleCount
    ("exception ".toList ++ name.toList ++ " at ".toList ++ hexText epc ++
      " — PC now at the exception vector".toList)

def onBreakpointHit (w : MainWindow) (pc : Word) : MainWindow :=
  setRunState (w.logEvent .Info w.cycleCount ("breakpoint hit at ".toList ++ hexText pc)) false

-- setupConnections
def onSignal (w : MainWindow) : Signal → MainWindow
  | .cycleExecuted count => { w with statusCycles := count }
  | .pipelineStateChanged state => w.onPipelineStateChanged state
  | .statisticsUpdated stats => w.onStatisticsUpdated stats
  | .halted => w.onHalted
  | .faulted => w.onFaulted
  | .exceptionRaised epc name => w.onExceptionRaised epc name
  | .breakpointHit pc => w.onBreakpointHit pc
  | .programLoaded _ => w

-- The controller emits once its own state is up to date.
def receive (w : MainWindow) (emitted : List Signal × SimulatorController PipelinedCpu) :
    MainWindow :=
  emitted.1.foldl onSignal { w with ctl := emitted.2 }

def onStep (w : MainWindow) : MainWindow :=
  let w := w.stop
  w.receive w.ctl.stepCycle

-- A timeout of the run timer.
def onRunTimer (w : MainWindow) : MainWindow :=
  if w.ctl.timerActive then w.receive w.ctl.doStep else w

def onRunPause (w : MainWindow) : MainWindow :=
  if w.ctl.timerActive then w.stop else setRunState { w with ctl := w.ctl.run } true

def clearPanels (w : MainWindow) : MainWindow :=
  { w with registers := w.registers.clear, trace := w.trace.clear, events := w.events.clear }

-- `none`, here and below, is a failed Expects of the processor, which ends the program.
def onReset (w : MainWindow) : Option MainWindow :=
  let w := w.stop
  w.ctl.reset.map fun emitted => (w.receive emitted).clearPanels

def tooLarge : List Char := "Program too large for memory.".toList

-- The program goes in after a reset; the result is whether it fitted.
def loadProgram (w : MainWindow) (words : List Word) : Option (Bool × MainWindow) := do
  let w ← w.onReset
  let (ok, emitted) ← w.ctl.loadProgram words 0#32
  return (ok, w.receive emitted)

-- confirmDiscardCurrentRun, given what the user answers if asked.
def confirmDiscard (w : MainWindow) (answer : Bool) : Bool := decide (w.cycleCount = 0) || answer

def onOpenFile (w : MainWindow) (prog : HexProgram) (answer : Bool) : Option MainWindow :=
  if !prog.ok then some w
  else if !w.confirmDiscard answer then some w
  else (w.loadProgram prog.words).map fun (ok, w) =>
    if !ok then w
    else w.logEvent .Info 0 ("program loaded from file (".toList ++ decimal prog.words.length ++
      " instructions)".toList)

def onAssemble (w : MainWindow) : MainWindow :=
  if w.source = [] then { w with asmStatus := "No source to assemble.".toList }
  else
    let result := Assembler.assemble w.source
    match result.error with
    | some error => { w with asmStatus := error, assembledWords := [] }
    | none =>
        { w with
          assembledWords := result.words
          asmStatus := "✓ ".toList ++ decimal result.words.length ++ " instructions assembled".toList }

def onLoad (w : MainWindow) (answer : Bool) : Option MainWindow :=
  if w.assembledWords = [] then some { w with asmStatus := "Assemble first.".toList }
  else if !w.confirmDiscard answer then some w
  else (w.loadProgram w.assembledWords).map fun (ok, w) =>
    if !ok then { w with asmStatus := tooLarge }
    else
      let count := decimal w.assembledWords.length
      logEvent { w with asmStatus := "✓ ".toList ++ count ++ " instructions loaded".toList } .Info 0
        ("program loaded (".toList ++ count ++ " instructions)".toList)

-- An entry of the catalogue takes the place of the source, if the user agrees; `blank` is what
-- the editor finds when it trims its text.
def onExampleSelected (w : MainWindow) (name source : List Char) (blank answer : Bool) :
    MainWindow :=
  if !blank && !answer then w
  else { w with source, assembledWords := [], asmStatus := "Loaded example: ".toList ++ name }

def onBreakpointToggle (w : MainWindow) (pc : Word) : MainWindow :=
  let ctl := if pc ∈ w.ctl.breakpoints then w.ctl.clearBreakpoint pc else w.ctl.setBreakpoint pc
  { w with ctl, datapath := w.datapath.setBreakpoints ctl.breakpoints }

def setExecutionSpeed (w : MainWindow) (speed : ℤ) : MainWindow :=
  { w with ctl := w.ctl.setExecutionSpeed speed }

def applyColorScheme (w : MainWindow) (dark : Bool) : MainWindow :=
  { w with
    datapath := w.datapath.setDarkMode dark
    registers := w.registers.setDarkMode dark
    trace := w.trace.setDarkMode dark }

def showPanel (w : MainWindow) : Panel → MainWindow
  | .datapath => { w with datapath := w.datapath.showEvent }
  | .registers => { w with registers := w.registers.showEvent }
  | .trace => { w with trace := w.trace.showEvent }
  | .memory => { w with memory :=
      { widget := w.memory.widget.updateDisplay w.cpu.mem, visible := true } }

def hidePanel (w : MainWindow) : Panel → MainWindow
  | .datapath => { w with datapath := w.datapath.conceal }
  | .registers => { w with registers := w.registers.hide }
  | .trace => { w with trace := w.trace.conceal }
  | .memory => { w with memory := { w.memory with visible := false } }

-- The window as it is built, with the preferences it restores.
def create (memBytes : ℕ) (dark : Bool) (speed : ℤ) : MainWindow :=
  let w : MainWindow := { ctl := .create memBytes }
  (w.applyColorScheme dark).setExecutionSpeed speed

-- What the user does, the timeouts of the two timers, and the passing of time. `answer` is what
-- the user says to a question, if it is asked.
inductive Input
  | step
  | runTimer
  | runPause
  | stop
  | reset
  | openFile (prog : HexProgram) (answer : Bool)
  | edit (source : List Char)
  | assemble
  | load (answer : Bool)
  | example (name source : List Char) (blank answer : Bool)
  | toggleBreakpoint (stage : Fin 5)
  | setSpeed (speed : ℤ)
  | setDark (dark : Bool)
  | setAliases (aliases : Bool)
  | clearEvents
  | showPanel (panel : Panel)
  | hidePanel (panel : Panel)
  | fadeTimer
  | clock (now : ℤ)

def act (w : MainWindow) : Input → Option MainWindow
  | .step => some w.onStep
  | .runTimer => some w.onRunTimer
  | .runPause => some w.onRunPause
  | .stop => some w.stop
  | .reset => w.onReset
  | .openFile prog answer => w.onOpenFile prog answer
  | .edit source => some { w with source }
  | .assemble => some w.onAssemble
  | .load answer => w.onLoad answer
  | .example name source blank answer => some (w.onExampleSelected name source blank answer)
  | .toggleBreakpoint stage =>
      some (((w.datapath.breakpointToggle stage).map w.onBreakpointToggle).getD w)
  | .setSpeed speed => some (w.setExecutionSpeed speed)
  | .setDark dark => some (w.applyColorScheme dark)
  | .setAliases aliases => some { w with registers := w.registers.setShowAliases aliases }
  | .clearEvents => some { w with events := w.events.clear }
  | .showPanel panel => some (w.showPanel panel)
  | .hidePanel panel => some (w.hidePanel panel)
  | .fadeTimer => some { w with registers := w.registers.fadeTimeout w.now }
  | .clock now => some { w with now }

def run (w : MainWindow) : List Input → Option MainWindow
  | [] => some w
  | input :: inputs => (w.act input).bind fun w => w.run inputs

end MainWindow

end ClearCore.Qt
