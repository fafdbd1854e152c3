import ClearCore.Library.Numeral
import ClearCore.Mips.Processor
import Mathlib.Data.Rat.Defs

namespace ClearCore.Nsc

open Isa Mips

inductive CpuMode
  | SingleCycle
  | Pipelined
deriving DecidableEq, Repr

structure TraceEntry where
  pc : Word
  raw : Word
deriving DecidableEq, Repr

-- The default memory of both models.
def kMemBytes : Nat := 1 <<< 16

-- std::unique_ptr<mips::IMipsProcessor>, and the part of the interface the UI uses.
inductive Cpu
  | singleCycle (cpu : SingleCycleCpu)
  | pipelined (cpu : PipelinedCpu)

namespace Cpu

def step : Cpu → StepResult × Cpu
  | .singleCycle cpu => (cpu.step.1, .singleCycle cpu.step.2)
  | .pipelined cpu => (cpu.step.1, .pipelined cpu.step.2)

def reset : Cpu → Bool → Cpu
  | .singleCycle cpu, clearMemory => .singleCycle (cpu.reset clearMemory)
  | .pipelined cpu, clearMemory => .pipelined (cpu.reset clearMemory)

-- `none` is a failed Expects, which ends the program.
def loadProgram : Cpu → List Word → Word → Option (Bool × Cpu)
  | .singleCycle cpu, words, addr => (cpu.loadProgram words addr).map (Prod.map id .singleCycle)
  | .pipelined cpu, words, addr => (cpu.loadProgram words addr).map (Prod.map id .pipelined)

def pc : Cpu → Word
  | .singleCycle cpu => cpu.pc
  | .pipelined cpu => cpu.pc

def cp0 : Cpu → Cp0
  | .singleCycle cpu => cpu.cp0
  | .pipelined cpu => cpu.cp0

def cycleCount : Cpu → Nat
  | .singleCycle cpu => cpu.cycle
  | .pipelined cpu => cpu.cycle

def pipelineState : Cpu → PipelineState
  | .singleCycle cpu => cpu.ps
  | .pipelined cpu => cpu.ps

-- isa::IProcessor::run
def run : Nat → Cpu → StepResult × Cpu
  | 0, cpu => (.Ok, cpu)
  | maxSteps + 1, cpu =>
      let (result, cpu) := cpu.step
      if result = .Ok then run maxSteps cpu else (result, cpu)

end Cpu

-- What mips::load_hex_file returns for a file.
structure HexProgram where
  words : List Word
  error : Option String
deriving DecidableEq, Repr

structure Ui where
  cpuMode : CpuMode := .SingleCycle
  cpu : Cpu := .singleCycle (.create kMemBytes)
  autoRun : Bool := false
  telCycles : Nat := 0
  telStalls : Nat := 0
  telForwards : Nat := 0
  telFlushes : Nat := 0
  telRetired : Nat := 0
  execTrace : List TraceEntry := []
  loaderOk : Bool := false
  loaderStatus : String := "Ready."
  loadedProgram : List Word := []
  cpuModeIdx : Nat := 0

def decimal (n : Nat) : String := String.ofList (Numeral.decimal n)

-- {:08X}
def hex8 (w : Word) : String := String.ofList (Numeral.zeroPadded 8 (Numeral.upperHex w.toNat))

namespace Ui

-- Every load of the UI is at address 0, which is aligned, so it does not end the program
-- (`loadAtZero_eq`).
def loadAtZero (cpu : Cpu) (words : List Word) : Bool × Cpu :=
  (cpu.loadProgram words 0#32).getD (false, cpu)

-- The CPU emptied and loaded with the program again.
def restoreProgram (ui : Ui) : Ui :=
  let cpu := ui.cpu.reset true
  if ui.loadedProgram = [] then { ui with cpu }
  else
    let (ok, cpu) := loadAtZero cpu ui.loadedProgram
    { ui with cpu, loadedProgram := if ok then ui.loadedProgram else [] }

def resetTel (ui : Ui) : Ui :=
  { ui with telCycles := 0, telStalls := 0, telForwards := 0, telFlushes := 0, telRetired := 0
            execTrace := [] }

-- The gauge of cycles per retired instruction, which is a double in the source. It has a value
-- before anything has retired.
def cpi (ui : Ui) : ℚ := if 0 < ui.telRetired then ui.telCycles / ui.telRetired else 1

def exceptionStatus (cpu : Cpu) : String :=
  "Exception " ++ exceptionName cpu.cp0.lastExc ++ " at 0x" ++ hex8 cpu.cp0.epc ++
    " — PC at exception vector."

-- The last eight committed instructions.
def pushTrace (trace : List TraceEntry) (entry : TraceEntry) : List TraceEntry :=
  (trace ++ [entry]).drop ((trace ++ [entry]).length - 8)

def doStep (ui : Ui) : StepResult × Ui :=
  let (result, cpu) := ui.cpu.step
  let ps := cpu.pipelineState
  let ts := if ui.cpuMode = .Pipelined then ps.stages.wb else ps.stages.ex
  (result,
    { ui with
      cpu
      telCycles := ui.telCycles + 1
      telRetired := ui.telRetired + if ps.retired then 1 else 0
      execTrace :=
        if ts.valid && !ts.stalled then pushTrace ui.execTrace { pc := ts.pc, raw := ts.raw }
        else ui.execTrace
      telStalls := ui.telStalls + if ps.loadStall then 1 else 0
      telFlushes := ui.telFlushes + if ps.branchFlush then 1 else 0
      telForwards := ui.telForwards +
        if ps.fwdExToExA || ps.fwdExToExB || ps.fwdMemToExA || ps.fwdMemToExB then 1 else 0
      autoRun := ui.autoRun && decide (result = .Ok)
      loaderStatus := if result = .Exception then exceptionStatus cpu else ui.loaderStatus })

def kRunBudget : Nat := 100000

-- The Run→Halt button.
def runToHalt (ui : Ui) : Ui :=
  let (result, cpu) := ui.cpu.run kRunBudget
  { ui with
    cpu
    autoRun := false
    telCycles := cpu.cycleCount
    execTrace := []
    loaderStatus :=
      match result with
      | .Halt => "Halted after " ++ decimal cpu.cycleCount ++ " cycles."
      | .Exception => exceptionStatus cpu
      | .Fault => "Fault at 0x" ++ hex8 cpu.pc ++ "."
      | .Ok => "Stopped after " ++ decimal kRunBudget ++ " steps without a halt." }

-- The Reset button.
def reset (ui : Ui) : Ui :=
  { resetTel (restoreProgram { ui with autoRun := false }) with loaderStatus := "CPU reset." }

-- The Apply button, which switches to the model chosen.
def apply (ui : Ui) : Ui :=
  let ui := resetTel { ui with autoRun := false, cpu := ui.cpu.reset true }
  restoreProgram
    (if ui.cpuModeIdx = 0 then
      { ui with cpu := .singleCycle (.create kMemBytes), cpuMode := .SingleCycle
                loaderStatus := "Switched to Single-Cycle." }
    else
      { ui with cpu := .pipelined (.create kMemBytes), cpuMode := .Pipelined
                loaderStatus := "Switched to Pipelined (5-stage)." })

-- load_hex_file of the UI, given what the file holds.
def loadHexFile (ui : Ui) (prog : HexProgram) : Ui :=
  match prog.error with
  | some error => { ui with loadedProgram := [], loaderStatus := error, loaderOk := false }
  | none =>
      let (ok, cpu) := loadAtZero ui.cpu prog.words
      if ok then
        { ui with
          cpu
          loadedProgram := prog.words
          loaderStatus := "Loaded " ++ decimal prog.words.length ++ " words."
          loaderOk := true }
      else
        { ui with cpu, loadedProgram := [], loaderStatus := "Program too large for memory."
                  loaderOk := false }

-- The Load button.
def load (ui : Ui) (prog : HexProgram) : Ui :=
  loadHexFile (resetTel { ui with autoRun := false, cpu := ui.cpu.reset true }) prog

end Ui

-- What the user, or the ticker while Auto is on, can do.
inductive Action
  | step
  | auto
  | tick
  | runToHalt
  | reset
  | selectModel (idx : Nat)
  | apply
  | load (prog : HexProgram)

def Ui.act (ui : Ui) : Action → Ui
  | .step => ui.doStep.2
  | .auto => { ui with autoRun := !ui.autoRun }
  | .tick => if ui.autoRun then ui.doStep.2 else ui
  | .runToHalt => ui.runToHalt
  | .reset => ui.reset
  | .selectModel idx => { ui with cpuModeIdx := idx }
  | .apply => ui.apply
  | .load prog => ui.load prog

end ClearCore.Nsc
