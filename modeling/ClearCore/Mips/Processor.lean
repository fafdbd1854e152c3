import ClearCore.Mips.Pipelined
import ClearCore.Mips.SingleCycle

namespace ClearCore.Mips

open Isa

-- isa::IProcessor with its MIPS extension. An accessor that returns a mutable
-- reference is a getter and a setter here; `create` is the constructor.
class IMipsProcessor (P : Type) where
  create : Nat → P
  loadProgram : P → List Word → Word → Option (Bool × P)
  step : P → StepResult × P
  reset : P → Bool → P
  pc : P → Word
  setPc : P → Word → P
  regs : P → RegisterFile
  setRegs : P → RegisterFile → P
  mem : P → Memory
  setMem : P → Memory → P
  cp0 : P → Cp0
  setCp0 : P → Cp0 → P
  hi : P → Word
  setHi : P → Word → P
  lo : P → Word
  setLo : P → Word → P
  cycleCount : P → Nat
  pipelineState : P → PipelineState

instance : IMipsProcessor SingleCycleCpu where
  create := SingleCycleCpu.create
  loadProgram := SingleCycleCpu.loadProgram
  step := SingleCycleCpu.step
  reset := SingleCycleCpu.reset
  pc := SingleCycleCpu.pc
  setPc cpu pc := { cpu with pc }
  regs := SingleCycleCpu.regs
  setRegs cpu regs := { cpu with regs }
  mem := SingleCycleCpu.mem
  setMem cpu mem := { cpu with mem }
  cp0 := SingleCycleCpu.cp0
  setCp0 cpu cp0 := { cpu with cp0 }
  hi := SingleCycleCpu.hi
  setHi cpu hi := { cpu with hi }
  lo := SingleCycleCpu.lo
  setLo cpu lo := { cpu with lo }
  cycleCount := SingleCycleCpu.cycle
  pipelineState := SingleCycleCpu.ps

instance : IMipsProcessor PipelinedCpu where
  create := PipelinedCpu.create
  loadProgram := PipelinedCpu.loadProgram
  step := PipelinedCpu.step
  reset := PipelinedCpu.reset
  pc := PipelinedCpu.pc
  setPc cpu pc := { cpu with pc }
  regs := PipelinedCpu.regs
  setRegs cpu regs := { cpu with regs }
  mem := PipelinedCpu.mem
  setMem cpu mem := { cpu with mem }
  cp0 := PipelinedCpu.cp0
  setCp0 cpu cp0 := { cpu with cp0 }
  hi := PipelinedCpu.hi
  setHi cpu hi := { cpu with hi }
  lo := PipelinedCpu.lo
  setLo cpu lo := { cpu with lo }
  cycleCount := PipelinedCpu.cycle
  pipelineState := PipelinedCpu.ps

section Reachable

variable {P : Type} [IMipsProcessor P]

-- A change made to the CPU from outside through one of its accessors.
inductive Edited (cpu : P) : P → Prop
  | setPc (pc : Word) : Edited cpu (IMipsProcessor.setPc cpu pc)
  | setRegs (regs : RegisterFile) : Edited cpu (IMipsProcessor.setRegs cpu regs)
  | setMem (mem : Memory) (hsize : mem.size = (IMipsProcessor.mem cpu).size) :
      Edited cpu (IMipsProcessor.setMem cpu mem)
  | setCp0 (cp0 : Cp0) : Edited cpu (IMipsProcessor.setCp0 cpu cp0)
  | setHi (hi : Word) : Edited cpu (IMipsProcessor.setHi cpu hi)
  | setLo (lo : Word) : Edited cpu (IMipsProcessor.setLo cpu lo)

-- The states a CPU of `memBytes` bytes can reach.
inductive Reachable (memBytes : Nat) : P → Prop
  | create : Reachable memBytes (IMipsProcessor.create memBytes)
  | step {cpu : P} (h : Reachable memBytes cpu) : Reachable memBytes (IMipsProcessor.step cpu).2
  | loadProgram {cpu cpu' : P} {words : List Word} {addr : Word} {fits : Bool}
      (h : Reachable memBytes cpu)
      (hload : IMipsProcessor.loadProgram cpu words addr = some (fits, cpu')) :
      Reachable memBytes cpu'
  | reset {cpu : P} (h : Reachable memBytes cpu) (clearMemory : Bool) :
      Reachable memBytes (IMipsProcessor.reset cpu clearMemory)
  | edit {cpu cpu' : P} (h : Reachable memBytes cpu) (hedit : Edited cpu cpu') :
      Reachable memBytes cpu'

end Reachable

end ClearCore.Mips
