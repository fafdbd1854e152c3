import ClearCore.Isa.Registers

namespace ClearCore.Isa

inductive StepResult
  | Ok
  | Exception
  | Fault
  | Halt
deriving DecidableEq, Repr

structure StageSnapshot where
  name : String := ""
  valid : Bool := false
  stalled : Bool := false
  flushed : Bool := false
  pc : Word := 0
  raw : Word := 0
deriving DecidableEq, Repr

-- The five stage slots (`std::array<StageSnapshot, 5>`), named by stage.
structure Stages where
  ifs : StageSnapshot := {}
  id : StageSnapshot := {}
  ex : StageSnapshot := {}
  mem : StageSnapshot := {}
  wb : StageSnapshot := {}
deriving DecidableEq, Repr

structure PipelineState where
  stages : Stages := {}
  fwdExToExA : Bool := false
  fwdExToExB : Bool := false
  fwdMemToExA : Bool := false
  fwdMemToExB : Bool := false
  loadStall : Bool := false
  branchFlush : Bool := false
  retired : Bool := false
  cycle : Nat := 0
deriving DecidableEq, Repr

end ClearCore.Isa
