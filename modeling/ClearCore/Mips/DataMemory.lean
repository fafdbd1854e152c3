import ClearCore.Mips.Decoder

namespace ClearCore.Mips

open Isa

def loadData (mem : Memory) (op : Opcode) (addr : Word) : Option Word :=
  match op with
  | .LW => mem.readWord addr
  | .LBU => (mem.readByte addr).map (·.setWidth 32)
  | .LHU => (mem.readHalf addr).map (·.setWidth 32)
  | _ => none

-- `none` where the source returns false.
def storeData (mem : Memory) (op : Opcode) (addr value : Word) : Option Memory :=
  match op with
  | .SW => mem.writeWord addr value
  | _ => none

end ClearCore.Mips
