import ClearCore.Isa.Registers

namespace ClearCore.Mips

open Isa

inductive ExceptionCode
  | Int | AdEL | AdES | Sys | Bp | RI | Ov
deriving DecidableEq, Repr

def ExceptionCode.code : ExceptionCode → Word
  | .Int => 0#32
  | .AdEL => 4#32
  | .AdES => 5#32
  | .Sys => 8#32
  | .Bp => 9#32
  | .RI => 10#32
  | .Ov => 12#32

def exceptionName : ExceptionCode → String
  | .Int => "Int"
  | .AdEL => "AdEL"
  | .AdES => "AdES"
  | .Sys => "Sys"
  | .Bp => "Bp"
  | .RI => "RI"
  | .Ov => "Ov"

def kExceptionVector : Word := 0x80000180#32

structure Cp0 where
  status : Word := 0#32
  cause : Word := 0#32
  epc : Word := 0#32
  badVaddr : Word := 0#32
  lastExc : ExceptionCode := .RI
deriving DecidableEq, Repr

namespace Cp0

-- The source numbers registers in a uint8_t; every caller passes a five-bit field.
def kRegBadVAddr : RegIdx := 8#5
def kRegStatus : RegIdx := 12#5
def kRegCause : RegIdx := 13#5
def kRegEpc : RegIdx := 14#5
def kStatusEXL : Word := 1#32 <<< 1

def inException (cp0 : Cp0) : Bool := decide (cp0.status &&& kStatusEXL ≠ 0#32)

-- The source also returns kExceptionVector, the next PC.
def raise (cp0 : Cp0) (code : ExceptionCode) (faultingPc badAddr : Word) : Cp0 where
  lastExc := code
  epc := if cp0.inException then cp0.epc else faultingPc
  cause := (cp0.cause &&& ~~~0x7C#32) ||| (code.code <<< 2)
  status := cp0.status ||| kStatusEXL
  badVaddr := badAddr

-- The source also returns EPC, the next PC, which ERET leaves unchanged.
def eret (cp0 : Cp0) : Cp0 := { cp0 with status := cp0.status &&& ~~~kStatusEXL }

def read (cp0 : Cp0) (reg : RegIdx) : Word :=
  if reg = kRegBadVAddr then cp0.badVaddr
  else if reg = kRegStatus then cp0.status
  else if reg = kRegCause then cp0.cause
  else if reg = kRegEpc then cp0.epc
  else 0#32

def write (cp0 : Cp0) (reg : RegIdx) (value : Word) : Cp0 :=
  if reg = kRegStatus then { cp0 with status := value }
  else if reg = kRegCause then { cp0 with cause := value }
  else if reg = kRegEpc then { cp0 with epc := value }
  else cp0

-- `last_exc_` keeps its value.
def reset (cp0 : Cp0) : Cp0 :=
  { cp0 with status := 0#32, cause := 0#32, epc := 0#32, badVaddr := 0#32 }

end Cp0

end ClearCore.Mips
