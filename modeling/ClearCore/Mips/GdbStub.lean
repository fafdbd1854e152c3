import ClearCore.Mips.Gdb.Packet
import ClearCore.Mips.Processor

namespace ClearCore.Mips

open Isa Gdb

def kBreakWord : Word := 0x0000000D#32

def kSIGINT : Byte := 2#8
def kSIGTRAP : Byte := 5#8
def kSIGSEGV : Byte := 11#8
def kSIGILL : Byte := 4#8
def kSIGFPE : Byte := 8#8
def kSIGSYS : Byte := 12#8

-- How many instructions 'c' runs between checks for Ctrl-C.
def kInterruptPollSteps : Nat := 1024

def kNumRegs : Nat := 38

structure Breakpoint where
  addr : Word
  savedWord : Word
deriving DecidableEq

structure GdbStub (P : Type) where
  cpu : P
  conn : Conn := {}
  breakpoints : List Breakpoint := []
  running : Bool := false
  detached : Bool := false
  lastResult : StepResult := .Ok

namespace GdbStub

variable {P : Type}

def sendPacket (stub : GdbStub P) (data : List Byte) : GdbStub P :=
  { stub with conn := stub.conn.send (.packet data) }

def sendOk (stub : GdbStub P) : GdbStub P := stub.sendPacket (text "OK")

def sendEmpty (stub : GdbStub P) : GdbStub P := stub.sendPacket []

def sendError (stub : GdbStub P) (code : Byte) : GdbStub P :=
  stub.sendPacket (text "E" ++ hexByte code)

def sendSignal (stub : GdbStub P) (sig : Byte) : GdbStub P :=
  stub.sendPacket (text "S" ++ hexByte sig)

variable [IMipsProcessor P]

def readGdbReg (cpu : P) (n : Nat) : Word :=
  if n < 32 then (IMipsProcessor.regs cpu).read (BitVec.ofNat 5 n)
  else if n = 32 then (IMipsProcessor.cp0 cpu).status
  else if n = 33 then IMipsProcessor.lo cpu
  else if n = 34 then IMipsProcessor.hi cpu
  else if n = 35 then (IMipsProcessor.cp0 cpu).badVaddr
  else if n = 36 then (IMipsProcessor.cp0 cpu).cause
  else if n = 37 then IMipsProcessor.pc cpu
  else 0#32

-- BadVAddr (35) is not written.
def writeGdbReg (cpu : P) (n : Nat) (value : Word) : P :=
  if n < 32 then
    IMipsProcessor.setRegs cpu ((IMipsProcessor.regs cpu).write (BitVec.ofNat 5 n) value)
  else if n = 32 then
    IMipsProcessor.setCp0 cpu ((IMipsProcessor.cp0 cpu).write Cp0.kRegStatus value)
  else if n = 33 then IMipsProcessor.setLo cpu value
  else if n = 34 then IMipsProcessor.setHi cpu value
  else if n = 36 then
    IMipsProcessor.setCp0 cpu ((IMipsProcessor.cp0 cpu).write Cp0.kRegCause value)
  else if n = 37 then IMipsProcessor.setPc cpu value
  else cpu

def stopSignal (stub : GdbStub P) : Byte :=
  match stub.lastResult with
  | .Exception =>
      match (IMipsProcessor.cp0 stub.cpu).lastExc with
      | .Bp => kSIGTRAP
      | .Sys => kSIGSYS
      | .RI => kSIGILL
      | .Ov => kSIGFPE
      | .AdEL | .AdES => kSIGSEGV
      | .Int => kSIGTRAP
  | _ => kSIGTRAP

def handleReadRegs (cpu : P) : List Byte :=
  (List.range kNumRegs).flatMap fun i => toHexLe (readGdbReg cpu i)

-- The value of eight digits at `off`, least significant byte first.
def parseWordLe (hex : List Byte) (off : Nat) : Option Word := do
  let b0 ← parseHexByte hex off
  let b1 ← parseHexByte hex (off + 2)
  let b2 ← parseHexByte hex (off + 4)
  let b3 ← parseHexByte hex (off + 6)
  return b0.setWidth 32 ||| b1.setWidth 32 <<< 8 ||| b2.setWidth 32 <<< 16 |||
    b3.setWidth 32 <<< 24

-- The loop of handle_write_regs: `count` registers from register `i` on.
def writeRegsFrom (hex : List Byte) (cpu : P) (i : Nat) : Nat → Bool × P
  | 0 => (true, cpu)
  | count + 1 =>
      match parseWordLe hex (i * 8) with
      | none => (false, cpu)
      | some v => writeRegsFrom hex (writeGdbReg cpu i v) (i + 1) count

def handleWriteRegs (cpu : P) (hex : List Byte) : Bool × P :=
  if hex.length < kNumRegs * 8 then (false, cpu) else writeRegsFrom hex cpu 0 kNumRegs

def handleReadReg (cpu : P) (args : List Byte) : List Byte :=
  match parseHex args with
  | none => text "E01"
  | some n => if n.toNat ≥ kNumRegs then text "E01" else toHexLe (readGdbReg cpu n.toNat)

-- std::string::find: `none` is npos.
def find (s : List Byte) (c : Byte) : Option Nat := s.findIdx? (· = c)

-- The loop of handle_write_reg: up to `count` bytes from byte `b` on, stopping at the
-- first that is incomplete or invalid.
def parsePrefixLe (vs : List Byte) (b : Nat) (v : Word) : Nat → Word
  | 0 => v
  | count + 1 =>
      match parseHexByte vs (b * 2) with
      | none => v
      | some byte => parsePrefixLe vs (b + 1) (v ||| byte.setWidth 32 <<< (b * 8)) count

def handleWriteReg (cpu : P) (args : List Byte) : Bool × P :=
  match find args (byte '=') with
  | none => (false, cpu)
  | some eq =>
      match parseHex (args.take eq) with
      | none => (false, cpu)
      | some n =>
          if n.toNat ≥ kNumRegs then (false, cpu)
          else (true, writeGdbReg cpu n.toNat (parsePrefixLe (args.drop (eq + 1)) 0 0#32 4))

-- The loop of handle_read_mem: `count` bytes from offset `i` on.
def readMemFrom (mem : Memory) (addr : Word) (i : Nat) : Nat → Option (List Byte)
  | 0 => some []
  | count + 1 =>
      match mem.readByte (addr + BitVec.ofNat 32 i) with
      | none => none
      | some b => (readMemFrom mem addr (i + 1) count).map (hexByte b ++ ·)

-- The address and length of an m packet.
def parseReadMem (args : List Byte) : Option (Word × Word) := do
  let comma ← find args (byte ',')
  let addr ← parseHex (args.take comma)
  let len ← parseHex (args.drop (comma + 1))
  return (addr, len)

def handleReadMem (mem : Memory) (args : List Byte) : List Byte :=
  match parseReadMem args with
  | none => text "E01"
  | some (addr, len) =>
      (readMemFrom mem addr 0 (min len.toNat (mem.size % 2 ^ 32))).getD (text "E02")

-- The address, length and data of an M packet.
def parseWriteMem (args : List Byte) : Option (Word × Word × List Byte) := do
  let colon ← find args (byte ':')
  let comma ← find args (byte ',')
  if comma > colon then none
  let addr ← parseHex (args.take comma)
  let len ← parseHex ((args.drop (comma + 1)).take (colon - comma - 1))
  return (addr, len, args.drop (colon + 1))

-- The loop of handle_write_mem: `count` bytes from offset `i` on. A failure leaves the
-- bytes before it written.
def writeMemFrom (hex : List Byte) (addr : Word) (mem : Memory) (i : Nat) : Nat → Bool × Memory
  | 0 => (true, mem)
  | count + 1 =>
      match parseHexByte hex (i * 2) with
      | none => (false, mem)
      | some byte =>
          match mem.writeByte (addr + BitVec.ofNat 32 i) byte with
          | none => (false, mem)
          | some mem => writeMemFrom hex addr mem (i + 1) count

def handleWriteMem (mem : Memory) (args : List Byte) : Bool × Memory :=
  match parseWriteMem args with
  | none => (false, mem)
  | some (addr, len, hex) => writeMemFrom hex addr mem 0 len.toNat

-- Inserting into, and removing from, a memory and the table of breakpoints.
def insertBreakpoint (mem : Memory) (breakpoints : List Breakpoint) (addr : Word) :
    Bool × Memory × List Breakpoint :=
  if breakpoints.any fun bp => bp.addr = addr then (true, mem, breakpoints)
  else
    match mem.readWord addr with
    | none => (false, mem, breakpoints)
    | some word =>
        match mem.writeWord addr kBreakWord with
        | none => (false, mem, breakpoints)
        | some mem => (true, mem, breakpoints ++ [{ addr, savedWord := word }])

def removeBreakpoint (mem : Memory) (breakpoints : List Breakpoint) (addr : Word) :
    Bool × Memory × List Breakpoint :=
  match breakpoints.find? fun bp => bp.addr = addr with
  | none => (false, mem, breakpoints)
  | some bp =>
      (true, (mem.writeWord addr bp.savedWord).getD mem,
        breakpoints.eraseP fun bp => bp.addr = addr)

-- What a Z or z packet asks for: the address of a software breakpoint, an unsupported
-- type, or nothing that can be read.
inductive BreakpointArgs
  | malformed
  | unsupported
  | software (addr : Word)
deriving DecidableEq

def parseBreakpoint (args : List Byte) : BreakpointArgs :=
  match find args (byte ',') with
  | none => .malformed
  | some c1 =>
      match find (args.drop (c1 + 1)) (byte ',') with
      | none => .malformed
      | some len =>
          match parseHex (args.take c1) with
          | none => .malformed
          | some type =>
              if type ≠ 0#32 then .unsupported
              else
                match parseHex ((args.drop (c1 + 1)).take len) with
                | none => .malformed
                | some addr => .software addr

def okOrError (stub : GdbStub P) (ok : Bool) : GdbStub P :=
  if ok then stub.sendOk else stub.sendError 1

-- Both breakpoint handlers; they differ in what they do with the address.
def handleBreakpoint
    (apply : Memory → List Breakpoint → Word → Bool × Memory × List Breakpoint)
    (stub : GdbStub P) (args : List Byte) : GdbStub P :=
  match parseBreakpoint args with
  | .malformed => stub.sendError 1
  | .unsupported => stub.sendEmpty
  | .software addr =>
      let (ok, mem, breakpoints) := apply (IMipsProcessor.mem stub.cpu) stub.breakpoints addr
      okOrError { stub with cpu := IMipsProcessor.setMem stub.cpu mem, breakpoints } ok

def handleBreakpointSet (stub : GdbStub P) (args : List Byte) : GdbStub P :=
  handleBreakpoint insertBreakpoint stub args

def handleBreakpointClear (stub : GdbStub P) (args : List Byte) : GdbStub P :=
  handleBreakpoint removeBreakpoint stub args

-- The optional address of c and s.
def resumeAt (stub : GdbStub P) (args : List Byte) : GdbStub P :=
  match parseHex args with
  | some pc => { stub with cpu := IMipsProcessor.setPc stub.cpu pc }
  | none => stub

def stepCpu (stub : GdbStub P) : GdbStub P :=
  let (lastResult, cpu) := IMipsProcessor.step stub.cpu
  { stub with lastResult, cpu }

-- The reply to an exception, after which PC goes back to EPC.
def reportException (stub : GdbStub P) : GdbStub P :=
  let stub := stub.sendPacket (text "T" ++ hexByte stub.stopSignal ++ text "thread:01;")
  { stub with
    cpu := IMipsProcessor.setPc stub.cpu (IMipsProcessor.cp0 stub.cpu).epc }

-- The check of the socket that every kInterruptPollSteps-th turn starts with, and
-- whether it ends the command.
def pollTurn (stub : GdbStub P) (steps : Nat) : Bool × GdbStub P :=
  if steps % kInterruptPollSteps = 0 then
    match stub.conn.pollInput with
    | (.Interrupt, conn) => (true, sendSignal { stub with conn, running := false } kSIGINT)
    | (.Closed, conn) => (true, { stub with conn, running := false })
    | (.Idle, conn) => (false, { stub with conn })
  else (false, stub)

-- The loop of handle_continue, for at most `fuel` turns; `none` is still running.
def continueLoop : Nat → Nat → GdbStub P → Option (GdbStub P)
  | 0, _, _ => none
  | fuel + 1, steps, stub =>
      let steps := steps + 1
      let (ended, stub) := stub.pollTurn steps
      if ended then some stub
      else
        let stub := stub.stepCpu
        match stub.lastResult with
        | .Halt => some (sendSignal { stub with running := false } kSIGTRAP)
        | .Exception => some (reportException { stub with running := false })
        | .Fault => some (sendSignal { stub with running := false } kSIGTRAP)
        | .Ok => continueLoop fuel steps stub

def handleContinue (fuel : Nat) (stub : GdbStub P) (args : List Byte) : Option (GdbStub P) :=
  let stub := stub.resumeAt args
  continueLoop fuel 0 { stub with running := true }

def handleStep (stub : GdbStub P) (args : List Byte) : GdbStub P :=
  let stub := (stub.resumeAt args).stepCpu
  if stub.lastResult = .Exception then stub.reportException else stub.sendSignal kSIGTRAP

def handleQuery (stub : GdbStub P) (args : List Byte) : GdbStub P :=
  if (text "Supported").isPrefixOf args then
    stub.sendPacket (text "PacketSize=4000;swbreak+;hwbreak-")
  else if args = text "Attached" then stub.sendPacket (text "1")
  else if args = text "C" then stub.sendPacket (text "QC0")
  else if (text "Symbol").isPrefixOf args then stub.sendOk
  else stub.sendEmpty

-- `none` is a c that is still running after `fuel` turns.
def dispatch (fuel : Nat) (stub : GdbStub P) (pkt : List Byte) : Option (GdbStub P) :=
  match pkt with
  | [] => some stub.sendEmpty
  | cmd :: args =>
      if cmd = byte '?' then some (stub.sendSignal kSIGTRAP)
      else if cmd = byte 'g' then some (stub.sendPacket (handleReadRegs stub.cpu))
      else if cmd = byte 'G' then
        let (ok, cpu) := handleWriteRegs stub.cpu args
        some (okOrError { stub with cpu } ok)
      else if cmd = byte 'p' then some (stub.sendPacket (handleReadReg stub.cpu args))
      else if cmd = byte 'P' then
        let (ok, cpu) := handleWriteReg stub.cpu args
        some (okOrError { stub with cpu } ok)
      else if cmd = byte 'm' then
        some (stub.sendPacket (handleReadMem (IMipsProcessor.mem stub.cpu) args))
      else if cmd = byte 'M' then
        let (ok, mem) := handleWriteMem (IMipsProcessor.mem stub.cpu) args
        some (okOrError { stub with cpu := IMipsProcessor.setMem stub.cpu mem } ok)
      else if cmd = byte 'c' then stub.handleContinue fuel args
      else if cmd = byte 's' then some (stub.handleStep args)
      else if cmd = byte 'Z' then some (stub.handleBreakpointSet args)
      else if cmd = byte 'z' then some (stub.handleBreakpointClear args)
      else if cmd = byte 'k' ∨ cmd = byte 'D' then
        some (sendOk { stub with running := false, detached := true })
      else if cmd = byte 'H' ∨ cmd = byte 'T' then some stub.sendOk
      else if cmd = byte 'q' then some (stub.handleQuery args)
      else some stub.sendEmpty

-- The packets of a session, dispatched one after the other until a k or D.
def session (fuel : Nat) (stub : GdbStub P) : List (List Byte) → Option (GdbStub P)
  | [] => some stub
  | pkt :: pkts =>
      if stub.detached then some stub
      else (stub.dispatch fuel pkt).bind fun stub => session fuel stub pkts

end GdbStub

end ClearCore.Mips
