import ClearCore.Isa.Processor
import ClearCore.Mips.Disassembler

namespace ClearCore.Qt

open Isa Mips

def formatDecoded (d : DecodedInstr) (pc : Word) : List Char := Disassembler.toString d pc

def formatInstr (raw pc : Word) : List Char :=
  match Decoder.decode raw with
  | some d => formatDecoded d pc
  | none => "(?/?)".toList

inductive Kind
  | FwdExMem
  | FwdMemWb
  | Stall
  | Flush
  | Info
  | Success
  | Error
deriving DecidableEq, Repr

-- An item of the list, with the kind it is coloured by.
structure LogItem where
  kind : Kind
  text : List Char
deriving DecidableEq, Repr

-- The key of `recent`: the number of an event and the word in the stage it names.
abbrev RecentKey := Nat × Word

structure PipelineEventsWidget where
  list : List LogItem := []
  recent : RecentKey → Option Nat := fun _ => none

-- An event that a snapshot may show: the stage whose instruction it names, its text before
-- and after the %1 of the source, and what stands there if the stage holds no instruction.
structure Event where
  fired : Bool
  stage : StageSnapshot
  kind : Kind
  before : List Char
  after : List Char := []
  fallback : List Char
deriving DecidableEq, Repr

def instrOr (s : StageSnapshot) (fallback : List Char) : List Char :=
  if !s.valid || decide (s.raw = 0#32) then fallback else formatInstr s.raw s.pc

def Event.word (e : Event) : Word := if e.stage.valid then e.stage.raw else 0#32

def Event.text (e : Event) : List Char := e.before ++ instrOr e.stage e.fallback ++ e.after

namespace PipelineEventsWidget

def kMaxEntries : Nat := 500

-- "%1  ● %2", with the cycle padded to five columns.
def logItem (kind : Kind) (cycle : Nat) (text : List Char) : LogItem :=
  { kind, text := (Numeral.decimal cycle).leftpad 5 ' ' ++ "  ● ".toList ++ text }

def logEvent (w : PipelineEventsWidget) (kind : Kind) (cycle : Nat) (text : List Char) :
    PipelineEventsWidget :=
  let list := w.list ++ [logItem kind cycle text]
  { w with list := list.drop (list.length - kMaxEntries) }

-- The six events of a snapshot, in the order of the table.
def fwdExToExA (state : PipelineState) : Event :=
  { fired := state.fwdExToExA, stage := state.stages.ex, kind := .FwdExMem
    before := "EX/MEM→EX forward, ALU input A: ".toList, fallback := "?".toList }

def fwdExToExB (state : PipelineState) : Event :=
  { fired := state.fwdExToExB, stage := state.stages.ex, kind := .FwdExMem
    before := "EX/MEM→EX forward, ALU input B: ".toList, fallback := "?".toList }

def fwdMemToExA (state : PipelineState) : Event :=
  { fired := state.fwdMemToExA, stage := state.stages.ex, kind := .FwdMemWb
    before := "MEM/WB→EX forward, ALU input A: ".toList, fallback := "?".toList }

def fwdMemToExB (state : PipelineState) : Event :=
  { fired := state.fwdMemToExB, stage := state.stages.ex, kind := .FwdMemWb
    before := "MEM/WB→EX forward, ALU input B: ".toList, fallback := "?".toList }

def loadStall (state : PipelineState) : Event :=
  { fired := state.loadStall, stage := state.stages.ex, kind := .Stall
    before := "load-use stall: ".toList, after := " — bubble inserted".toList
    fallback := "lw".toList }

def branchFlush (state : PipelineState) : Event :=
  { fired := state.branchFlush, stage := state.stages.mem, kind := .Flush
    before := "branch taken: ".toList, after := " — younger instructions flushed".toList
    fallback := "branch".toList }

def events (state : PipelineState) : List Event :=
  [fwdExToExA state, fwdExToExB state, fwdMemToExA state, fwdMemToExB state, loadStall state,
    branchFlush state]

-- The event was seen in this cycle or in the one before.
def continued (w : PipelineEventsWidget) (key : RecentKey) (cycle : Nat) : Bool :=
  match w.recent key with
  | some last => decide (last + 1 = cycle) || decide (last = cycle)
  | none => false

-- Event `i` of a cycle. The same event for the same word is logged once.
def logFired (cycle : Nat) (w : PipelineEventsWidget) (e : Event) (i : Nat) :
    PipelineEventsWidget :=
  if !e.fired then w
  else
    let key : RecentKey := (i, e.word)
    let seen := { w with recent := Function.update w.recent key (some cycle) }
    if w.continued key cycle then seen else seen.logEvent e.kind cycle e.text

def updateCycle (w : PipelineEventsWidget) (state : PipelineState) : PipelineEventsWidget :=
  (events state).zipIdx.foldl (fun w (e, i) => logFired state.cycle w e i) w

-- The Clear button.
def clear (_ : PipelineEventsWidget) : PipelineEventsWidget := {}

end PipelineEventsWidget

end ClearCore.Qt
