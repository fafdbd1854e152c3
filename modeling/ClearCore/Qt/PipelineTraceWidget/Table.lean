import ClearCore.Library.LazyView
import ClearCore.Mips.Disassembler
import ClearCore.Qt.PipelineTraceWidget

-- The table that PipelineTraceWidget draws of its rows.

namespace ClearCore.Qt

open Isa Mips Numeral

structure TraceFields where
  trace : PipelineTraceWidget := {}
  darkMode : Bool := false

-- The label of a row, and the stage of each column.
structure TableRow where
  label : List Char
  cells : List (Option (Fin 5))
deriving DecidableEq, Repr

structure TraceTable where
  header : List ℕ
  rows : List TableRow
  dark : Bool
deriving DecidableEq, Repr

def shortMnemonic (raw : Word) : List Char :=
  if raw = 0#32 then "nop".toList
  else ((Decoder.decode raw).map fun d => (Decoder.mnemonic d).toList).getD "???".toList

-- "0x%1  %2", with at least four digits
def rowLabel (row : InstrRow) : List Char :=
  "0x".toList ++ zeroPadded 4 (Nat.toDigits 16 row.pc.toNat) ++ "  ".toList ++ shortMnemonic row.raw

-- The first stage that a row was seen in in a cycle.
def stageIn (row : InstrRow) (cycle : ℕ) : Option (Fin 5) :=
  (List.finRange 5).find? fun s => decide (row.cycleInStage s = cycle)

namespace TraceFields

-- The cycles of the columns.
def columns (fields : TraceFields) : List ℕ :=
  let base :=
    if PipelineTraceWidget.kMaxCycles < fields.trace.lastCycle then
      fields.trace.lastCycle - PipelineTraceWidget.kMaxCycles
    else 0
  (List.range PipelineTraceWidget.kMaxCycles).map fun c => base + c + 1

-- rebuildTable
def table (fields : TraceFields) : TraceTable where
  header := fields.columns
  rows := fields.trace.rows.map fun row =>
    { label := rowLabel row, cells := fields.columns.map (stageIn row) }
  dark := fields.darkMode

end TraceFields

abbrev TraceView := LazyView TraceFields TraceTable

namespace TraceView

def create : TraceView := { model := {}, picture := TraceFields.table {} }

def clear (w : TraceView) : TraceView := w.draw TraceFields.table { w.model with trace := {} }

def setDarkMode (w : TraceView) (dark : Bool) : TraceView :=
  w.draw TraceFields.table { w.model with darkMode := dark }

def updateCycle (w : TraceView) (state : PipelineState) : TraceView :=
  w.present TraceFields.table { w.model with trace := w.model.trace.updateCycle state }

def showEvent (w : TraceView) : TraceView := w.reveal TraceFields.table

end TraceView

end ClearCore.Qt
