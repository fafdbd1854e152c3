import ClearCore.Library.LazyView
import ClearCore.Library.Numeral
import ClearCore.Mips.Disassembler
import ClearCore.Mips.PipelineUnits

namespace ClearCore.Qt

open Isa Mips Numeral

-- What the colours of a cell say. How far a fade has come is left out.
inductive Highlight
  | zero
  | written
  | read
  | idle
deriving DecidableEq, Repr

structure RegisterCell where
  name : List Char
  value : List Char
  highlight : Highlight
  dark : Bool
deriving DecidableEq, Repr

-- What the cells show. `none` is the 0xFF of the source, and -1 is no fade.
structure RegisterFields where
  values : RegIdx → Word := fun _ => 0#32
  readRs : Option RegIdx := none
  readRt : Option RegIdx := none
  fadeStartMs : RegIdx → ℤ := fun _ => -1
  showAliases : Bool := true
  darkMode : Bool := false

-- "0x%1", with eight digits
def hexText (v : Word) : List Char := "0x".toList ++ zeroPadded 8 (Nat.toDigits 16 v.toNat)

namespace RegisterFields

def fading (fields : RegisterFields) (i : RegIdx) : Bool := decide (0 ≤ fields.fadeStartMs i)

-- updateCell
def cell (fields : RegisterFields) (i : RegIdx) : RegisterCell where
  name := '$' :: decimal i.toNat ++
    if fields.showAliases then " (".toList ++ registerAbiName i ++ ")".toList else []
  value := hexText (fields.values i)
  highlight :=
    if i = 0#5 then .zero
    else if fields.fading i then .written
    else if fields.readRs = some i ∨ fields.readRt = some i then .read
    else .idle
  dark := fields.darkMode

end RegisterFields

-- `timerActive` is fade_timer_.
structure RegisterWidget where
  view : LazyView RegisterFields (RegIdx → RegisterCell)
  timerActive : Bool := false

namespace RegisterWidget

def kFadeDurationMs : ℤ := 250

def create : RegisterWidget := { view := { model := {}, picture := RegisterFields.cell {} } }

-- The registers that the instruction in ID reads.
def readMarks (id : StageSnapshot) : SourceRegisters :=
  if id.valid && decide (id.raw ≠ 0#32) then ((Decoder.decode id.raw).map sourceRegisters).getD {}
  else {}

-- The register that the instruction in WB writes; $zero never changes.
def writtenRegister (wb : StageSnapshot) : Option RegIdx :=
  if wb.valid && !wb.stalled && !wb.flushed && decide (wb.raw ≠ 0#32) then
    ((Decoder.decode wb.raw).bind destinationRegister).filter fun dest => decide (dest ≠ 0#5)
  else none

-- The clock is read once.
def updateCycle (w : RegisterWidget) (now : ℤ) (state : PipelineState) (vals : RegIdx → Word) :
    RegisterWidget :=
  let marks := readMarks state.stages.id
  let fields := { w.view.model with values := vals, readRs := marks.a, readRt := marks.b }
  if !w.view.visible then { w with view := w.view.store fields }
  else
    match writtenRegister state.stages.wb with
    | some dest =>
        { view := w.view.draw RegisterFields.cell
            { fields with fadeStartMs := Function.update fields.fadeStartMs dest now }
          timerActive := true }
    | none => { w with view := w.view.draw RegisterFields.cell fields }

def showEvent (w : RegisterWidget) : RegisterWidget :=
  { w with view := w.view.reveal RegisterFields.cell }

def hide (w : RegisterWidget) : RegisterWidget := { w with view := w.view.conceal }

def setShowAliases (w : RegisterWidget) (aliases : Bool) : RegisterWidget :=
  { w with view := w.view.repaint RegisterFields.cell { w.view.model with showAliases := aliases } }

def setDarkMode (w : RegisterWidget) (dark : Bool) : RegisterWidget :=
  { w with view := w.view.repaint RegisterFields.cell { w.view.model with darkMode := dark } }

def clear (w : RegisterWidget) : RegisterWidget where
  view := w.view.repaint RegisterFields.cell
    { w.view.model with
      values := fun _ => 0#32, readRs := none, readRt := none, fadeStartMs := fun _ => -1 }
  timerActive := false

-- A cell is repainted if it was fading.
def fadeFields (fields : RegisterFields) (now : ℤ) : RegisterFields :=
  { fields with
    fadeStartMs := fun i =>
      if i ≠ 0#5 ∧ fields.fading i = true ∧ kFadeDurationMs ≤ now - fields.fadeStartMs i then -1
      else fields.fadeStartMs i }

-- A timeout of the fade timer.
def fadeTimeout (w : RegisterWidget) (now : ℤ) : RegisterWidget :=
  if !w.timerActive then w
  else
    let fields := w.view.model
    let faded := fadeFields fields now
    { view := { w.view with
        model := faded
        picture := fun i =>
          if i ≠ 0#5 ∧ fields.fading i = true then faded.cell i else w.view.picture i }
      timerActive := (List.range 32).any fun n =>
        decide (BitVec.ofNat 5 n ≠ 0#5) && faded.fading (BitVec.ofNat 5 n) }

end RegisterWidget

end ClearCore.Qt
