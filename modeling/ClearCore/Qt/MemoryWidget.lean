import ClearCore.Isa.Memory

namespace ClearCore.Qt

open Isa

namespace MemoryWidget

def kPage : ℕ := 4096

def kMaxHighlightRuns : ℕ := 256

-- The inner while loop: where the bytes at `i` and after stop to differ.
def runEnd (now shown : Array Byte) (stop i : ℕ) : ℕ :=
  if i < stop ∧ now[i]? ≠ shown[i]? then runEnd now shown stop (i + 1) else i
termination_by stop - i

-- memcpy from `now` to `shown`
def copyRange (now shown : Array Byte) (start len : ℕ) : Array Byte :=
  shown.mapIdx fun i b => if start ≤ i ∧ i < start + len then now.getD i 0 else b

-- A changed run is recorded, or continues the last one across a page boundary.
def recordRun (changed : List (ℕ × ℕ)) (start len : ℕ) : List (ℕ × ℕ) :=
  match changed.getLast? with
  | some back =>
      if back.1 + back.2 = start then changed.dropLast ++ [(back.1, back.2 + len)]
      else if changed.length < kMaxHighlightRuns then changed ++ [(start, len)]
      else changed
  | none => [(start, len)]

theorem le_runEnd (now shown : Array Byte) (stop i : ℕ) : i ≤ runEnd now shown stop i := by
  induction i using runEnd.induct now shown stop with
  | case1 i h ih =>
    rw [runEnd, if_pos h]
    exact Nat.le_of_succ_le ih
  | case2 i h =>
    rw [runEnd, if_neg h]

theorem lt_runEnd {now shown : Array Byte} {stop i : ℕ} (hi : i < stop)
    (hne : now[i]? ≠ shown[i]?) : i < runEnd now shown stop i := by
  rw [runEnd, if_pos ⟨hi, hne⟩]
  exact le_runEnd now shown stop (i + 1)

-- The bytes of a page that differs, from `i` on.
def scanPage (now : Array Byte) (stop i : ℕ) (shown : Array Byte) (changed : List (ℕ × ℕ)) :
    Array Byte × List (ℕ × ℕ) :=
  if i < stop then
    if now[i]? = shown[i]? then scanPage now stop (i + 1) shown changed
    else
      let j := runEnd now shown stop i
      scanPage now stop j (copyRange now shown i (j - i)) (recordRun changed i (j - i))
  else (shown, changed)
termination_by stop - i
decreasing_by
  · omega
  · rename_i hi hne
    have hlt := lt_runEnd hi hne
    omega

-- The pages from `page` on. A page that memcmp finds equal is skipped.
def scanPages (now : Array Byte) (page : ℕ) (shown : Array Byte) (changed : List (ℕ × ℕ)) :
    Array Byte × List (ℕ × ℕ) :=
  if page < now.size then
    let stop := min (page + kPage) now.size
    if now.extract page stop = shown.extract page stop then
      scanPages now (page + kPage) shown changed
    else
      let (shown, changed) := scanPage now stop page shown changed
      scanPages now (page + kPage) shown changed
  else (shown, changed)
termination_by now.size - page
decreasing_by
  all_goals
    unfold kPage
    omega

end MemoryWidget

-- The snapshot buffer, and the byte ranges that changed in the last refresh.
structure MemoryWidget where
  snapshot : Option (Array Byte) := none
  changed : List (ℕ × ℕ) := []
deriving DecidableEq

namespace MemoryWidget

def updateDisplay (w : MemoryWidget) (mem : Memory) : MemoryWidget :=
  match w.snapshot with
  | none => { snapshot := some mem.data, changed := [] }
  | some shown =>
      if shown.size ≠ mem.data.size then { snapshot := some mem.data, changed := [] }
      else
        let (shown, changed) := scanPages mem.data 0 shown []
        { snapshot := some shown, changed }

end MemoryWidget

end ClearCore.Qt
