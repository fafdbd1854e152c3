import ClearCore.Isa.Memory.Lemmas
import ClearCore.Library.Runs
import ClearCore.Qt.MemoryWidget

-- A refresh of the memory view, page by page, against a scan of all its bytes.

namespace ClearCore.Qt.MemoryWidget

open Isa

-- Whether a byte differs between two images.
def differs (now old : Array Byte) (i : ℕ) : Bool := decide (now[i]? ≠ old[i]?)

-- The bytes below `i` are up to date, the others are as they were.
def UpTo (now old : Array Byte) (i : ℕ) (shown : Array Byte) : Prop :=
  ∀ j : ℕ, shown[j]? = if j < i then now[j]? else old[j]?

-- The runs that are recorded, of all those below `i`.
def Recorded (now old : Array Byte) (i : ℕ) (changed : List (ℕ × ℕ)) : Prop :=
  changed = (Runs.scan (differs now old) i).take kMaxHighlightRuns

section Scan

variable {now old shown : Array Byte} {changed : List (ℕ × ℕ)} {stop i : ℕ}

theorem getElem?_copyRange (hsize : now.size = shown.size) (start len j : ℕ) :
    (copyRange now shown start len)[j]? =
      if start ≤ j ∧ j < start + len then now[j]? else shown[j]? := by
  rw [copyRange, Array.getElem?_mapIdx]
  by_cases hj : j < shown.size
  · rw [Array.getElem?_eq_getElem hj, Array.getElem?_eq_getElem (hsize ▸ hj), Option.map_some]
    split
    · rw [Array.getD_eq_getD_getElem?, Array.getElem?_eq_getElem (hsize ▸ hj), Option.getD_some]
    · rfl
  · rw [Array.getElem?_eq_none (Nat.le_of_not_lt hj), Array.getElem?_eq_none (by omega),
      Option.map_none]
    split <;> rfl

theorem differs_runEnd {j : ℕ} (hle : i ≤ j) (hlt : j < runEnd now shown stop i) :
    now[j]? ≠ shown[j]? := by
  induction i using runEnd.induct now shown stop with
  | case1 i h ih =>
    rw [runEnd, if_pos h] at hlt
    by_cases hij : j = i
    · rw [hij]
      exact h.2
    · exact ih (by omega) hlt
  | case2 i h =>
    rw [runEnd, if_neg h] at hlt
    omega

theorem runEnd_le (h : i ≤ stop) : runEnd now shown stop i ≤ stop := by
  induction i using runEnd.induct now shown stop with
  | case1 i hi ih =>
    rw [runEnd, if_pos hi]
    exact ih hi.1
  | case2 i hi =>
    rwa [runEnd, if_neg hi]

-- A run is recorded while there is room, and then only if it continues the last one.
theorem recordRun_of_room (start len : ℕ) (h : changed.length < kMaxHighlightRuns) :
    recordRun changed start len = Runs.extend changed start len := by
  unfold recordRun Runs.extend
  cases changed.getLast? with
  | none => rfl
  | some back =>
    dsimp only
    rw [if_pos h]

theorem recordRun_concat (front : List (ℕ × ℕ)) (first count len : ℕ) :
    recordRun (front ++ [(first, count)]) (first + count) len =
      front ++ [(first, count + len)] := by
  rw [recordRun, List.getLast?_concat]
  dsimp only
  rw [if_pos rfl, List.dropLast_concat]

theorem recordRun_of_full {start : ℕ} (len : ℕ) (h : kMaxHighlightRuns ≤ changed.length)
    (hapart : ∀ last ∈ changed.getLast?, last.1 + last.2 ≠ start) :
    recordRun changed start len = changed := by
  unfold recordRun
  cases hback : changed.getLast? with
  | none =>
    rw [List.getLast?_eq_none_iff.mp hback] at h
    exact absurd h (by decide)
  | some back =>
    dsimp only
    rw [if_neg (hapart back hback), if_neg (Nat.not_lt_of_le h)]

-- The cap does not change which run a later part of it continues.
theorem recordRun_take {runs : List (ℕ × ℕ)} (hsep : Runs.Separated i runs) (len : ℕ) :
    recordRun (runs.take kMaxHighlightRuns) i len =
      (Runs.extend runs i len).take kMaxHighlightRuns := by
  by_cases hroom : runs.length < kMaxHighlightRuns
  · rw [List.take_of_length_le (Nat.le_of_lt hroom), recordRun_of_room i len hroom]
    rcases Runs.extend_cases runs i len with ⟨front, first, count, hs, -, heq⟩ | ⟨-, heq⟩
    · rw [hs, List.length_append, List.length_singleton] at hroom
      rw [heq, List.take_of_length_le]
      rw [List.length_append, List.length_singleton]
      exact Nat.le_of_lt hroom
    · rw [heq, List.take_of_length_le]
      rw [List.length_append, List.length_singleton]
      exact hroom
  · rw [Nat.not_lt] at hroom
    rcases Runs.extend_cases runs i len with ⟨front, first, count, hs, hend, heq⟩ | ⟨hapart, heq⟩
    · rw [heq, hs]
      subst hend
      by_cases hfront : kMaxHighlightRuns ≤ front.length
      · -- the run that goes on is not recorded, and ends later than the last recorded one
        rw [List.take_append_of_le_length hfront, List.take_append_of_le_length hfront]
        refine recordRun_of_full len (by rw [List.length_take]; omega) fun last hlast => ?_
        obtain ⟨-, -, hbefore⟩ := List.pairwise_append.mp (hs ▸ hsep.ordered)
        have hmem := List.mem_of_mem_take (List.mem_of_getLast? hlast)
        have hlt := hbefore last hmem (first, count) (List.mem_singleton_self _)
        dsimp only at hlt
        omega
      · rw [List.take_of_length_le, List.take_of_length_le, recordRun_concat]
        all_goals
          rw [List.length_append, List.length_singleton]
          omega
    · rw [heq, List.take_append_of_le_length hroom]
      refine recordRun_of_full len (by rw [List.length_take]; omega) fun last hlast => ?_
      exact hsep.apart hapart last (List.mem_of_mem_take (List.mem_of_getLast? hlast))

theorem UpTo.size_eq (hsize : now.size = old.size) (h : UpTo now old i shown) :
    now.size = shown.size := by
  have hnone : ∀ j : ℕ, shown.size ≤ j ↔ now.size ≤ j := by
    intro j
    rw [← Array.getElem?_eq_none_iff, h j]
    split
    · exact Array.getElem?_eq_none_iff
    · rw [Array.getElem?_eq_none_iff, hsize]
  exact Nat.le_antisymm ((hnone _).mp (Nat.le_refl _)) ((hnone _).mpr (Nat.le_refl _))

-- Bytes that are equal are up to date and start no run.
theorem UpTo.eq_now (h : UpTo now old now.size shown) (hsize : now.size = old.size) :
    shown = now := by
  apply Array.ext_getElem?
  intro j
  rw [h j]
  split
  · rfl
  · rename_i hj
    rw [Array.getElem?_eq_none (Nat.le_of_not_lt hj), Array.getElem?_eq_none (by omega)]

theorem UpTo.advance {j : ℕ} (h : UpTo now old i shown) (hij : i ≤ j)
    (heq : ∀ k, i ≤ k → k < j → now[k]? = shown[k]?) : UpTo now old j shown := by
  intro k
  rw [h k]
  by_cases hk : k < i
  · rw [if_pos hk, if_pos (Nat.lt_of_lt_of_le hk hij)]
  · rw [if_neg hk]
    split
    · rename_i hkj
      have hold := h k
      rw [if_neg hk] at hold
      rw [heq k (Nat.le_of_not_lt hk) hkj, hold]
    · rfl

theorem differs_eq (h : UpTo now old i shown) {k : ℕ} (hk : i ≤ k) :
    differs now old k = decide (now[k]? ≠ shown[k]?) := by
  rw [differs, h k, if_neg (Nat.not_lt_of_le hk)]

theorem Recorded.advance {j : ℕ} (h : Recorded now old i changed) (hshown : UpTo now old i shown)
    (hij : i ≤ j) (heq : ∀ k, i ≤ k → k < j → now[k]? = shown[k]?) :
    Recorded now old j changed := by
  obtain ⟨len, rfl⟩ := Nat.exists_eq_add_of_le hij
  rw [Recorded, Runs.scan_fails fun k hk hlt => ?_]
  · exact h
  · rw [differs_eq hshown hk, decide_eq_false (not_not_intro (heq k hk hlt))]

-- A run of bytes that differ is copied and recorded.
theorem UpTo.copyRange {j : ℕ} (hsize : now.size = old.size) (h : UpTo now old i shown)
    (hij : i ≤ j) : UpTo now old j (copyRange now shown i (j - i)) := by
  intro k
  rw [getElem?_copyRange (h.size_eq hsize), h k]
  by_cases hk : k < i
  · rw [if_neg (by omega), if_pos hk, if_pos (by omega)]
  · rw [if_neg hk]
    by_cases hkj : k < j
    · rw [if_pos (by omega), if_pos hkj]
    · rw [if_neg (by omega), if_neg hkj]

theorem Recorded.recordRun {j : ℕ} (h : Recorded now old i changed)
    (hshown : UpTo now old i shown) (hij : i < j)
    (hne : ∀ k, i ≤ k → k < j → now[k]? ≠ shown[k]?) :
    Recorded now old j (recordRun changed i (j - i)) := by
  obtain ⟨len, rfl⟩ := Nat.exists_eq_add_of_le (Nat.le_of_lt hij)
  have hholds : ∀ k, i ≤ k → k < i + len → differs now old k = true := by
    intro k hk hlt
    rw [differs_eq hshown hk, decide_eq_true (hne k hk hlt)]
  rw [Recorded, Runs.scan_holds (by omega) hholds, Nat.add_sub_cancel_left,
    ← recordRun_take (Runs.scan_separated _ _), ← show changed = _ from h]

-- One page, from `i` on.
theorem scanPage_spec (hsize : now.size = old.size) (hi : i ≤ stop)
    (hshown : UpTo now old i shown) (hchanged : Recorded now old i changed) :
    UpTo now old stop (scanPage now stop i shown changed).1 ∧
      Recorded now old stop (scanPage now stop i shown changed).2 := by
  induction i, shown, changed using scanPage.induct now stop with
  | case1 i shown changed hlt heq ih =>
    have hequal : ∀ k, i ≤ k → k < i + 1 → now[k]? = shown[k]? := by
      intro k hk hk'
      rwa [show k = i by omega]
    rw [scanPage, if_pos hlt, if_pos heq]
    exact ih hlt (hshown.advance (Nat.le_succ i) hequal)
      (hchanged.advance hshown (Nat.le_succ i) hequal)
  | case2 i shown changed hlt hne j ih =>
    have hij : i < j := lt_runEnd hlt hne
    rw [scanPage, if_pos hlt, if_neg hne]
    exact ih (runEnd_le hi) (hshown.copyRange hsize (Nat.le_of_lt hij))
      (hchanged.recordRun hshown hij fun k hk hk' => differs_runEnd hk hk')
  | case3 i shown changed hge =>
    obtain rfl : i = stop := by omega
    rw [scanPage, if_neg hge]
    exact ⟨hshown, hchanged⟩

theorem extract_eq {a b : Array Byte} {start stop : ℕ} (hsize : a.size = b.size)
    (hstop : stop ≤ a.size) (h : a.extract start stop = b.extract start stop) {k : ℕ}
    (hk : start ≤ k) (hlt : k < stop) : a[k]? = b[k]? := by
  have helem : (a.extract start stop)[k - start]? = (b.extract start stop)[k - start]? := by rw [h]
  rwa [Array.getElem?_extract, Array.getElem?_extract, if_pos (by omega), if_pos (by omega),
    Nat.add_sub_cancel' hk] at helem

-- All pages.
theorem scanPages_spec (hsize : now.size = old.size) {page : ℕ}
    (hshown : UpTo now old (min page now.size) shown)
    (hchanged : Recorded now old (min page now.size) changed) :
    UpTo now old now.size (scanPages now page shown changed).1 ∧
      Recorded now old now.size (scanPages now page shown changed).2 := by
  induction page, shown, changed using scanPages.induct now with
  | case1 page shown changed hlt stop heq ih =>
    have hpage : min page now.size = page := Nat.min_eq_left (Nat.le_of_lt hlt)
    have hle : page ≤ stop := by
      simp only [stop, kPage]
      omega
    rw [hpage] at hshown hchanged
    have hequal : ∀ k, page ≤ k → k < stop → now[k]? = shown[k]? := fun k hk hk' =>
      extract_eq (hshown.size_eq hsize) (Nat.min_le_right _ _) heq hk hk'
    rw [scanPages, if_pos hlt, if_pos heq]
    exact ih (hshown.advance hle hequal) (hchanged.advance hshown hle hequal)
  | case2 page shown changed hlt stop hne shown' changed' hpageScan ih =>
    have hpage : min page now.size = page := Nat.min_eq_left (Nat.le_of_lt hlt)
    have hle : page ≤ stop := by
      simp only [stop, kPage]
      omega
    rw [hpage] at hshown hchanged
    obtain ⟨hshown', hchanged'⟩ := scanPage_spec hsize hle hshown hchanged
    rw [hpageScan] at hshown' hchanged'
    rw [scanPages, if_pos hlt, if_neg hne, hpageScan]
    exact ih hshown' hchanged'
  | case3 page shown changed hge =>
    rw [Nat.min_eq_right (Nat.le_of_not_lt hge)] at hshown hchanged
    rw [scanPages, if_neg hge]
    exact ⟨hshown, hchanged⟩

-- The scan from the first page on.
theorem scanPages_all (hsize : now.size = old.size) :
    (scanPages now 0 old []).1 = now ∧ Recorded now old now.size (scanPages now 0 old []).2 := by
  have hstart : UpTo now old (min 0 now.size) old := by
    intro j
    rw [Nat.zero_min, if_neg (Nat.not_lt_zero j)]
  have hnone : Recorded now old (min 0 now.size) [] := by
    rw [Nat.zero_min]
    rfl
  obtain ⟨hshown, hchanged⟩ := scanPages_spec hsize hstart hnone
  exact ⟨hshown.eq_now hsize, hchanged⟩

end Scan

-- Whatever was shown before.
theorem snapshot_updateDisplay (w : MemoryWidget) (mem : Memory) :
    (w.updateDisplay mem).snapshot = some mem.data := by
  rw [updateDisplay]
  cases w.snapshot with
  | none => rfl
  | some old =>
    dsimp only
    split
    · rfl
    · rename_i hsize
      exact congrArg some (scanPages_all (not_not.mp hsize).symm).1

-- After a refresh the snapshot is the memory, and the changes are the first 256 maximal runs of
-- bytes that differ, in order.
theorem updateDisplay_exact (w : MemoryWidget) (mem : Memory) (old : Array Byte)
    (hold : w.snapshot = some old) (hsize : old.size = mem.size) :
    (w.updateDisplay mem).snapshot = some mem.data ∧
      ∃ runs : List (ℕ × ℕ), (runs.Pairwise fun a b => a.1 < b.1) ∧
        (∀ run, run ∈ runs ↔ Runs.MaximalRun (differs mem.data old) mem.size run) ∧
        (w.updateDisplay mem).changed = runs.take kMaxHighlightRuns := by
  have hw : w.updateDisplay mem =
      { snapshot := some (scanPages mem.data 0 old []).1
        changed := (scanPages mem.data 0 old []).2 } := by
    rw [updateDisplay, hold]
    exact if_neg (not_not_intro hsize)
  have hchanged : Recorded mem.data old mem.data.size _ := (scanPages_all hsize.symm).2
  have hsep := Runs.scan_separated (differs mem.data old) mem.data.size
  refine ⟨w.snapshot_updateDisplay mem, _, hsep.ordered.imp fun hab => by omega,
    fun run => Runs.mem_scan, ?_⟩
  rw [hw]
  exact hchanged

-- A memory that was filled with ones and is cleared: one run over two pages.
theorem updateDisplay_exact_cleared :
    let mem := Memory.ofSize 5000
    let old : Array Byte := Array.replicate 5000 1#8
    let w : MemoryWidget := { snapshot := some old }
    (w.updateDisplay mem).snapshot = some mem.data ∧
      ∃ runs : List (ℕ × ℕ), (runs.Pairwise fun a b => a.1 < b.1) ∧
        (∀ run, run ∈ runs ↔ Runs.MaximalRun (differs mem.data old) mem.size run) ∧
        (w.updateDisplay mem).changed = runs.take kMaxHighlightRuns :=
  updateDisplay_exact _ _ _ rfl (by rw [Memory.size_ofSize, Array.size_replicate])

end ClearCore.Qt.MemoryWidget
