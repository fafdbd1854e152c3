import ClearCore.Qt.PipelineTraceWidget

-- The rows of the trace against the instructions of the run.

namespace ClearCore.Qt

open Isa Mips Occupied

theorem mem_oldestFirst (s : Fin 5) : s ∈ oldestFirst :=
  List.mem_reverse.mpr (List.mem_finRange s)

namespace InstrRow

variable {row : InstrRow} {s : Fin 5}

theorem lastStage_eq_some :
    row.lastStage = some s ↔ row.cycleInStage s ≠ 0 ∧ ∀ i, s < i → row.cycleInStage i = 0 := by
  rw [lastStage, Latest.find?_eq_some_of_descending (by decide)]
  simp [mem_oldestFirst]

theorem exists_lastStage (h : row.cycleInStage s ≠ 0) : ∃ i, row.lastStage = some i := by
  rw [← Option.isSome_iff_exists, lastStage, List.find?_isSome]
  exact ⟨s, mem_oldestFirst s, by simpa using h⟩

theorem lastCycle_of_lastStage (h : row.lastStage = some s) :
    row.lastCycle = row.cycleInStage s := by
  rw [lastCycle, h]

@[simp] theorem see_same (cycle : ℕ) : (row.see s cycle).cycleInStage s = cycle := by
  simp [see]

@[simp] theorem see_ne {i : Fin 5} (h : i ≠ s) (cycle : ℕ) :
    (row.see s cycle).cycleInStage i = row.cycleInStage i := by
  simp [see, h]

end InstrRow

namespace PipelineTraceWidget

-- The row of an instruction says in which cycles the instruction was seen in the stages.
structure Follows (seen : Fin 5 → ℕ → DynamicInstr → Prop) (d : DynamicInstr) (row : InstrRow) :
    Prop where
  pc : row.pc = d.pc
  raw : row.raw = d.raw
  started : row.cycleInStage 0 ≠ 0
  fetched : row.cycleInStage 0 = d.fetched
  cells : ∀ {s c}, row.cycleInStage s = c + 1 ↔ seen s c d

-- `d` has worked in stage `s` in cycle `c` of a run: before cycle `n`, or in cycle `n` if the
-- stage is `k` or a later one.
def Seen (p : Occupied) (n k : ℕ) (s : Fin 5) (c : ℕ) (d : DynamicInstr) : Prop :=
  (c < n ∨ c = n ∧ k ≤ s.val) ∧ (p.run c).Works s d

-- The rows when cycle `n` has been recorded down to stage `k`.
structure Rows (p : Occupied) (n k : ℕ) (rows : List InstrRow) : Prop where
  follows : ∀ row ∈ rows, ∃ d, Follows (Seen p n k) d row
  apart : rows.Pairwise fun a b => a.cycleInStage 0 < b.cycleInStage 0
  recent : ∀ {s c d}, Seen p n k s c d → n ≤ c + kMaxCycles →
    ∃ row ∈ rows, Follows (Seen p n k) d row

variable {p : Occupied} {n k c : ℕ} {s i : Fin 5} {d e : DynamicInstr} {row : InstrRow}
  {rows : List InstrRow}

namespace Follows

theorem congr {seen seen' : Fin 5 → ℕ → DynamicInstr → Prop} (h : Follows seen d row)
    (hseen : ∀ {s c}, seen' s c d ↔ seen s c d) : Follows seen' d row where
  pc := h.pc
  raw := h.raw
  started := h.started
  fetched := h.fetched
  cells := h.cells.trans hseen.symm

theorem seen_of_ne_zero (h : Follows (Seen p n k) d row) (hs : row.cycleInStage s ≠ 0) :
    ∃ c, row.cycleInStage s = c + 1 ∧ Seen p n k s c d := by
  obtain ⟨c, hc⟩ := Nat.exists_eq_succ_of_ne_zero hs
  exact ⟨c, hc, h.cells.mp hc⟩

-- A row belongs to one instruction.
theorem unique (hd : Follows (Seen p n k) d row) (he : Follows (Seen p n k) e row) : d = e := by
  obtain ⟨c, hc, -, hworks⟩ := hd.seen_of_ne_zero hd.started
  exact hworks.unique (he.cells.mp hc).2

-- The cycles of a row go up with its stages.
theorem increasing (h : Follows (Seen p n k) d row) (hp : p.Sound) (his : i < s)
    (hi : row.cycleInStage i ≠ 0) (hs : row.cycleInStage s ≠ 0) :
    row.cycleInStage i < row.cycleInStage s := by
  obtain ⟨b, hb, -, hworks⟩ := h.seen_of_ne_zero hi
  obtain ⟨c, hc, -, hworks'⟩ := h.seen_of_ne_zero hs
  have hlt := (hp.works_lt_iff hworks hworks').mp his
  omega

theorem le_lastCycle (h : Follows (Seen p n k) d row) (hp : p.Sound)
    (hs : row.cycleInStage s ≠ 0) : row.cycleInStage s ≤ row.lastCycle := by
  obtain ⟨i, hi⟩ := InstrRow.exists_lastStage hs
  obtain ⟨hne, hlast⟩ := InstrRow.lastStage_eq_some.mp hi
  rw [InstrRow.lastCycle_of_lastStage hi]
  rcases lt_trichotomy s i with hlt | rfl | hgt
  · exact (h.increasing hp hlt hs hne).le
  · exact le_rfl
  · exact absurd (hlast s hgt) hs

-- The row of an instruction that now comes to a stage ends in the stage before.
theorem lastStage (h : Follows (Seen p n (s.val + 1)) d row) (hp : p.Sound)
    (hs : s.val = i.val + 1) (hnow : (p.run n).Works s d) (hcn : c < n)
    (hi : (p.run c).Works i d) : row.lastStage = some i ∧ row.lastCycle = c + 1 := by
  have hcell : row.cycleInStage i = c + 1 := h.cells.mpr ⟨.inl hcn, hi⟩
  have hstage : row.lastStage = some i := by
    refine InstrRow.lastStage_eq_some.mpr ⟨by rw [hcell]; exact Nat.succ_ne_zero c, ?_⟩
    intro j hij
    by_contra hj
    obtain ⟨b, -, hb, hworks⟩ := h.seen_of_ne_zero hj
    rcases hb with hb | ⟨rfl, hsj⟩
    · have hjs := hp.works_later hworks hb hnow
      omega
    · have hjs := (hp.run b).works_once hworks hnow
      omega
  exact ⟨hstage, by rw [InstrRow.lastCycle_of_lastStage hstage, hcell]⟩

end Follows

section Stage

-- Stage `s` of cycle `n` adds what is seen there.
theorem seen_stage (hs : k = s.val) :
    Seen p n k i c d ↔ Seen p n (k + 1) i c d ∨ c = n ∧ i = s ∧ (p.run n).Works s d := by
  subst hs
  constructor
  · rintro ⟨hc | ⟨rfl, hsi⟩, hworks⟩
    · exact .inl ⟨.inl hc, hworks⟩
    · by_cases hi : i = s
      · exact .inr ⟨rfl, hi, hi ▸ hworks⟩
      · exact .inl ⟨.inr ⟨rfl, by omega⟩, hworks⟩
  · rintro (⟨hc | ⟨rfl, hsi⟩, hworks⟩ | ⟨rfl, rfl, hworks⟩)
    · exact ⟨.inl hc, hworks⟩
    · exact ⟨.inr ⟨rfl, by omega⟩, hworks⟩
    · exact ⟨.inr ⟨rfl, le_rfl⟩, hworks⟩

theorem seen_stage_other (hno : ¬(p.run n).Works s d) :
    Seen p n s.val i c d ↔ Seen p n (s.val + 1) i c d := by
  rw [seen_stage rfl]
  exact or_iff_left fun h => hno h.2.2

-- The instruction in the stage has not been seen there before.
theorem seen_stage_works (hp : p.Sound) (hnow : (p.run n).Works s d) :
    Seen p n s.val s c d ↔ c = n := by
  constructor
  · rintro ⟨hc | ⟨rfl, -⟩, hworks⟩
    · exact absurd (hp.works_later hworks hc hnow) (lt_irrefl s)
    · rfl
  · rintro rfl
    exact ⟨.inr ⟨rfl, le_rfl⟩, hnow⟩

theorem Follows.see (h : Follows (Seen p n (s.val + 1)) d row) (hp : p.Sound)
    (hnow : (p.run n).Works s d) (hs : s ≠ 0) :
    Follows (Seen p n s.val) d (row.see s (n + 1)) where
  pc := h.pc
  raw := h.raw
  started := by
    rw [InstrRow.see_ne hs.symm]
    exact h.started
  fetched := by rw [InstrRow.see_ne hs.symm, h.fetched]
  cells := by
    intro j c
    by_cases hj : j = s
    · rw [hj, InstrRow.see_same, seen_stage_works hp hnow]
      omega
    · rw [InstrRow.see_ne hj, h.cells, seen_stage rfl]
      exact (or_iff_left fun hnew => hj hnew.2.1).symm

-- A fetched instruction starts a row.
theorem follows_fetched (hp : p.Sound) (hcycle : p.cpu.cycle = 0) (hnow : (p.run n).Works 0 d) :
    Follows (Seen p n 0) d (InstrRow.see { pc := d.pc, raw := d.raw } 0 (n + 1)) where
  pc := rfl
  raw := rfl
  started := by
    rw [InstrRow.see_same]
    exact Nat.succ_ne_zero n
  fetched := by
    rw [InstrRow.see_same, hnow.fetched, run_cpu, PipelinedCpu.run_cycle, hcycle, Nat.zero_add]
  cells := by
    intro j c
    by_cases hj : j = 0
    · rw [hj, InstrRow.see_same]
      exact (Nat.succ_inj.trans eq_comm).trans (seen_stage_works hp hnow).symm
    · rw [InstrRow.see_ne hj]
      refine ⟨fun h => absurd h.symm (Nat.succ_ne_zero c), ?_⟩
      rintro ⟨hc | ⟨rfl, -⟩, hworks⟩
      · exact absurd (hp.works_later hworks hc hnow) (Fin.not_lt_zero j)
      · exact absurd ((hp.run c).works_once hworks hnow) hj

namespace Rows

theorem row_unique (h : Rows p n k rows) {i j : ℕ} {row row' : InstrRow}
    (hi : rows[i]? = some row) (hj : rows[j]? = some row')
    (heq : row.cycleInStage 0 = row'.cycleInStage 0) : i = j := by
  obtain ⟨hil, rfl⟩ := List.getElem?_eq_some_iff.mp hi
  obtain ⟨hjl, rfl⟩ := List.getElem?_eq_some_iff.mp hj
  have hapart := List.pairwise_iff_getElem.mp h.apart
  rcases Nat.lt_trichotomy i j with hlt | rfl | hgt
  · exact absurd heq (hapart i j hil hjl hlt).ne
  · rfl
  · exact absurd heq.symm (hapart j i hjl hil hgt).ne

-- A stage in which no instruction works.
theorem skip (h : Rows p n (s.val + 1) rows) (hno : ∀ d, ¬(p.run n).Works s d) :
    Rows p n s.val rows where
  follows row hrow := by
    obtain ⟨d, hd⟩ := h.follows row hrow
    exact ⟨d, hd.congr (seen_stage_other (hno d))⟩
  apart := h.apart
  recent := by
    intro i c d hseen hc
    obtain ⟨row, hrow, hd⟩ := h.recent ((seen_stage_other (hno d)).mp hseen) hc
    exact ⟨row, hrow, hd.congr (seen_stage_other (hno d))⟩

-- The fetch of a row is over.
theorem fetched_before (h : Follows (Seen p n k) d row) (hp : p.Sound) (hk : 0 < k) :
    row.cycleInStage 0 ≤ n ∧ ¬(p.run n).Works 0 d := by
  obtain ⟨c, hc, hb, hworks⟩ := h.seen_of_ne_zero h.started
  have hcn : c < n := hb.resolve_right fun hb => absurd hb.2 (not_le.mpr hk)
  exact ⟨by omega, fun hnow => lt_irrefl _ (hp.works_later hworks hcn hnow)⟩

-- IF adds a row.
theorem append (h : Rows p n 1 rows) (hp : p.Sound) (hcycle : p.cpu.cycle = 0)
    (hnow : (p.run n).Works 0 d) :
    Rows p n 0 (rows ++ [InstrRow.see { pc := d.pc, raw := d.raw } 0 (n + 1)]) where
  follows := by
    intro row hrow
    rcases List.mem_append.mp hrow with hrow | hrow
    · obtain ⟨e, he⟩ := h.follows row hrow
      exact ⟨e, he.congr (seen_stage_other (s := 0) (fetched_before he hp Nat.one_pos).2)⟩
    · rw [List.mem_singleton.mp hrow]
      exact ⟨d, follows_fetched hp hcycle hnow⟩
  apart := by
    refine List.pairwise_append.mpr ⟨h.apart, List.pairwise_singleton _ _, ?_⟩
    intro a ha b hb
    obtain ⟨e, he⟩ := h.follows a ha
    rw [List.mem_singleton.mp hb, InstrRow.see_same]
    exact Nat.lt_succ_of_le (fetched_before he hp Nat.one_pos).1
  recent := by
    intro i c e hseen hc
    rcases (seen_stage (s := 0) rfl).mp hseen with hold | ⟨rfl, rfl, hworks⟩
    · obtain ⟨row, hrow, he⟩ := h.recent hold hc
      exact ⟨row, List.mem_append_left _ hrow,
        he.congr (seen_stage_other (s := 0) (fetched_before he hp Nat.one_pos).2)⟩
    · rw [hworks.unique hnow]
      exact ⟨_, List.mem_append_right _ (List.mem_singleton_self _),
        follows_fetched hp hcycle hnow⟩

-- A later stage fills a cell of the row of its instruction.
theorem modify (h : Rows p n (s.val + 1) rows) (hp : p.Sound) (hs : s ≠ 0)
    (hnow : (p.run n).Works s d) {j : ℕ} (hj : rows[j]? = some row)
    (hd : Follows (Seen p n (s.val + 1)) d row) :
    Rows p n s.val (rows.modify j fun row => row.see s (n + 1)) where
  follows := by
    intro row' hrow'
    obtain ⟨m, hm⟩ := List.mem_iff_getElem?.mp hrow'
    by_cases hjm : j = m
    · rw [hjm] at hj
      rw [hjm, List.getElem?_modify_eq, hj] at hm
      obtain rfl := Option.some.inj hm
      exact ⟨d, hd.see hp hnow hs⟩
    · rw [List.getElem?_modify_ne _ _ hjm] at hm
      obtain ⟨e, he⟩ := h.follows row' (List.mem_of_getElem? hm)
      refine ⟨e, he.congr (seen_stage_other fun hworks => hjm ?_)⟩
      rw [hworks.unique hnow] at he
      exact h.row_unique hj hm (hd.fetched.trans he.fetched.symm)
  apart := by
    have hstart : (rows.modify j fun row => row.see s (n + 1)).map (fun row => row.cycleInStage 0) =
        rows.map fun row => row.cycleInStage 0 := by
      refine List.ext_getElem? fun m => ?_
      rw [List.getElem?_map, List.getElem?_map]
      by_cases hjm : j = m
      · rw [hjm, List.getElem?_modify_eq, Option.map_eq_map, Option.map_map]
        exact congrArg (Option.map · _) (funext fun row => InstrRow.see_ne hs.symm _)
      · rw [List.getElem?_modify_ne _ _ hjm]
    rw [← List.pairwise_map (f := fun row : InstrRow => row.cycleInStage 0) (R := (· < ·)), hstart]
    exact List.pairwise_map.mpr h.apart
  recent := by
    intro i c e hseen hc
    by_cases hed : e = d
    · refine ⟨row.see s (n + 1), List.mem_of_getElem? (i := j) ?_, hed ▸ hd.see hp hnow hs⟩
      rw [List.getElem?_modify_eq, hj]
      rfl
    · have hno : ¬(p.run n).Works s e := fun hworks => hed (hworks.unique hnow)
      obtain ⟨row', hrow', he⟩ := h.recent ((seen_stage_other hno).mp hseen) hc
      obtain ⟨m, hm⟩ := List.mem_iff_getElem?.mp hrow'
      refine ⟨row', List.mem_of_getElem? (i := m) ?_, he.congr (seen_stage_other hno)⟩
      rw [List.getElem?_modify_ne, hm]
      rintro rfl
      rw [hj] at hm
      obtain rfl := Option.some.inj hm
      exact hed (he.unique hd)

end Rows

end Stage

theorem stageBefore_eq (hs : s.val = i.val + 1) : stageBefore s = some i := by
  rw [stageBefore, if_pos (by omega), Option.some.injEq, Fin.ext_iff]
  dsimp only
  omega

theorem continues_iff {cycle : ℕ} {snap : StageSnapshot} :
    continues cycle s snap row = true ↔
      row.pc = snap.pc ∧ row.lastStage = stageBefore s ∧ row.lastCycle < cycle := by
  simp [continues, and_assoc]

theorem recordStage_idle {cycle : ℕ} {snap : StageSnapshot} (h : snap.working = false) :
    recordStage cycle s snap rows = rows := by
  refine if_pos ?_
  simpa [StageSnapshot.working, or_assoc, imp_iff_not_or] using h

theorem recordStage_working {cycle : ℕ} {snap : StageSnapshot} (h : snap.working = true) :
    recordStage cycle s snap rows =
      match Latest.search (continues cycle s snap) InstrRow.lastCycle rows with
      | some (i, _) => rows.modify i fun row => row.see s cycle
      | none => rows ++ [InstrRow.see { pc := snap.pc, raw := snap.raw } s cycle] := by
  refine if_neg ?_
  simpa [StageSnapshot.working, and_assoc] using h

section Record

-- Every row has been in a stage, so none continues with a fetch.
theorem search_fetch {snap : StageSnapshot} (h : Rows p n k rows) :
    Latest.search (continues (n + 1) 0 snap) InstrRow.lastCycle rows = none := by
  refine Latest.search_eq_none fun row hrow => ?_
  obtain ⟨d, hd⟩ := h.follows row hrow
  obtain ⟨i, hi⟩ := InstrRow.exists_lastStage hd.started
  refine Bool.eq_false_iff.mpr fun hc => ?_
  obtain ⟨-, hstage, -⟩ := continues_iff.mp hc
  cases hi.symm.trans hstage

-- The latest row in the stage before is that of the instruction in the stage.
theorem search_later (hp : p.Sound) (hnone : ∀ k, p.line k = none)
    (h : Rows p n (s.val + 1) rows) (hs : s ≠ 0) (hnow : (p.run n).Works s d)
    {snap : StageSnapshot} (hpc : snap.pc = d.pc) :
    ∃ j row, Latest.search (continues (n + 1) s snap) InstrRow.lastCycle rows = some (j, row) ∧
      rows[j]? = some row ∧ Follows (Seen p n (s.val + 1)) d row := by
  obtain ⟨i, hi⟩ : ∃ i : Fin 5, s.val = i.val + 1 :=
    ⟨⟨s.val - 1, by omega⟩, (Nat.succ_pred_eq_of_ne_zero (Fin.val_ne_zero_iff.mpr hs)).symm⟩
  obtain ⟨c, hcn, hrecent, hbefore, hlatest⟩ := Works.comes hnone hi hnow
  obtain ⟨row, hrow, hd⟩ := h.recent ⟨.inl hcn, hbefore⟩ (by rw [kMaxCycles]; omega)
  obtain ⟨hstage, hlast⟩ := hd.lastStage hp hi hnow hcn hbefore
  obtain ⟨j, hj⟩ := List.mem_iff_getElem?.mp hrow
  refine ⟨j, row, Latest.search_eq_some hj ?_ ?_, hj, hd⟩
  · rw [continues_iff, stageBefore_eq hi]
    exact ⟨hd.pc.trans hpc.symm, hstage, by omega⟩
  · intro m row' hm hc hle
    obtain ⟨-, hstage', hbound⟩ := continues_iff.mp hc
    rw [stageBefore_eq hi] at hstage'
    obtain ⟨e, he⟩ := h.follows row' (List.mem_of_getElem? hm)
    obtain ⟨b, hb, -, hworks⟩ :=
      he.seen_of_ne_zero (InstrRow.lastStage_eq_some.mp hstage').1
    rw [InstrRow.lastCycle_of_lastStage hstage', hb] at hbound hle
    have hbc := hlatest hworks (by omega)
    obtain rfl : b = c := by omega
    rw [hworks.unique hbefore] at he
    exact h.row_unique hm hj (he.fetched.trans hd.fetched.symm)

-- The step lemma: a stage of a cycle.
theorem Rows.recordStage (hp : p.Sound) (hcycle : p.cpu.cycle = 0) (hnone : ∀ k, p.line k = none)
    (h : Rows p n (s.val + 1) rows) :
    Rows p n s.val (recordStage (n + 1) s ((p.run n).snapshot s) rows) := by
  cases hw : ((p.run n).snapshot s).working with
  | false =>
    rw [recordStage_idle hw]
    refine h.skip fun d hworks => ?_
    rw [(hp.run n).working_of_works hworks] at hw
    cases hw
  | true =>
    obtain ⟨d, hnow, hpc, hraw⟩ := (hp.run n).works_of_working hw
    rw [recordStage_working hw]
    by_cases hs : s = 0
    · subst hs
      rw [search_fetch h, hpc, hraw]
      exact h.append hp hcycle hnow
    · obtain ⟨j, row, hsearch, hj, hd⟩ := search_later hp hnone h hs hnow hpc
      rw [hsearch]
      exact h.modify hp hs hnow hj hd

theorem Rows.recordStages (hp : p.Sound) (hcycle : p.cpu.cycle = 0)
    (hnone : ∀ k, p.line k = none) (h : Rows p n 5 rows) :
    Rows p n 0 (recordStages (p.run (n + 1)).cpu.ps rows) := by
  have hnow : (p.run (n + 1)).cpu.ps.cycle = n + 1 := by
    rw [run_cpu]
    exact p.cpu.run_psCycle hcycle n
  have hstages : ∀ s, (p.run (n + 1)).cpu.ps.stages.get s = (p.run n).snapshot s := by
    intro s
    rw [run_succ]
    rfl
  have step : ∀ (s : Fin 5) {rows}, Rows p n (s.val + 1) rows →
      Rows p n s.val (PipelineTraceWidget.recordStage (n + 1) s ((p.run n).snapshot s) rows) :=
    fun s _ h => Rows.recordStage hp hcycle hnone h
  have horder : oldestFirst = [4, 3, 2, 1, 0] := by decide
  rw [PipelineTraceWidget.recordStages, horder, hnow]
  simp only [List.foldl_cons, List.foldl_nil, hstages]
  exact step 0 (step 1 (step 2 (step 3 (step 4 h))))

-- When all stages of a cycle have been recorded the cycle is over.
theorem seen_cycle : Seen p (n + 1) 5 s c d ↔ Seen p n 0 s c d := by
  have hs := s.isLt
  refine and_congr_left fun _ => ?_
  omega

-- What scrolls out of the window has no stage in it.
theorem Rows.visible (hp : p.Sound) (h : Rows p n 0 rows) :
    Rows p (n + 1) 5 (rows.filter fun row => !decide (row.lastCycle < firstVisible (n + 1))) where
  follows := by
    intro row hrow
    obtain ⟨d, hd⟩ := h.follows row (List.mem_of_mem_filter hrow)
    exact ⟨d, hd.congr seen_cycle⟩
  apart := h.apart.filter _
  recent := by
    intro s c d hseen hc
    rw [seen_cycle] at hseen
    obtain ⟨row, hrow, hd⟩ := h.recent hseen (Nat.le_of_succ_le hc)
    refine ⟨row, List.mem_filter.mpr ⟨hrow, ?_⟩, hd.congr seen_cycle⟩
    have hcell := hd.cells.mpr hseen
    have hlast := hd.le_lastCycle hp (s := s) (by omega)
    have hvisible : firstVisible (n + 1) ≤ row.lastCycle := by
      unfold firstVisible kMaxCycles at *
      split <;> omega
    simpa using hvisible

end Record

-- The rows after `n` cycles of a run.
structure Traced (cpu : PipelinedCpu) (n : ℕ) (rows : List InstrRow) : Prop where
  -- a row is that of one instruction, and says when that has worked in the stages
  belongs : ∀ row ∈ rows,
    ∃! d, Follows (fun s c d => c < n ∧ (cpu.occupied.run c).Works s d) d row
  increasing : ∀ row ∈ rows, ∀ {i s}, i < s → row.cycleInStage i ≠ 0 →
    row.cycleInStage s ≠ 0 → row.cycleInStage i < row.cycleInStage s
  -- a snapshot that is valid, not stalled and not flushed stands in one row until it has
  -- scrolled out of the window
  recorded : ∀ {c s}, c < n → n ≤ c + kMaxCycles →
    ((cpu.run (c + 1)).ps.stages.get s).working = true →
      ∃ (i : ℕ) (row : InstrRow), rows[i]? = some row ∧ row.cycleInStage s = c + 1 ∧
        row.pc = ((cpu.run (c + 1)).ps.stages.get s).pc ∧
        row.raw = ((cpu.run (c + 1)).ps.stages.get s).raw ∧
        ∀ {j : ℕ} {row' : InstrRow}, rows[j]? = some row' → row'.cycleInStage s = c + 1 → j = i
  -- no two rows are of one instruction or hold a stage for one cycle
  apart : rows.Pairwise fun a b =>
    a.cycleInStage 0 < b.cycleInStage 0 ∧
      ∀ s, a.cycleInStage s ≠ 0 → a.cycleInStage s ≠ b.cycleInStage s

theorem seen_iff : Seen p n 5 s c d ↔ c < n ∧ (p.run c).Works s d := by
  have hs := s.isLt
  refine and_congr_left fun _ => ?_
  omega

-- Two rows with a stage in one cycle are one.
theorem Rows.same_cell (h : Rows p n k rows) {i j : ℕ} {row row' : InstrRow}
    (hi : rows[i]? = some row) (hj : rows[j]? = some row') (hs : row.cycleInStage s ≠ 0)
    (heq : row.cycleInStage s = row'.cycleInStage s) : i = j := by
  obtain ⟨d, hd⟩ := h.follows row (List.mem_of_getElem? hi)
  obtain ⟨e, he⟩ := h.follows row' (List.mem_of_getElem? hj)
  obtain ⟨c, hc, -, hworks⟩ := hd.seen_of_ne_zero hs
  have hworks' := (he.cells.mp (heq.symm.trans hc)).2
  rw [hworks.unique hworks'] at hd
  exact h.row_unique hi hj (hd.fetched.trans he.fetched.symm)

theorem Rows.traced {cpu : PipelinedCpu} (hp : cpu.occupied.Sound)
    (h : Rows cpu.occupied n 5 rows) : Traced cpu n rows where
  belongs := by
    intro row hrow
    obtain ⟨d, hd⟩ := h.follows row hrow
    refine ⟨d, hd.congr seen_iff.symm, fun e he => ?_⟩
    exact (he.congr seen_iff).unique hd
  increasing := by
    intro row hrow i s his hi hs
    obtain ⟨d, hd⟩ := h.follows row hrow
    exact hd.increasing hp his hi hs
  recorded := by
    intro c s hcn hvisible hw
    have hsnap : (cpu.run (c + 1)).ps.stages.get s = (cpu.occupied.run c).snapshot s := by
      rw [PipelinedCpu.run_succ, Occupied.snapshot, step_cpu, run_cpu]
      rfl
    rw [hsnap] at hw ⊢
    obtain ⟨d, hworks, hpc, hraw⟩ := (hp.run c).works_of_working hw
    obtain ⟨row, hrow, hd⟩ := h.recent (seen_iff.mpr ⟨hcn, hworks⟩) hvisible
    obtain ⟨i, hi⟩ := List.mem_iff_getElem?.mp hrow
    have hcell := hd.cells.mpr (seen_iff.mpr ⟨hcn, hworks⟩)
    refine ⟨i, row, hi, hcell, hd.pc.trans hpc.symm, hd.raw.trans hraw.symm, ?_⟩
    intro j row' hj hcell'
    exact h.same_cell hj hi (by rw [hcell']; exact Nat.succ_ne_zero c) (hcell'.trans hcell.symm)
  apart := by
    refine List.pairwise_iff_getElem.mpr fun i j hi hj hij => ?_
    refine ⟨List.pairwise_iff_getElem.mp h.apart i j hi hj hij, fun s hs heq => ?_⟩
    have hsame := h.same_cell (List.getElem?_eq_getElem hi) (List.getElem?_eq_getElem hj) hs heq
    exact absurd hsame hij.ne

-- The next cycle of a run is added to the rows.
theorem updateCycle_next {w : PipelineTraceWidget} {state : PipelineState}
    (h : state.cycle = w.lastCycle + 1) :
    (w.updateCycle state).rows = (recordStages state w.rows).filter fun row =>
      !decide (row.lastCycle < firstVisible state.cycle) := by
  have hrestart : ¬(state.cycle ≤ w.lastCycle ∨ kMaxCycles < state.cycle - w.lastCycle) := by
    unfold kMaxCycles
    omega
  rw [updateCycle, if_neg hrestart]

-- The first cycle after a reset finds no rows, or drops them.
theorem updateCycle_first {w : PipelineTraceWidget} {state : PipelineState}
    (hw : w.lastCycle = 0 → w.rows = []) (h : state.cycle = 1) :
    (w.updateCycle state).rows = (recordStages state []).filter fun row =>
      !decide (row.lastCycle < firstVisible state.cycle) := by
  rw [updateCycle]
  split
  · rfl
  · rename_i hrestart
    rw [hw (by omega)]

theorem rows_watch {cpu : PipelinedCpu} (h : cpu.Empty) (hcycle : cpu.cycle = 0)
    {w : PipelineTraceWidget} (hw : w.lastCycle = 0 → w.rows = []) (n : ℕ) :
    (w.watch cpu (n + 1)).lastCycle = n + 1 ∧
      Rows cpu.occupied (n + 1) 5 (w.watch cpu (n + 1)).rows := by
  have hnow := cpu.run_psCycle hcycle
  have hnone : ∀ k, cpu.occupied.line k = none := by
    intro k
    match k with
    | 0 | 1 | 2 | 3 | _ + 4 => rfl
  have step : ∀ {n rows}, Rows cpu.occupied n 5 rows →
      Rows cpu.occupied (n + 1) 5 ((recordStages (cpu.run (n + 1)).ps rows).filter fun row =>
        !decide (row.lastCycle < firstVisible (n + 1))) := by
    intro n rows hrows
    have hrec := Rows.recordStages h.sound hcycle hnone hrows
    rw [run_cpu] at hrec
    exact Rows.visible h.sound hrec
  induction n with
  | zero =>
    refine ⟨hnow 0, ?_⟩
    rw [watch, watch, updateCycle_first hw (hnow 0), hnow]
    exact step ⟨by simp, List.Pairwise.nil, fun hseen => by cases hseen.1 <;> omega⟩
  | succ n ih =>
    refine ⟨hnow (n + 1), ?_⟩
    rw [watch, updateCycle_next (by rw [hnow, ih.1]), hnow]
    exact step ih.2

-- In every run from reset the rows of the trace follow the instructions.
theorem traced_of_run {cpu : PipelinedCpu} (h : cpu.Empty) (hcycle : cpu.cycle = 0)
    {w : PipelineTraceWidget} (hw : w.lastCycle = 0 → w.rows = []) (n : ℕ) :
    Traced cpu (n + 1) (w.watch cpu (n + 1)).rows :=
  (rows_watch h hcycle hw n).2.traced h.sound

-- addi $t0, $t0, 1; beq $0, $0, -2: the addi is in WB and in IF in one cycle.
def tightLoop : PipelinedCpu where
  regs := .initial
  mem := Memory.loadWordsFrom 0#32 0 [0x21080001#32, 0x1000FFFE#32] (.ofSize 16)

theorem traced_of_run_tightLoop :
    Traced tightLoop 5 (({} : PipelineTraceWidget).watch tightLoop 5).rows ∧
      ((({} : PipelineTraceWidget).watch tightLoop 5).rows.map fun row =>
        (row.pc, (List.finRange 5).map row.cycleInStage)) =
        [(0#32, [1, 2, 3, 4, 5]), (4#32, [2, 3, 4, 5, 0]), (8#32, [3, 0, 0, 0, 0]),
          (0#32, [5, 0, 0, 0, 0])] :=
  ⟨traced_of_run ⟨rfl, rfl, rfl, rfl⟩ rfl (fun _ => rfl) 4, by decide⟩

end PipelineTraceWidget

end ClearCore.Qt
