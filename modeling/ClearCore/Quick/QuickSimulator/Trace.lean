import ClearCore.Mips.Pipelined.StageCycles
import ClearCore.Quick.QuickSimulator

-- The rows of the trace grid against the instructions of the run.

namespace ClearCore.Quick

open Isa Mips Qt Occupied

-- The tags of the stages.
def stageName : Fin 5 → String
  | 0 => "IF"
  | 1 => "ID"
  | 2 => "EX"
  | 3 => "MEM"
  | 4 => "WB"

theorem stageName_injective {s i : Fin 5} (h : stageName s = stageName i) : s = i := by
  revert h
  revert s i
  decide

theorem stageName_ne_idle (s : Fin 5) : stageName s ≠ "  " ∧ stageName s ≠ "**" := by
  revert s
  decide

-- A stage displays an instruction of the address.
def Displays (ps : PipelineState) (s : Fin 5) (pc : Word) : Prop :=
  (ps.stages.get s).valid = true ∧ (ps.stages.get s).pc = pc

instance instDecidableDisplays (ps : PipelineState) (s : Fin 5) (pc : Word) :
    Decidable (Displays ps s pc) := inferInstanceAs (Decidable (_ ∧ _))

def Named (ps : PipelineState) : Prop := ∀ s, (ps.stages.get s).name = stageName s

theorem step_named (cpu : PipelinedCpu) : Named cpu.step.2.ps := by
  intro s
  match s with
  | 0 | 1 | 2 | 3 | 4 => rfl

theorem run_named (cpu : PipelinedCpu) (n : ℕ) : Named (cpu.run (n + 1)).ps := by
  rw [PipelinedCpu.run_succ]
  exact step_named _

namespace TraceRow

variable {row : TraceRow} {ps : PipelineState} {s : Fin 5} {cycle : ℕ}

-- The cell of a cycle: the first is that of the start.
def cell (row : TraceRow) (cycle : ℕ) : Option String :=
  if row.startCycle ≤ cycle then row.cells[cycle - row.startCycle]? else none

theorem live_iff {cycles : ℕ} : row.live cycle cycles = true ↔
    row.startCycle ≤ cycle ∧ cycle - row.startCycle < cycles := by
  simp [live]

section Tag

variable {t : String}

theorem finRange_five : List.finRange 5 = [0, 1, 2, 3, 4] := by decide

theorem tagStage_idle (h : ¬(Displays ps s row.pc ∧ row.live cycle 16 = true)) :
    row.tagStage cycle t s (ps.stages.get s) = t := by
  refine if_neg fun hc => h ?_
  simp only [Bool.and_eq_true, decide_eq_true_eq] at hc
  exact hc

theorem tagStage_takes (hd : Displays ps s row.pc) (hlive : row.live cycle 16 = true)
    (ht : s.val = cycle - row.startCycle ∨ t = "  ") :
    row.tagStage cycle t s (ps.stages.get s) = (ps.stages.get s).name := by
  rw [tagStage, if_pos (by simp [hd.1, hd.2, hlive]), if_pos ht]

theorem tagStage_taken (hs : s.val ≠ cycle - row.startCycle) (ht : t ≠ "  ") :
    row.tagStage cycle t s (ps.stages.get s) = t := by
  rw [tagStage]
  split
  · exact if_neg fun h => h.elim hs ht
  · rfl

-- The stage as far away as the row is old takes the cell.
theorem tag_own (hnamed : Named ps) (hd : Displays ps s row.pc)
    (hs : row.startCycle + s.val = ps.cycle) : row.tag ps = stageName s := by
  have hlive : row.live ps.cycle 16 = true := live_iff.mpr (by omega)
  have hown : ∀ {t}, row.tagStage ps.cycle t s (ps.stages.get s) = stageName s :=
    (tagStage_takes hd hlive (.inl (by omega))).trans (hnamed s)
  have htaken : ∀ {i : Fin 5}, s < i →
      row.tagStage ps.cycle (stageName s) i (ps.stages.get i) = stageName s :=
    fun hi => tagStage_taken (by omega) (stageName_ne_idle s).1
  have hfold : (List.finRange 5).foldl
      (fun tag i => row.tagStage ps.cycle tag i (ps.stages.get i)) "  " = stageName s := by
    rw [finRange_five]
    simp only [List.foldl_cons, List.foldl_nil]
    match s with
    | 0 | 1 | 2 | 3 | 4 => simp (disch := decide) only [hown, htaken]
  rw [tag, hfold]
  simp [(stageName_ne_idle s).1]

-- Without a stage to display the cell is blank.
theorem tag_idle (h : ∀ i, ¬(Displays ps i row.pc ∧ row.live ps.cycle 16 = true)) :
    row.tag ps ≠ stageName s := by
  have hfold : (List.finRange 5).foldl
      (fun tag i => row.tagStage ps.cycle tag i (ps.stages.get i)) "  " = "  " := by
    rw [finRange_five]
    simp only [List.foldl_cons, List.foldl_nil, tagStage_idle (h _)]
  rw [tag, hfold]
  split
  · exact (stageName_ne_idle s).2.symm
  · exact (stageName_ne_idle s).1.symm

-- A live row without a stage that is its own takes the first that displays its address.
theorem tag_first (hnamed : Named ps) (hlive : row.live ps.cycle 16 = true)
    (hno : ∀ i : Fin 5, row.startCycle + i.val = ps.cycle → ¬Displays ps i row.pc)
    (hd : Displays ps s row.pc) : ∃ i, Displays ps i row.pc ∧ row.tag ps = stageName i := by
  have htaken : ∀ {t} (stages : List (Fin 5)), t ≠ "  " →
      stages.foldl (fun tag i => row.tagStage ps.cycle tag i (ps.stages.get i)) t = t := by
    intro t stages ht
    induction stages with
    | nil => rfl
    | cons i rest ih =>
      have hi : row.tagStage ps.cycle t i (ps.stages.get i) = t := by
        by_cases hdi : Displays ps i row.pc
        · refine tagStage_taken (fun hage => hno i ?_ hdi) ht
          have hstart := (live_iff.mp hlive).1
          omega
        · exact tagStage_idle fun h => hdi h.1
      rw [List.foldl_cons, hi, ih]
  have hfold : ∀ stages : List (Fin 5), s ∈ stages → ∃ i, Displays ps i row.pc ∧
      stages.foldl (fun tag i => row.tagStage ps.cycle tag i (ps.stages.get i)) "  " =
        stageName i := by
    intro stages hs
    induction stages with
    | nil => cases hs
    | cons i rest ih =>
      rw [List.foldl_cons]
      by_cases hdi : Displays ps i row.pc
      · rw [tagStage_takes hdi hlive (.inr rfl), hnamed i]
        exact ⟨i, hdi, htaken rest (stageName_ne_idle i).1⟩
      · rw [tagStage_idle fun h => hdi h.1]
        refine ih ((List.mem_cons.mp hs).resolve_left ?_)
        rintro rfl
        exact hdi hd
  obtain ⟨i, hdi, hi⟩ := hfold _ (List.mem_finRange s)
  refine ⟨i, hdi, ?_⟩
  rw [tag, hi]
  simp [(stageName_ne_idle i).1]

end Tag

section Cells

-- A row has a cell for each cycle since its start.
def Filled (row : TraceRow) (n : ℕ) : Prop := row.cells.length + row.startCycle = n + 1

@[simp] theorem mark_startCycle (row : TraceRow) (ps : PipelineState) :
    (row.mark ps).startCycle = row.startCycle := rfl

theorem Filled.mark {n : ℕ} (h : row.Filled n) : (row.mark ps).Filled (n + 1) := by
  have hlen : (row.mark ps).cells.length = row.cells.length + 1 := List.length_append
  rw [Filled] at h ⊢
  rw [mark_startCycle, hlen]
  omega

theorem Filled.cell_mark {n c : ℕ} (h : row.Filled n) (hc : c < n) :
    (row.mark ps).cell (c + 1) = row.cell (c + 1) := by
  rw [Filled] at h
  unfold cell
  rw [mark_startCycle]
  split
  · exact List.getElem?_append_left (by omega)
  · rfl

theorem Filled.cell_now {n : ℕ} (h : row.Filled n) :
    (row.mark ps).cell (n + 1) = some (row.tag ps) := by
  rw [Filled] at h
  have hlast : n + 1 - row.startCycle = row.cells.length := by omega
  rw [cell, mark_startCycle, if_pos (by omega), hlast, TraceRow.mark]
  exact List.getElem?_concat_length

end Cells

end TraceRow

-- The row of an instruction shows in each cycle the stage the instruction is in.
structure RowOf (cpu : PipelinedCpu) (n : ℕ) (d : DynamicInstr) (row : TraceRow) : Prop where
  pc : row.pc = d.pc
  startCycle : row.startCycle = d.fetched
  label : row.label = hex32 d.pc ++ "  ".toList ++ disasm d.raw d.pc
  entered : ∃ b, d.fetched = b + 1 ∧ (cpu.occupied.run b).occupant 0 = some d
  cells : ∀ {s c}, c < n →
    (row.cell (c + 1) = some (stageName s) ↔ (cpu.occupied.run c).occupant s = some d)

-- The grid with the fetches before cycle `m`, and its cells before cycle `n`.
structure Grid (cpu : PipelinedCpu) (n m : ℕ) (grid : List TraceRow) : Prop where
  rows : ∀ row ∈ grid, row.Filled n ∧ row.startCycle ≤ m ∧ ∃ d, RowOf cpu n d row
  apart : grid.Pairwise fun a b => a.startCycle < b.startCycle
  -- an instruction has its row until that is dropped, with the older rows
  complete : ∀ {b d}, b < m → (cpu.occupied.run b).occupant 0 = some d →
    m ≤ b + 5 ∨ (∃ row ∈ grid, row.startCycle ≤ b + 1) → ∃ row ∈ grid, RowOf cpu n d row

-- A row shows no stage of its address once its own instruction is in none.
def Undisturbed (row : TraceRow) (ps : PipelineState) : Prop :=
  row.live ps.cycle 16 = true → ∀ s, Displays ps s row.pc →
    ∃ i : Fin 5, row.startCycle + i.val = ps.cycle ∧ Displays ps i row.pc

instance instDecidableUndisturbed (row : TraceRow) (ps : PipelineState) :
    Decidable (Undisturbed row ps) := inferInstanceAs (Decidable (_ → ∀ _, _ → ∃ _, _))

variable {cpu : PipelinedCpu} {n m b : ℕ} {s : Fin 5} {d e : DynamicInstr} {row : TraceRow}
  {grid : List TraceRow} {ps : PipelineState}

theorem occupied_line (cpu : PipelinedCpu) (k : ℕ) : cpu.occupied.line k = none := by
  match k with
  | 0 | 1 | 2 | 3 | _ + 4 => rfl

theorem fetched_of_enters (hcycle : cpu.cycle = 0) (hn : ¬(cpu.run b).Held)
    (hd : (cpu.occupied.run b).occupant 0 = some d) : d.fetched = b + 1 := by
  have hcpu : (cpu.occupied.run b).cpu = cpu.run b := run_cpu _ _
  rw [fetchedInstr_fetched (starts (by rwa [hcpu]) hd), hcpu, PipelinedCpu.run_cycle, hcycle,
    Nat.zero_add]

-- Without held cycles an instruction is in the stage that is as far as it is old.
theorem age_of_occupant (hcycle : cpu.cycle = 0) (hn : ∀ b ≤ n, ¬(cpu.run b).Held)
    (hd : (cpu.occupied.run n).occupant s = some d) :
    ∃ b, d.fetched = b + 1 ∧ b + s.val = n ∧ (cpu.occupied.run b).occupant 0 = some d := by
  obtain ⟨b, hb, hzero⟩ := occupant_back (occupied_line cpu) hd
  exact ⟨b, fetched_of_enters hcycle (hn b (by omega)) hzero, hb, hzero⟩

theorem displays_iff (h : cpu.Empty) {pc : Word} :
    Displays (cpu.run (n + 1)).ps s pc ↔
      ∃ d, (cpu.occupied.run n).occupant s = some d ∧ d.pc = pc := by
  have hcpu : (cpu.run (n + 1)).ps = (cpu.occupied.run n).step.cpu.ps := by
    rw [PipelinedCpu.run_succ, step_cpu, run_cpu]
    rfl
  have hshown := (h.sound.run n).shown s
  rw [← hcpu, StageSnapshot.shown] at hshown
  constructor
  · rintro ⟨hv, rfl⟩
    rw [if_pos hv] at hshown
    obtain ⟨d, hd, heq⟩ := Option.map_eq_some_iff.mp hshown.symm
    exact ⟨d, hd, congrArg Prod.fst heq⟩
  · rintro ⟨d, hd, rfl⟩
    rw [hd] at hshown
    by_cases hv : ((cpu.run (n + 1)).ps.stages.get s).valid = true
    · rw [if_pos hv] at hshown
      exact ⟨hv, congrArg Prod.fst (Option.some.inj hshown)⟩
    · rw [if_neg hv] at hshown
      cases hshown

namespace RowOf

theorem unique (hd : RowOf cpu n d row) (he : RowOf cpu n e row) : d = e := by
  obtain ⟨b, hb, hzero⟩ := hd.entered
  obtain ⟨c, hc, hzero'⟩ := he.entered
  obtain rfl : b = c := by
    have hstart := hd.startCycle.symm.trans he.startCycle
    omega
  exact Option.some.inj (hzero.symm.trans hzero')

-- The new cell of an undisturbed row is the stage of its instruction.
theorem tag_iff (h : RowOf cpu m d row) (hempty : cpu.Empty) (hcycle : cpu.cycle = 0)
    (hn : ∀ b ≤ n, ¬(cpu.run b).Held) (hnow : (cpu.run (n + 1)).ps.cycle = n + 1)
    (hrow : Undisturbed row (cpu.run (n + 1)).ps) :
    row.tag (cpu.run (n + 1)).ps = stageName s ↔ (cpu.occupied.run n).occupant s = some d := by
  have hnamed := run_named cpu n
  constructor
  · intro htag
    by_contra hno
    refine absurd htag (TraceRow.tag_idle ?_)
    rintro i ⟨hi, hlive⟩
    obtain ⟨j, hj, hown⟩ := hrow hlive i hi
    obtain rfl : j = s :=
      stageName_injective ((TraceRow.tag_own hnamed hown hj).symm.trans htag)
    obtain ⟨e, he, -⟩ := (displays_iff hempty).mp hown
    obtain ⟨b, hb, hbn, hzero⟩ := age_of_occupant hcycle hn he
    obtain ⟨c, hc, hzero'⟩ := h.entered
    obtain rfl : b = c := by
      have hstart := h.startCycle
      omega
    obtain rfl := Option.some.inj (hzero.symm.trans hzero')
    exact hno he
  · intro hd
    obtain ⟨b, hb, hbn, -⟩ := age_of_occupant hcycle hn hd
    refine TraceRow.tag_own hnamed ((displays_iff hempty).mpr ⟨d, hd, h.pc.symm⟩) ?_
    rw [h.startCycle, hb, hnow]
    omega

theorem mark (h : RowOf cpu n d row) (hfilled : row.Filled n) (hempty : cpu.Empty)
    (hcycle : cpu.cycle = 0) (hn : ∀ b ≤ n, ¬(cpu.run b).Held)
    (hnow : (cpu.run (n + 1)).ps.cycle = n + 1) (hrow : Undisturbed row (cpu.run (n + 1)).ps) :
    RowOf cpu (n + 1) d (row.mark (cpu.run (n + 1)).ps) where
  pc := h.pc
  startCycle := h.startCycle
  label := h.label
  entered := h.entered
  cells := by
    intro s c hc
    rcases Nat.lt_succ_iff_lt_or_eq.mp hc with hc | rfl
    · rw [hfilled.cell_mark hc]
      exact h.cells hc
    · rw [hfilled.cell_now, Option.some.injEq]
      exact h.tag_iff hempty hcycle hn hnow hrow

end RowOf

-- Rows that start one after the other in a span of cycles are no more than its cycles.
theorem length_le_of_apart {low high : ℕ} (hle : low ≤ high)
    (hapart : grid.Pairwise fun a b => a.startCycle < b.startCycle)
    (hspan : ∀ row ∈ grid, low < row.startCycle ∧ row.startCycle ≤ high) :
    grid.length + low ≤ high := by
  induction grid generalizing low with
  | nil => simpa using hle
  | cons row rest ih =>
    obtain ⟨hfirst, hapart⟩ := List.pairwise_cons.mp hapart
    obtain ⟨hlow, hhigh⟩ := hspan row List.mem_cons_self
    have hrest := ih hhigh hapart fun other hother =>
      ⟨hfirst other hother, (hspan other (List.mem_cons_of_mem row hother)).2⟩
    rw [List.length_cons]
    omega

-- A row of the grid was there, or starts in the cycle.
theorem mem_enterRow {cycle : ℕ} {st : StageSnapshot} (h : row ∈ enterRow grid cycle st) :
    row ∈ grid ∨ row.startCycle = cycle ∧ st.valid = true ∧ st.pc = row.pc := by
  unfold enterRow at h
  split at h
  · rename_i hv
    have hmem : row ∈ grid ++ [
        { pc := st.pc, startCycle := cycle
          label := hex32 st.pc ++ "  ".toList ++ disasm st.raw st.pc }] := by
      dsimp only at h
      split at h
      · exact List.mem_of_mem_tail h
      · exact h
    refine (List.mem_append.mp hmem).imp_right fun hnew => ?_
    rw [List.mem_singleton.mp hnew]
    exact ⟨rfl, hv, rfl⟩
  · exact .inl h

namespace Grid

-- Dropping the oldest of too many rows.
theorem tail (h : Grid cpu n m grid) (hcycle : cpu.cycle = 0)
    (hn : ∀ b < m, ¬(cpu.run b).Held) (hlen : TraceRow.kTraceMaxRows < grid.length) :
    Grid cpu n m grid.tail := by
  cases grid with
  | nil => cases hlen
  | cons oldest rest =>
    obtain ⟨hfirst, hapart⟩ := List.pairwise_cons.mp h.apart
    refine ⟨fun row hrow => h.rows row (List.mem_cons_of_mem oldest hrow), hapart, ?_⟩
    intro b d hb hd hkept
    have hold : m ≤ b + 5 ∨ ∃ row ∈ oldest :: rest, row.startCycle ≤ b + 1 := by
      refine hkept.imp_right fun hrest => ?_
      obtain ⟨row, hrow, hle⟩ := hrest
      exact ⟨row, List.mem_cons_of_mem oldest hrow, hle⟩
    obtain ⟨row, hrow, hof⟩ := h.complete hb hd hold
    rcases List.mem_cons.mp hrow with rfl | hrow
    · have hstart := hof.startCycle.trans (fetched_of_enters hcycle (hn b hb) hd)
      rcases hkept with hrecent | ⟨other, hother, hle⟩
      · have hspan := length_le_of_apart (h.rows row List.mem_cons_self).2.1 hapart
          fun other hother =>
            ⟨hfirst other hother, (h.rows other (List.mem_cons_of_mem row hother)).2.1⟩
        rw [List.length_cons, TraceRow.kTraceMaxRows] at hlen
        omega
      · have hlt := hfirst other hother
        omega
    · exact ⟨row, hrow, hof⟩

-- IF starts the row of the instruction it fetches.
theorem append (h : Grid cpu n n grid) (hcycle : cpu.cycle = 0)
    (hn : ∀ b ≤ n, ¬(cpu.run b).Held) (hd : (cpu.occupied.run n).occupant 0 = some d) :
    Grid cpu n (n + 1) (grid ++ [
      { pc := d.pc, startCycle := n + 1
        label := hex32 d.pc ++ "  ".toList ++ disasm d.raw d.pc }]) := by
  have hfetched := fetched_of_enters hcycle (hn n (Nat.le_refl n)) hd
  have hnew : RowOf cpu n d
      { pc := d.pc, startCycle := n + 1
        label := hex32 d.pc ++ "  ".toList ++ disasm d.raw d.pc } := by
    refine ⟨rfl, hfetched.symm, rfl, ⟨n, hfetched, hd⟩, fun {s c} hc => ?_⟩
    rw [TraceRow.cell, if_neg (by dsimp only; omega)]
    refine ⟨fun hcell => absurd hcell.symm (Option.some_ne_none _), fun hocc => ?_⟩
    obtain ⟨b, hb, hbc, -⟩ :=
      age_of_occupant hcycle (fun b hb => hn b (by omega)) hocc
    omega
  refine ⟨fun row hrow => ?_, List.pairwise_append.mpr ⟨h.apart, List.pairwise_singleton _ _, ?_⟩, ?_⟩
  · rcases List.mem_append.mp hrow with hrow | hrow
    · obtain ⟨hfilled, hle, hof⟩ := h.rows row hrow
      exact ⟨hfilled, Nat.le_succ_of_le hle, hof⟩
    · rw [List.mem_singleton.mp hrow]
      exact ⟨Nat.zero_add _, Nat.le_refl _, d, hnew⟩
  · intro a ha b hb
    rw [List.mem_singleton.mp hb]
    exact Nat.lt_succ_of_le (h.rows a ha).2.1
  · intro b e hb he hkept
    rcases Nat.lt_succ_iff_lt_or_eq.mp hb with hb | rfl
    · have hold : n ≤ b + 5 ∨ ∃ row ∈ grid, row.startCycle ≤ b + 1 := by
        rcases hkept with hrecent | ⟨row, hrow, hle⟩
        · exact .inl (by omega)
        · rcases List.mem_append.mp hrow with hrow | hrow
          · exact .inr ⟨row, hrow, hle⟩
          · rw [List.mem_singleton.mp hrow] at hle
            dsimp only at hle
            omega
      obtain ⟨row, hrow, hof⟩ := h.complete hb he hold
      exact ⟨row, List.mem_append_left _ hrow, hof⟩
    · obtain rfl := Option.some.inj (hd.symm.trans he)
      exact ⟨_, List.mem_append_right _ (List.mem_singleton_self _), hnew⟩

-- Without a fetch there is nothing to start.
theorem idle (h : Grid cpu n n grid) (hd : (cpu.occupied.run n).occupant 0 = none) :
    Grid cpu n (n + 1) grid where
  rows row hrow := by
    obtain ⟨hfilled, hle, hof⟩ := h.rows row hrow
    exact ⟨hfilled, Nat.le_succ_of_le hle, hof⟩
  apart := h.apart
  complete := by
    intro b e hb he hkept
    rcases Nat.lt_succ_iff_lt_or_eq.mp hb with hb | rfl
    · exact h.complete hb he (hkept.imp_left fun hrecent => by omega)
    · rw [hd] at he
      cases he

theorem enterRow (h : Grid cpu n n grid) (hempty : cpu.Empty) (hcycle : cpu.cycle = 0)
    (hn : ∀ b ≤ n, ¬(cpu.run b).Held) :
    Grid cpu n (n + 1) (enterRow grid (n + 1) (cpu.run (n + 1)).ps.stages.ifs) := by
  have hshown := (hempty.sound.run n).shown 0
  have hps : ((cpu.occupied.run n).step.cpu.ps.stages.get 0) = (cpu.run (n + 1)).ps.stages.ifs := by
    rw [step_cpu, run_cpu, PipelinedCpu.run_succ]
    rfl
  rw [hps, StageSnapshot.shown] at hshown
  unfold Quick.enterRow
  split
  · rename_i hv
    rw [if_pos hv] at hshown
    obtain ⟨d, hd, heq⟩ := Option.map_eq_some_iff.mp hshown.symm
    obtain ⟨hpc, hraw⟩ := Prod.mk.inj heq
    rw [← hpc, ← hraw]
    have happend := h.append hcycle hn hd
    dsimp only
    split
    · exact happend.tail hcycle (fun b hb => hn b (by omega)) ‹_›
    · exact happend
  · rename_i hv
    rw [if_neg hv] at hshown
    exact h.idle (Option.map_eq_none_iff.mp hshown.symm)

-- The step lemma: a cycle that holds nothing and disturbs no row.
theorem appendTrace (h : Grid cpu n n grid) (hempty : cpu.Empty) (hcycle : cpu.cycle = 0)
    (hn : ∀ b ≤ n, ¬(cpu.run b).Held) (hmax : n < TraceRow.kTraceMaxCycles)
    (hrows : ∀ row ∈ grid, Undisturbed row (cpu.run (n + 1)).ps) :
    Grid cpu (n + 1) (n + 1) (appendTrace grid (cpu.run (n + 1)).ps) := by
  have hnow := cpu.run_psCycle hcycle n
  have hentered := h.enterRow hempty hcycle hn
  have hrows' : ∀ row ∈ Quick.enterRow grid (n + 1) (cpu.run (n + 1)).ps.stages.ifs,
      Undisturbed row (cpu.run (n + 1)).ps := by
    intro row hrow
    rcases mem_enterRow hrow with hold | ⟨hstart, hv, hpc⟩
    · exact hrows row hold
    · intro _ _ _
      exact ⟨0, by rw [hstart, hnow]; rfl, hv, hpc⟩
  rw [Quick.appendTrace, hnow, if_neg (not_lt.mpr hmax)]
  have hmark : ∀ {row d}, row ∈ Quick.enterRow grid (n + 1) (cpu.run (n + 1)).ps.stages.ifs →
      RowOf cpu n d row → RowOf cpu (n + 1) d (row.mark (cpu.run (n + 1)).ps) :=
    fun hrow hof =>
      hof.mark (hentered.rows _ hrow).1 hempty hcycle hn hnow (hrows' _ hrow)
  refine ⟨fun row hrow => ?_, List.pairwise_map.mpr hentered.apart, fun {b d} hb hd hkept => ?_⟩
  · obtain ⟨before, hbefore, rfl⟩ := List.mem_map.mp hrow
    obtain ⟨hfilled, hle, d, hof⟩ := hentered.rows before hbefore
    exact ⟨hfilled.mark, hle, d, hmark hbefore hof⟩
  · have hkept' : n + 1 ≤ b + 5 ∨
        ∃ row ∈ Quick.enterRow grid (n + 1) (cpu.run (n + 1)).ps.stages.ifs,
          row.startCycle ≤ b + 1 := by
      refine hkept.imp_right fun hold => ?_
      obtain ⟨row, hrow, hle⟩ := hold
      obtain ⟨before, hbefore, rfl⟩ := List.mem_map.mp hrow
      exact ⟨before, hbefore, hle⟩
    obtain ⟨row, hrow, hof⟩ := hentered.complete hb hd hkept'
    exact ⟨_, List.mem_map_of_mem hrow, hmark hrow hof⟩

-- A live row is not among those that are dropped.
theorem mem_of_live (h : Grid cpu n n grid) (hrow : row ∈ grid)
    (hlive : row.live (n + 1) 16 = true) (st : StageSnapshot) :
    row ∈ Quick.enterRow grid (n + 1) st := by
  have hstart := (TraceRow.live_iff.mp hlive).2
  unfold Quick.enterRow
  split
  · dsimp only
    split
    · rename_i hlen
      cases grid with
      | nil => cases hrow
      | cons oldest rest =>
        obtain ⟨hfirst, hapart⟩ := List.pairwise_cons.mp h.apart
        rcases List.mem_cons.mp hrow with rfl | hrest
        · have hspan := length_le_of_apart (h.rows row List.mem_cons_self).2.1 hapart
            fun other hother =>
              ⟨hfirst other hother, (h.rows other (List.mem_cons_of_mem row hother)).2.1⟩
          rw [List.length_append, List.length_cons, List.length_singleton,
            TraceRow.kTraceMaxRows] at hlen
          omega
        · exact List.mem_append_left _ hrest
    · exact List.mem_append_left _ hrow
  · exact hrow

theorem empty (cpu : PipelinedCpu) : Grid cpu 0 0 [] where
  rows _ hrow := absurd hrow List.not_mem_nil
  apart := List.Pairwise.nil
  complete hb := absurd hb (Nat.not_lt_zero _)

theorem row_unique (h : Grid cpu n m grid) {i j : ℕ} {row row' : TraceRow}
    (hi : grid[i]? = some row) (hj : grid[j]? = some row')
    (heq : row.startCycle = row'.startCycle) : i = j := by
  obtain ⟨hil, rfl⟩ := List.getElem?_eq_some_iff.mp hi
  obtain ⟨hjl, rfl⟩ := List.getElem?_eq_some_iff.mp hj
  have hapart := List.pairwise_iff_getElem.mp h.apart
  rcases Nat.lt_trichotomy i j with hlt | rfl | hgt
  · exact absurd heq (hapart i j hil hjl hlt).ne
  · rfl
  · exact absurd heq.symm (hapart j i hjl hil hgt).ne

end Grid

-- The grid after `n` cycles of a run.
structure Attributed (cpu : PipelinedCpu) (n : ℕ) (grid : List TraceRow) : Prop where
  -- a row is that of one instruction, and shows no stage of another
  belongs : ∀ row ∈ grid, ∃! d, RowOf cpu n d row
  apart : grid.Pairwise fun a b => a.startCycle < b.startCycle
  -- a stage with an instruction stands in one row until that is dropped, with the older rows
  shown : ∀ {c s d}, c < n → (cpu.occupied.run c).occupant s = some d →
    (∃ row ∈ grid, row.startCycle ≤ d.fetched) →
      ∃ (i : ℕ) (row : TraceRow), grid[i]? = some row ∧ RowOf cpu n d row ∧
        row.cell (c + 1) = some (stageName s) ∧
        ∀ {j : ℕ} {row' : TraceRow}, grid[j]? = some row' →
          row'.cell (c + 1) = some (stageName s) → j = i
  -- no instruction in the pipeline has lost its row
  kept : ∀ {c s d}, c + 1 = n → (cpu.occupied.run c).occupant s = some d →
    ∃ row ∈ grid, row.startCycle ≤ d.fetched

theorem Grid.attributed (h : Grid cpu n n grid) (hcycle : cpu.cycle = 0)
    (hn : ∀ b < n, ¬(cpu.run b).Held) : Attributed cpu n grid where
  belongs := by
    intro row hrow
    obtain ⟨-, -, d, hd⟩ := h.rows row hrow
    exact ⟨d, hd, fun e he => he.unique hd⟩
  apart := h.apart
  shown := by
    intro c s d hc hd hkept
    obtain ⟨b, hb, hbc, hzero⟩ :=
      age_of_occupant hcycle (fun b hb => hn b (lt_of_le_of_lt hb hc)) hd
    rw [hb] at hkept
    obtain ⟨row, hrow, hof⟩ := h.complete (by omega) hzero (.inr hkept)
    obtain ⟨i, hi⟩ := List.mem_iff_getElem?.mp hrow
    refine ⟨i, row, hi, hof, (hof.cells hc).mpr hd, fun {j row'} hj hcell => ?_⟩
    obtain ⟨-, -, e, he⟩ := h.rows row' (List.mem_of_getElem? hj)
    obtain rfl := Option.some.inj (((he.cells hc).mp hcell).symm.trans hd)
    exact h.row_unique hj hi (he.startCycle.trans hof.startCycle.symm)
  kept := by
    intro c s d hc hd
    obtain ⟨b, hb, hbc, hzero⟩ := age_of_occupant hcycle (fun b hb => hn b (by omega)) hd
    obtain ⟨row, hrow, hof⟩ := h.complete (by omega) hzero (.inl (by omega))
    exact ⟨row, hrow, hof.startCycle.le⟩

end ClearCore.Quick
