import ClearCore.Mips.Pipelined.Snapshot
import ClearCore.Qt.RegisterWidget

-- The registers that light up in a cycle, against those that the pipeline writes and reads.

namespace ClearCore.Qt

open Isa Mips PipelinedCpu

-- What the registers hold, their fades apart.
def RegisterFields.steady (fields : RegisterFields) : RegisterFields :=
  { fields with fadeStartMs := fun _ => -1 }

-- The cells are the same, unless one of them shows a write.
structure RegisterCell.SameCell (cell cell' : RegisterCell) : Prop where
  name : cell.name = cell'.name
  value : cell.value = cell'.value
  dark : cell.dark = cell'.dark
  highlight : cell.highlight ≠ .written → cell'.highlight ≠ .written →
    cell.highlight = cell'.highlight

namespace RegisterFields

variable {fields fields' : RegisterFields} {r : RegIdx}

theorem highlight_steady (h : (fields.cell r).highlight ≠ .written) :
    (fields.cell r).highlight = (fields.steady.cell r).highlight := by
  have hcell : ∀ fields : RegisterFields, (fields.cell r).highlight =
      if r = 0#5 then .zero
      else if fields.fading r then .written
      else if fields.readRs = some r ∨ fields.readRt = some r then .read
      else .idle := fun _ => rfl
  rw [hcell] at h
  rw [hcell, hcell]
  by_cases hzero : r = 0#5
  · rw [if_pos hzero, if_pos hzero]
  rw [if_neg hzero] at h ⊢
  by_cases hfading : fields.fading r = true
  · exact absurd (if_pos hfading) h
  · rw [if_neg hfading, if_neg hzero]
    rfl

theorem sameCell_of_steady (h : fields.steady = fields'.steady) (r : RegIdx) :
    (fields.cell r).SameCell (fields'.cell r) := by
  have hcell : fields.steady.cell r = fields'.steady.cell r := by rw [h]
  have hname := congrArg RegisterCell.name hcell
  have hvalue := congrArg RegisterCell.value hcell
  have hdark := congrArg RegisterCell.dark hcell
  refine ⟨hname, hvalue, hdark, fun hidle hidle' => ?_⟩
  rw [highlight_steady hidle, highlight_steady hidle', h]

end RegisterFields

namespace RegisterWidget

variable {cpu : PipelinedCpu}

-- The write of WB is told from the word alone.
theorem writtenRegister_step (h : cpu.WellFormed) :
    writtenRegister cpu.step.2.ps.stages.wb = cpu.memWb.gpr.map Prod.fst := by
  change (if cpu.memWb.valid && !false && !false && decide (cpu.memWb.raw ≠ 0#32) then
    ((Decoder.decode cpu.memWb.raw).bind destinationRegister).filter fun dest =>
      decide (dest ≠ 0#5) else none) = _
  cases hv : cpu.memWb.valid with
  | false =>
    rw [memWb_gpr_of_invalid hv]
    rfl
  | true =>
    obtain ⟨d, hd⟩ := h.memWb hv
    rw [hd.gpr hv, hd.decoded, Option.map_map]
    by_cases hraw : cpu.memWb.raw = 0#32
    · rw [destinationRegister_nop (hraw ▸ hd.decoded)]
      simp [hraw]
    · simp [hraw, Function.comp_def]

-- Register 0 apart, those that are marked as read are the sources of the instruction in ID.
theorem readMarks_step (cpu : PipelinedCpu) {r : RegIdx} (hr : r ≠ 0#5) :
    (readMarks cpu.step.2.ps.stages.id).a = some r ∨ (readMarks cpu.step.2.ps.stages.id).b = some r ↔
      ∃ d, cpu.idInstr = some d ∧ d.Sources r := by
  have hmarks : readMarks cpu.step.2.ps.stages.id =
      if cpu.ifId.valid && !cpu.ifId.fetchFault && decide (cpu.ifId.instr ≠ 0#32) then
        ((Decoder.decode cpu.ifId.instr).map sourceRegisters).getD {} else {} := rfl
  rw [hmarks]
  constructor
  · intro hmark
    split at hmark
    · rename_i hshown
      simp only [Bool.and_eq_true, Bool.not_eq_true'] at hshown
      cases hd : Decoder.decode cpu.ifId.instr with
      | none => simp [hd] at hmark
      | some d =>
        rw [hd] at hmark
        exact ⟨d, idInstr_eq_some.mpr ⟨hshown.1.1, hshown.1.2, hd⟩, hmark⟩
    · simp at hmark
  · rintro ⟨d, hd, hsrc⟩
    obtain ⟨hv, hfault, hdecode⟩ := idInstr_eq_some.mp hd
    have hraw : cpu.ifId.instr ≠ 0#32 := fun hraw => hr (sources_nop (hraw ▸ hdecode) hsrc)
    rw [hv, hfault, hdecode]
    simpa [hraw, DecodedInstr.Sources] using hsrc

-- What the cell of a register says of the cycle that `cpu` does next. `fading` is that an older
-- write of the register is still shown.
structure CellShows (cell : RegisterCell) (cpu : PipelinedCpu) (r : RegIdx) (fading : Bool) : Prop where
  value : cell.value = hexText (cpu.step.2.regs.read r)
  written : cell.highlight = .written ↔
    r ≠ 0#5 ∧ (fading = true ∨ ∃ value, cpu.memWb.gpr = some (r, value))
  read : cell.highlight = .read ↔ cell.highlight ≠ .written ∧ r ≠ 0#5 ∧
    ∃ d, cpu.idInstr = some d ∧ d.Sources r
  changed : cpu.step.2.regs.read r ≠ cpu.regs.read r → cell.highlight = .written

theorem written_of_changed {r : RegIdx} (hne : cpu.step.2.regs.read r ≠ cpu.regs.read r) :
    r ≠ 0#5 ∧ ∃ value, cpu.memWb.gpr = some (r, value) := by
  have hgpr := gpr_of_changed hne
  exact ⟨(read_of_gpr hgpr).2, _, hgpr⟩

-- The model that a cycle leaves, drawn or not.
theorem cell_shows {fields : RegisterFields} {r : RegIdx} {fading : Bool}
    (hvalues : fields.values = cpu.step.2.regs.read)
    (hmarks : SourceRegisters.mk fields.readRs fields.readRt = readMarks cpu.step.2.ps.stages.id)
    (hfading : fields.fading r = true ↔
      fading = true ∨ ∃ value, cpu.memWb.gpr = some (r, value)) :
    CellShows (fields.cell r) cpu r fading := by
  have hread : r ≠ 0#5 → (fields.readRs = some r ∨ fields.readRt = some r ↔
      ∃ d, cpu.idInstr = some d ∧ d.Sources r) := by
    intro hr
    rw [← readMarks_step cpu hr, ← hmarks]
  have hwritten : (fields.cell r).highlight = .written ↔ r ≠ 0#5 ∧ fields.fading r = true := by
    rw [RegisterFields.cell]
    split_ifs <;> simp_all
  have hreads : (fields.cell r).highlight = .read ↔ (fields.cell r).highlight ≠ .written ∧
      r ≠ 0#5 ∧ (fields.readRs = some r ∨ fields.readRt = some r) := by
    rw [RegisterFields.cell]
    split_ifs <;> simp_all
  constructor
  case value => exact congrArg hexText (congrFun hvalues r)
  case written => rw [hwritten, hfading]
  case read =>
    rw [hreads]
    exact and_congr_right fun _ => and_congr_right hread
  case changed =>
    intro hne
    obtain ⟨hr, hgpr⟩ := written_of_changed hne
    exact hwritten.mpr ⟨hr, hfading.mpr (.inr hgpr)⟩

-- A panel that is visible shows the cycle.
theorem updateCycle_shows (h : cpu.WellFormed) {w : RegisterWidget} (hv : w.view.visible = true)
    {now : ℤ} (hnow : 0 ≤ now) (r : RegIdx) :
    let w' := w.updateCycle now cpu.step.2.ps cpu.step.2.regs.read
    w'.view.visible = true ∧ CellShows (w'.view.picture r) cpu r (w.view.model.fading r) := by
  dsimp only
  rw [updateCycle, hv, writtenRegister_step h]
  cases hgpr : cpu.memWb.gpr with
  | none =>
    refine ⟨hv, cell_shows rfl rfl ?_⟩
    simp [hgpr, RegisterFields.fading]
  | some write =>
    obtain ⟨dest, value⟩ := write
    refine ⟨hv, cell_shows rfl rfl ?_⟩
    by_cases hr : r = dest
    · simp [hgpr, RegisterFields.fading, hr, hnow]
    · have hne : dest ≠ r := fun heq => hr heq.symm
      simp [hgpr, RegisterFields.fading, hr, hne]

theorem visible_updateCycle (w : RegisterWidget) (now : ℤ) (state : PipelineState)
    (vals : RegIdx → Word) :
    (w.updateCycle now state vals).view.visible = w.view.visible := by
  rw [updateCycle]
  cases hv : w.view.visible with
  | false => exact hv
  | true => cases writtenRegister state.stages.wb <;> exact hv

-- The cells are drawn of the fields, and while a register fades the timer runs.
structure Sound (w : RegisterWidget) : Prop where
  current : w.view.Current RegisterFields.cell
  fades : ∀ r, r ≠ 0#5 → w.view.model.fading r = true → w.timerActive = true

variable {w : RegisterWidget}

theorem sound_create : create.Sound := ⟨⟨fun _ => rfl, nofun⟩, fun _ _ hfading => by cases hfading⟩

theorem Sound.updateCycle (h : w.Sound) (now : ℤ) (state : PipelineState) (vals : RegIdx → Word) :
    (w.updateCycle now state vals).Sound := by
  rw [RegisterWidget.updateCycle]
  cases hv : w.view.visible with
  | false => exact ⟨LazyView.current_store hv _, h.fades⟩
  | true =>
    cases writtenRegister state.stages.wb with
    | none => exact ⟨LazyView.current_draw _ _, h.fades⟩
    | some dest => exact ⟨LazyView.current_draw _ _, fun _ _ _ => rfl⟩

theorem Sound.showEvent (h : w.Sound) : w.showEvent.Sound :=
  ⟨h.current.reveal, by simpa only [RegisterWidget.showEvent, LazyView.model_reveal] using h.fades⟩

theorem Sound.hide (h : w.Sound) : w.hide.Sound := ⟨h.current.conceal, h.fades⟩

theorem Sound.setShowAliases (h : w.Sound) (aliases : Bool) : (w.setShowAliases aliases).Sound :=
  ⟨h.current.repaint _, h.fades⟩

theorem Sound.setDarkMode (h : w.Sound) (dark : Bool) : (w.setDarkMode dark).Sound :=
  ⟨h.current.repaint _, h.fades⟩

theorem Sound.clear (h : w.Sound) : w.clear.Sound :=
  ⟨h.current.repaint _, fun _ _ hfading => by cases hfading⟩

-- A timeout leaves alone the registers that do not fade, and their cells.
theorem cell_fadeFields {fields : RegisterFields} {now : ℤ} {r : RegIdx}
    (h : ¬(r ≠ 0#5 ∧ fields.fading r = true)) : (fadeFields fields now).cell r = fields.cell r := by
  have hstart : (fadeFields fields now).fadeStartMs r = fields.fadeStartMs r :=
    if_neg fun hall => h ⟨hall.1, hall.2.1⟩
  have hfading : (fadeFields fields now).fading r = fields.fading r := by
    rw [RegisterFields.fading, hstart, RegisterFields.fading]
  rw [RegisterFields.cell, RegisterFields.cell, hfading]
  rfl

theorem Sound.fadeTimeout (h : w.Sound) (now : ℤ) : (w.fadeTimeout now).Sound := by
  rw [RegisterWidget.fadeTimeout]
  split
  · exact h
  · refine ⟨⟨fun hclean => ?_, h.current.shown⟩, fun r hr hfading => ?_⟩
    · funext r
      change (if r ≠ 0#5 ∧ w.view.model.fading r = true then _ else w.view.picture r) = _
      split
      · rfl
      · rename_i hkept
        rw [h.current.drawn hclean]
        exact (cell_fadeFields hkept).symm
    · refine List.any_eq_true.mpr ⟨r.toNat, List.mem_range.mpr r.isLt, ?_⟩
      rw [BitVec.ofNat_toNat, BitVec.setWidth_eq]
      exact Bool.and_eq_true_iff.mpr ⟨decide_eq_true hr, hfading⟩

def steady (w : RegisterWidget) : RegisterFields := w.view.model.steady

theorem steady_updateCycle (w : RegisterWidget) (now : ℤ) (state : PipelineState)
    (vals : RegIdx → Word) :
    (w.updateCycle now state vals).steady =
      { w.steady with
        values := vals
        readRs := (readMarks state.stages.id).a
        readRt := (readMarks state.stages.id).b } := by
  rw [updateCycle]
  cases w.view.visible with
  | false => rfl
  | true => cases writtenRegister state.stages.wb <;> rfl

theorem steady_showEvent (w : RegisterWidget) : w.showEvent.steady = w.steady := by
  have hmodel : w.showEvent.view.model = w.view.model := LazyView.model_reveal _
  rw [steady, hmodel, steady]

theorem steady_fadeTimeout (w : RegisterWidget) (now : ℤ) :
    (w.fadeTimeout now).steady = w.steady := by
  rw [fadeTimeout]
  split <;> rfl

end RegisterWidget

end ClearCore.Qt
