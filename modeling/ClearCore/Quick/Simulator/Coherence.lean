import ClearCore.Library.Observer
import ClearCore.Quick.Simulator.Lemmas

-- What QML shows is what the simulator has: every change is notified.

namespace ClearCore.Quick

open Isa Mips Qt

inductive Property
  | status
  | speed
  | model
  | programLoaded
  | pipeline
  | stats
  | trace
  | row (i : RegIdx)
deriving DecidableEq

def agrees (sim : Simulator) (qml : Qml) : Property → Prop
  | .status => qml.status = sim.status
  | .speed => qml.speed = sim.speed
  | .model => qml.model = sim.model
  | .programLoaded => qml.programLoaded = sim.programLoaded
  | .pipeline => qml.stages = sim.stages ∧ qml.hazards = sim.hazards
  | .stats => qml.stats = sim.stats
  | .trace => qml.traceRows = sim.traceRowsCache
  | .row i => qml.rows i = sim.regModel.data i

def Notify.covers : Notify → Set Property
  | .runningChanged => ∅
  | .statusChanged => {.status}
  | .speedChanged => {.speed}
  | .modelChanged => {.model}
  | .programLoadedChanged => {.programLoaded}
  | .pipelineChanged => {.pipeline}
  | .statsChanged => {.stats}
  | .traceChanged => {.trace}
  | .dataChanged i => {.row i}
  | .modelReset => {p | ∃ i, p = .row i}

theorem agrees_hear_covered {sim : Simulator} {qml : Qml} {signal : Notify} {p : Property}
    (h : p ∈ signal.covers) : agrees sim (qml.hear sim signal) p := by
  cases signal with
  | runningChanged => cases h
  | dataChanged i =>
    obtain rfl : p = .row i := h
    exact Function.update_self i _ _
  | modelReset =>
    obtain ⟨i, rfl⟩ := h
    rfl
  | pipelineChanged =>
    obtain rfl : p = .pipeline := h
    exact ⟨rfl, rfl⟩
  | statusChanged | speedChanged | modelChanged | programLoadedChanged | statsChanged
    | traceChanged =>
    obtain rfl := Set.mem_singleton_iff.mp h
    rfl

theorem agrees_hear_kept {sim : Simulator} {qml : Qml} (signal : Notify) {p : Property}
    (h : agrees sim qml p) : agrees sim (qml.hear sim signal) p := by
  by_cases hcov : p ∈ signal.covers
  · exact agrees_hear_covered hcov
  cases signal with
  | dataChanged i =>
    cases p with
    | row j =>
      have hne : j ≠ i := by
        rintro rfl
        exact hcov rfl
      exact (Function.update_of_ne hne _ _).trans h
    | _ => exact h
  | modelReset =>
    cases p with
    | row j => exact absurd ⟨j, rfl⟩ hcov
    | _ => exact h
  | runningChanged => cases p <;> exact h
  | statusChanged | speedChanged | modelChanged | programLoadedChanged | statsChanged
    | traceChanged | pipelineChanged =>
    cases p <;> first
      | exact h
      | exact absurd rfl hcov

def observer : Observer Simulator Qml Property Notify where
  agrees := agrees
  hear := Qml.hear
  covers := Notify.covers
  hear_covered := agrees_hear_covered
  hear_kept := agrees_hear_kept

namespace Ui

-- All properties but the pending ones are as QML last read them.
def Coherent (pending : Set Property) (ui : Ui) : Prop :=
  observer.Coherent pending ui.sim ui.qml

section Coherent

variable {ui : Ui} {pending pending' : Set Property}

theorem Coherent.emit (h : ui.Coherent pending) {signal : Notify}
    (hsub : pending ⊆ pending' ∪ signal.covers) : (ui.emit signal).Coherent pending' :=
  Observer.Coherent.signal h hsub

theorem Coherent.emitAll (h : ui.Coherent pending) {signals : List Notify}
    (hsub : ∀ p ∈ pending, p ∈ pending' ∨ ∃ signal ∈ signals, p ∈ signal.covers) :
    (ui.emitAll signals).Coherent pending' := by
  rw [emitAll_eq]
  exact Observer.Coherent.signals h hsub

theorem Coherent.change (h : ui.Coherent pending) {sim : Simulator} (touched : Set Property)
    (hkeep : ∀ p, p ∉ touched → agrees ui.sim ui.qml p → agrees sim ui.qml p)
    (hsub : pending ∪ touched ⊆ pending') : Coherent pending' { ui with sim } :=
  Observer.Coherent.change h hkeep hsub

-- A change that QML does not see.
theorem Coherent.hidden (h : ui.Coherent pending) {sim : Simulator}
    (hkeep : ∀ p, agrees ui.sim ui.qml p → agrees sim ui.qml p) : Coherent pending { ui with sim } :=
  h.change ∅ (fun p _ => hkeep p) (Set.union_empty _).subset

theorem Coherent.withCtl (h : ui.Coherent pending) (ctl : SimulatorController Processor) :
    (ui.withCtl ctl).Coherent pending :=
  h.hidden fun p hp => by cases p <;> exact hp

theorem Coherent.setStatus (h : ui.Coherent pending) (s : Text) :
    (ui.setStatus s).Coherent pending := by
  rw [Ui.setStatus]
  split
  · exact h
  · have hchange : Coherent (pending ∪ {.status}) { ui with sim := { ui.sim with status := s } } := by
      apply h.change {.status} _ subset_rfl
      rintro (_ | _) hout hagrees <;> first
        | exact hagrees
        | exact absurd rfl hout
    exact hchange.emit subset_rfl

end Coherent

section Registers

variable {ui : Ui} {pending : Set Property} {regs : RegisterFile} {prevWritten : Option RegIdx}

-- The register model and its delegates.
def withRegisters (ui : Ui) (model : RegisterModel) : Ui where
  sim := { ui.sim with regModel := model }
  qml := { ui.qml with rows := model.data }

theorem Coherent.withRegisters (h : ui.Coherent pending) (model : RegisterModel) :
    (ui.withRegisters model).Coherent pending := by
  intro p hp
  cases p with
  | row i => rfl
  | status | speed | model | programLoaded | pipeline | stats | trace => exact h _ hp

-- The rows yet to be refreshed carry the mark of the register written before.
def RowsBehind (prevWritten : Option RegIdx) (is : List RegIdx) (ui : Ui) : Prop :=
  ∀ i, ui.qml.rows i =
    RegisterModel.data
      (if i ∈ is then { ui.sim.regModel with lastWritten := prevWritten } else ui.sim.regModel) i

-- A row is notified unless it is the same as before.
theorem data_eq_of_not_changed {model : RegisterModel} {i : RegIdx} {v : Word}
    {written : Option RegIdx}
    (h : (decide (model.values i ≠ v) ||
      decide (written = some i) != decide (prevWritten = some i)) = false) :
    RegisterModel.data { model with lastWritten := prevWritten } i =
      RegisterModel.data ⟨Function.update model.values i v, written⟩ i := by
  obtain ⟨hvalue, hmark⟩ := Bool.or_eq_false_iff.mp h
  have hv : model.values i = v := by simpa using hvalue
  have hm : decide (written = some i) = decide (prevWritten = some i) := by simpa using hmark
  simp only [RegisterModel.data, Function.update_self, hv, hm]

theorem data_update_of_ne {model : RegisterModel} {i j : RegIdx} (h : j ≠ i) (v : Word) :
    RegisterModel.data { model with values := Function.update model.values i v } j =
      RegisterModel.data model j := by
  simp only [RegisterModel.data, Function.update_of_ne h]

-- It touches nothing but the registers.
theorem refreshRow_withRegisters (ui : Ui) (i : RegIdx) (model : RegisterModel) :
    (refreshRow regs prevWritten ui i).withRegisters model = ui.withRegisters model := by
  rw [refreshRow]
  split <;> rfl

-- A turn of the loop settles its row and leaves the others.
theorem RowsBehind.step {i : RegIdx} {is : List RegIdx} (h : ui.RowsBehind prevWritten (i :: is))
    (hi : i ∉ is) (hwritten : ui.sim.regModel.lastWritten = regs.lastWritten) :
    (refreshRow regs prevWritten ui i).RowsBehind prevWritten is := by
  intro j
  rw [refreshRow_sim]
  by_cases hj : j = i
  · subst hj
    rw [if_neg hi]
    have hrow := h j
    rw [if_pos List.mem_cons_self] at hrow
    rw [refreshRow]
    split
    · exact Function.update_self j _ _
    · rename_i hchanged
      have hsame := data_eq_of_not_changed (Bool.not_eq_true _ ▸ hchanged)
      rw [← hwritten] at hsame
      exact hrow.trans hsame
  · have hrow : (refreshRow regs prevWritten ui i).qml.rows j = ui.qml.rows j := by
      rw [refreshRow]
      split
      · exact Function.update_of_ne hj _ _
      · rfl
    rw [hrow, h j]
    simp only [List.mem_cons, hj, false_or]
    split <;> exact (data_update_of_ne hj _).symm

theorem RowsBehind.foldl {is : List RegIdx} (h : ui.RowsBehind prevWritten is) (hnodup : is.Nodup)
    (hwritten : ui.sim.regModel.lastWritten = regs.lastWritten) :
    (is.foldl (refreshRow regs prevWritten) ui).RowsBehind prevWritten [] := by
  induction is generalizing ui with
  | nil => exact h
  | cons i is ih =>
    obtain ⟨hi, hrest⟩ := List.nodup_cons.mp hnodup
    rw [List.foldl_cons]
    apply ih (h.step hi hwritten) hrest
    rw [refreshRow_sim]
    exact hwritten

theorem foldl_refreshRow_withRegisters (ui : Ui) (is : List RegIdx) (model : RegisterModel) :
    (is.foldl (refreshRow regs prevWritten) ui).withRegisters model = ui.withRegisters model := by
  induction is generalizing ui with
  | nil => rfl
  | cons i is ih => rw [List.foldl_cons, ih, refreshRow_withRegisters]

theorem withRegisters_self (h : ∀ i, ui.qml.rows i = ui.sim.regModel.data i) :
    ui.withRegisters ui.sim.regModel = ui := by
  rw [withRegisters, ← show ui.qml.rows = ui.sim.regModel.data from funext h]

-- The model becomes the register file, and all its delegates are told.
theorem refreshRegisters_eq (h : ∀ i, ui.qml.rows i = ui.sim.regModel.data i) :
    ui.refreshRegisters regs = ui.withRegisters ⟨regs.regs, regs.lastWritten⟩ := by
  have hbehind : RowsBehind ui.sim.regModel.lastWritten allRows
      (ui.withRegModel { ui.sim.regModel with lastWritten := regs.lastWritten }) := by
    intro i
    rw [if_pos (mem_allRows i)]
    exact h i
  have hsim := refreshRegisters_sim ui regs
  rw [refreshRegisters] at hsim ⊢
  have hsettled := withRegisters_self (hbehind.foldl (by decide) (Eq.refl regs.lastWritten))
  rw [foldl_refreshRow_withRegisters] at hsettled
  refine hsettled.symm.trans ?_
  rw [hsim]
  rfl

end Registers

section Slots

variable {ui : Ui} {pending : Set Property}

theorem Coherent.appendTrace (h : ui.Coherent pending) (ps : PipelineState) :
    (ui.appendTrace ps).Coherent pending := by
  rw [Ui.appendTrace]
  split
  · exact h
  · have hchange : Coherent (pending ∪ {.trace}) { ui with sim := { ui.sim with
        trace := Quick.appendTrace ui.sim.trace ps
        traceRowsCache := Quick.appendTrace ui.sim.trace ps } } := by
      apply h.change {.trace} _ subset_rfl
      rintro (_ | _) hout hagrees <;> first
        | exact hagrees
        | exact absurd rfl hout
    exact hchange.emit subset_rfl

-- The registers are never pending when a slot runs.
def Settled (pending : Set Property) : Prop := ∀ i, .row i ∉ pending

theorem Coherent.refreshRegisters (h : ui.Coherent pending) (hrow : Settled pending)
    (regs : RegisterFile) : (ui.refreshRegisters regs).Coherent pending := by
  rw [refreshRegisters_eq fun i => h (.row i) (hrow i)]
  exact h.withRegisters _

theorem Coherent.onPipeline (h : ui.Coherent pending) (hrow : Settled pending)
    (ps : PipelineState) : (ui.onPipeline ps).Coherent pending := by
  have hrow' : Settled (pending ∪ {.pipeline}) := fun i hin =>
    hin.elim (hrow i) fun heq => by cases heq
  have hchange : Coherent (pending ∪ {.pipeline}) { ui with sim := { ui.sim with
      stages := stageMaps ps, hazards := some (hazardMap ps) } } := by
    apply h.change {.pipeline} _ subset_rfl
    rintro (_ | _) hout hagrees <;> first
      | exact hagrees
      | exact absurd rfl hout
  exact ((hchange.refreshRegisters hrow' _).appendTrace ps).emit subset_rfl

theorem Coherent.statistics (h : ui.Coherent pending) (stats : SimulatorStatistics) :
    (Ui.emit { ui with sim := { ui.sim with stats } } .statsChanged).Coherent pending := by
  have hchange : Coherent (pending ∪ {.stats}) { ui with sim := { ui.sim with stats } } := by
    apply h.change {.stats} _ subset_rfl
    rintro (_ | _) hout hagrees <;> first
      | exact hagrees
      | exact absurd rfl hout
  exact hchange.emit subset_rfl

theorem Coherent.announce (h : ui.Coherent pending) (s : Text) :
    ((ui.setStatus s).emit .runningChanged).Coherent pending :=
  (h.setStatus s).emit Set.subset_union_left

theorem Coherent.onSignal (h : ui.Coherent pending) (hrow : Settled pending) (signal : Signal) :
    (ui.onSignal signal).Coherent pending := by
  cases signal with
  | pipelineStateChanged ps => exact h.onPipeline hrow ps
  | statisticsUpdated stats => exact h.statistics stats
  | halted | faulted | exceptionRaised | breakpointHit => exact h.announce _
  | cycleExecuted | programLoaded => exact h

theorem Coherent.receive (h : ui.Coherent pending) (hrow : Settled pending)
    (emitted : List Signal × SimulatorController Processor) :
    (ui.receive emitted).Coherent pending := by
  have hfold : ∀ (signals : List Signal) {ui : Ui}, ui.Coherent pending →
      (signals.foldl Ui.onSignal ui).Coherent pending := by
    intro signals
    induction signals with
    | nil => exact id
    | cons signal rest ih => exact fun h => ih (h.onSignal hrow signal)
  exact hfold _ (h.withCtl _)

end Slots

section Act

variable {ui ui' : Ui}

theorem settled_empty : Settled ∅ := fun _ => Set.notMem_empty _

-- The properties of the caches.
def cached : Set Property := {.stats, .trace, .pipeline}

theorem Coherent.clear {pending : Set Property} (h : ui.Coherent pending) :
    ui.clear.Coherent (pending ∪ cached) := by
  have hchange : Coherent (pending ∪ cached) { ui with sim := { ui.sim with
      stats := {}, trace := [], traceRowsCache := [], stages := [], hazards := none } } := by
    apply h.change cached _ subset_rfl
    rintro (_ | _) hout hagrees <;> first
      | exact hagrees
      | exact absurd (by simp [cached]) hout
  exact hchange.withRegisters {}

theorem Coherent.reset (h : ui.Coherent ∅) (hreset : ui.reset = some ui') : ui'.Coherent ∅ := by
  obtain ⟨cleared, -, rfl⟩ := reset_cases hreset
  have hrow : Settled (∅ ∪ cached) := fun i hin => by simp [cached] at hin
  apply Coherent.setStatus
  apply ((h.withCtl _).clear.receive hrow cleared).emitAll
  intro p hp
  simpa [cached, Notify.covers, or_comm, or_left_comm] using hp

theorem Coherent.finishLoad (h : ui.Coherent ∅) (ok : Bool) : (ui.finishLoad ok).2.Coherent ∅ := by
  have hchange : Coherent {.programLoaded, .stats, .trace}
      { ui with sim := { ui.sim with
        programLoaded := ok, stats := {}, trace := [], traceRowsCache := [] } } := by
    apply h.change {.programLoaded, .stats, .trace} _ (by simp)
    rintro (_ | _) hout hagrees <;> first
      | exact hagrees
      | exact absurd (by simp) hout
  have hall : Coherent ∅ (Ui.emitAll _
      [.programLoadedChanged, .statsChanged, .traceChanged, .runningChanged]) :=
    (hchange.withRegisters {}).emitAll (by simp [Notify.covers])
  cases ok <;> exact hall.setStatus _

theorem Coherent.assembleAndLoad {source : Text} {result : Text × Ui} (h : ui.Coherent ∅)
    (hload : ui.assembleAndLoad source = some result) : result.2.Coherent ∅ := by
  rw [Ui.assembleAndLoad] at hload
  split at hload
  · rw [← Option.some.inj hload]
    exact h
  · obtain ⟨cleared, ok, emitted, -, -, rfl⟩ := load_cases hload
    have hprogram : ∀ {ui : Ui} (words : List Word), ui.Coherent ∅ →
        (ui.withProgram words).Coherent ∅ :=
      fun _ h => h.hidden fun p hp => by cases p <;> exact hp
    apply Coherent.finishLoad
    exact (hprogram _ ((h.withCtl _).receive settled_empty cleared)).receive settled_empty emitted

theorem Coherent.setModel {m : CpuModel} (h : ui.Coherent ∅)
    (hset : ui.setModel m = some ui') : ui'.Coherent ∅ := by
  obtain ⟨-, rfl⟩ | ⟨rebuilt, -, hrebuilt, rfl⟩ := setModel_cases hset
  · exact h
  · obtain ⟨loaded, hloaded, rfl⟩ := rebuild_cases hrebuilt
    have hmodel : Coherent {.model} { ui with sim := { ui.sim with model := m } } := by
      apply h.change {.model} _ (by simp)
      rintro (_ | _) hout hagrees <;> first
        | exact hagrees
        | exact absurd rfl hout
    have hfresh := (hmodel.withCtl (SimulatorController.setExecutionSpeed
      { processor := makeProcessor ui.sim.memBytes m } ui.sim.speed)).clear
    have hrow : Settled ({.model} ∪ cached) := fun i hin => by simp [cached] at hin
    have hcoherent : loaded.Coherent ({.model} ∪ cached) := by
      obtain ⟨-, rfl⟩ | ⟨ok, emitted, -, rfl⟩ := hloaded
      · exact hfresh
      · have hchange : ∀ {ui : Ui} {pending : Set Property}, ui.Coherent pending →
            (ui.withLoaded ok).Coherent (pending ∪ {.programLoaded}) := by
          intro ui pending h
          apply h.change {.programLoaded} _ subset_rfl
          rintro (_ | _) hout hagrees <;> first
            | exact hagrees
            | exact absurd rfl hout
        exact (hchange (hfresh.receive hrow emitted)).emit subset_rfl
    have hidle : Coherent {.model}
        (loaded.emitAll [.statsChanged, .traceChanged, .pipelineChanged]) :=
      hcoherent.emitAll (by simp [cached, Notify.covers])
    exact (hidle.setStatus _).emit (by simp [Notify.covers])

theorem Coherent.setSpeed (h : ui.Coherent ∅) (s : ℤ) : (ui.setSpeed s).Coherent ∅ := by
  rw [Ui.setSpeed]
  dsimp only
  split
  · exact h
  · have hchange : Coherent {.speed} { ui with sim := { ui.sim with
        speed := max 0 (min s 100), ctl := ui.sim.ctl.setExecutionSpeed (max 0 (min s 100)) } } := by
      apply h.change {.speed} _ (by simp)
      rintro (_ | _) hout hagrees <;> first
        | exact hagrees
        | exact absurd rfl hout
    exact hchange.emit (by simp [Notify.covers])

theorem Coherent.go (h : ui.Coherent ∅) (base : Word) : (ui.go base).Coherent ∅ := by
  intro p hp
  cases p <;> exact h _ hp

end Act

end Ui

end ClearCore.Quick
