import ClearCore.Mips.Pipelined.FlushCause
import ClearCore.Qt.PipelineEventsWidget

-- The instruction that the log blames for a flush.

namespace ClearCore.Qt

open Isa Mips

-- The address and the word of the instruction an event names, if its stage holds one.
def Event.instr (e : Event) : Option (Word × Word) :=
  if !e.stage.valid || decide (e.stage.raw = 0#32) then none else some (e.stage.pc, e.stage.raw)

theorem Event.text_of_instr {e : Event} {pc raw : Word} (h : e.instr = some (pc, raw)) :
    e.text = e.before ++ formatInstr raw pc ++ e.after := by
  unfold Event.instr at h
  unfold Event.text instrOr
  split at h
  · cases h
  · rename_i hs
    cases h
    rw [if_neg hs]

namespace PipelineEventsWidget

variable (w : PipelineEventsWidget) (state : PipelineState)

@[simp] theorem logEvent_recent (kind : Kind) (cycle : ℕ) (text : List Char) :
    (w.logEvent kind cycle text).recent = w.recent := by
  rw [logEvent]

theorem logEvent_getLast (kind : Kind) (cycle : ℕ) (text : List Char) :
    (w.logEvent kind cycle text).list.getLast? = some (logItem kind cycle text) := by
  have hlen : (w.list ++ [logItem kind cycle text]).length - kMaxEntries ≤ w.list.length := by
    rw [List.length_append, List.length_singleton, kMaxEntries]
    omega
  rw [logEvent, List.drop_append_of_le_length hlen, List.getLast?_concat]

theorem recent_logFired {i j : ℕ} (hne : i ≠ j) (cycle : ℕ) (e : Event) (word : Word) :
    (logFired cycle w e i).recent (j, word) = w.recent (j, word) := by
  have hkey : ∀ other, ((j, word) : RecentKey) ≠ (i, other) :=
    fun other h => hne (Prod.mk.inj h).1.symm
  unfold logFired
  dsimp only
  split_ifs
  · rfl
  · exact Function.update_of_ne (hkey _) _ _
  · exact Function.update_of_ne (hkey _) _ _

-- What the first five events leave for the flush.
theorem updateCycle_flush : ∃ before : PipelineEventsWidget,
    (∀ word, before.recent (5, word) = w.recent (5, word)) ∧
      w.updateCycle state = logFired state.cycle before (branchFlush state) 5 := by
  refine ⟨_, fun word => ?_, rfl⟩
  simp only [recent_logFired _ (show (4 : ℕ) ≠ 5 by decide),
    recent_logFired _ (show (3 : ℕ) ≠ 5 by decide), recent_logFired _ (show (2 : ℕ) ≠ 5 by decide),
    recent_logFired _ (show (1 : ℕ) ≠ 5 by decide), recent_logFired _ (show (0 : ℕ) ≠ 5 by decide)]

theorem logFired_logs {cycle : ℕ} {e : Event} {i : ℕ} (hf : e.fired = true)
    (hnew : ∀ last, w.recent (i, e.word) = some last → last + 1 < cycle) :
    (logFired cycle w e i).list.getLast? = some (logItem e.kind cycle e.text) := by
  have hc : w.continued (i, e.word) cycle = false := by
    rw [continued]
    cases hr : w.recent (i, e.word) with
    | none => rfl
    | some last =>
      have hlt := hnew last hr
      simp only [Bool.or_eq_false_iff, decide_eq_false_iff_not]
      omega
  simp only [logFired, hf, hc, Bool.not_true, Bool.false_eq_true, if_false]
  exact logEvent_getLast _ _ _ _

theorem recent_logFired_same {cycle : ℕ} {e : Event} {i : ℕ} {word : Word} {last : ℕ}
    (h : (logFired cycle w e i).recent (i, word) = some last) :
    w.recent (i, word) = some last ∨ e.fired = true ∧ last = cycle := by
  unfold logFired at h
  cases hf : e.fired with
  | false => exact .inl (by simpa [hf] using h)
  | true =>
    have hseen : Function.update w.recent (i, e.word) (some cycle) (i, word) = some last := by
      simp only [hf, Bool.not_true, Bool.false_eq_true, if_false] at h
      split_ifs at h
      · exact h
      · exact h
    by_cases hw : word = e.word
    · rw [hw, Function.update_self] at hseen
      exact .inr ⟨rfl, (Option.some.inj hseen).symm⟩
    · rw [Function.update_of_ne (fun heq => hw (Prod.mk.inj heq).2)] at hseen
      exact .inl hseen

end PipelineEventsWidget

-- A CPU and the widget that watches it: cycles, of which not all need to be reported, and
-- what else is done to the log.
inductive Input
  | step (report : Bool)
  | log (kind : Kind) (cycle : ℕ) (text : List Char)
  | clear

structure Watch where
  cpu : PipelinedCpu
  widget : PipelineEventsWidget := {}

namespace Watch

def input (w : Watch) : Input → Watch
  | .step report =>
      { cpu := w.cpu.step.2
        widget := if report then w.widget.updateCycle w.cpu.step.2.ps else w.widget }
  | .log kind cycle text => { w with widget := w.widget.logEvent kind cycle text }
  | .clear => { w with widget := w.widget.clear }

-- The next cycle flushes because of `cause`, and its report ends with an event that names it.
structure Blames (w : Watch) (cause : Word × Word) : Prop where
  instr : (PipelineEventsWidget.branchFlush w.cpu.step.2.ps).instr = some cause
  logged : (w.input (.step true)).widget.list.getLast? =
    some (PipelineEventsWidget.logItem .Flush w.cpu.step.2.cycle
      ("branch taken: ".toList ++ formatInstr cause.2 cause.1 ++
        " — younger instructions flushed".toList))

structure Sound (w : Watch) : Prop where
  wellFormed : w.cpu.WellFormed
  inLine : w.cpu.InLine
  recent : ∀ word last, w.widget.recent (5, word) = some last →
    last ≤ w.cpu.cycle ∧ (last = w.cpu.cycle → w.cpu.flushCause = none)

theorem Sound.of_empty {cpu : PipelinedCpu} (h : cpu.Empty) : Sound { cpu } where
  wellFormed := .of_bubbles h.ifId h.idEx h.exMem h.memWb
  inLine := h.inLine
  recent word last hr := by cases hr

theorem Sound.input {w : Watch} (h : w.Sound) (i : Input) : (w.input i).Sound := by
  cases i with
  | log kind cycle text =>
    rw [Watch.input]
    refine ⟨h.wellFormed, h.inLine, fun word last hr => h.recent word last ?_⟩
    rwa [PipelineEventsWidget.logEvent_recent] at hr
  | clear => exact ⟨h.wellFormed, h.inLine, fun word last hr => by cases hr⟩
  | step report =>
    refine ⟨h.wellFormed.step, h.inLine.step, fun word last hr => ?_⟩
    have hcycle : (w.input (.step report)).cpu.cycle = w.cpu.cycle + 1 := rfl
    have hold : w.widget.recent (5, word) = some last →
        last ≤ w.cpu.cycle + 1 ∧ (last = w.cpu.cycle + 1 → w.cpu.step.2.flushCause = none) := by
      intro hr
      have hle := (h.recent word last hr).1
      exact ⟨by omega, fun heq => by omega⟩
    rw [hcycle]
    cases report with
    | false => exact hold hr
    | true =>
      obtain ⟨before, hbefore, hupdate⟩ := w.widget.updateCycle_flush w.cpu.step.2.ps
      change (w.widget.updateCycle w.cpu.step.2.ps).recent (5, word) = some last at hr
      rw [hupdate] at hr
      rcases before.recent_logFired_same hr with hr | ⟨hf, rfl⟩
      · rw [hbefore] at hr
        exact hold hr
      · refine ⟨le_rfl, fun _ => PipelinedCpu.flushCause_step h.wellFormed ?_⟩
        rw [PipelinedCpu.flushCause_isSome]
        exact hf

-- Every flush is logged, under the instruction in MEM.
theorem Sound.logs {w : Watch} (h : w.Sound) (hf : w.cpu.flushCause.isSome = true) :
    (w.input (.step true)).widget.list.getLast? =
      some (PipelineEventsWidget.logItem .Flush w.cpu.step.2.cycle
        (PipelineEventsWidget.branchFlush w.cpu.step.2.ps).text) := by
  obtain ⟨before, hbefore, hupdate⟩ := w.widget.updateCycle_flush w.cpu.step.2.ps
  have hinput : (w.input (.step true)).widget = w.widget.updateCycle w.cpu.step.2.ps := rfl
  rw [hinput, hupdate]
  refine before.logFired_logs ?_ fun last hr => ?_
  · rw [PipelinedCpu.flushCause_isSome] at hf
    exact hf
  · rw [hbefore] at hr
    obtain ⟨hle, hnone⟩ := h.recent _ _ hr
    have hne : last ≠ w.cpu.cycle := by
      intro heq
      rw [hnone heq] at hf
      cases hf
    show last + 1 < w.cpu.cycle + 1
    omega

theorem Sound.blames_iff_instr {w : Watch} (h : w.Sound) {cause : Word × Word}
    (hc : w.cpu.flushCause = some cause) :
    w.Blames cause ↔ (PipelineEventsWidget.branchFlush w.cpu.step.2.ps).instr = some cause := by
  refine ⟨Blames.instr, fun hinstr => ⟨hinstr, ?_⟩⟩
  rw [h.logs (by rw [hc]; rfl), Event.text_of_instr hinstr]
  rfl

-- The instruction in MEM is the cause just when it traps there.
theorem Sound.instr_iff {w : Watch} (h : w.Sound) {cause : Word × Word}
    (hc : w.cpu.flushCause = some cause) :
    (PipelineEventsWidget.branchFlush w.cpu.step.2.ps).instr = some cause ↔
      w.cpu.pendingTrap.isSome = true := by
  have hstage : (PipelineEventsWidget.branchFlush w.cpu.step.2.ps).instr =
      if !w.cpu.exMem.valid || decide (w.cpu.exMem.raw = 0#32) then none
      else some (w.cpu.exMem.pc, w.cpu.exMem.raw) := rfl
  rw [hstage]
  unfold PipelinedCpu.flushCause at hc
  cases hp : w.cpu.pendingTrap with
  | some trap =>
    rw [hp, Option.isSome_some, if_pos rfl, Option.some.injEq] at hc
    obtain ⟨hv, hne⟩ := h.wellFormed.pending_word (by rw [hp]; rfl)
    rw [hv, if_neg (by simpa using hne), hc]
    simp
  | none =>
    refine iff_of_false (fun hinstr => ?_) (by simp)
    rw [hp, Option.isSome_none, if_neg Bool.false_ne_true] at hc
    split at hc
    · rename_i hex
      split at hinstr
      · cases hinstr
      · rename_i hstage
        rw [← hc, Option.some.injEq, Prod.mk.injEq] at hinstr
        have hv : w.cpu.exMem.valid = true := by
          by_contra hv
          simp [hv] at hstage
        have hnext := h.inLine.ex (PipelinedCpu.ex_of_flushCause hp hex) hv
        rw [hinstr.1] at hnext
        exact absurd hnext (by bv_omega)
    · cases hc

def run (w : Watch) (inputs : List Input) : Watch := inputs.foldl input w

theorem Sound.run {w : Watch} (h : w.Sound) (inputs : List Input) : (w.run inputs).Sound := by
  induction inputs generalizing w with
  | nil => exact h
  | cons i inputs ih => exact ih (h.input i)

end Watch

-- In every run from an empty pipeline, the flush event names the cause of a flush if and
-- only if that is a load or store that traps in MEM.
theorem blames_iff {cpu : PipelinedCpu} (h : cpu.Empty) (inputs : List Input) :
    let w := Watch.run { cpu } inputs
    w.cpu.flushCause.isSome = w.cpu.step.2.ps.branchFlush ∧
      ∀ cause, w.cpu.flushCause = some cause →
        (w.Blames cause ↔ w.cpu.pendingTrap.isSome = true) := by
  intro w
  have hs : w.Sound := (Watch.Sound.of_empty h).run inputs
  exact ⟨w.cpu.flushCause_isSome, fun cause hc =>
    (hs.blames_iff_instr hc).trans (hs.instr_iff hc)⟩

theorem holding_empty (first second : Word) : (PipelinedCpu.holding first second).Empty :=
  ⟨rfl, rfl, rfl, rfl⟩

def threeCycles : List Input := [.step true, .step true, .step true]

-- lw $t0, 1($0)
theorem blames_misalignedLoad :
    (Watch.run { cpu := PipelinedCpu.holding 0x8C080001#32 0#32 } threeCycles).Blames
      (0#32, 0x8C080001#32) :=
  ((blames_iff (holding_empty _ _) threeCycles).2 _ (by decide)).mpr (by decide)

-- addi $t0, $0, 1; beq $0, $0, 0: the flush of the branch is logged under the ADDI.
theorem blames_wrongInstr : ¬∀ (cpu : PipelinedCpu) (inputs : List Input), cpu.Empty →
    ∀ cause, (Watch.run { cpu } inputs).cpu.flushCause = some cause →
      (Watch.run { cpu } inputs).Blames cause := by
  intro hall
  have hblames := hall (PipelinedCpu.holding 0x20080001#32 0x10000000#32) threeCycles
    (holding_empty _ _) (4#32, 0x10000000#32) (by decide)
  exact absurd hblames.instr (by decide)

end ClearCore.Qt
