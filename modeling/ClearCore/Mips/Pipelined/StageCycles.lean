import ClearCore.Mips.Pipelined.Diagram

-- The cycles in which an instruction works in the stages: it is displayed there, neither
-- stalled nor flushed. It works in each stage at most once, in the order of the stages.

namespace ClearCore.Isa

def StageSnapshot.working (snap : StageSnapshot) : Bool :=
  snap.valid && !snap.stalled && !snap.flushed

end ClearCore.Isa

namespace ClearCore.Mips

open Isa

theorem PipelinedCpu.run_psCycle (cpu : PipelinedCpu) (hcycle : cpu.cycle = 0) (n : ℕ) :
    (cpu.run (n + 1)).ps.cycle = n + 1 := by
  rw [run_succ]
  change (cpu.run n).cycle + 1 = n + 1
  rw [run_cycle, hcycle, Nat.zero_add]

namespace Occupied

open PipelinedCpu

variable {p : Occupied} {c n : ℕ} {i s : Fin 5} {d e : DynamicInstr}

-- The snapshot of a stage in the coming cycle.
def snapshot (p : Occupied) (s : Fin 5) : StageSnapshot := p.step.cpu.ps.stages.get s

-- `d` works in stage `s` in the coming cycle.
structure Works (p : Occupied) (s : Fin 5) (d : DynamicInstr) : Prop where
  occupant : p.occupant s = some d
  stalled : (p.snapshot s).stalled = false
  flushed : (p.snapshot s).flushed = false

theorem Works.unique (hd : p.Works s d) (he : p.Works s e) : d = e :=
  Option.some.inj (hd.occupant.symm.trans he.occupant)

theorem snapshot_stalled (p : Occupied) (hs : s.val ≤ 1) :
    (p.snapshot s).stalled = p.step.cpu.ps.loadStall := by
  match s with
  | 0 | 1 => rfl

theorem Works.fetched (h : p.Works 0 d) : d.fetched = p.cpu.cycle + 1 := by
  rcases step_ifId_cases h.occupant with ⟨⟨-, -, hstall⟩, -⟩ | hnew
  · have hfree := h.stalled
    rw [snapshot_stalled p (Nat.zero_le _)] at hfree
    cases hfree.symm.trans hstall
  · exact fetchedInstr_fetched hnew

-- It goes on to the next stage or leaves the pipeline.
theorem Works.leaves (h : p.Works s d) : ¬p.Stays (s.val - 1) := by
  rintro ⟨hone, -, hstall⟩
  have hfree := h.stalled
  rw [snapshot_stalled p (by omega)] at hfree
  cases hfree.symm.trans hstall

theorem Works.line (h : p.Works s d) (hs : s ≠ 0) : p.line (s.val - 1) = some d := by
  rw [← occupant_line p hs]
  exact h.occupant

-- The working snapshots are those of the instructions that work.
theorem Sound.snapshot_shown (h : p.Sound) (s : Fin 5) :
    (p.snapshot s).shown = (p.occupant s).map DynamicInstr.shown := h.shown s

theorem Sound.works_of_working (h : p.Sound) (hw : (p.snapshot s).working = true) :
    ∃ d, p.Works s d ∧ (p.snapshot s).pc = d.pc ∧ (p.snapshot s).raw = d.raw := by
  simp only [StageSnapshot.working, Bool.and_eq_true, Bool.not_eq_true'] at hw
  obtain ⟨⟨hv, hstalled⟩, hflushed⟩ := hw
  have hshown := h.snapshot_shown s
  rw [StageSnapshot.shown, if_pos hv] at hshown
  obtain ⟨d, hd, heq⟩ := Option.map_eq_some_iff.mp hshown.symm
  obtain ⟨hpc, hraw⟩ := Prod.mk.inj heq
  exact ⟨d, ⟨hd, hstalled, hflushed⟩, hpc.symm, hraw.symm⟩

theorem Sound.working_of_works (h : p.Sound) (hd : p.Works s d) :
    (p.snapshot s).working = true := by
  have hshown := h.snapshot_shown s
  rw [hd.occupant, StageSnapshot.shown] at hshown
  have hv : (p.snapshot s).valid = true := by
    by_contra hv
    rw [if_neg hv] at hshown
    cases hshown
  simp [StageSnapshot.working, hv, hd.stalled, hd.flushed]

-- In one cycle it works in one stage.
theorem Sound.works_once (h : p.Sound) (hi : p.Works i d) (hs : p.Works s d) : i = s := by
  by_cases hi0 : i = 0
  · by_cases hs0 : s = 0
    · rw [hi0, hs0]
    · rw [hi0] at hi
      have hpast := h.ordered.past (hs.line hs0)
      rw [hi.fetched] at hpast
      exact absurd hpast (Nat.lt_irrefl _)
  · by_cases hs0 : s = 0
    · rw [hs0] at hs
      have hpast := h.ordered.past (hi.line hi0)
      rw [hs.fetched] at hpast
      exact absurd hpast (Nat.lt_irrefl _)
    · have hslot := h.ordered.unique (hi.line hi0) (hs.line hs0)
      omega

section Run

-- A later cycle of it is in a later stage.
theorem Sound.works_later (h : p.Sound) (hi : (p.run c).Works i d) (hcn : c < n)
    (hs : (p.run n).Works s d) : i < s := by
  have hordered : ∀ n, Conveyor.Ordered DynamicInstr.fetched (p.cpu.cycle + 1 + n) (p.run n).line := by
    intro n
    have hnow := (h.run n).ordered
    rw [run_cpu, run_cycle] at hnow
    rwa [Nat.add_right_comm]
  have hcycle : ∀ n, (p.run n).cpu.cycle = p.cpu.cycle + n := fun n => by rw [run_cpu, run_cycle]
  by_cases hs0 : s = 0
  · rw [hs0] at hs
    have hfetched := hs.fetched
    rw [hcycle] at hfetched
    by_cases hi0 : i = 0
    · rw [hi0] at hi
      have hfirst := hi.fetched
      rw [hcycle] at hfirst
      omega
    · have hpast := (hordered c).past (hi.line hi0)
      omega
  · by_cases hi0 : i = 0
    · rw [hi0]
      exact Fin.pos_of_ne_zero hs0
    · obtain ⟨m, rfl⟩ := Nat.exists_eq_add_of_lt hcn
      rcases Conveyor.forward_run hordered p.run_line_move (hi.line hi0) (m + 1) (hs.line hs0) with
        hlt | ⟨-, hstays⟩
      · omega
      · exact absurd (hstays 0 (Nat.succ_pos m)) hi.leaves

theorem Sound.works_lt_iff (h : p.Sound) (hi : (p.run c).Works i d) (hs : (p.run n).Works s d) :
    i < s ↔ c < n := by
  constructor
  · intro hlt
    rcases Nat.lt_trichotomy c n with hcn | rfl | hnc
    · exact hcn
    · exact absurd ((h.run c).works_once hi hs) hlt.ne
    · exact absurd (h.works_later hs hnc hi) (not_lt.mpr hlt.le)
  · exact fun hcn => h.works_later hi hcn hs

-- What IF hands on works there, or waits in ID as well.
theorem occupant_zero_cases (hd : p.occupant 0 = some d) :
    p.Works 0 d ∨ p.step.cpu.ps.loadStall = true ∧ p.occupant 1 = some d := by
  rcases p.cpu.step_front_cases with ⟨hf, -⟩ | ⟨hf, hj, hs, -⟩ | ⟨hf, hs, -⟩
  · simp [occupant, step, hf] at hd
  · exact .inr ⟨hs, (step_ifId_held hf hj hs).symm.trans hd⟩
  · have hj : p.cpu.runStages.flushFromId = false := by
      by_contra hj
      simp [occupant, step, hj] at hd
    refine .inl ⟨hd, hs, ?_⟩
    exact Bool.or_eq_false_iff.mpr ⟨hf, hj⟩

-- Past ID an instruction comes from the stage in which it worked a cycle ago.
theorem works_before (hs : s.val = i.val + 1) (hi : i ≠ 0) (hd : p.step.occupant s = some d) :
    p.Works i d := by
  obtain ⟨k, hk, hnext⟩ := occupant_comes hd (Fin.ne_of_val_ne (by simp [hs]))
  match k with
  | 0 =>
    obtain rfl := Option.some.inj hnext
    exact absurd (Fin.ext (Nat.succ.inj hs).symm) hi
  | 1 =>
    simp only [nextStage, Option.ite_none_left_eq_some, Bool.not_eq_true] at hnext
    obtain ⟨hf, hnext⟩ := hnext
    cases hstall : p.cpu.runStages.stallLoadUse with
    | true =>
      obtain rfl : 1 = s := by simpa [hstall] using hnext
      exact absurd (Fin.ext (Nat.succ.inj hs).symm) hi
    | false =>
      obtain rfl : 2 = s := by simpa [hstall] using hnext
      obtain rfl : i = 1 := Fin.ext (Nat.succ.inj hs).symm
      exact ⟨hk, hstall, hf⟩
  | 2 =>
    obtain rfl := Option.some.inj (Option.ite_none_left_eq_some.mp hnext).2
    obtain rfl : i = 2 := Fin.ext (Nat.succ.inj hs).symm
    exact ⟨hk, rfl, rfl⟩
  | 3 =>
    obtain rfl := Option.some.inj (Option.ite_none_left_eq_some.mp hnext).2
    obtain rfl : i = 3 := Fin.ext (Nat.succ.inj hs).symm
    exact ⟨hk, rfl, rfl⟩
  | 4 => cases hnext

-- An instruction in a stage has been in all stages before, a cycle in each since ID.
theorem occupant_back (hnone : ∀ k, p.line k = none) (h : (p.run n).occupant s = some d) :
    ∃ b, b + s.val = n ∧ (p.run b).occupant 0 = some d := by
  obtain ⟨m, hm⟩ : ∃ m, s.val = m := ⟨_, rfl⟩
  induction m generalizing n s with
  | zero =>
    obtain rfl : s = 0 := Fin.ext hm
    exact ⟨n, rfl, h⟩
  | succ m ih =>
    have hs0 : s ≠ 0 := Fin.ne_of_val_ne (by simp [hm])
    cases n with
    | zero =>
      rw [occupant_line _ hs0, run, Function.iterate_zero, id, hnone] at h
      cases h
    | succ n =>
      rw [run_succ] at h
      have hi : m < 5 := by omega
      have hbefore : (p.run n).occupant ⟨m, hi⟩ = some d := by
        by_cases hm0 : m = 0
        · subst hm0
          obtain rfl : s = 1 := Fin.ext hm
          exact h
        · exact (works_before (i := ⟨m, hi⟩) hm (Fin.ne_of_val_ne hm0) h).occupant
      obtain ⟨b, hb, hzero⟩ := ih hbefore rfl
      exact ⟨b, by rw [hm, ← hb]; rfl, hzero⟩

-- It comes to a later stage from the one before, in which no other has worked since.
theorem Works.comes (hnone : ∀ k, p.line k = none) (hs : s.val = i.val + 1)
    (h : (p.run n).Works s d) :
    ∃ c < n, n ≤ c + 2 ∧ (p.run c).Works i d ∧
      ∀ {b e}, (p.run b).Works i e → b < n → b ≤ c := by
  have hs0 : s ≠ 0 := Fin.ne_of_val_ne (by simp [hs])
  cases n with
  | zero =>
    have hline := h.line hs0
    rw [run, Function.iterate_zero, id, hnone] at hline
    cases hline
  | succ n =>
    rw [run_succ] at h
    have hlast : ∀ {b e}, (p.run b).Works i e → b < n + 1 → b ≤ n :=
      fun _ hb => Nat.le_of_lt_succ hb
    by_cases hi : i = 0
    · subst hi
      obtain rfl : s = 1 := Fin.ext hs
      rcases occupant_zero_cases (p := p.run n) h.occupant with hw | ⟨hstall, hid⟩
      · exact ⟨n, Nat.lt_succ_self n, by omega, hw, hlast⟩
      · -- IF/ID has been held: IF worked a cycle earlier
        cases n with
        | zero =>
          cases (hnone 0).symm.trans hid
        | succ n =>
          rw [run_succ] at hstall hid
          rcases occupant_zero_cases (p := p.run n) hid with hw | ⟨hstall', -⟩
          · refine ⟨n, by omega, Nat.le_refl _, hw, fun {b e} hwe hb => ?_⟩
            by_contra hbn
            obtain rfl : b = n + 1 := by omega
            have hfree := hwe.stalled
            rw [snapshot_stalled _ (Nat.zero_le _), run_succ, hstall] at hfree
            cases hfree
          · rw [step_cpu, step_cpu] at hstall
            rw [step_cpu] at hstall'
            rw [loadStall_once hstall'] at hstall
            cases hstall
    · exact ⟨n, Nat.lt_succ_self n, by omega, works_before hs hi h.occupant, hlast⟩

end Run

end Occupied

end ClearCore.Mips
