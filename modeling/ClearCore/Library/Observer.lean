import Mathlib.Data.Set.Basic

-- Observers: a view keeps what it has read of the properties of a state, and reads some of
-- them again when it hears a signal.

structure Observer (State View Property Signal : Type) where
  agrees : State → View → Property → Prop
  hear : View → State → Signal → View
  covers : Signal → Set Property
  hear_covered {view : View} {state : State} {signal : Signal} {p : Property}
    (h : p ∈ covers signal) : agrees state (hear view state signal) p
  hear_kept {view : View} {state : State} (signal : Signal) {p : Property}
    (h : agrees state view p) : agrees state (hear view state signal) p

namespace Observer

variable {State View Property Signal : Type} {o : Observer State View Property Signal}
  {state state' : State} {view : View} {pending pending' touched : Set Property}

-- The view is up to date, but for what is pending.
def Coherent (o : Observer State View Property Signal) (pending : Set Property) (state : State)
    (view : View) : Prop :=
  ∀ p, p ∉ pending → o.agrees state view p

theorem Coherent.mono (h : o.Coherent pending state view) (hsub : pending ⊆ pending') :
    o.Coherent pending' state view := fun p hp => h p fun hin => hp (hsub hin)

-- A signal settles what it covers.
theorem Coherent.signal (h : o.Coherent pending state view) {signal : Signal}
    (hsub : pending ⊆ pending' ∪ o.covers signal) :
    o.Coherent pending' state (o.hear view state signal) := by
  intro p hp
  by_cases hin : p ∈ pending
  · exact o.hear_covered ((hsub hin).resolve_left hp)
  · exact o.hear_kept signal (h p hin)

theorem Coherent.signals (h : o.Coherent pending state view) {signals : List Signal}
    (hsub : ∀ p ∈ pending, p ∈ pending' ∨ ∃ signal ∈ signals, p ∈ o.covers signal) :
    o.Coherent pending' state (signals.foldl (o.hear · state ·) view) := by
  induction signals generalizing view pending with
  | nil =>
    apply h.mono
    intro p hp
    simpa using hsub p hp
  | cons signal rest ih =>
    have hnext : o.Coherent (pending \ o.covers signal) state (o.hear view state signal) := by
      apply h.signal
      intro p hp
      by_cases hcov : p ∈ o.covers signal
      · exact .inr hcov
      · exact .inl ⟨hp, hcov⟩
    apply ih hnext
    rintro p ⟨hp, hcov⟩
    rcases hsub p hp with hin | ⟨other, hother, hcovers⟩
    · exact .inl hin
    · rcases List.mem_cons.mp hother with rfl | hrest
      · exact absurd hcovers hcov
      · exact .inr ⟨other, hrest, hcovers⟩

-- What a change of the state touches becomes pending.
theorem Coherent.change (h : o.Coherent pending state view)
    (hkeep : ∀ p, p ∉ touched → o.agrees state view p → o.agrees state' view p)
    (hsub : pending ∪ touched ⊆ pending') : o.Coherent pending' state' view := by
  intro p hp
  have hout : p ∉ pending ∪ touched := fun hin => hp (hsub hin)
  rw [Set.mem_union, not_or] at hout
  exact hkeep p hout.2 (h p hout.1)

end Observer
