import Mathlib.Tactic.Common

-- A view that keeps its model up to date but draws it only while it is visible.

structure LazyView (Model Picture : Type) where
  model : Model
  picture : Picture
  visible : Bool := false
  dirty : Bool := false

namespace LazyView

variable {Model Picture : Type} (render : Model → Picture)

-- A change of the model that is left undrawn.
def store (view : LazyView Model Picture) (model : Model) : LazyView Model Picture :=
  { view with model, dirty := true }

def draw (view : LazyView Model Picture) (model : Model) : LazyView Model Picture :=
  { view with model, picture := render model, dirty := false }

-- A change that is drawn at once and settles nothing else.
def repaint (view : LazyView Model Picture) (model : Model) : LazyView Model Picture :=
  { view with model, picture := render model }

def present (view : LazyView Model Picture) (model : Model) : LazyView Model Picture :=
  if view.visible then view.draw render model else view.store model

def reveal (view : LazyView Model Picture) : LazyView Model Picture :=
  if view.dirty then { view.draw render view.model with visible := true }
  else { view with visible := true }

def conceal (view : LazyView Model Picture) : LazyView Model Picture :=
  { view with visible := false }

-- What is not dirty is drawn, and what is visible is not dirty.
structure Current (view : LazyView Model Picture) : Prop where
  drawn : view.dirty = false → view.picture = render view.model
  shown : view.visible = true → view.dirty = false

variable {render} {view : LazyView Model Picture}

theorem Current.picture (h : view.Current render) (hv : view.visible = true) :
    view.picture = render view.model := h.drawn (h.shown hv)

theorem current_store (hv : view.visible = false) (model : Model) :
    (view.store model).Current render where
  drawn := nofun
  shown := fun hvisible => by
    change view.visible = true at hvisible
    rw [hv] at hvisible
    cases hvisible

theorem current_draw (view : LazyView Model Picture) (model : Model) :
    (view.draw render model).Current render := ⟨fun _ => rfl, fun _ => rfl⟩

theorem Current.repaint (h : view.Current render) (model : Model) :
    (view.repaint render model).Current render := ⟨fun _ => rfl, h.shown⟩

theorem current_present (view : LazyView Model Picture) (model : Model) :
    (view.present render model).Current render := by
  rw [present]
  split
  · exact current_draw view model
  · rename_i hv
    exact current_store (Bool.not_eq_true _ ▸ hv) model

theorem Current.reveal (h : view.Current render) : (view.reveal render).Current render := by
  rw [LazyView.reveal]
  split
  · exact ⟨fun _ => rfl, fun _ => rfl⟩
  · rename_i hclean
    exact ⟨h.drawn, fun _ => Bool.not_eq_true _ ▸ hclean⟩

theorem Current.conceal (h : view.Current render) : view.conceal.Current render :=
  ⟨h.drawn, nofun⟩

@[simp] theorem model_present (view : LazyView Model Picture) (model : Model) :
    (view.present render model).model = model := by
  rw [present]
  split <;> rfl

@[simp] theorem model_reveal (view : LazyView Model Picture) :
    (view.reveal render).model = view.model := by
  rw [reveal]
  split <;> rfl

end LazyView
