import Mathlib.Data.List.Basic

/-! Runs of a machine that takes one event at a time. -/
namespace Replay
variable {S E O : Type} {step : S → E → Option (O × S)} {guard guard' : S → E → Prop} {s₀ s : S}
  {trace : List (E × O)}

/-- The state that a run reaches and its events with their outputs, oldest first. The guard says
which events may happen in a state. -/
inductive Run (step : S → E → Option (O × S)) (guard : S → E → Prop) (s₀ : S) :
    List (E × O) → S → Prop
  | start : Run step guard s₀ [] s₀
  | next {trace : List (E × O)} {s s' : S} {e : E} {o : O} :
      Run step guard s₀ trace s → guard s e → step s e = some (o, s') →
      Run step guard s₀ (trace ++ [(e, o)]) s'

/-- What holds at the start and is kept by every allowed step holds after every run. -/
lemma Run.invariant {P : List (E × O) → S → Prop} (hstart : P [] s₀)
    (hstep : ∀ trace s e o s', P trace s → guard s e → step s e = some (o, s') →
      P (trace ++ [(e, o)]) s')
    (h : Run step guard s₀ trace s) : P trace s := by
  induction h with
  | start => exact hstart
  | next _ hguard hnext ih => exact hstep _ _ _ _ _ ih hguard hnext

lemma Run.mono (hguard : ∀ s e, guard s e → guard' s e) (h : Run step guard s₀ trace s) :
    Run step guard' s₀ trace s := by
  induction h with
  | start => exact .start
  | next _ hg hnext ih => exact .next ih (hguard _ _ hg) hnext

section
variable [∀ s e, Decidable (guard s e)]

/-- One event after the other, with the outputs so far. -/
def playStep (step : S → E → Option (O × S)) (guard : S → E → Prop) [∀ s e, Decidable (guard s e)]
    (acc : List (E × O) × S) (e : E) : Option (List (E × O) × S) :=
  if guard acc.2 e then (step acc.2 e).map fun r => (acc.1 ++ [(e, r.1)], r.2) else none

def play (step : S → E → Option (O × S)) (guard : S → E → Prop) [∀ s e, Decidable (guard s e)]
    (s₀ : S) (events : List E) : Option (List (E × O) × S) :=
  events.foldlM (playStep step guard) ([], s₀)

lemma run_of_playStep {acc acc' : List (E × O) × S} {e : E} (hacc : Run step guard s₀ acc.1 acc.2)
    (h : playStep step guard acc e = some acc') : Run step guard s₀ acc'.1 acc'.2 := by
  unfold playStep at h
  split_ifs at h with hguard
  obtain ⟨r, hr, rfl⟩ := Option.map_eq_some_iff.mp h
  exact .next hacc hguard hr

lemma run_of_play {events : List E} (h : play step guard s₀ events = some (trace, s)) :
    Run step guard s₀ trace s := by
  have hfrom : ∀ (events : List E) (acc : List (E × O) × S), Run step guard s₀ acc.1 acc.2 →
      events.foldlM (playStep step guard) acc = some (trace, s) → Run step guard s₀ trace s := by
    intro events
    induction events with
    | nil =>
      intro acc hacc hplay
      cases hplay
      exact hacc
    | cons _ _ ih =>
      intro acc hacc hplay
      rw [List.foldlM_cons] at hplay
      obtain ⟨acc', hstep, hrest⟩ := Option.bind_eq_some_iff.mp hplay
      exact ih acc' (run_of_playStep hacc hstep) hrest
  exact hfrom events ([], s₀) .start h

/-- An execution that ends as it is looked for. -/
lemma exists_run_of_any {P : List (E × O) × S → Prop} [DecidablePred P] {events : List E}
    (h : (play step guard s₀ events).any fun r => P r) :
    ∃ trace s, Run step guard s₀ trace s ∧ P (trace, s) := by
  obtain ⟨⟨trace, s⟩, hplay, hreached⟩ := (Option.any_eq_true _ _).mp h
  exact ⟨trace, s, run_of_play hplay, of_decide_eq_true hreached⟩

end
end Replay
