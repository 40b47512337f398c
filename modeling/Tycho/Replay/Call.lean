import Mathlib.Data.List.Basic

/-! Calls that change a state while they run and may fail in the middle. -/
namespace Replay
open List
variable {S E A B : Type}

/-- The changes that a call made before an error stay. -/
abbrev Call (S E A : Type) := ExceptT E (StateM S) A

variable {s s' : S} {c : Call S E A} {f : A → Call S E B} {e : E}

namespace Call

def on (c : Call S E A) (s : S) : Except E A × S := c.run.run s

@[simp] lemma on_pure (a : A) (s : S) : (pure a : Call S E A).on s = (.ok a, s) := rfl

@[simp] lemma on_get (s : S) : (get : Call S E S).on s = (.ok s, s) := rfl

@[simp] lemma on_modify (f : S → S) (s : S) :
    (modify f : Call S E PUnit).on s = (.ok ⟨⟩, f s) := rfl

/-- The second call starts in the state that the first one leaves, if there is no error. -/
lemma on_bind (c : Call S E A) (f : A → Call S E B) (s : S) : (c >>= f).on s = match c.on s with
      | (.ok a, s') => (f a).on s'
      | (.error e, s') => (.error e, s') := by
  unfold on
  simp only [ExceptT.run_bind, StateT.run_bind]
  change (match c.run.run s with | (r, s') => _) = _
  obtain ⟨r, s'⟩ := c.run.run s
  cases r <;> rfl

lemma on_bind_ok {a : A} (h : c.on s = (.ok a, s')) : (c >>= f).on s = (f a).on s' := by
  rw [on_bind, h]

lemma on_bind_error (h : c.on s = (.error e, s')) : (c >>= f).on s = (.error e, s') := by
  rw [on_bind, h]

/-- If two calls succeed, both of them do. -/
lemma ok_of_on_bind {b : B} (h : (c >>= f).on s = (.ok b, s')) :
    ∃ a s₁, c.on s = (.ok a, s₁) ∧ (f a).on s₁ = (.ok b, s') := by
  rw [on_bind] at h
  split at h
  · rename_i a s₁ hc
    exact ⟨a, s₁, hc, h⟩
  · cases h

/-- A loop that changes the state for each element. -/
lemma on_forM_modify (f : A → S → S) (l : List A) (s : S) :
    (l.forM fun a => (modify (f a) : Call S E PUnit)).on s =
      (.ok ⟨⟩, l.foldl (fun s a => f a s) s) := by
  induction l generalizing s with
  | nil => rfl
  | cons a l ih =>
    have hcounts : (a :: l).forM (fun a => (modify (f a) : Call S E PUnit)) =
        (modify (f a) >>= fun _ => l.forM fun a => modify (f a)) := rfl
    rw [hcounts, on_bind_ok (on_modify (f a) s), ih]
    rfl

/-- A function that decides before it changes anything. -/
def deciding (f : S → Except E (A × S)) (s : S) : Except E A × S :=
  match f s with
  | .ok (a, s') => (.ok a, s')
  | .error e => (.error e, s)

lemma deciding_error {f : S → Except E (A × S)} (h : deciding f s = (.error e, s')) :
    f s = .error e ∧ s' = s := by
  unfold deciding at h
  split at h
  · cases h
  · rename_i err herr
    cases h
    exact ⟨herr, rfl⟩

lemma deciding_ok {f : S → Except E (A × S)} {a : A} (h : deciding f s = (.ok a, s')) :
    f s = .ok (a, s') := by
  unfold deciding at h
  split at h
  · rename_i a' s'' hok
    cases h
    exact hok
  · cases h

def exec (c : Call S E A) (s : S) : Except E S :=
  match c.on s with
  | (.ok _, s') => .ok s'
  | (.error e, _) => .error e

lemma exec_ok {c : Call S E Unit} (h : c.exec s = .ok s') : c.on s = (.ok (), s') := by
  unfold exec at h
  split at h
  · rename_i a s'' hon
    cases h
    exact hon
  · cases h

structure Lens (S T : Type) where
  get : S → T
  set : T → S → S

def zoom {T : Type} (l : Lens S T) (c : Call T E A) : Call S E A :=
  ExceptT.mk (StateT.mk fun s => match c.on (l.get s) with
    | (r, t) => (r, l.set t s))

lemma on_zoom {T : Type} (l : Lens S T) (c : Call T E A) (s : S) :
    (c.zoom l).on s = ((c.on (l.get s)).1, l.set (c.on (l.get s)).2 s) := rfl

/-- One call after the other, until one fails. -/
def all : List (Call S E Unit) → Call S E Unit
  | [] => pure ()
  | c :: cs => do
    c
    all cs

section
variable {I X : Type} {view : S → I → X} {next : X → Except E X}

/-- A call on one part of a state, where what is seen of this part decides about its success and
about what is seen of it afterwards. -/
structure OnPart (view : S → I → X) (next : X → Except E X) (i : I) (c : Call S E Unit) : Prop where
  ok : ∀ s x, next (view s i) = .ok x →
    ∃ s', c.on s = (.ok (), s') ∧ view s' i = x ∧ ∀ j ≠ i, view s' j = view s j
  error : ∀ s e, next (view s i) = .error e → c.on s = (.error e, s)

variable {call : I → Call S E Unit} {parts : List I} {x : X}

/-- If the parts look the same, they take the step together. -/
lemma all_ok (hcall : ∀ i ∈ parts, OnPart view next i (call i)) (hnodup : parts.Nodup) {x' : X}
    (hview : ∀ i ∈ parts, view s i = x) (hnext : next x = .ok x') :
    ∃ s', (all (parts.map call)).on s = (.ok (), s') ∧ (∀ i ∈ parts, view s' i = x') ∧
      ∀ j ∉ parts, view s' j = view s j := by
  induction parts generalizing s with
  | nil => exact ⟨s, rfl, by simp, fun _ _ => rfl⟩
  | cons i parts ih =>
    obtain ⟨hi, hrest⟩ := nodup_cons.mp hnodup
    have hfirst := hview i mem_cons_self
    obtain ⟨s₁, hon, hsame, hother⟩ :=
      (hcall i mem_cons_self).ok s x' (by rw [hfirst, hnext])
    have hne : ∀ j ∈ parts, j ≠ i := by
      rintro j hj rfl
      exact hi hj
    obtain ⟨s₂, hall, hparts, hout⟩ :=
      ih (fun j hj => hcall j (mem_cons_of_mem i hj)) hrest (s := s₁) fun j hj => by
        rw [hother j (hne j hj), hview j (mem_cons_of_mem i hj)]
    refine ⟨s₂, ?_, ?_, ?_⟩
    · rw [map_cons, all, on_bind_ok hon, hall]
    · intro j hj
      rcases mem_cons.mp hj with rfl | hj
      · rw [hout j hi, hsame]
      · exact hparts j hj
    · intro j hj
      rw [mem_cons, not_or] at hj
      rw [hout j hj.2, hother j hj.1]

/-- If the parts look the same, the first call fails or none does. -/
lemma all_error {i : I} (hcall : OnPart view next i (call i)) (hview : view s i = x)
    (hnext : next x = .error e) :
    (all ((i :: parts).map call)).on s = (.error e, s) := by
  have hfirst := hcall.error s e (by rw [hview, hnext])
  rw [map_cons, all, on_bind_error hfirst]

end
end Call
end Replay
