import Mathlib.Control.Basic
import Mathlib.Tactic.SplitIfs

/-! Programs over a state that revert, or that are looked at while they run, with rules for their
pre- and postconditions. -/
namespace Replay
variable {E S A B : Type}

/-- Why a program stops before its end: it reverts, or somebody looks at its state there. -/
inductive Halt (E S : Type) where
  | reverted (e : E)
  | observed (s : S)

abbrev Program (E S A : Type) := StateT S (Except (Halt E S)) A

variable {c : Prop} {e : E} {P : S → Prop}

variable {y : Program E S A} {t : S} {u : PUnit} {O : S → Prop} {Q : A → S → Prop}

namespace Program

def revert (e : E) : Program E S A := fun _ => .error (.reverted e)

/-- Stop here and show the state. -/
def observe : Program E S A := fun s => .error (.observed s)

def require (c : Prop) [Decidable c] (e : E) : Program E S Unit := if c then pure () else revert e

def onlyIf (c : Prop) [Decidable c] (x : Program E S Unit) : Program E S Unit :=
  if c then x else pure ()

/-- A call whose revert the caller catches: the state is as before. -/
def attempt (x : Program E S Unit) : Program E S Unit := fun s =>
  match x s with
  | .error (.reverted _) => .ok ((), s)
  | r => r

/-- `Q` holds at the end and `O` wherever the program is looked at. -/
def Ends (r : Except (Halt E S) (A × S)) (Q : A → S → Prop) (O : S → Prop) : Prop :=
  match r with
  | .ok (a, s) => Q a s
  | .error (.observed s) => O s
  | .error (.reverted _) => True

/-- From a state with `P` the program ends with `Q`, shows only states with `O`, or reverts. -/
def Triple (P : S → Prop) (x : Program E S A) (Q : A → S → Prop) (O : S → Prop) : Prop :=
  ∀ s, P s → Ends (x s) Q O

section
variable {P P' : S → Prop} {Q Q' : A → S → Prop} {R : B → S → Prop} {O O' : S → Prop}
  {x : Program E S A} {f : A → Program E S B}

lemma bind_apply (x : Program E S A) (f : A → Program E S B) (s : S) : (x >>= f) s = match x s with
      | .ok (a, s') => f a s'
      | .error h => .error h := by
  change (x s >>= fun r => f r.1 r.2) = _
  cases x s <;> rfl

lemma Ends.mono {r : Except (Halt E S) (A × S)} (h : Ends r Q O) (hq : ∀ a s, Q a s → Q' a s)
    (ho : ∀ s, O s → O' s) : Ends r Q' O' :=
  match r, h with
  | .ok (a, s), h => hq a s h
  | .error (.observed s), h => ho s h
  | .error (.reverted _), _ => trivial

lemma Triple.mono (h : Triple P x Q O) (hp : ∀ s, P' s → P s) (hq : ∀ a s, Q a s → Q' a s)
    (ho : ∀ s, O s → O' s) : Triple P' x Q' O' :=
  fun s hs => (h s (hp s hs)).mono hq ho

lemma Triple.bind (hx : Triple P x Q O) (hf : ∀ a, Triple (Q a) (f a) R O) :
    Triple P (x >>= f) R O := by
  intro s hs
  rw [bind_apply]
  have hend := hx s hs
  cases hrun : x s with
  | error halt =>
    rw [hrun] at hend
    cases halt with
    | reverted => trivial
    | observed => exact hend
  | ok r =>
    rw [hrun] at hend
    exact hf r.1 r.2 hend

/-- A program can be looked at from one state at a time. -/
lemma triple_of_forall (h : ∀ s, P s → Triple (fun t => t = s) x Q O) : Triple P x Q O :=
  fun s hs => h s hs s rfl

lemma triple_pure (a : A) (h : ∀ s, P s → Q a s) : Triple P (pure a : Program E S A) Q O := h

lemma triple_revert (e : E) : Triple P (revert e : Program E S A) Q O := fun _ _ => trivial

lemma triple_observe (h : ∀ s, P s → O s) : Triple P (observe : Program E S A) Q O := h

lemma triple_modify (g : S → S) {Q : PUnit → S → Prop} (h : ∀ s, P s → Q ⟨⟩ (g s)) :
    Triple P (modify g : Program E S PUnit) Q O := h

lemma triple_set (t : S) {Q : PUnit → S → Prop} (h : ∀ s, P s → Q ⟨⟩ t) :
    Triple P (set t : Program E S PUnit) Q O := h

lemma triple_require [Decidable c] :
    Triple P (require c e : Program E S Unit) (fun _ s => P s ∧ c) O := by
  intro s hs
  unfold require
  split_ifs with hc
  · exact ⟨hs, hc⟩
  · trivial

/-- Reading the state: what follows is about that state. -/
lemma triple_get_bind {f : S → Program E S B}
    (h : ∀ s₀, P s₀ → Triple (fun s => s = s₀) (f s₀) R O) : Triple P (get >>= f) R O :=
  fun s hs => h s hs s rfl

lemma triple_ite [Decidable c] {x : Program E S A} (hx : c → Triple P x Q O)
    (hy : ¬c → Triple P y Q O) : Triple P (if c then x else y) Q O := by
  split_ifs with hc
  · exact hx hc
  · exact hy hc

/-- A caught revert leaves the state as it was. -/
lemma triple_attempt {x : Program E S Unit} (h : Triple P x (fun _ => P) O) :
    Triple P (attempt x) (fun _ => P) O := by
  intro s hs
  have hend := h s hs
  unfold attempt
  cases hrun : x s with
  | error halt =>
    rw [hrun] at hend
    cases halt with
    | reverted => exact hs
    | observed => exact hend
  | ok =>
    rw [hrun] at hend
    exact hend

end

section
variable {x : Program E S A} {f : A → Program E S B} {s s' : S} {a : A} {b : B}

/-- A sequence that returns has run its first part to the end. -/
@[simp]
lemma bind_eq_ok : (x >>= f) s = .ok (b, s') ↔ ∃ a t, x s = .ok (a, t) ∧ f a t = .ok (b, s') := by
  rw [bind_apply]
  constructor
  · intro h
    cases hrun : x s with
    | error =>
      rw [hrun] at h
      cases h
    | ok r =>
      rw [hrun] at h
      exact ⟨r.1, r.2, rfl, h⟩
  · rintro ⟨a, t, hx, hf⟩
    rw [hx]
    exact hf

@[simp]
lemma pure_eq_ok {a' : A} : (pure a : Program E S A) s = .ok (a', s') ↔ a = a' ∧ s = s' := by
  constructor
  · intro h
    cases h
    exact ⟨rfl, rfl⟩
  · rintro ⟨rfl, rfl⟩
    rfl

@[simp]
lemma map_eq_ok {g : A → B} : (g <$> x) s = .ok (b, s') ↔ ∃ a, x s = .ok (a, s') ∧ g a = b := by
  rw [map_eq_pure_bind, bind_eq_ok]
  simp only [pure_eq_ok]
  constructor
  · rintro ⟨a, t, hx, rfl, rfl⟩
    exact ⟨a, hx, rfl⟩
  · rintro ⟨a, hx, rfl⟩
    exact ⟨a, s', hx, rfl, rfl⟩

@[simp]
lemma get_eq_ok : (get : Program E S S) s = .ok (t, s') ↔ s = t ∧ s = s' := by
  constructor
  · intro h
    cases h
    exact ⟨rfl, rfl⟩
  · rintro ⟨rfl, rfl⟩
    rfl

@[simp]
lemma set_eq_ok : (set t : Program E S PUnit) s = .ok (u, s') ↔ t = s' := by
  constructor
  · intro h
    cases h
    rfl
  · rintro rfl
    rfl

@[simp]
lemma modify_eq_ok {g : S → S} : (modify g : Program E S PUnit) s = .ok (u, s') ↔ g s = s' := by
  constructor
  · intro h
    cases h
    rfl
  · rintro rfl
    rfl

@[simp]
lemma revert_eq_ok : (revert e : Program E S A) s = .ok (a, s') ↔ False := by
  constructor
  · intro h
    cases h
  · exact False.elim

@[simp]
lemma require_eq_ok [Decidable c] {u : Unit} :
    (require c e : Program E S Unit) s = .ok (u, s') ↔ c ∧ s = s' := by
  unfold require
  split_ifs with hc <;> simp [hc]

@[simp]
lemma onlyIf_eq_ok [Decidable c] {x : Program E S Unit} {u : Unit} :
    onlyIf c x s = .ok (u, s') ↔ if c then x s = .ok (u, s') else s = s' := by
  unfold onlyIf
  split_ifs <;> simp

lemma Triple.ok (h : Triple P x Q O) (hs : P s) (hrun : x s = .ok (a, s')) : Q a s' := by
  have hend := h s hs
  rw [hrun] at hend
  exact hend

/-- A state at the end of the program, or one where it is looked at. -/
def Reaches (x : Program E S A) (s s' : S) : Prop :=
  (∃ a, x s = .ok (a, s')) ∨ x s = .error (.observed s')

lemma Reaches.of_map {B : Type} {f : A → B} (h : Reaches (f <$> x) s s') : Reaches x s s' := by
  rcases h with ⟨b, hok⟩ | hobs
  · obtain ⟨a, hrun, -⟩ := map_eq_ok.mp hok
    exact .inl ⟨a, hrun⟩
  · rw [map_eq_pure_bind, bind_apply] at hobs
    cases hrun : x s with
    | ok =>
      rw [hrun] at hobs
      cases hobs
    | error =>
      rw [hrun] at hobs
      cases hobs
      exact .inr hrun

lemma Triple.reaches {Q : S → Prop} (h : Triple P x (fun _ => Q) Q) (hs : P s)
    (hreach : Reaches x s s') : Q s' := by
  have hend := h s hs
  rcases hreach with ⟨a, hrun⟩ | hrun
  · rw [hrun] at hend
    exact hend
  · rw [hrun] at hend
    exact hend

end

/-- The program is never looked at while it runs. -/
def Quiet (x : Program E S A) : Prop := ∀ s s', x s ≠ .error (.observed s')

section
variable {x : Program E S A} {f : A → Program E S B}

lemma Quiet.bind (hx : Quiet x) (hf : ∀ a, Quiet (f a)) : Quiet (x >>= f) := by
  intro s s' h
  rw [bind_apply] at h
  cases hrun : x s with
  | error =>
    rw [hrun] at h
    cases h
    exact hx s s' hrun
  | ok r =>
    rw [hrun] at h
    exact hf r.1 r.2 s' h

lemma quiet_pure (a : A) : Quiet (pure a : Program E S A) := fun _ _ h => nomatch h

lemma quiet_get : Quiet (get : Program E S S) := fun _ _ h => nomatch h

lemma quiet_set (s : S) : Quiet (set s : Program E S PUnit) := fun _ _ h => nomatch h

lemma quiet_modify (g : S → S) : Quiet (modify g : Program E S PUnit) := fun _ _ h => nomatch h

lemma quiet_require [Decidable c] : Quiet (require c e : Program E S Unit) := by
  unfold require
  split_ifs
  · exact quiet_pure ()
  · exact fun _ _ h => nomatch h

lemma quiet_ite [Decidable c] {x : Program E S A} (hx : Quiet x) (hy : Quiet y) :
    Quiet (if c then x else y) := by
  split_ifs
  · exact hx
  · exact hy

/-- It is enough to look at the runs that return. -/
lemma Quiet.triple (hx : Quiet x) (h : ∀ s a s', P s → x s = .ok (a, s') → Q a s') :
    Triple P x Q O := by
  intro s hs
  cases hrun : x s with
  | ok r => exact h s r.1 r.2 hs hrun
  | error halt =>
    cases halt with
    | reverted => trivial
    | observed s' => exact absurd hrun (hx s s')

end

-- the rules above are all that is used of them
attribute [irreducible] Triple Quiet

end Program
end Replay
