import Tycho.Replay.LastWrite

/-! Blind overwrites and their replay. A step that checks an identity and then overwrites some
cells of a state is described by its check and its write set; replaying a log of such steps
leaves in each cell the last value the log wrote there. -/
namespace Replay
open Option
variable {S I K V E D : Type}

/-- The step `f` rejects the states whose identity fails the check, and otherwise overwrites
the cells in `w` and nothing else. What it checks and writes depends on the identity only. -/
structure Overwrites (ident : S → I) (view : S → K → V) (f : S → Except E S)
    (check : I → Option E) (w : I → K → Option V) : Prop where
  rejects : ∀ s e, check (ident s) = some e → f s = .error e
  writes : ∀ s, check (ident s) = none →
    ∃ s', f s = .ok s' ∧ ident s' = ident s ∧ ∀ k, view s' k = (w (ident s) k).getD (view s k)

/-- Two outcomes that no reader of the cells can tell apart. -/
inductive Agree (ident : S → I) (view : S → K → V) : Except E S → Except E S → Prop
  | ok {s s' : S} : ident s = ident s' → (∀ k, view s k = view s' k) →
      Agree ident view (.ok s) (.ok s')
  | error (e : E) : Agree ident view (.error e) (.error e)

variable {s : S} {step : D → S → Except E S}

namespace Overwrites
variable {ident : S → I} {view : S → K → V} {f g : S → Except E S} {check check' : I → Option E}
  {w w' : I → K → Option V}

section
variable (hf : Overwrites ident view f check w)
include hf

lemma check_of_ok {s' : S} (h : f s = .ok s') : check (ident s) = none := by
  rw [eq_none_iff_forall_ne_some]
  intro e he
  rw [hf.rejects s e he] at h
  cases h

/-- What an accepted step leaves in every cell. -/
lemma view_of_ok {s' : S} (h : f s = .ok s') :
    ident s' = ident s ∧ ∀ k, view s' k = (w (ident s) k).getD (view s k) := by
  obtain ⟨t, ht, hi, hv⟩ := hf.writes s (hf.check_of_ok h)
  rw [h] at ht
  cases ht
  exact ⟨hi, hv⟩

lemma congr (hc : ∀ i, check i = check' i)
    (hw : ∀ i k, w i k = w' i k) : Overwrites ident view f check' w' := by
  have hc : check = check' := funext hc
  have hw : w = w' := funext fun i => funext (hw i)
  rwa [← hc, ← hw]

end

protected lemma pure : Overwrites ident view (E := E) Except.ok (fun _ => none) fun _ _ => none :=
  ⟨fun _ _ h => (nomatch h), fun s _ => ⟨s, rfl, rfl, fun _ => rfl⟩⟩

lemma comp (hf : Overwrites ident view f check w) (hg : Overwrites ident view g check' w') :
    Overwrites ident view (fun s => f s >>= g) (fun i => (check i).or (check' i))
      fun i k => (w' i k).or (w i k) := by
  constructor
  · intro s e he
    cases hc : check (ident s) with
    | some e' =>
      rw [hc, some_or] at he
      rw [hf.rejects s e' hc, ← Option.some.inj he]
      rfl
    | none =>
      rw [hc, none_or] at he
      obtain ⟨t, ht, hi, -⟩ := hf.writes s hc
      rw [ht]
      exact hg.rejects t e (hi ▸ he)
  · intro s hs
    obtain ⟨hc, hc'⟩ := or_eq_none_iff.mp hs
    obtain ⟨t, ht, hi, hv⟩ := hf.writes s hc
    obtain ⟨t', ht', hi', hv'⟩ := hg.writes t (hi ▸ hc')
    refine ⟨t', by rw [ht]; exact ht', hi'.trans hi, fun k => ?_⟩
    rw [hv', hv, hi]
    cases w' (ident s) k <;> rfl

/-- A step that is absent changes nothing. -/
lemma option {check : D → I → Option E} {w : D → I → K → Option V}
    (h : ∀ d, Overwrites ident view (step d) (check d) (w d)) (o : Option D) :
    Overwrites ident view (fun s => o.elim (.ok s) fun d => step d s)
      (fun i => o.bind fun d => check d i) fun i k => o.bind fun d => w d i k := by
  cases o with
  | none => exact Overwrites.pure
  | some d => exact h d

/-- A step chosen by the identity of the state. -/
lemma select {step : I → S → Except E S} {check : I → I → Option E}
    {w : I → I → K → Option V} (h : ∀ i, Overwrites ident view (step i) (check i) (w i)) :
    Overwrites ident view (fun s => step (ident s) s) (fun i => check i i) fun i => w i i :=
  ⟨fun s => (h (ident s)).rejects s, fun s => (h (ident s)).writes s⟩

/-- A step on a state that carries a tag no cell depends on. -/
lemma tagged {T : Type} (hf : Overwrites ident view f check w) (tag : T) :
    Overwrites (fun st : S × T => ident st.1) (fun st => view st.1)
      (fun st => (f st.1).map fun s => (s, tag)) check w := by
  constructor
  · intro st e he
    rw [hf.rejects st.1 e he]
    rfl
  · intro st hs
    obtain ⟨s', hs', hi, hv⟩ := hf.writes st.1 hs
    exact ⟨(s', tag), by rw [hs']; rfl, hi, hv⟩

/-- Replaying a log writes the last value of every cell the log touches. -/
lemma replay {check : D → I → Option E} {w : D → I → K → Option V} {l : List D}
    (h : ∀ d ∈ l, Overwrites ident view (step d) (check d) (w d)) :
    Overwrites ident view (fun s => l.foldlM (fun s d => step d s) s)
      (fun i => l.findSome? fun d => check d i) fun i => lastWrite (fun d => w d i) l := by
  induction l with
  | nil => exact Overwrites.pure
  | cons d l ih =>
    have hd := h d List.mem_cons_self
    have hl := ih fun d' hd' => h d' (List.mem_cons_of_mem _ hd')
    refine (hd.comp hl).congr (fun i => ?_) fun i k => (lastWrite_cons (fun d => w d i) d l k).symm
    rw [List.findSome?_cons]
    cases check d i <;> rfl

/-- Steps with the same check and the same writes cannot be told apart, even from states that
differ in cells both of them overwrite. -/
lemma agree (hf : Overwrites ident view f check w) (hg : Overwrites ident view g check' w')
    {t : S} (hi : ident s = ident t) (hc : check (ident s) = check' (ident t))
    (hv : ∀ k, (w (ident s) k).getD (view s k) = (w' (ident t) k).getD (view t k)) :
    Agree ident view (f s) (g t) := by
  cases h : check (ident s) with
  | some e =>
    rw [hf.rejects s e h, hg.rejects t e (hc ▸ h)]
    exact .error e
  | none =>
    obtain ⟨s', hs, his, hvs⟩ := hf.writes s h
    obtain ⟨t', ht, hit, hvt⟩ := hg.writes t (hc ▸ h)
    rw [hs, ht]
    exact .ok (by rw [his, hit, hi]) fun k => by rw [hvs, hvt, hv]

/-- Overlap law: a log may be replayed again from any earlier point, as long as everything
after that point is replayed too. Nothing but the cells of the state in between matters. -/
lemma agree_overlap {check : D → I → Option E} {w : D → I → K → Option V} {pre mid post : List D}
    (h : ∀ d ∈ pre ++ mid ++ post, Overwrites ident view (step d) (check d) (w d)) {t t' : S}
    (ht : (pre ++ mid).foldlM (fun s d => step d s) s = .ok t) (hi : ident t' = ident t)
    (hv : ∀ k, view t' k = view t k) :
    Agree ident view ((mid ++ post).foldlM (fun s d => step d s) t')
      ((pre ++ mid ++ post).foldlM (fun s d => step d s) s) := by
  have hpm := replay (l := pre ++ mid) fun d hd => h d (List.mem_append_left _ hd)
  have hmp := replay (l := mid ++ post) fun d hd =>
    h d (by rw [List.append_assoc]; exact List.mem_append_right _ hd)
  obtain ⟨hit, hvt⟩ := hpm.view_of_ok ht
  have hc := hpm.check_of_ok ht
  refine hmp.agree (replay h) (hi.trans hit) ?_ fun k => ?_
  · rw [hi, hit]
    simp only [List.findSome?_append] at hc ⊢
    rw [hc, (or_eq_none_iff.mp hc).2]
  · rw [hv, hvt, hi, hit]
    simp only [lastWrite_append]
    cases lastWrite (fun d => w d (ident s)) post k <;>
      cases lastWrite (fun d => w d (ident s)) mid k <;> rfl

end Overwrites

lemma Agree.mapError {E' : Type} {ident : S → I} {view : S → K → V} {r r' : Except E S}
    (g : E → E') (h : Agree ident view r r') :
    Agree ident view (r.mapError g) (r'.mapError g) := by
  cases h with
  | ok hi hv => exact .ok hi hv
  | error e => exact .error (g e)

end Replay
