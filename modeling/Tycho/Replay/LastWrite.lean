import Mathlib.Data.List.Basic

/-! The last value that a log wrote to a cell. -/
namespace Replay
open List Option
variable {D C K V : Type}

/-- The value of the last entry of a log that writes a cell. -/
def lastWrite (w : D → K → Option V) (log : List D) (k : K) : Option V :=
  log.reverse.findSome? fun d => w d k

variable (w : D → K → Option V)

@[simp] lemma lastWrite_nil (k : K) : lastWrite w [] k = none := rfl

lemma lastWrite_append (l l' : List D) (k : K) :
    lastWrite w (l ++ l') k = (lastWrite w l' k).or (lastWrite w l k) := by
  rw [lastWrite, reverse_append, List.findSome?_append]
  rfl

@[simp] lemma lastWrite_singleton (d : D) (k : K) : lastWrite w [d] k = w d k := by
  rw [lastWrite, reverse_singleton, List.findSome?_singleton]

lemma lastWrite_cons (d : D) (l : List D) (k : K) :
    lastWrite w (d :: l) k = (lastWrite w l k).or (w d k) := by
  rw [← singleton_append, lastWrite_append, lastWrite_singleton]

lemma lastWrite_concat (l : List D) (d : D) (k : K) :
    lastWrite w (l ++ [d]) k = (w d k).or (lastWrite w l k) := by
  rw [lastWrite_append, lastWrite_singleton]

variable {k : K} {l : List D} {S : Type}

lemma lastWrite_eq_none_iff : lastWrite w l k = none ↔ ∀ d ∈ l, w d k = none := by
  simp [lastWrite, List.findSome?_eq_none_iff]

lemma lastWrite_eq_some_iff {v : V} : lastWrite w l k = some v ↔
      ∃ l₁ d l₂, l = l₁ ++ d :: l₂ ∧ w d k = some v ∧ ∀ d' ∈ l₂, w d' k = none := by
  rw [lastWrite, List.findSome?_eq_some_iff]
  constructor
  · rintro ⟨l₁, d, l₂, hl, hd, hn⟩
    refine ⟨l₂.reverse, d, l₁.reverse, ?_, hd, fun d' hd' => hn d' (mem_reverse.mp hd')⟩
    rw [← reverse_reverse l, hl]
    simp
  · rintro ⟨l₁, d, l₂, rfl, hd, hn⟩
    refine ⟨l₂.reverse, d, l₁.reverse, by simp, hd, fun d' hd' => hn d' (mem_reverse.mp hd')⟩

/-- Writes of which only some are made leave the same value if and only if the last one is made, or
sets what those before it have left. -/
lemma lastWrite_ite_getD_iff (p : D → K → Prop) [∀ d, DecidablePred (p d)] (l : List D) (k : K)
    (x : V) :
    (lastWrite (fun d k => if p d k then w d k else none) l k).getD x = (lastWrite w l k).getD x ↔
      ∀ before d after v, l = before ++ d :: after → w d k = some v →
        (∀ y ∈ after, w y k = none) → p d k ∨
          v = (lastWrite (fun d k => if p d k then w d k else none) before k).getD x := by
  have hsplit : ∀ before d after, (∀ y ∈ after, w y k = none) →
      lastWrite (fun d k => if p d k then w d k else none) (before ++ d :: after) k =
        (if p d k then w d k else none).or
          (lastWrite (fun d k => if p d k then w d k else none) before k) := by
    intro before d after hafter
    have hnone : lastWrite (fun d k => if p d k then w d k else none) after k = none := by
      refine (lastWrite_eq_none_iff _).mpr fun y hy => ?_
      rw [hafter y hy, ite_self]
    rw [lastWrite_append, lastWrite_cons, hnone, none_or]
  constructor
  · rintro hsame before d after v rfl hv hafter
    by_cases hp : p d k
    · exact .inl hp
    · rw [hsplit before d after hafter, if_neg hp, none_or,
        (lastWrite_eq_some_iff w).mpr ⟨before, d, after, rfl, hv, hafter⟩] at hsame
      exact .inr hsame.symm
  · intro h
    cases hlast : lastWrite w l k with
    | none =>
      have hnone := (lastWrite_eq_none_iff w).mp hlast
      rw [(lastWrite_eq_none_iff _).mpr fun y hy => by rw [hnone y hy, ite_self]]
    | some v =>
      obtain ⟨before, d, after, rfl, hv, hafter⟩ := (lastWrite_eq_some_iff w).mp hlast
      rw [hsplit before d after hafter]
      by_cases hp : p d k
      · rw [if_pos hp, hv]
        rfl
      · rw [if_neg hp, none_or]
        exact ((h before d after v rfl hv hafter).resolve_left hp).symm

/-- A log of batches can be read batch by batch or entry by entry. -/
lemma lastWrite_flatMap (f : C → List D) (l : List C) (k : K) :
    lastWrite w (l.flatMap f) k = lastWrite (fun c => lastWrite w (f c)) l k := by
  induction l with
  | nil => rfl
  | cons _ _ ih => rw [flatMap_cons, lastWrite_append, lastWrite_cons, ih]

lemma lastWrite_map (f : C → D) (l : List C) (k : K) :
    lastWrite w (l.map f) k = lastWrite (fun c => w (f c)) l k := by
  rw [lastWrite, ← map_reverse, List.findSome?_map]
  rfl

lemma lastWrite_map_value (f : V → C) (l : List D) (k : K) :
    lastWrite (fun d k => (w d k).map f) l k = (lastWrite w l k).map f := by
  induction l with
  | nil => rfl
  | cons d l ih =>
    rw [lastWrite_cons, lastWrite_cons, ih]
    cases lastWrite w l k <;> cases w d k <;> rfl

lemma lastWrite_filterMap (f : C → Option D) (l : List C) (k : K) :
    lastWrite w (l.filterMap f) k = lastWrite (fun c k => (f c).bind fun d => w d k) l k := by
  induction l with
  | nil => rfl
  | cons c _ ih =>
    rw [lastWrite_cons, ← ih]
    cases hc : f c with
    | none => rw [filterMap_cons_none hc, bind_none, or_none]
    | some => rw [filterMap_cons_some hc, lastWrite_cons, bind_some]

lemma findSome?_congr {f g : D → Option V} (h : ∀ d ∈ l, f d = g d) :
    l.findSome? f = l.findSome? g := by
  induction l with
  | nil => rfl
  | cons d _ ih =>
    rw [List.findSome?_cons, List.findSome?_cons, h d mem_cons_self,
      ih fun d' hd' => h d' (mem_cons_of_mem _ hd')]

lemma findSome?_flatMap (f : C → List D) (g : D → Option V) (l : List C) :
    (l.flatMap f).findSome? g = l.findSome? fun c => (f c).findSome? g := by
  induction l with
  | nil => rfl
  | cons c _ ih =>
    rw [flatMap_cons, List.findSome?_append, List.findSome?_cons, ih]
    cases (f c).findSome? g <;> rfl

lemma lastWrite_congr {L : Type} {w : D → K → Option V} {w' : D → L → Option V} {x : L}
    (h : ∀ d ∈ l, w d k = w' d x) : lastWrite w l k = lastWrite w' l x :=
  findSome?_congr fun d hd => h d (mem_reverse.mp hd)

lemma foldl_or_eq_lastWrite (l : List D) (k : K) (x : Option V) :
    l.foldl (fun x d => (w d k).or x) x = (lastWrite w l k).or x := by
  induction l generalizing x with
  | nil => rfl
  | cons _ _ ih => rw [foldl_cons, ih, lastWrite_cons, Option.or_assoc]

lemma foldl_or_eq_findSome? (f : D → Option V) (l : List D) (x : Option V) :
    l.foldl (fun x d => x.or (f d)) x = x.or (l.findSome? f) := by
  induction l generalizing x with
  | nil => rw [foldl_nil, List.findSome?_nil, or_none]
  | cons d _ ih =>
    rw [foldl_cons, ih, List.findSome?_cons, Option.or_assoc]
    cases f d <;> rfl

/-- A fold whose steps never overwrite an observation keeps the first value. -/
lemma foldl_first {obs : S → Option V} {step : S → D → S} {f : D → Option V}
    (h : ∀ s d, obs (step s d) = (obs s).or (f d)) (l : List D) (s : S) :
    obs (l.foldl step s) = (obs s).or (l.findSome? f) := by
  rw [← foldl_or_eq_findSome?]
  exact (foldl_hom obs fun s d => (h s d).symm).symm

lemma foldl_last (obs : S → Option V) {step : S → D → S} {w : D → K → Option V}
    (h : ∀ s d, obs (step s d) = (w d k).or (obs s)) (l : List D) (s : S) :
    obs (l.foldl step s) = (lastWrite w l k).or (obs s) := by
  rw [← foldl_or_eq_lastWrite]
  exact (foldl_hom obs fun s d => (h s d).symm).symm

/-- The same for an observation that always has a value. -/
lemma foldl_last_getD (obs : S → V) {step : S → D → S} {w : D → K → Option V}
    (h : ∀ s d, obs (step s d) = (w d k).getD (obs s)) (l : List D) (s : S) :
    obs (l.foldl step s) = (lastWrite w l k).getD (obs s) := by
  induction l generalizing s with
  | nil => rfl
  | cons _ l ih =>
    rw [foldl_cons, ih, h, lastWrite_cons]
    cases lastWrite w l k <;> rfl

lemma foldl_keeps {X : Type} (obs : S → X) (step : S → D → S) (h : ∀ s d, obs (step s d) = obs s)
    (l : List D) (s : S) : obs (l.foldl step s) = obs s := by
  induction l generalizing s with
  | nil => rfl
  | cons _ _ ih => rw [foldl_cons, ih, h]

end Replay
