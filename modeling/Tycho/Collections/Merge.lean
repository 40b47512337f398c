import Tycho.Collections.HashMap

/-! Merging one map into another, entry by entry, and maps of maps. -/
namespace Collections.HashMap
open Replay List Option
variable {K L V E : Type} [DecidableEq K]

/-- For each pair of the list, merge it into an occupied entry or insert it into a vacant one. -/
def mergeEntries (merge : V → V → Except E V) (m : HashMap K V) (l : List (K × V)) :
    Except E (HashMap K V) :=
  l.foldlM (fun m e =>
    match m.lookup e.1 with
    | some v => (merge v e.2).map fun u => m.insert e.1 u
    | none => .ok (m.insert e.1 e.2)) m

/-- The entry that `mergeEntries` leaves at a key. -/
inductive MergedEntry (merge : V → V → Except E V) : Option V → Option V → Option V → Prop
  | kept (o : Option V) : MergedEntry merge o none o
  | inserted (w : V) : MergedEntry merge none (some w) (some w)
  | merged {v w u : V} : merge v w = .ok u → MergedEntry merge (some v) (some w) (some u)

variable {l : List (K × V)} {m m' : HashMap K V} {W : Type} {o p q : Option V}

section
variable {merge : V → V → Except E V}

/-- A reading in which the second operand of a merge takes precedence. -/
lemma MergedEntry.bind_or_left {f : V → Option W} (h : MergedEntry merge o p q)
    (hf : ∀ v w u, merge v w = .ok u → f u = (f w).or (f v)) :
    q.bind f = (p.bind f).or (o.bind f) := by
  cases h with
  | kept => rfl
  | inserted => exact (or_none).symm
  | merged hm => exact hf _ _ _ hm

/-- A reading in which the first operand of a merge takes precedence. -/
lemma MergedEntry.bind_or_right {f : V → Option W} (h : MergedEntry merge o p q)
    (hf : ∀ v w u, merge v w = .ok u → f u = (f v).or (f w)) :
    q.bind f = (o.bind f).or (p.bind f) := by
  cases h with
  | kept => exact (or_none).symm
  | inserted => rfl
  | merged hm => exact hf _ _ _ hm

lemma mergeEntries_cons_ok {e : K × V} (h : mergeEntries merge m (e :: l) = .ok m') :
    ∃ u, MergedEntry merge (m.lookup e.1) (some e.2) (some u) ∧
      mergeEntries merge (m.insert e.1 u) l = .ok m' := by
  unfold mergeEntries at h
  rw [foldlM_cons] at h
  cases hv : m.lookup e.1 with
  | none =>
    rw [hv] at h
    exact ⟨e.2, .inserted e.2, h⟩
  | some v =>
    cases hm : merge v e.2 with
    | error =>
      simp only [hv, hm] at h
      cases h
    | ok u =>
      simp only [hv, hm] at h
      exact ⟨u, .merged hm, h⟩

lemma mergeEntries_lookup (hl : (l.map Prod.fst).Nodup) (h : mergeEntries merge m l = .ok m')
    (k : K) :
    MergedEntry merge (m.lookup k) (lastOf l k) (m'.lookup k) := by
  induction l generalizing m with
  | nil =>
    cases h
    exact .kept _
  | cons e l ih =>
    obtain ⟨u, hu, h⟩ := mergeEntries_cons_ok h
    obtain ⟨he, hl⟩ := nodup_cons.mp hl
    have hrest := ih hl h
    rw [lookup_insert_ite] at hrest
    rw [lastOf_cons]
    by_cases hk : e.1 = k
    · have hn : lastOf l k = none := lastOf_eq_none (hk ▸ he)
      rw [hn, if_pos hk.symm] at hrest
      rw [hn, if_pos hk, none_or, ← hk]
      rw [← hk] at hrest
      generalize m'.lookup e.1 = o at hrest
      cases hrest
      exact hu
    · rw [if_neg (Ne.symm hk)] at hrest
      rwa [if_neg hk, or_none]

lemma mergeEntries_toList_lookup {n : HashMap K V} (h : mergeEntries merge m n.toList = .ok m')
    (k : K) :
    MergedEntry merge (m.lookup k) (n.lookup k) (m'.lookup k) := by
  have hk := mergeEntries_lookup (nodup_toList n) h k
  rwa [lastOf_toList] at hk

/-- Merging succeeds when every pair of entries with a common key can be merged. -/
lemma mergeEntries_isOk (hl : (l.map Prod.fst).Nodup)
    (h : ∀ e ∈ l, ∀ v, m.lookup e.1 = some v → ∃ u, merge v e.2 = .ok u) :
    ∃ m', mergeEntries merge m l = .ok m' := by
  induction l generalizing m with
  | nil => exact ⟨m, rfl⟩
  | cons e l ih =>
    obtain ⟨he, hl⟩ := nodup_cons.mp hl
    have hne : ∀ e' ∈ l, e'.1 ≠ e.1 := fun e' he' hk => he (hk ▸ mem_map_of_mem he')
    have hrest : ∀ u, ∃ m', mergeEntries merge (m.insert e.1 u) l = .ok m' := by
      intro u
      refine ih hl fun e' he' v hv => h e' (mem_cons_of_mem _ he') v ?_
      rwa [AList.lookup_insert_ne (hne e' he')] at hv
    unfold mergeEntries at hrest ⊢
    rw [foldlM_cons]
    cases hv : m.lookup e.1 with
    | none => exact hrest e.2
    | some v =>
      obtain ⟨u, hu⟩ := h e mem_cons_self v hv
      simp only [hu]
      exact hrest u

end

/-- Inserting only into vacant entries keeps the entries that are there. -/
lemma lookup_foldl_orInsert (f : K → W → V) (m : HashMap K V) (n : HashMap K W) (k : K) :
    (n.toList.foldl (fun m e => m.orInsert e.1 (f e.1 e.2)) m).lookup k =
      (m.lookup k).or ((n.lookup k).map (f k)) := by
  refine (read_foldl_toList (k := k) (fun m => m.lookup k) (fun w o => o.or (some (f k w)))
    ?_ ?_ n m).trans ?_
  · intro m v
    rw [lookup_orInsert, if_pos rfl]
  · intro m e hk
    rw [lookup_orInsert, if_neg (Ne.symm hk), or_none]
  · cases n.lookup k with
    | none => exact or_none.symm
    | some => rfl

section
variable [DecidableEq L]

def lookup₂ (m : HashMap K (HashMap L V)) (k : K) (l : L) : Option V :=
  (m.lookup k).bind fun n => n.lookup l

lemma lookup₂_upsert (m : HashMap K (HashMap L V)) (k k' : K) (l : L)
    (f : HashMap L V → HashMap L V) {g : Option V → Option V}
    (hf : ∀ n : HashMap L V, (f n).lookup l = g (n.lookup l)) :
    (m.upsert k ∅ f).lookup₂ k' l = if k = k' then g (m.lookup₂ k' l) else m.lookup₂ k' l := by
  simp only [lookup₂, lookup_upsert]
  by_cases hk : k = k'
  · subst hk
    rw [if_pos rfl, if_pos rfl, bind_some, hf]
    cases m.lookup k <;> rfl
  · rw [if_neg (Ne.symm hk), if_neg hk]

/-- The same for a change that writes one value or none. -/
lemma lookup₂_upsert_or (m : HashMap K (HashMap L V)) (k k' : K) (l : L)
    (f : HashMap L V → HashMap L V) {w : Option V}
    (hf : ∀ n : HashMap L V, (f n).lookup l = w.or (n.lookup l)) :
    (m.upsert k ∅ f).lookup₂ k' l = (if k = k' then w else none).or (m.lookup₂ k' l) := by
  rw [lookup₂_upsert m k k' l f hf]
  split_ifs
  · rfl
  · rw [none_or]

/-- `entry(k).or_default()` extended by the inner map, for every entry of the second map. -/
def mergeNested (m n : HashMap K (HashMap L V)) : HashMap K (HashMap L V) :=
  n.toList.foldl (fun m e => m.upsert e.1 ∅ fun i => extend i e.2.toList) m

/-- Of all the values of a nested map, each filed under its own keys, the one at a pair of keys
decides. -/
lemma lastWrite_values₂ {X : Type} {m : HashMap K (HashMap L V)} {outer : V → K} {inner : V → L}
    (g : V → X)
    (h : ∀ e ∈ m.toList, ∀ e' ∈ e.2.toList, outer e'.2 = e.1 ∧ inner e'.2 = e'.1) (key : K × L) :
    lastWrite (fun (v : V) (key : K × L) =>
        if outer v = key.1 then if inner v = key.2 then some (g v) else none else none)
      (m.values.flatMap values) key = (m.lookup₂ key.1 key.2).map g := by
  have hinner : ∀ e ∈ m.toList, lastWrite (fun (v : V) (key : K × L) =>
      if outer v = key.1 then if inner v = key.2 then some (g v) else none else none)
      e.2.values key = if e.1 = key.1 then (e.2.lookup key.2).bind (fun v => some (g v)) else
        none := by
    intro e he
    by_cases hk : e.1 = key.1
    · rw [if_pos hk]
      refine lastWrite_values fun e' he' => ?_
      obtain ⟨hout, hinner⟩ := h e he e' he'
      rw [if_pos (hout.trans hk), hinner]
    · rw [if_neg hk, lastWrite_eq_none_iff]
      intro v hv
      obtain ⟨l, hl⟩ := mem_values.mp hv
      obtain ⟨hout, -⟩ := h e he (l, v) (mem_toList.mpr hl)
      rw [if_neg fun heq => hk (hout.symm.trans heq)]
  rw [lastWrite_flatMap]
  refine (lastWrite_values (f := fun n => (n.lookup key.2).bind fun v => some (g v)) hinner).trans
    ?_
  unfold lookup₂
  cases m.lookup key.1 with
  | none => rfl
  | some => exact (map_eq_bind ..).symm

lemma lookup₂_mergeNested (m n : HashMap K (HashMap L V)) (k : K) (l : L) :
    (m.mergeNested n).lookup₂ k l = (n.lookup₂ k l).or (m.lookup₂ k l) := by
  refine (read_foldl_toList (k := k) (fun m => lookup₂ m k l) (fun i o => (i.lookup l).or o)
    ?_ ?_ n m).trans ?_
  · intro m i
    rw [lookup₂_upsert m k k l _ fun n => lookup_extend_toList n i l, if_pos rfl]
  · intro m e hk
    rw [lookup₂, lookup_upsert, if_neg (Ne.symm hk)]
    rfl
  · unfold lookup₂
    cases n.lookup k <;> rfl

lemma mem_mergeNested {m n : HashMap K (HashMap L V)} {k : K} :
    k ∈ m.mergeNested n ↔ k ∈ m ∨ k ∈ n := by
  have hfold : ∀ (es : List (K × HashMap L V)) (m : HashMap K (HashMap L V)),
      k ∈ es.foldl (fun m e => m.upsert e.1 ∅ fun i => extend i e.2.toList) m ↔
        k ∈ m ∨ k ∈ es.map Prod.fst := by
    intro es
    induction es with
    | nil => simp
    | cons _ _ ih =>
      intro m
      rw [foldl_cons, ih, upsert, AList.mem_insert, map_cons, mem_cons]
      tauto
  rw [mergeNested, hfold, map_fst_toList]
  rfl

end
end Collections.HashMap
