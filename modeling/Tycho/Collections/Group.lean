import Tycho.Collections.Merge

/-! Grouping pairs by their first part, one container for each key. -/
namespace Collections
open Replay List AList HashMap HashSet
variable {K L V C D T : Type} [DecidableEq K]

def valuesAt (l : List (K × V)) (k : K) : List V :=
  l.filterMap fun e => if e.1 = k then some e.2 else none

variable {k : K} {l : List (K × V)} {v : V} {A : Type} {x : L}

lemma mem_valuesAt : v ∈ valuesAt l k ↔ (k, v) ∈ l := by
  rw [valuesAt, mem_filterMap]
  constructor
  · rintro ⟨⟨k', v'⟩, he, hv⟩
    split_ifs at hv with hk
    cases hv
    cases hk
    exact he
  · intro he
    exact ⟨(k, v), he, if_pos rfl⟩

lemma valuesAt_cons (e : K × V) (l : List (K × V)) (k : K) :
    valuesAt (e :: l) k = if e.1 = k then e.2 :: valuesAt l k else valuesAt l k := by
  unfold valuesAt
  rw [filterMap_cons]
  by_cases hk : e.1 = k <;> simp [hk]

lemma valuesAt_append (l l' : List (K × V)) (k : K) :
    valuesAt (l ++ l') k = valuesAt l k ++ valuesAt l' k :=
  filterMap_append

lemma valuesAt_eq_nil_iff : valuesAt l k = [] ↔ ∀ v, (k, v) ∉ l := by
  rw [eq_nil_iff_forall_not_mem]
  exact forall_congr' fun v => not_congr mem_valuesAt

lemma valuesAt_map (f : K → V → C) (l : List (K × V)) (k : K) :
    valuesAt (l.map fun e => (e.1, f e.1 e.2)) k = (valuesAt l k).map (f k) := by
  induction l with
  | nil => rfl
  | cons e _ ih =>
    rw [map_cons, valuesAt_cons, valuesAt_cons, ih]
    by_cases hk : e.1 = k <;> simp [hk]

lemma valuesAt_toList (m : HashMap K V) (k : K) : valuesAt m.toList k = (m.lookup k).toList := by
  have hnodup : ∀ l : List (K × V), (l.map Prod.fst).Nodup →
      valuesAt l k = (HashMap.lastOf l k).toList := by
    intro l
    induction l with
    | nil => exact fun _ => rfl
    | cons e _ ih =>
      intro hl
      obtain ⟨he, hl⟩ := nodup_cons.mp hl
      rw [valuesAt_cons, lastOf_cons, ih hl]
      by_cases hk : e.1 = k
      · rw [lastOf_eq_none (hk ▸ he)]
        simp [hk]
      · simp [hk]
  rw [hnodup _ (nodup_toList m), lastOf_toList]

/-- Records read one by one for some keys are found again by their keys. -/
lemma find?_filterMap {f : K → Option A} {key : A → K} (hf : ∀ k a, f k = some a → key a = k)
    {ks : List K} (hk : k ∈ ks) :
    (ks.filterMap f).find? (fun a => key a == k) = f k := by
  cases ha : f k with
  | none =>
    rw [List.find?_eq_none]
    intro a hmem hkey
    obtain ⟨k', -, ha'⟩ := mem_filterMap.mp hmem
    have hk' : k' = k := (hf k' a ha').symm.trans (by simpa using hkey)
    rw [hk', ha] at ha'
    cases ha'
  | some a =>
    have hmem : a ∈ ks.filterMap f := mem_filterMap.mpr ⟨k, hk, ha⟩
    cases hfind : (ks.filterMap f).find? (fun a => key a == k) with
    | none =>
      have hne := List.find?_eq_none.mp hfind a hmem
      simp only [hf k a ha, beq_self_eq_true, not_true_eq_false] at hne
    | some a' =>
      have hkey : key a' = k := by simpa using List.find?_some hfind
      obtain ⟨k', -, ha'⟩ := mem_filterMap.mp (mem_of_find?_eq_some hfind)
      rw [← hf k' a' ha', hkey, ha] at ha'
      exact ha'.symm

/-- Each pair goes on top of the value of its key, if there is one. -/
def mergeWith (merge : V → V → V) (m : HashMap K V) (l : List (K × V)) : HashMap K V :=
  l.foldl (fun m e =>
    match m.lookup e.1 with
    | some existing => m.insert e.1 (merge existing e.2)
    | none => m.insert e.1 e.2) m

lemma lookup_mergeWith (merge : V → V → V) (m : HashMap K V) (l : List (K × V)) (k : K) :
    (mergeWith merge m l).lookup k =
      (valuesAt l k).foldl (fun o v => o.merge merge (some v)) (m.lookup k) := by
  unfold mergeWith
  induction l generalizing m with
  | nil => rfl
  | cons e _ ih =>
    rw [foldl_cons, ih, valuesAt_cons]
    by_cases hk : e.1 = k
    · subst hk
      cases hm : m.lookup e.1 <;> simp
    · cases m.lookup e.1 <;> simp [hk, Ne.symm hk]

/-- Add each pair to the container of its key, starting from `init` where there is none. -/
def collect (init : K → C) (add : C → V → C) (l : List (K × V)) : HashMap K C :=
  l.foldl (fun m e => HashMap.upsert m e.1 (init e.1) fun c => add c e.2) ∅

section
variable (init : K → C) (add : C → V → C)

lemma lookup_foldl_upsert (l : List (K × V)) (m : HashMap K C) (k : K) :
    (l.foldl (fun m e => HashMap.upsert m e.1 (init e.1) fun c => add c e.2) m).lookup k =
      if valuesAt l k = [] then m.lookup k
      else some ((valuesAt l k).foldl add ((m.lookup k).getD (init k))) := by
  induction l generalizing m with
  | nil => rfl
  | cons e l ih =>
    rw [foldl_cons, ih, lookup_upsert, valuesAt_cons]
    by_cases hk : e.1 = k
    · subst hk
      by_cases hv : valuesAt l e.1 = [] <;> simp [hv]
    · simp [hk, Ne.symm hk]

lemma lookup_collect (l : List (K × V)) (k : K) : (collect init add l).lookup k =
      if valuesAt l k = [] then none else some ((valuesAt l k).foldl add (init k)) :=
  lookup_foldl_upsert init add l ∅ k

/-- Each entry of a map is added once. -/
lemma lookup_foldl_upsert_toList (m' : HashMap K V) (m : HashMap K C) (k : K) :
    (m'.toList.foldl (fun m e => HashMap.upsert m e.1 (init e.1) fun c => add c e.2) m).lookup k =
      (m'.lookup k).elim (m.lookup k) fun v => some (add ((m.lookup k).getD (init k)) v) := by
  rw [lookup_foldl_upsert, valuesAt_toList]
  cases m'.lookup k <;> rfl

lemma mem_collect : k ∈ collect init add l ↔ ∃ v, (k, v) ∈ l := by
  rw [← lookup_isSome, lookup_collect]
  by_cases hv : valuesAt l k = []
  · have hnone := valuesAt_eq_nil_iff.mp hv
    simp [hv, hnone]
  · have hsome : ∃ v, (k, v) ∈ l := by
      rw [valuesAt_eq_nil_iff] at hv
      simpa using hv
    simp [hv, hsome]

lemma getD_lookup_collect (l : List (K × V)) (k : K) :
    ((collect init add l).lookup k).getD (init k) = (valuesAt l k).foldl add (init k) := by
  rw [lookup_collect]
  by_cases hv : valuesAt l k = [] <;> simp [hv]

end

def group (l : List (K × V)) : HashMap K (List V) :=
  collect (fun _ => []) (fun c v => c ++ [v]) l

lemma lookup_group (l : List (K × V)) (k : K) :
    (group l).lookup k = if valuesAt l k = [] then none else some (valuesAt l k) := by
  have hfold : ∀ (vs c : List V), vs.foldl (fun c v => c ++ [v]) c = c ++ vs := by
    intro vs
    induction vs with
    | nil => simp
    | cons _ _ ih => simp [ih]
  rw [group, lookup_collect, hfold, nil_append]

lemma mem_toList_group {vs : List V} (h : (k, vs) ∈ (group l).toList) : v ∈ vs ↔ (k, v) ∈ l := by
  rw [mem_toList, lookup_group] at h
  split_ifs at h
  cases h
  exact mem_valuesAt

lemma exists_mem_toList_group (h : (k, v) ∈ l) : ∃ vs, (k, vs) ∈ (group l).toList ∧ v ∈ vs := by
  have hv : v ∈ valuesAt l k := mem_valuesAt.mpr h
  refine ⟨valuesAt l k, ?_, hv⟩
  rw [mem_toList, lookup_group, if_neg (ne_nil_of_mem hv)]

/-- The order in which a loop visits the entries of a map, for every number of entries. -/
structure VisitOrder where
  indices : Nat → List Nat
  perm_range : ∀ n, (indices n).Perm (List.range n)

namespace VisitOrder

def visit {A : Type} (order : VisitOrder) (l : List A) : List A :=
  (order.indices l.length).filterMap fun i => l[i]?

def asListed : VisitOrder := ⟨List.range, fun _ => .rfl⟩

lemma filterMap_range (l : List A) : ((List.range l.length).filterMap fun i => l[i]?) = l := by
  induction l with
  | nil => rfl
  | cons a _ ih =>
    rw [length_cons, range_succ_eq_map, filterMap_cons, filterMap_map]
    exact congrArg (List.cons a) ih

/-- Every entry is visited once. -/
lemma perm (order : VisitOrder) (l : List A) : (order.visit l).Perm l := by
  have hperm := (order.perm_range l.length).filterMap fun i => l[i]?
  rwa [filterMap_range] at hperm

end VisitOrder

@[simp] lemma VisitOrder.mem_visit (order : VisitOrder) {l : List A} {a : A} :
    a ∈ order.visit l ↔ a ∈ l :=
  (order.perm l).mem_iff

def ungroup (order : VisitOrder) (m : HashMap K (List V)) : List (K × V) :=
  (order.visit m.toList).flatMap fun e => e.2.map fun v => (e.1, v)

lemma mem_ungroup_group {order : VisitOrder} : (k, v) ∈ ungroup order (group l) ↔ (k, v) ∈ l := by
  unfold ungroup
  simp only [mem_flatMap, VisitOrder.mem_visit, mem_map]
  constructor
  · rintro ⟨⟨k', vs⟩, he, v', hv, heq⟩
    cases heq
    exact (mem_toList_group he).mp hv
  · intro h
    obtain ⟨vs, hvs, hv⟩ := exists_mem_toList_group h
    exact ⟨(k, vs), hvs, v, hv, rfl⟩

/-- The results for the first pair of each key, in order. The set has the keys that were seen. -/
def flatMapFirst (f : K → V → List C) (l : List (K × V)) : List C :=
  (l.foldl (fun (acc : HashSet K × List C) e =>
    if e.1 ∈ acc.1 then acc else (acc.1.insert e.1, acc.2 ++ f e.1 e.2)) (∅, [])).2

section
variable {f : K → V → List C}

lemma foldl_first_seen (l : List (K × V)) (acc : HashSet K × List C) :
    let result := l.foldl (fun (acc : HashSet K × List C) e =>
      if e.1 ∈ acc.1 then acc else (acc.1.insert e.1, acc.2 ++ f e.1 e.2)) acc
    acc.2 ⊆ result.2 ∧ (∀ x ∈ result.2, x ∈ acc.2 ∨ ∃ e ∈ l, x ∈ f e.1 e.2) ∧
      ∀ e ∈ l, e.1 ∉ acc.1 → ∃ v, (e.1, v) ∈ l ∧ f e.1 v ⊆ result.2 := by
  induction l generalizing acc with
  | nil => exact ⟨List.Subset.refl _, fun x hx => .inl hx, fun e he => by cases he⟩
  | cons e l ih =>
    rw [foldl_cons]
    by_cases hseen : e.1 ∈ acc.1
    · rw [if_pos hseen]
      obtain ⟨hsub, hsound, hcomplete⟩ := ih acc
      refine ⟨hsub, fun x hx => ?_, fun e' he' hnew => ?_⟩
      · rcases hsound x hx with hx | ⟨e', he', hx⟩
        · exact .inl hx
        · exact .inr ⟨e', mem_cons_of_mem e he', hx⟩
      · rcases mem_cons.mp he' with rfl | he'
        · exact absurd hseen hnew
        · obtain ⟨v, hv, hf⟩ := hcomplete e' he' hnew
          exact ⟨v, mem_cons_of_mem e hv, hf⟩
    · rw [if_neg hseen]
      obtain ⟨hsub, hsound, hcomplete⟩ := ih (acc.1.insert e.1, acc.2 ++ f e.1 e.2)
      refine ⟨fun x hx => hsub (mem_append_left _ hx), fun x hx => ?_, fun e' he' hnew => ?_⟩
      · rcases hsound x hx with hx | ⟨e', he', hx⟩
        · rcases mem_append.mp hx with hx | hx
          · exact .inl hx
          · exact .inr ⟨e, mem_cons_self, hx⟩
        · exact .inr ⟨e', mem_cons_of_mem e he', hx⟩
      · by_cases hkey : e'.1 = e.1
        · rw [hkey]
          exact ⟨e.2, mem_cons_self, fun x hx => hsub (mem_append_right _ hx)⟩
        · have he'' : e' ∈ l := by
            rcases mem_cons.mp he' with rfl | he'
            · exact absurd rfl hkey
            · exact he'
          have hunseen : e'.1 ∉ acc.1.insert e.1 := by
            rw [HashSet.mem_insert, not_or]
            exact ⟨hkey, hnew⟩
          obtain ⟨v, hv, hf⟩ := hcomplete e' he'' hunseen
          exact ⟨v, mem_cons_of_mem e hv, hf⟩

lemma exists_of_mem_flatMapFirst {x : C} (h : x ∈ flatMapFirst f l) : ∃ e ∈ l, x ∈ f e.1 e.2 := by
  have hsound := (foldl_first_seen (f := f) l (∅, [])).2.1 x h
  simpa using hsound

lemma exists_subset_flatMapFirst {e : K × V} (he : e ∈ l) :
    ∃ v, (e.1, v) ∈ l ∧ f e.1 v ⊆ flatMapFirst f l :=
  (foldl_first_seen (f := f) l (∅, [])).2.2 e he (notMem_empty e.1)

end

section
variable [DecidableEq L]

def groupSets (l : List (K × L)) : HashMap K (HashSet L) :=
  collect (fun _ => ∅) insert l

lemma mem_groupSets {l : List (K × L)} : x ∈ ((groupSets l).lookup k).getD ∅ ↔ (k, x) ∈ l := by
  rw [groupSets, getD_lookup_collect (fun _ => ∅)]
  change x ∈ HashSet.extend ∅ (valuesAt l k) ↔ _
  rw [HashSet.mem_extend, mem_valuesAt]
  simp

def addTo (m : HashMap K (HashSet L)) (l : List (K × L)) : HashMap K (HashSet L) :=
  l.foldl (fun m e => HashMap.upsert m e.1 ∅ fun set => insert set e.2) m

lemma lookup_addTo (m : HashMap K (HashSet L)) (l : List (K × L)) (k : K) :
    (addTo m l).lookup k = if valuesAt l k = [] then m.lookup k
      else some (extend ((m.lookup k).getD ∅) (valuesAt l k)) :=
  lookup_foldl_upsert (fun _ => ∅) HashSet.insert l m k

lemma mem_addTo {m : HashMap K (HashSet L)} {l : List (K × L)} :
    (∃ set, (addTo m l).lookup k = some set ∧ x ∈ set) ↔
      (∃ set, m.lookup k = some set ∧ x ∈ set) ∨ (k, x) ∈ l := by
  rw [lookup_addTo, ← mem_valuesAt]
  split_ifs with hv
  · simp [hv]
  · cases m.lookup k <;> simp [or_comm]

/-- The pairs of a kept key and a part of it that the maps mention, in order. -/
def pairsOf (outer : T → HashMap K D) (keep : K → Bool) (inner : K → D → List L) (ts : List T) :
    List (K × L) :=
  ts.flatMap fun t => ((outer t).toList.filter fun e => keep e.1).flatMap fun e =>
    (inner e.1 e.2).map fun x => (e.1, x)

/-- The same pairs, each of them once. -/
def collectKeys (outer : T → HashMap K D) (keep : K → Bool) (inner : K → D → List L)
    (ts : List T) : List (K × L) :=
  (HashSet.ofList (pairsOf outer keep inner ts)).keys

section
variable {outer : T → HashMap K D} {keep : K → Bool} {inner : K → D → List L} {ts : List T}

omit [DecidableEq L] in
lemma mem_pairsOf : (k, x) ∈ pairsOf outer keep inner ts ↔
      keep k ∧ ∃ t ∈ ts, ∃ d, (outer t).lookup k = some d ∧ x ∈ inner k d := by
  rw [pairsOf, mem_flatMap]
  constructor
  · rintro ⟨t, ht, hmem⟩
    obtain ⟨⟨k', d⟩, he, hx⟩ := mem_flatMap.mp hmem
    obtain ⟨hd, hkeep⟩ := mem_filter.mp he
    obtain ⟨x', hx', heq⟩ := mem_map.mp hx
    cases heq
    exact ⟨hkeep, t, ht, d, mem_toList.mp hd, hx'⟩
  · rintro ⟨hkeep, t, ht, d, hd, hx⟩
    refine ⟨t, ht, mem_flatMap.mpr ⟨(k, d), ?_, mem_map.mpr ⟨x, hx, rfl⟩⟩⟩
    exact mem_filter.mpr ⟨mem_toList.mpr hd, hkeep⟩

lemma mem_collectKeys : (k, x) ∈ collectKeys outer keep inner ts ↔
      keep k ∧ ∃ t ∈ ts, ∃ d, (outer t).lookup k = some d ∧ x ∈ inner k d := by
  rw [collectKeys, ← AList.mem_keys, mem_ofList]
  exact mem_pairsOf

end
end

section
variable [DecidableEq L]

/-- Add up maps, key by key; later ones overwrite. -/
def extendAll (l : List (K × HashMap L V)) : HashMap K (HashMap L V) :=
  collect (fun _ => ∅) (fun m m' => HashMap.extend m m'.toList) l

lemma lookup₂_extendAll (l : List (K × HashMap L V)) (k : K) (x : L) : (extendAll l).lookup₂ k x =
      lastWrite (fun (m : HashMap L V) x => m.lookup x) (valuesAt l k) x := by
  have hfold := lookup_foldl_last (w := fun (m : HashMap L V) x => m.lookup x)
    (fun m m' => lookup_extend_toList m m' x) (valuesAt l k) ∅
  rw [HashMap.lookup₂, extendAll, lookup_collect]
  by_cases hv : valuesAt l k = []
  · rw [if_pos hv, hv]
    rfl
  · rw [if_neg hv, Option.bind_some, hfold, lookup_empty, Option.or_none]

def nest (l : List ((K × L) × V)) : List (K × L × V) := l.map fun e => (e.1.1, e.1.2, e.2)

omit [DecidableEq K] [DecidableEq L] in
lemma mem_nest {l : List ((K × L) × V)} : (k, x, v) ∈ nest l ↔ ((k, x), v) ∈ l := by
  rw [nest, mem_map]
  constructor
  · rintro ⟨⟨⟨k', x'⟩, v'⟩, he, heq⟩
    cases heq
    exact he
  · intro he
    exact ⟨_, he, rfl⟩

lemma lastOf_valuesAt_nest (l : List ((K × L) × V)) (k : K) (x : L) :
    HashMap.lastOf (valuesAt (nest l) k) x = HashMap.lastOf l (k, x) := by
  induction l with
  | nil => rfl
  | cons e l ih =>
    obtain ⟨⟨k', x'⟩, v⟩ := e
    change HashMap.lastOf (valuesAt ((k', x', v) :: nest l) k) x = _
    rw [valuesAt_cons, lastOf_cons, ← ih]
    by_cases hk : k' = k
    · subst hk
      simp only [if_true, lastOf_cons, Prod.mk.injEq, true_and]
    · simp [hk]

end

/-- `get_mut(k)`, if there is an entry, and change it in place. -/
def modify (m : HashMap K V) (k : K) (f : V → V) : HashMap K V :=
  match m.lookup k with
  | some v => m.insert k (f v)
  | none => m

lemma lookup_modify (m : HashMap K V) (k k' : K) (f : V → V) :
    (modify m k f).lookup k' = if k' = k then (m.lookup k').map f else m.lookup k' := by
  unfold modify
  cases hk : m.lookup k with
  | none =>
    split_ifs with heq
    · rw [heq, hk, Option.map_none]
    · rfl
  | some =>
    rw [lookup_insert_ite]
    split_ifs with heq
    · rw [heq, hk, Option.map_some]
    · rfl

/-- A loop over one map that changes the entries of another one. -/
lemma lookup_foldl_modify {D : Type} (f : K → D → V → V) (d : HashMap K D) (m : HashMap K V)
    (k : K) : (d.toList.foldl (fun m e => modify m e.1 (f e.1 e.2)) m).lookup k =
      (m.lookup k).map fun v => (d.lookup k).elim v fun x => f k x v := by
  refine (read_foldl_toList (k := k) (fun m => m.lookup k) (fun x o => o.map (f k x))
    ?_ ?_ d m).trans ?_
  · intro m x
    rw [lookup_modify, if_pos rfl]
  · intro m e hk
    rw [lookup_modify, if_neg (Ne.symm hk)]
  · cases d.lookup k with
    | none => exact (congrFun Option.map_id (m.lookup k)).symm
    | some => rfl

/-- A property of the state of a loop that each element may establish, while an invariant holds. -/
lemma foldl_iff_of_adds {S : Type} {f : S → A → S} {I P : S → Prop} {Q : A → Prop}
    (hinv : ∀ s a, I s → I (f s a)) (haddress : ∀ s a, I s → (P (f s a) ↔ P s ∨ Q a)) (l : List A)
    {s : S} (hs : I s) : P (l.foldl f s) ↔ P s ∨ ∃ a ∈ l, Q a := by
  induction l generalizing s with
  | nil => simp
  | cons a _ ih =>
    rw [foldl_cons, ih (hinv s a hs), haddress s a hs, or_assoc, exists_mem_cons_iff]

end Collections
