import Mathlib.Data.List.AList
import Tycho.Replay.LastWrite

/-! Hash maps and hash sets with the operations of a systems language. A map is the list of
its entries in iteration order, so a loop over a map is a fold over `toList`; no result below
depends on that order. -/
namespace Collections
open Replay List AList

/-- A hash map: one entry for each key, in iteration order. -/
abbrev HashMap (K V : Type) := AList fun _ : K => V

/-- A hash set is a map to the unit type. -/
abbrev HashSet (K : Type) := HashMap K Unit

namespace HashMap
variable {K V W E : Type}

/-- Two maps are compared by their entries; unlike the instance for association lists, this one
evaluates in the kernel. -/
instance [DecidableEq K] [DecidableEq V] : DecidableEq (HashMap K V) := fun m n =>
  decidable_of_iff (m.entries = n.entries) AList.ext_iff.symm

def toList (m : HashMap K V) : List (K × V) := m.entries.map fun e => (e.1, e.2)

def values (m : HashMap K V) : List V := m.toList.map Prod.snd

def retain (m : HashMap K V) (p : K → V → Bool) : HashMap K V :=
  ⟨m.entries.filter fun e => p e.1 e.2, m.nodupKeys.sublist filter_sublist⟩

def mapValues (m : HashMap K V) (f : K → V → W) : HashMap K W :=
  ⟨m.entries.map fun e => ⟨e.1, f e.1 e.2⟩, m.nodupKeys.map₂ f _⟩

lemma map_fst_toList (m : HashMap K V) : m.toList.map Prod.fst = m.keys := by
  rw [toList, map_map]
  rfl

lemma nodup_toList (m : HashMap K V) : (m.toList.map Prod.fst).Nodup := by
  rw [map_fst_toList]
  exact m.keys_nodup

variable [DecidableEq K]

def extend (m : HashMap K V) (l : List (K × V)) : HashMap K V :=
  l.foldl (fun m e => m.insert e.1 e.2) m

def ofList (l : List (K × V)) : HashMap K V := extend ∅ l

def eraseAll (m : HashMap K V) (l : List K) : HashMap K V :=
  l.foldl (fun m k => m.erase k) m

/-- `entry(k).or_insert(v)`. -/
def orInsert (m : HashMap K V) (k : K) (v : V) : HashMap K V :=
  if k ∈ m then m else m.insert k v

/-- `entry(k).or_insert(d)`, then change the entry in place. -/
def upsert (m : HashMap K V) (k : K) (d : V) (f : V → V) : HashMap K V :=
  m.insert k (f ((m.lookup k).getD d))

variable {k : K} {m : HashMap K V} {v : V} {l : List (K × V)}

lemma mem_toList : (k, v) ∈ m.toList ↔ m.lookup k = some v := by
  have hm := mem_lookup_iff (s := m) (a := k) (b := v)
  rw [Option.mem_def] at hm
  rw [hm, toList, mem_map]
  constructor
  · rintro ⟨⟨a, b⟩, he, hp⟩
    cases hp
    exact he
  · intro he
    exact ⟨⟨k, v⟩, he, rfl⟩

lemma mem_iff_lookup : k ∈ m ↔ ∃ v, m.lookup k = some v := by
  rw [← lookup_isSome, Option.isSome_iff_exists]

lemma mem_keys_iff : k ∈ m.keys ↔ ∃ v, m.lookup k = some v := by
  rw [← AList.mem_keys, mem_iff_lookup]

lemma mem_values : v ∈ m.values ↔ ∃ k, m.lookup k = some v := by
  rw [values, mem_map]
  constructor
  · rintro ⟨⟨k, w⟩, he, rfl⟩
    exact ⟨k, mem_toList.mp he⟩
  · rintro ⟨k, hk⟩
    exact ⟨(k, v), mem_toList.mpr hk, rfl⟩

lemma lookup_insert_ite (m : HashMap K V) (k k' : K) (v : V) :
    (m.insert k v).lookup k' = if k' = k then some v else m.lookup k' := by
  split_ifs with hk
  · subst hk
    exact lookup_insert m
  · exact lookup_insert_ne hk

lemma lookup_erase_ite (m : HashMap K V) (k k' : K) :
    (m.erase k).lookup k' = if k' = k then none else m.lookup k' := by
  split_ifs with hk
  · subst hk
    exact lookup_erase _ m
  · exact lookup_erase_ne hk

lemma lookup_eraseAll (m : HashMap K V) (l : List K) (k : K) :
    (m.eraseAll l).lookup k = if k ∈ l then none else m.lookup k := by
  induction l generalizing m with
  | nil => simp [eraseAll]
  | cons a l ih =>
    change (eraseAll (m.erase a) l).lookup k = _
    rw [ih, lookup_erase_ite]
    by_cases hk : k = a <;> by_cases hl : k ∈ l <;> simp [hk, hl]

lemma mem_eraseAll {l : List K} : k ∈ m.eraseAll l ↔ k ∉ l ∧ k ∈ m := by
  simp only [mem_iff_lookup, lookup_eraseAll]
  by_cases hl : k ∈ l <;> simp [hl]

lemma lookup_orInsert (m : HashMap K V) (k k' : K) (v : V) :
    (m.orInsert k v).lookup k' = (m.lookup k').or (if k' = k then some v else none) := by
  unfold orInsert
  split_ifs with hm hk hk
  · subst hk
    obtain ⟨w, hw⟩ := mem_iff_lookup.mp hm
    rw [hw, Option.some_or]
  · rw [Option.or_none]
  · subst hk
    rw [lookup_insert, lookup_eq_none.mpr hm, Option.none_or]
  · rw [lookup_insert_ne hk, Option.or_none]

lemma lookup_upsert (m : HashMap K V) (k k' : K) (d : V) (f : V → V) :
    (m.upsert k d f).lookup k' = if k' = k then some (f ((m.lookup k).getD d)) else m.lookup k' :=
  lookup_insert_ite m k k' _

lemma lookup_retain (m : HashMap K V) (p : K → V → Bool) (k : K) :
    (m.retain p).lookup k = (m.lookup k).filter (p k) := by
  apply Option.ext
  intro v
  have hl := mem_lookup_iff (s := m.retain p) (a := k) (b := v)
  have hr := mem_lookup_iff (s := m) (a := k) (b := v)
  rw [Option.mem_def] at hl hr
  rw [hl, Option.filter_eq_some_iff, hr, retain, mem_filter]

lemma lookup_mapValues (m : HashMap K V) (f : K → V → W) (k : K) :
    (m.mapValues f).lookup k = (m.lookup k).map (f k) :=
  dlookup_map₂ k

def lastOf (l : List (K × V)) (k : K) : Option V :=
  lastWrite (fun e k => if e.1 = k then some e.2 else none) l k

lemma lastOf_cons (e : K × V) (l : List (K × V)) (k : K) :
    lastOf (e :: l) k = (lastOf l k).or (if e.1 = k then some e.2 else none) :=
  lastWrite_cons _ e l k

lemma lastOf_eq_none (h : k ∉ l.map Prod.fst) : lastOf l k = none := by
  rw [lastOf, lastWrite_eq_none_iff]
  intro e he
  have hk : e.1 ≠ k := fun hk => h (hk ▸ mem_map_of_mem he)
  exact if_neg hk

lemma mem_of_lastOf (h : lastOf l k = some v) : (k, v) ∈ l := by
  obtain ⟨l₁, e, l₂, rfl, he, -⟩ := (lastWrite_eq_some_iff _).mp h
  split_ifs at he with hk
  cases he
  subst hk
  simp

lemma lastOf_append (l l' : List (K × V)) (k : K) :
    lastOf (l ++ l') k = (lastOf l' k).or (lastOf l k) :=
  lastWrite_append _ l l' k

/-- The value of a key in a list whose values are a function of the keys. -/
lemma lastOf_of_forall {f : K → V} (h : ∀ e ∈ l, e.2 = f e.1) (hk : k ∈ l.map Prod.fst) :
    lastOf l k = some (f k) := by
  induction l with
  | nil => cases hk
  | cons e l ih =>
    rw [lastOf_cons]
    by_cases hl : k ∈ l.map Prod.fst
    · rw [ih (fun e he => h e (mem_cons_of_mem _ he)) hl, Option.some_or]
    · have he : k = e.1 := (mem_cons.mp hk).resolve_right hl
      rw [lastOf_eq_none hl, Option.none_or, if_pos he.symm, h e mem_cons_self, he]

lemma lastOf_map (l : List (K × V)) (f : V → W) (k : K) :
    lastOf (l.map fun e => (e.1, f e.2)) k = (lastOf l k).map f := by
  induction l with
  | nil => rfl
  | cons e l ih =>
    rw [map_cons, lastOf_cons, lastOf_cons, ih]
    by_cases hk : e.1 = k <;> cases lastOf l k <;> simp [hk]

lemma lookup_extend (m : HashMap K V) (l : List (K × V)) (k : K) :
    (m.extend l).lookup k = (lastOf l k).or (m.lookup k) := by
  induction l generalizing m with
  | nil => rfl
  | cons e l ih =>
    change (extend (m.insert e.1 e.2) l).lookup k = _
    rw [ih, lookup_insert_ite, lastOf_cons, Option.or_assoc]
    by_cases hk : k = e.1
    · simp [hk]
    · simp [hk, Ne.symm hk]

/-- In a list without repeated keys the last pair with a key is the only one. -/
lemma lastOf_eq_some_iff (hl : (l.map Prod.fst).Nodup) : lastOf l k = some v ↔ (k, v) ∈ l := by
  induction l generalizing v with
  | nil => simp [lastOf]
  | cons e l ih =>
    obtain ⟨he, hl⟩ := nodup_cons.mp hl
    rw [lastOf_cons, Option.or_eq_some_iff, ih hl]
    by_cases hk : e.1 = k
    · have hn : (k, v) ∉ l := fun hv => he (hk ▸ mem_map_of_mem hv)
      rw [lastOf_eq_none (hk ▸ he)]
      simp only [hk, if_true, mem_cons, hn, false_or, or_false, true_and, Option.some.injEq]
      constructor
      · rintro rfl
        exact Prod.ext hk.symm rfl
      · rintro rfl
        rfl
    · have hne : (k, v) ≠ e := fun h => hk (h ▸ rfl)
      simp [hk, hne]

lemma lastOf_toList (m : HashMap K V) (k : K) : lastOf m.toList k = m.lookup k := by
  apply Option.ext
  intro v
  exact (lastOf_eq_some_iff (nodup_toList m)).trans mem_toList

/-- A fold over the entries of a map changes what is read at a key only in the step at that key. -/
lemma read_foldl_toList {M R : Type} {step : M → K × V → M} (read : M → R) (change : V → R → R)
    (hhit : ∀ m v, read (step m (k, v)) = change v (read m))
    (hmiss : ∀ m e, e.1 ≠ k → read (step m e) = read m) (d : HashMap K V) (m : M) :
    read (d.toList.foldl step m) = (d.lookup k).elim (read m) fun v => change v (read m) := by
  have hfold : ∀ l : List (K × V), (l.map Prod.fst).Nodup → ∀ m,
      read (l.foldl step m) = (lastOf l k).elim (read m) fun v => change v (read m) := by
    intro l hl
    induction l with
    | nil => exact fun m => rfl
    | cons e l ih =>
      intro m
      obtain ⟨he, hl⟩ := nodup_cons.mp hl
      rw [foldl_cons, ih hl, lastOf_cons]
      by_cases hk : e.1 = k
      · subst hk
        rw [lastOf_eq_none he, if_pos rfl]
        exact hhit m e.2
      · rw [if_neg hk, Option.or_none, hmiss m e hk]
  rw [hfold _ (nodup_toList d), lastOf_toList]

@[simp] lemma lookup_extend_toList (m m' : HashMap K V) (k : K) :
    (m.extend m'.toList).lookup k = (m'.lookup k).or (m.lookup k) := by
  rw [lookup_extend, lastOf_toList]

lemma mem_extend_toList {m' : HashMap K V} : k ∈ m.extend m'.toList ↔ k ∈ m' ∨ k ∈ m := by
  simp only [← lookup_isSome, lookup_extend_toList, Option.isSome_or, Bool.or_eq_true]

lemma mem_extend : k ∈ m.extend l ↔ k ∈ l.map Prod.fst ∨ k ∈ m := by
  induction l generalizing m with
  | nil => simp [extend]
  | cons e l ih =>
    change k ∈ extend (m.insert e.1 e.2) l ↔ _
    rw [ih, mem_insert, map_cons, mem_cons]
    tauto

lemma lookup_ofList (l : List (K × V)) (k : K) : (ofList l).lookup k = lastOf l k := by
  rw [ofList, lookup_extend, lookup_empty, Option.or_none]

lemma lookup_ofList_singleton (k k' : K) (v : V) :
    (ofList [(k, v)]).lookup k' = if k = k' then some v else none := by
  rw [lookup_ofList, lastOf_cons]
  exact Option.none_or

lemma lookup_ofList_map_toList (m : HashMap K V) (f : V → W) (k : K) :
    (ofList (m.toList.map fun e => (e.1, f e.2))).lookup k = (m.lookup k).map f := by
  rw [lookup_ofList, lastOf_map, lastOf_toList]

lemma lookup_ofList_filterMap_toList (m : HashMap K V) (f : K → V → Option W) (k : K) :
    (ofList (m.toList.filterMap fun e => (f e.1 e.2).map fun w => (e.1, w))).lookup k =
      (m.lookup k).bind (f k) := by
  have hn : ((m.toList.filterMap fun e => (f e.1 e.2).map fun w => (e.1, w)).map
      Prod.fst).Nodup := by
    refine (nodup_toList m).sublist ?_
    generalize m.toList = l
    induction l with
    | nil => exact .slnil
    | cons e _ ih =>
      rw [filterMap_cons, map_cons]
      cases f e.1 e.2 with
      | none => exact ih.cons _
      | some => exact ih.cons_cons _
  apply Option.ext
  intro w
  rw [lookup_ofList, lastOf_eq_some_iff hn, mem_filterMap, Option.bind_eq_some_iff]
  constructor
  · rintro ⟨⟨k', v⟩, hv, he⟩
    obtain ⟨w', hw', he⟩ := Option.map_eq_some_iff.mp he
    cases he
    exact ⟨v, mem_toList.mp hv, hw'⟩
  · rintro ⟨v, hv, hw⟩
    exact ⟨(k, v), mem_toList.mpr hv, by rw [hw]; rfl⟩

lemma findSome?_toList (m : HashMap K V) (f : V → Option W) (k : K) :
    m.toList.findSome? (fun e => if e.1 = k then f e.2 else none) = (m.lookup k).bind f := by
  cases hs : m.toList.findSome? (fun e => if e.1 = k then f e.2 else none) with
  | none =>
    refine (Option.bind_eq_none_iff.mpr fun v hv => ?_).symm
    have hn := List.findSome?_eq_none_iff.mp hs (k, v) (mem_toList.mpr hv)
    rwa [if_pos rfl] at hn
  | some =>
    obtain ⟨e, he, hw⟩ := exists_of_findSome?_eq_some hs
    split_ifs at hw with hk
    subst hk
    rw [mem_toList.mp he]
    exact hw.symm

/-- Of the values of a map, the one at a key decides, if the others write nothing. -/
lemma lastWrite_values {L : Type} {w : V → L → Option W} {f : V → Option W} {key : L}
    (h : ∀ e ∈ m.toList, w e.2 key = if e.1 = k then f e.2 else none) :
    lastWrite w m.values key = (m.lookup k).bind f := by
  rw [values, lastWrite_map]
  cases hl : lastWrite (fun e : K × V => w e.2) m.toList key with
  | none =>
    refine (Option.bind_eq_none_iff.mpr fun v hv => ?_).symm
    have hmem : (k, v) ∈ m.toList := mem_toList.mpr hv
    have hnone := (lastWrite_eq_none_iff _).mp hl (k, v) hmem
    rwa [h (k, v) hmem, if_pos rfl] at hnone
  | some =>
    obtain ⟨l₁, e, l₂, heq, he, -⟩ := (lastWrite_eq_some_iff _).mp hl
    have hmem : e ∈ m.toList := heq ▸ mem_append_right _ mem_cons_self
    rw [h e hmem] at he
    split_ifs at he with hk
    subst hk
    rw [mem_toList.mp hmem]
    exact he.symm

lemma lookup_foldl_first {step : HashMap K V → E → HashMap K V} {f : E → Option V}
    (h : ∀ m e, (step m e).lookup k = (m.lookup k).or (f e)) (l : List E) (m : HashMap K V) :
    (l.foldl step m).lookup k = (m.lookup k).or (l.findSome? f) :=
  @foldl_first _ _ _ (fun m : HashMap K V => m.lookup k) _ _ h l m

lemma lookup_foldl_last {L : Type} {step : HashMap K V → E → HashMap K V} {w : E → L → Option V}
    {x : L} (h : ∀ m e, (step m e).lookup k = (w e x).or (m.lookup k)) (l : List E)
    (m : HashMap K V) :
    (l.foldl step m).lookup k = (lastWrite w l x).or (m.lookup k) :=
  foldl_last (fun m : HashMap K V => m.lookup k) h l m

lemma values_perm {m' : HashMap K V} (h : ∀ k, m.lookup k = m'.lookup k) :
    m.values.Perm m'.values := by
  have hentries : m.entries.Perm m'.entries :=
    lookup_ext m.nodupKeys m'.nodupKeys fun k v => by
      have hk := h k
      unfold AList.lookup at hk
      rw [hk]
  exact (hentries.map _).map _

/-- Dropping entries changes the values unless nothing is dropped. -/
lemma values_retain_perm_iff (m : HashMap K V) (p : K → Bool) :
    (m.retain fun k _ => p k).values.Perm m.values ↔ ∀ k ∈ m, p k := by
  constructor
  · intro hperm k hk
    have hlen := hperm.length_eq
    unfold values toList retain at hlen
    simp only [length_map] at hlen
    have hall := length_filter_eq_length_iff.mp hlen
    obtain ⟨e, he, rfl⟩ := mem_map.mp (mem_keys.mp hk)
    exact hall e he
  · intro hall
    apply values_perm
    intro k
    rw [lookup_retain]
    cases hk : m.lookup k with
    | none => rfl
    | some v => rw [Option.filter_some, hall k (mem_iff_lookup.mpr ⟨v, hk⟩), if_pos rfl]

/-- Values that are the values of a function at their keys. -/
lemma lookup_ofList_keyed {rows : List V} {key : V → K} {f : K → Option V}
    (h : ∀ r ∈ rows, f (key r) = some r) (k : K) :
    (ofList (rows.map fun r => (key r, r))).lookup k = if k ∈ rows.map key then f k else none := by
  rw [lookup_ofList]
  induction rows with
  | nil => rfl
  | cons r rows ih =>
    rw [map_cons, lastOf_cons, ih fun r' hr' => h r' (mem_cons_of_mem r hr'), map_cons]
    by_cases hk : k ∈ rows.map key
    · obtain ⟨r', hr', rfl⟩ := mem_map.mp hk
      rw [if_pos hk, if_pos (mem_cons_of_mem _ hk), h r' (mem_cons_of_mem r hr')]
      rfl
    · rw [if_neg hk, Option.none_or]
      by_cases heq : key r = k
      · subst heq
        rw [if_pos rfl, if_pos mem_cons_self, h r mem_cons_self]
      · rw [if_neg heq, if_neg]
        rw [mem_cons, not_or]
        exact ⟨Ne.symm heq, hk⟩

lemma lastOf_map_key {A : Type} (key : A → K) (f : A → V) (l : List A) (k : K) :
    lastOf (l.map fun a => (key a, f a)) k = (l.filter fun a => key a = k).getLast?.map f := by
  induction l with
  | nil => rfl
  | cons a l ih =>
    rw [map_cons, lastOf_cons, ih]
    by_cases hk : key a = k
    · rw [if_pos hk, filter_cons_of_pos (by simpa using hk), List.getLast?_cons]
      cases (l.filter fun a => key a = k).getLast? <;> rfl
    · rw [if_neg hk, Option.or_none, filter_cons_of_neg (by simpa using hk)]

lemma lastOf_filter (l : List (K × V)) (p : K → Bool) (k : K) :
    lastOf (l.filter fun e => p e.1) k = if p k then lastOf l k else none := by
  induction l with
  | nil => exact (ite_self _).symm
  | cons e _ ih =>
    rw [filter_cons, lastOf_cons]
    by_cases hk : e.1 = k
    · subst hk
      cases hp : p e.1 <;> simp [ih, hp, lastOf_cons]
    · cases hp : p e.1 <;> simp [ih, lastOf_cons, hk]

end HashMap

namespace HashSet
variable {K : Type} [DecidableEq K]

def insert (s : HashSet K) (k : K) : HashSet K := AList.insert k () s

def extend (s : HashSet K) (l : List K) : HashSet K := l.foldl insert s

def ofList (l : List K) : HashSet K := extend ∅ l

@[simp] lemma mem_insert {s : HashSet K} {k k' : K} : k' ∈ s.insert k ↔ k' = k ∨ k' ∈ s :=
  AList.mem_insert s

@[simp] lemma mem_extend {s : HashSet K} {l : List K} {k : K} :
    k ∈ s.extend l ↔ k ∈ l ∨ k ∈ s := by
  induction l generalizing s with
  | nil => simp [extend]
  | cons a l ih =>
    change k ∈ (s.insert a).extend l ↔ _
    rw [ih, mem_insert, mem_cons]
    tauto

@[simp] lemma mem_ofList {l : List K} {k : K} : k ∈ ofList l ↔ k ∈ l := by
  simp [ofList]

lemma lookup_eq_some_iff {s : HashSet K} {k : K} : s.lookup k = some () ↔ k ∈ s := by
  rw [HashMap.mem_iff_lookup]
  exact ⟨fun h => ⟨(), h⟩, fun ⟨_, h⟩ => h⟩

end HashSet

/-- An amount for each account, zero if there is no entry. -/
abbrev Ledger (K : Type) := HashMap K Nat

namespace Ledger
variable {K : Type} [DecidableEq K]

def balance (m : Ledger K) (k : K) : Nat := (m.lookup k).getD 0

def setBalance (m : Ledger K) (k : K) (amount : Nat) : Ledger K := m.insert k amount

lemma balance_setBalance (m : Ledger K) (k k' : K) (amount : Nat) :
    (m.setBalance k amount).balance k' = if k' = k then amount else m.balance k' := by
  unfold balance setBalance
  rw [HashMap.lookup_insert_ite]
  split_ifs <;> rfl

end Ledger
end Collections
