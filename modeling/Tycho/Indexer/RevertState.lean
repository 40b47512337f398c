import Tycho.Indexer.Revert

/-! A revert restores contract storage and balances, and when it restores the attributes of the
components. -/
namespace Tycho
open Collections Replay HashMap List ReorgBuffer TxWithChanges

section
variable (D : Store) (txs : List TxWithChanges)

def slotAfter (a : Address) (k : StoreKey) : StoreVal :=
  ((lastWrite slotUpdate txs (a, k)).or (D.slot a k)).getD .new

def componentBalanceAfter (c : ComponentId) (token : Address) : Option ComponentBalance :=
  (lastWrite componentBalance txs (c, token)).or (D.componentBalances.lookup₂ c token)

def accountBalanceAfter (a token : Address) : Option AccountBalance :=
  (lastWrite accountBalance txs (a, token)).or (D.accountBalances.lookup₂ a token)

end

namespace Revert
variable {g : ExtractorGateway} {D : Store}

/-- What is put together for the slots: every key, always with its previous value. -/
private lemma combinedStates_spec (buffer : ReorgBuffer BlockUpdateWithCursor)
    (keys : List (Address × StoreKey)) {combined : List ((Address × StoreKey) × StoreVal)}
    (hcombined : combined = combinedStates (buffer.lookupAccountState keys).1
      (group (buffer.lookupAccountState keys).2)
      ((group (buffer.lookupAccountState keys).2).keys.filterMap D.contract)) :
    (∀ key, key ∈ combined.map Prod.fst ↔ key ∈ keys) ∧
      ∀ e ∈ combined, e.2 = slotAfter D (txs buffer.blockMessages) e.1.1 e.1.2 := by
  obtain ⟨hfound, hforeign, hmissing⟩ := buffer.lookupAccountState_spec keys
  have hbuffer : ∀ key v, (key, v) ∈ (buffer.lookupAccountState keys).1.toList →
      key ∈ keys ∧ lastWrite slotUpdate (txs buffer.blockMessages) key = some v := by
    intro key v hv
    have hlookup := HashMap.mem_toList.mp hv
    have hkey : key ∈ keys := by
      by_contra hkey
      rw [hforeign key hkey] at hlookup
      cases hlookup
    exact ⟨hkey, (hfound key hkey).symm.trans hlookup⟩
  rw [combinedStates] at hcombined
  subst hcombined
  constructor
  · intro key
    obtain ⟨a, k⟩ := key
    rw [map_append, mem_append, map_flatMap]
    constructor
    · rintro (hmem | hmem)
      · obtain ⟨⟨key, v⟩, hv, hkey⟩ := mem_map.mp hmem
        cases hkey
        exact (hbuffer _ v hv).1
      · obtain ⟨⟨a', ks⟩, he, hk⟩ := mem_flatMap.mp hmem
        rw [map_map] at hk
        obtain ⟨k', hk', heq⟩ := mem_map.mp hk
        cases heq
        exact ((hmissing _).mp ((mem_toList_group he).mp hk')).1
    · intro hkey
      cases hw : lastWrite slotUpdate (txs buffer.blockMessages) (a, k) with
      | some =>
        left
        have hlookup := (hfound _ hkey).trans hw
        exact mem_map.mpr ⟨_, HashMap.mem_toList.mpr hlookup, rfl⟩
      | none =>
        right
        obtain ⟨ks, he, hk⟩ := exists_mem_toList_group ((hmissing (a, k)).mpr ⟨hkey, hw⟩)
        refine mem_flatMap.mpr ⟨(a, ks), he, ?_⟩
        rw [map_map]
        exact mem_map.mpr ⟨k, hk, rfl⟩
  · intro e he
    rcases mem_append.mp he with he | he
    · obtain ⟨key, v⟩ := e
      rw [slotAfter, (hbuffer key v he).2]
      rfl
    · obtain ⟨⟨a, ks⟩, hks, hmem⟩ := mem_flatMap.mp he
      obtain ⟨k, hk, rfl⟩ := mem_map.mp hmem
      have hnone := ((hmissing _).mp ((mem_toList_group hks).mp hk)).2
      have ha : a ∈ (group (buffer.lookupAccountState keys).2).keys :=
        HashMap.mem_keys_iff.mpr ⟨ks, HashMap.mem_toList.mp hks⟩
      simp only [slotAfter, hnone, D.find?_contract ha, Option.none_or]
      unfold Store.contract Store.slot HashMap.lookup₂
      cases D.contracts.lookup a <;> rfl

private lemma foldl_slots (l : List (StoreKey × StoreVal)) (delta : AccountDelta) :
    l.foldl (fun delta e => { delta with slots := delta.slots.insert e.1 (some e.2) }) delta =
      { delta with slots := HashMap.extend delta.slots (l.map fun e => (e.1, some e.2)) } := by
  induction l generalizing delta with
  | nil => rfl
  | cons _ _ ih =>
    rw [foldl_cons, ih]
    rfl

/-- The account deltas of a revert set exactly the given slots, to their previous values. -/
lemma accountDeltas_spec (hg : g.getContracts = D.gateway.getContracts)
    (buffer : ReorgBuffer BlockUpdateWithCursor) (chain : Chain)
    (keys : List (Address × StoreKey)) :
    ∃ deltas, accountDeltas g buffer chain keys = .ok deltas ∧
      (∀ a, a ∈ deltas ↔ ∃ k, (a, k) ∈ keys) ∧
      ∀ a delta, deltas.lookup a = some delta → delta.address = a ∧ delta.chain = chain ∧
        (∀ k, (a, k) ∈ keys → delta.slots.lookup k =
          some (some (slotAfter D (txs buffer.blockMessages) a k))) ∧
        ∀ k, (a, k) ∉ keys → delta.slots.lookup k = none := by
  obtain ⟨combined, hcombined⟩ : ∃ l, l = combinedStates (buffer.lookupAccountState keys).1
    (group (buffer.lookupAccountState keys).2)
    ((group (buffer.lookupAccountState keys).2).keys.filterMap D.contract) := ⟨_, rfl⟩
  obtain ⟨hkeys, hvalues⟩ := combinedStates_spec buffer keys hcombined
  refine ⟨collect (fun a => ⟨chain, a, ∅, none, none, .update⟩)
    (fun delta e => { delta with slots := delta.slots.insert e.1 (some e.2) }) (nest combined),
    ?_, ?_, ?_⟩
  · rw [hcombined, accountDeltas, hg]
    rfl
  · intro a
    rw [mem_collect]
    constructor
    · rintro ⟨⟨k, v⟩, hv⟩
      exact ⟨k, (hkeys _).mp (mem_map.mpr ⟨_, mem_nest.mp hv, rfl⟩)⟩
    · rintro ⟨k, hk⟩
      obtain ⟨⟨key, v⟩, hv, rfl⟩ := mem_map.mp ((hkeys _).mpr hk)
      exact ⟨(k, v), mem_nest.mpr hv⟩
  · intro a delta hdelta
    rw [lookup_collect, foldl_slots] at hdelta
    split_ifs at hdelta
    cases hdelta
    have hslots : ∀ k, (HashMap.extend (∅ : HashMap StoreKey (Option StoreVal))
        ((valuesAt (nest combined) a).map fun e => (e.1, some e.2))).lookup k =
          (HashMap.lastOf combined (a, k)).map some := by
      intro k
      rw [lookup_extend, lastOf_map, lastOf_valuesAt_nest, AList.lookup_empty, Option.or_none]
    refine ⟨rfl, rfl, fun k hk => ?_, fun k hk => ?_⟩
    · refine (hslots k).trans ?_
      rw [lastOf_of_forall (f := fun key => slotAfter D _ key.1 key.2) hvalues
        ((hkeys _).mpr hk), Option.map_some]
    · refine (hslots k).trans ?_
      rw [lastOf_eq_none fun hmem => hk ((hkeys _).mp hmem)]
      rfl

section
variable {K V : Type} [DecidableEq K] {buffered stored : HashMap K (HashMap Address V)}
  {missing keys : List (K × Address)} {default : K → Address → V}

lemma lookup_filteredBalances (k : K) (tokens : List Address) (t : Address) :
    (filteredBalances stored default k tokens).lookup t =
      if t ∈ tokens then some ((stored.lookup₂ k t).getD (default k t)) else none := by
  have hkeys : (tokens.map fun t => (t, (stored.lookup₂ k t).getD (default k t))).map Prod.fst =
      tokens := by
    rw [map_map]
    exact map_id tokens
  rw [filteredBalances, lookup_ofList]
  split_ifs with ht
  · rw [← hkeys] at ht
    refine lastOf_of_forall (f := fun t => (stored.lookup₂ k t).getD (default k t))
      (fun e he => ?_) ht
    obtain ⟨t, -, rfl⟩ := mem_map.mp he
    rfl
  · rw [← hkeys] at ht
    exact lastOf_eq_none ht

lemma lookup₂_previousBalances (k : K) (t : Address) :
    (previousBalances buffered (group missing) stored default).lookup₂ k t =
      (buffered.lookup₂ k t).or (if t ∈ valuesAt missing k then
        some ((stored.lookup₂ k t).getD (default k t)) else none) := by
  -- the containers that are added up for an owner: stored balances first, buffered ones on top
  have hvalues : valuesAt (((group missing).toList.map fun e =>
        (e.1, filteredBalances stored default e.1 e.2)) ++ buffered.toList) k =
      ((group missing).lookup k).toList.map (filteredBalances stored default k) ++
        (buffered.lookup k).toList := by
    rw [valuesAt_append, valuesAt_map (filteredBalances stored default), valuesAt_toList,
      valuesAt_toList]
  have hbuffer : lastWrite (fun (m : HashMap Address V) t => m.lookup t)
      (buffered.lookup k).toList t = buffered.lookup₂ k t := by
    rw [HashMap.lookup₂]
    cases buffered.lookup k with
    | none => rfl
    | some =>
      rw [Option.toList_some, lastWrite_singleton]
      rfl
  rw [previousBalances, lookup₂_extendAll, hvalues, lastWrite_append, hbuffer, lookup_group]
  congr 1
  by_cases hnil : valuesAt missing k = []
  · simp [hnil]
  · rw [if_neg hnil, Option.toList_some, map_singleton, lastWrite_singleton,
      lookup_filteredBalances]

/-- Buffered values come first, then those of the database, then the default. -/
lemma previousBalances_spec {db : HashMap K (HashMap Address V)} {w : K × Address → Option V}
    (h : ReorgBuffer.Found keys w (fun k => buffered.lookup₂ k.1 k.2) missing)
    (hstored : stored = db.retain fun k _ => k ∈ (group missing).keys) (k : K) (t : Address) :
    ((k, t) ∈ keys → (previousBalances buffered (group missing) stored default).lookup₂ k t =
      some (((w (k, t)).or (db.lookup₂ k t)).getD (default k t))) ∧
    ((k, t) ∉ keys →
      (previousBalances buffered (group missing) stored default).lookup₂ k t = none) := by
  rw [lookup₂_previousBalances]
  constructor
  · intro hk
    have hfound : buffered.lookup₂ k t = w (k, t) := h.found (k, t) hk
    rw [hfound]
    cases hw : w (k, t) with
    | some => rfl
    | none =>
      have hmem : (k, t) ∈ missing := (h.missing (k, t)).mpr ⟨hk, hw⟩
      obtain ⟨ts, hts, -⟩ := exists_mem_toList_group hmem
      have hkey : k ∈ (group missing).keys :=
        HashMap.mem_keys_iff.mpr ⟨ts, HashMap.mem_toList.mp hts⟩
      have hdb : stored.lookup₂ k t = db.lookup₂ k t := by
        rw [hstored, HashMap.lookup₂, HashMap.lookup₂, lookup_retain]
        cases db.lookup k with
        | none => rfl
        | some => rw [Option.filter_some_pos (by simpa using hkey)]
      rw [if_pos (mem_valuesAt.mpr hmem), Option.none_or, Option.none_or, hdb]
  · intro hk
    have hforeign : buffered.lookup₂ k t = none := h.foreign (k, t) hk
    rw [hforeign, if_neg fun ht => hk ((h.missing (k, t)).mp (mem_valuesAt.mp ht)).1]
    rfl

end

section
variable (buffer : ReorgBuffer BlockUpdateWithCursor)

lemma getComponentBalances_spec (hg : g.getComponentsBalances = D.gateway.getComponentsBalances)
    (keys : List (ComponentId × Address)) :
    ∃ balances, getComponentBalances g buffer keys = .ok balances ∧ ∀ c t,
      ((c, t) ∈ keys → balances.lookup₂ c t = some
        ((componentBalanceAfter D (txs buffer.blockMessages) c t).getD ⟨t, .new, .zero, .new, c⟩)) ∧
      ((c, t) ∉ keys → balances.lookup₂ c t = none) := by
  refine ⟨_, ?_, previousBalances_spec (buffer.lookupComponentBalances_spec keys) rfl⟩
  rw [getComponentBalances, hg]
  rfl

lemma getAccountBalances_spec (hg : g.getAccountBalances = D.gateway.getAccountBalances)
    (keys : List (Address × Address)) :
    ∃ balances, getAccountBalances g buffer keys = .ok balances ∧ ∀ a t,
      ((a, t) ∈ keys → balances.lookup₂ a t = some
        ((accountBalanceAfter D (txs buffer.blockMessages) a t).getD ⟨a, t, .new, .new⟩)) ∧
      ((a, t) ∉ keys → balances.lookup₂ a t = none) := by
  refine ⟨_, ?_, previousBalances_spec (buffer.lookupAccountBalances_spec keys) rfl⟩
  rw [getAccountBalances, hg]
  rfl

end

end Revert

open Option ProtocolComponentStateDelta
variable {c : ComponentId} {a : AttrStoreKey}

variable {deltas : HashMap ComponentId ProtocolComponentStateDelta}

namespace Revert
variable {g : ExtractorGateway} {D : Store}

private lemma foldl_attributes (l : List (AttrStoreKey × StoreVal))
    (delta : ProtocolComponentStateDelta) :
    l.foldl (fun delta e => { delta with
      updatedAttributes := delta.updatedAttributes.insert e.1 e.2 }) delta =
      { delta with updatedAttributes := HashMap.extend delta.updatedAttributes l } := by
  induction l generalizing delta with
  | nil => rfl
  | cons _ _ ih =>
    rw [foldl_cons, ih]
    rfl

section
variable (values : List ((ComponentId × AttrStoreKey) × StoreVal))
  (notFound created : HashMap ComponentId (HashSet AttrStoreKey))

structure Assembled (c : ComponentId) (deleted : AttrStoreKey → Prop)
    (delta : ProtocolComponentStateDelta) : Prop where
  componentId : delta.componentId = c
  updated : ∀ a, delta.updatedAttributes.lookup a = HashMap.lastOf values (c, a)
  deleted : ∀ a, a ∈ delta.deletedAttributes ↔ deleted a

def foundDelta (c : ComponentId) : Option ProtocolComponentStateDelta :=
  (collect (fun c => (⟨c, ∅, (notFound.lookup c).getD ∅, ∅⟩ : ProtocolComponentStateDelta))
    (fun delta e => { delta with updatedAttributes := delta.updatedAttributes.insert e.1 e.2 })
    (nest values)).lookup c

lemma foundDelta_some {delta : ProtocolComponentStateDelta}
    (h : foundDelta values notFound c = some delta) :
    Assembled values c (fun a => a ∈ (notFound.lookup c).getD ∅) delta := by
  rw [foundDelta, lookup_collect, foldl_attributes] at h
  split_ifs at h
  cases h
  refine ⟨rfl, fun a => ?_, fun a => Iff.rfl⟩
  rw [lookup_extend, lastOf_valuesAt_nest]
  exact or_none

lemma foundDelta_none (h : foundDelta values notFound c = none) (a : AttrStoreKey) :
    HashMap.lastOf values (c, a) = none := by
  rw [foundDelta, lookup_collect] at h
  split_ifs at h with hv
  rw [← lastOf_valuesAt_nest, hv]
  rfl

lemma lookup_assembleStateDeltas (c : ComponentId) :
    (assembleStateDeltas values notFound created).lookup c =
      let delta := (foundDelta values notFound c).or
        ((notFound.lookup c).map fun keys => .new c ∅ keys)
      (created.lookup c).elim delta fun keys => some { delta.getD (.new c ∅ ∅) with
        deletedAttributes := (delta.getD (.new c ∅ ∅)).deletedAttributes.extend keys.keys } := by
  have hsafety := fun m => lookup_foldl_orInsert (fun c keys => new c ∅ keys) m notFound c
  have hcreated := lookup_foldl_upsert_toList (fun c => new c ∅ ∅)
    (fun delta (keys : HashSet AttrStoreKey) => { delta with
      deletedAttributes := delta.deletedAttributes.extend keys.keys }) created
  rw [assembleStateDeltas, hcreated, hsafety]
  rfl

/-- A component has a delta as soon as there is anything to tell about it. -/
lemma assembleStateDeltas_spec (c : ComponentId) :
    (∀ delta, (assembleStateDeltas values notFound created).lookup c = some delta →
      Assembled values c (fun a => a ∈ (notFound.lookup c).getD ∅ ∨
        a ∈ (created.lookup c).getD ∅) delta) ∧
    ((assembleStateDeltas values notFound created).lookup c = none →
      (∀ a, HashMap.lastOf values (c, a) = none) ∧ notFound.lookup c = none ∧
        created.lookup c = none) := by
  rw [lookup_assembleStateDeltas]
  -- the delta before the created attributes are added
  obtain ⟨o, ho⟩ : ∃ o, o = (foundDelta values notFound c).or
    ((notFound.lookup c).map fun keys => .new c ∅ keys) := ⟨_, rfl⟩
  have hsome : ∀ delta, o = some delta →
      Assembled values c (fun a => a ∈ (notFound.lookup c).getD ∅) delta := by
    intro delta hdelta
    rw [ho] at hdelta
    cases hf : foundDelta values notFound c with
    | some =>
      rw [hf, some_or] at hdelta
      cases hdelta
      exact foundDelta_some values notFound hf
    | none =>
      rw [hf, none_or] at hdelta
      obtain ⟨keys, hkeys, rfl⟩ := map_eq_some_iff.mp hdelta
      refine ⟨rfl, fun a => (foundDelta_none values notFound hf a).symm, fun a => ?_⟩
      rw [hkeys]
      exact Iff.rfl
  have hnone : o = none → (∀ a, HashMap.lastOf values (c, a) = none) ∧ notFound.lookup c = none :=
    by
    intro hdelta
    rw [ho, or_eq_none_iff, map_eq_none_iff] at hdelta
    exact ⟨foundDelta_none values notFound hdelta.1, hdelta.2⟩
  have hbase : Assembled values c (fun a => a ∈ (notFound.lookup c).getD ∅)
      (o.getD (.new c ∅ ∅)) := by
    cases hd : o with
    | some delta => exact hsome delta hd
    | none =>
      obtain ⟨hvalues, hnf⟩ := hnone hd
      refine ⟨rfl, fun a => (hvalues a).symm, fun a => ?_⟩
      rw [hnf]
      exact Iff.rfl
  simp only [← ho]
  cases hc : created.lookup c with
  | none =>
    refine ⟨fun delta hdelta => ?_, fun hdelta => ⟨(hnone hdelta).1, (hnone hdelta).2, rfl⟩⟩
    obtain ⟨hid, hup, hdeleted⟩ := hsome delta hdelta
    refine ⟨hid, hup, fun a => (hdeleted a).trans ?_⟩
    simp
  | some =>
    refine ⟨fun delta hdelta => ?_, fun hdelta => by cases hdelta⟩
    cases hdelta
    refine ⟨hbase.componentId, hbase.updated, fun a => ?_⟩
    rw [HashSet.mem_extend, hbase.deleted, ← AList.mem_keys]
    exact or_comm

variable {values notFound created}

lemma assembled_write {o : Option ProtocolComponentStateDelta}
    (hsome : ∀ delta, o = some delta → Assembled values c (fun a =>
      a ∈ (notFound.lookup c).getD ∅ ∨ a ∈ (created.lookup c).getD ∅) delta)
    (hnone : o = none → (∀ a, HashMap.lastOf values (c, a) = none) ∧ notFound.lookup c = none ∧
      created.lookup c = none) (a : AttrStoreKey) :
    o.bind (fun delta => delta.write a) =
      if a ∈ (notFound.lookup c).getD ∅ ∨ a ∈ (created.lookup c).getD ∅ then some none
      else (HashMap.lastOf values (c, a)).map some := by
  cases o with
  | none =>
    obtain ⟨hvalues, hnf, hcr⟩ := hnone rfl
    rw [hnf, hcr, hvalues]
    simp
  | some delta =>
    obtain ⟨-, hup, hdelta⟩ := hsome delta rfl
    rw [bind_some, write, hup]
    simp only [hdelta]

end
/-- The value that a revert finds for an attribute: the last kept update, else the database. -/
def previousAttr (D : Store) (kept : List TxWithChanges) (c : ComponentId) (a : AttrStoreKey) :
    Option StoreVal :=
  (lastWrite TxWithChanges.attributeUpdate kept (c, a)).or (D.attr c a)

section
variable {missing : List (ComponentId × AttrStoreKey)}

lemma missingStates_eq : missingStates (group missing)
      ((group missing).keys.filterMap D.state) = (group missing).toList.mapM fun e =>
    match D.state e.1 with
    | some s => .ok (s, e.2)
    | none => .error (.storage (.notFound "Component" e.1)) := by
  unfold missingStates
  refine mapM_congr fun e he => ?_
  have hkey : e.1 ∈ (group missing).keys :=
    HashMap.mem_keys_iff.mpr ⟨e.2, HashMap.mem_toList.mp he⟩
  have hfound := find?_filterMap (fun _ _ h => (D.componentId_of_state h).1) hkey
  cases hstat : D.state e.1 <;> simp only [hfound, hstat]

lemma missingStates_isOk_iff :
    (∃ found, missingStates (group missing) ((group missing).keys.filterMap D.state) = .ok found) ↔
      ∀ c a, (c, a) ∈ missing → D.state c ≠ none := by
  rw [missingStates_eq]
  constructor
  · rintro ⟨found, hfound⟩ c a hmem hnone
    obtain ⟨keys, hkeys, -⟩ := exists_mem_toList_group hmem
    obtain ⟨f, -, hf⟩ := exists_of_mem_left (forall₂_of_mapM_ok hfound) hkeys
    simp only [hnone] at hf
    cases hf
  · intro h
    refine mapM_isOk fun e he => ?_
    have hne : e.2 ≠ [] := by
      intro hnil
      have := HashMap.mem_toList.mp he
      rw [lookup_group] at this
      split_ifs at this with hv
      exact hv ((Option.some.inj this).trans hnil)
    obtain ⟨a, ha⟩ := exists_mem_of_ne_nil e.2 hne
    cases hs : D.state e.1 with
    | none => exact absurd hs (h e.1 a ((mem_toList_group he).mp ha))
    | some => exact ⟨_, rfl⟩

variable {found : List (ProtocolComponentState × List AttrStoreKey)}

section
variable (h : missingStates (group missing) ((group missing).keys.filterMap D.state) = .ok found)
include h

lemma found_states : Forall₂ (fun e f => D.state e.1 = some f.1 ∧ f.2 = e.2) (group missing).toList
    found := by
  rw [missingStates_eq] at h
  refine (forall₂_of_mapM_ok h).imp fun e f hr => ?_
  cases hs : D.state e.1 with
  | none =>
    simp only [hs] at hr
    cases hr
  | some =>
    simp only [hs] at hr
    cases hr
    exact ⟨rfl, rfl⟩

/-- The found states hold the attributes of the database, for the missing keys. -/
lemma mem_found : (∃ f ∈ found, f.1.componentId = c ∧ a ∈ f.2) ↔ (c, a) ∈ missing := by
  constructor
  · rintro ⟨f, hf, hid, ha⟩
    obtain ⟨e, he, hs, heq⟩ := exists_of_mem_right (found_states h) hf
    have hc : e.1 = c := (D.componentId_of_state hs).1.symm.trans hid
    rw [heq] at ha
    rw [← hc]
    exact (mem_toList_group he).mp ha
  · intro hmem
    obtain ⟨keys, hkeys, ha⟩ := exists_mem_toList_group hmem
    obtain ⟨f, hf, hs, rfl⟩ := exists_of_mem_left (found_states h) hkeys
    exact ⟨f, hf, (D.componentId_of_state hs).1, ha⟩

lemma found_attributes {f : ProtocolComponentState × _} (hf : f ∈ found) (a : AttrStoreKey) :
    f.1.attributes.lookup a = D.attr f.1.componentId a := by
  obtain ⟨e, -, hs, -⟩ := exists_of_mem_right (found_states h) hf
  rw [(D.componentId_of_state hs).2, (D.componentId_of_state hs).1]

lemma lookup_dbStates : ((c, a) ∈ missing → (dbStates found).lookup (c, a) = D.attr c a) ∧
      ((c, a) ∉ missing → (dbStates found).lookup (c, a) = none) := by
  -- the pairs of `dbStates` are the missing keys with a value in the database
  have hpairs : ∀ v, ((c, a), v) ∈ (found.flatMap fun f => f.2.filterMap fun key =>
      (f.1.attributes.lookup key).map fun value => ((f.1.componentId, key), value)) ↔
      (c, a) ∈ missing ∧ D.attr c a = some v := by
    intro v
    rw [mem_flatMap, ← mem_found h]
    constructor
    · rintro ⟨f, hf, hmem⟩
      obtain ⟨a', ha', heq⟩ := mem_filterMap.mp hmem
      obtain ⟨v', hv', heq⟩ := map_eq_some_iff.mp heq
      cases heq
      rw [found_attributes h hf] at hv'
      exact ⟨⟨f, hf, rfl, ha'⟩, hv'⟩
    · rintro ⟨⟨f, hf, rfl, ha⟩, hv⟩
      refine ⟨f, hf, mem_filterMap.mpr ⟨a, ha, ?_⟩⟩
      rw [found_attributes h hf, hv]
      rfl
  rw [dbStates, lookup_ofList]
  cases hl : HashMap.lastOf (found.flatMap fun f => f.2.filterMap fun key =>
      (f.1.attributes.lookup key).map fun value => ((f.1.componentId, key), value)) (c, a) with
  | some v =>
    obtain ⟨hmem, hv⟩ := (hpairs v).mp (mem_of_lastOf hl)
    exact ⟨fun _ => hv.symm, fun hnot => absurd hmem hnot⟩
  | none =>
    refine ⟨fun hmem => (eq_none_iff_forall_ne_some.mpr fun v hv => ?_).symm, fun _ => rfl⟩
    have hnone := (lastWrite_eq_none_iff _).mp hl _ ((hpairs v).mpr ⟨hmem, hv⟩)
    rw [if_pos rfl] at hnone
    cases hnone

lemma mem_notFound :
    a ∈ ((notFound found).lookup c).getD ∅ ↔ (c, a) ∈ missing ∧ D.attr c a = none := by
  rw [notFound, mem_groupSets, mem_flatMap, ← mem_found h]
  constructor
  · rintro ⟨f, hf, hmem⟩
    obtain ⟨a', ha', heq⟩ := mem_map.mp hmem
    cases heq
    obtain ⟨ha', hnone⟩ := mem_filter.mp ha'
    rw [found_attributes h hf] at hnone
    exact ⟨⟨f, hf, rfl, ha'⟩, isNone_iff_eq_none.mp hnone⟩
  · rintro ⟨⟨f, hf, rfl, ha⟩, hnone⟩
    refine ⟨f, hf, mem_map.mpr ⟨a, mem_filter.mpr ⟨ha, ?_⟩, rfl⟩⟩
    rw [found_attributes h hf, hnone]
    rfl

end

end


section
variable {buffer : ReorgBuffer BlockUpdateWithCursor} {keys : List (ComponentId × AttrStoreKey)}
  {created : HashMap ComponentId (HashSet AttrStoreKey)}

/-- Every attribute that is looked up and that no kept block updates belongs to a component with
a state in the database. -/
def Known (D : Store) (kept : List TxWithChanges) (keys : List (ComponentId × AttrStoreKey)) :
    Prop :=
  ∀ c a, (c, a) ∈ keys → lastWrite TxWithChanges.attributeUpdate kept (c, a) = none →
    D.state c ≠ none

section
variable (hg : g.getProtocolStates = D.gateway.getProtocolStates)
include hg

/-- What a successful lookup of previous attributes returns. -/
lemma stateDeltas_eq_ok : stateDeltas g buffer keys created = .ok deltas ↔ ∃ found,
      missingStates (group (buffer.lookupProtocolState keys).2)
        ((group (buffer.lookupProtocolState keys).2).keys.filterMap D.state) = .ok found ∧
      deltas = assembleStateDeltas
        ((dbStates found).toList ++ (buffer.lookupProtocolState keys).1.toList)
        (notFound found) created := by
  unfold stateDeltas
  rw [hg]
  simp only [Store.gateway, Except.mapError, bind, Except.bind]
  cases missingStates (group (buffer.lookupProtocolState keys).2)
    ((group (buffer.lookupProtocolState keys).2).keys.filterMap D.state) with
  | error e =>
    constructor
    · intro h
      cases h
    · rintro ⟨found, hfound, -⟩
      cases hfound
  | ok found =>
    constructor
    · intro h
      exact ⟨found, rfl, (Except.ok.inj h).symm⟩
    · rintro ⟨found', hfound, rfl⟩
      cases hfound
      rfl

lemma stateDeltas_isOk_iff : (∃ deltas, stateDeltas g buffer keys created = .ok deltas) ↔
      Known D (txs buffer.blockMessages) keys := by
  obtain ⟨-, -, hmissing⟩ := buffer.lookupProtocolState_spec keys
  have hok := @missingStates_isOk_iff D (buffer.lookupProtocolState keys).2
  constructor
  · rintro ⟨deltas, h⟩ c a hkey hnone
    obtain ⟨found, hfound, -⟩ := (stateDeltas_eq_ok hg).mp h
    exact hok.mp ⟨found, hfound⟩ c a ((hmissing (c, a)).mpr ⟨hkey, hnone⟩)
  · intro h
    obtain ⟨found, hfound⟩ := hok.mpr fun c a hmem =>
      h c a ((hmissing (c, a)).mp hmem).1 ((hmissing (c, a)).mp hmem).2
    exact ⟨_, (stateDeltas_eq_ok hg).mpr ⟨found, hfound, rfl⟩⟩

lemma stateDeltas_write (h : stateDeltas g buffer keys created = .ok deltas) (c : ComponentId) :
    (∀ delta, deltas.lookup c = some delta → delta.componentId = c) ∧ ∀ a,
      (a ∈ (created.lookup c).getD ∅ →
        (deltas.lookup c).bind (fun delta => delta.write a) = some none) ∧
      (a ∉ (created.lookup c).getD ∅ → (c, a) ∈ keys →
        (deltas.lookup c).bind (fun delta => delta.write a) =
          some (previousAttr D (txs buffer.blockMessages) c a)) ∧
      (a ∉ (created.lookup c).getD ∅ → (c, a) ∉ keys →
        (deltas.lookup c).bind (fun delta => delta.write a) = none) := by
  obtain ⟨found, hfound, rfl⟩ := (stateDeltas_eq_ok hg).mp h
  obtain ⟨hbuffer, hforeign, hmissing⟩ := buffer.lookupProtocolState_spec keys
  obtain ⟨hsome, hnone⟩ := assembleStateDeltas_spec
    ((dbStates found).toList ++ (buffer.lookupProtocolState keys).1.toList) (notFound found)
    created c
  refine ⟨fun delta hdelta => (hsome delta hdelta).componentId, fun a => ?_⟩
  have hmem := hmissing (c, a)
  obtain ⟨hdb, hnodb⟩ := lookup_dbStates hfound (c := c) (a := a)
  have hvalue : HashMap.lastOf
      ((dbStates found).toList ++ (buffer.lookupProtocolState keys).1.toList) (c, a) =
      ((buffer.lookupProtocolState keys).1.lookup (c, a)).or ((dbStates found).lookup (c, a)) := by
    rw [lastOf_append, lastOf_toList, lastOf_toList]
  have hwrite := assembled_write hsome hnone a
  have hnf := mem_notFound hfound (c := c) (a := a)
  rw [hvalue] at hwrite
  refine ⟨fun hc => ?_, fun hc hkey => ?_, fun hc hkey => ?_⟩
  · rw [hwrite, if_pos (.inr hc)]
  · rw [hwrite, previousAttr, hbuffer _ hkey]
    cases hw : lastWrite TxWithChanges.attributeUpdate (txs buffer.blockMessages) (c, a) with
    | some v =>
      have hnot : (c, a) ∉ (buffer.lookupProtocolState keys).2 := fun hin => by
        rw [hw] at hmem
        cases (hmem.mp hin).2
      rw [if_neg (not_or.mpr ⟨fun hin => hnot (hnf.mp hin).1, hc⟩)]
      rfl
    | none =>
      have hin : (c, a) ∈ (buffer.lookupProtocolState keys).2 := hmem.mpr ⟨hkey, hw⟩
      rw [hdb hin, none_or]
      cases ha : D.attr c a with
      | none => rw [if_pos (.inl (hnf.mpr ⟨hin, ha⟩))]
      | some =>
        have hfoundAttr : a ∉ ((notFound found).lookup c).getD ∅ := fun hin => by
          rw [(hnf.mp hin).2] at ha
          cases ha
        rw [if_neg (not_or.mpr ⟨hfoundAttr, hc⟩)]
        rfl
  · have hnot : (c, a) ∉ (buffer.lookupProtocolState keys).2 := fun hin => hkey (hmem.mp hin).1
    rw [hwrite, if_neg (not_or.mpr ⟨fun hin => hnot (hnf.mp hin).1, hc⟩), hforeign _ hkey,
      hnodb hnot]
    rfl

end

end

section
variable {creations : HashMap ComponentId ProtocolComponent} {txs : List TxWithChanges}

lemma mem_createdAttrs :
    a ∈ ((createdAttrs creations txs).lookup c).getD ∅ ↔ c ∉ creations ∧ ∃ t ∈ txs, ∃ delta,
      t.stateUpdates.lookup c = some delta ∧ a ∈ delta.createdAttributes := by
  rw [createdAttrs, mem_groupSets, mem_pairsOf]
  simp only [decide_eq_true_eq, AList.mem_keys]

lemma mem_protocolStateKeys {created : HashMap ComponentId (HashSet AttrStoreKey)} :
    (c, a) ∈ protocolStateKeys creations txs created ↔ c ∉ creations ∧ ∃ t ∈ txs, ∃ delta,
      t.stateUpdates.lookup c = some delta ∧ (a ∈ delta.updatedAttributes ∧
        a ∉ (created.lookup c).getD ∅ ∨ a ∈ delta.deletedAttributes) := by
  rw [protocolStateKeys, mem_collectKeys]
  simp only [mem_append, mem_filter, decide_eq_true_eq, AList.mem_keys]

end

/-- A revert has a message exactly if there is a block to go back to, something is reverted, and
the previous attributes can be looked up. -/
lemma message_isOk_iff {buffer : ReorgBuffer BlockUpdateWithCursor} {e : ProtocolExtractor}
    {reverted : List BlockUpdateWithCursor} {index : Option Nat} {D₁ D₂ D₃ D₄ : Store}
    (hcontracts : g.getContracts = D₁.gateway.getContracts)
    (hstates : g.getProtocolStates = D₂.gateway.getProtocolStates)
    (hcomps : g.getComponentsBalances = D₃.gateway.getComponentsBalances)
    (haccounts : g.getAccountBalances = D₄.gateway.getAccountBalances)
    (hbuffer : buffer.blockMessages ≠ []) :
    (∃ msg, message g buffer e reverted index = .ok msg) ↔ reverted ≠ [] ∧
      Known D₂ (txs buffer.blockMessages) (revertedStateKeys (txs reverted)) := by
  let txs := txs reverted
  constructor
  · rintro ⟨msg, h⟩
    obtain ⟨hparts, ⟨hne, -⟩, -⟩ := message_ok h
    exact ⟨hne, (stateDeltas_isOk_iff hstates).mp ⟨_, hparts.stateDeltas⟩⟩
  · rintro ⟨hne, hknown⟩
    obtain ⟨accounts, hok₁, -⟩ := accountDeltas_spec hcontracts buffer e.chain
      (accountStateKeys (revertedComponents txs).1 txs)
    obtain ⟨states, hok₂⟩ : ∃ states, stateDeltas g buffer (revertedStateKeys txs)
        (revertedCreated txs) = .ok states := (stateDeltas_isOk_iff hstates).mpr hknown
    obtain ⟨balances, hok₃, -⟩ := getComponentBalances_spec buffer hcomps
      (componentBalanceKeys (revertedComponents txs).1 txs)
    obtain ⟨tokens, hok₄, -⟩ := getAccountBalances_spec buffer haccounts
      (accountBalanceKeys txs accounts)
    have hlast := List.getLast?_eq_some_getLast hne
    have hblock : buffer.getMostRecentBlock = some _ :=
      congrArg (Option.map block) (List.getLast?_eq_some_getLast hbuffer)
    rw [revertedStateKeys, revertedCreated] at hok₂
    simp only [message, txs, hok₁, hok₂, hok₃, hok₄, hlast, hblock, bind, Except.bind]
    exact ⟨_, rfl⟩

end Revert

end Tycho
