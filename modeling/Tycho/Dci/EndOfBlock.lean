import Tycho.Dci.SlotWrites

/-! The block that the dynamic contract indexer returns has the state of the tracked contracts at
the end of the block. -/
namespace Tycho
open Collections HashMap List Option AList VersionedCache TxWithChanges HashSet BlockChanges
  DCICache DynamicContractIndexer TxWithContractChanges

def TxWithContractChanges.slotChange (t : TxWithContractChanges) (a : Address) (k : StoreKey) :
    Option ContractStorageChange :=
  (t.contractChanges.lookup a).bind fun changes => changes.slots.lookup k

namespace BlockChanges

def transactions (bc : BlockChanges) : List Transaction :=
  (bc.txsWithUpdate.map fun t => t.tx) ++ bc.blockContractChanges.map fun t => t.tx

def slotWrites (bc : BlockChanges) (a : Address) (k : StoreKey) : List (Nat × Option StoreVal) :=
  (bc.txsWithUpdate.filterMap fun t =>
    (slotAt t.accountDeltas a k).map fun v => (t.tx.index, v)) ++
  bc.blockContractChanges.filterMap fun t =>
    (t.slotChange a k).map fun change => (t.tx.index, some change.value)

def Indexed (bc : BlockChanges) : Prop :=
  ∀ tx ∈ bc.transactions, ∀ tx' ∈ bc.transactions, tx.hash = tx'.hash → tx.index = tx'.index

instance (bc : BlockChanges) : Decidable bc.Indexed :=
  inferInstanceAs (Decidable (∀ tx ∈ bc.transactions, ∀ tx' ∈ bc.transactions, _))

/-- A storage has, in each slot that a block writes, the value of the last write. -/
def Agrees (bc : BlockChanges) (storage : Address → StoreKey → Option StoreVal) : Prop :=
  ∀ a k, ∀ w ∈ bc.slotWrites a k, (∀ w' ∈ bc.slotWrites a k, w'.1 ≤ w.1) →
    slotContent w.2 = storage a k

end BlockChanges

/-- The source of snapshots returns values of a storage for the accounts it is asked for. -/
def DciSources.Returns (src : DciSources) (b : Block)
    (storage : Address → StoreKey → Option StoreVal) : Prop :=
  ∀ n requests accounts, src.accountsAtBlock n b requests = .ok accounts →
    ∀ r ∈ requests, ∀ k v, slotAt accounts r.address k = some v →
      slotContent v = storage r.address k

/-- The slots that are indexed: all slots of a tracked contract, or only those that are tracked. -/
def DCICache.Indexes (c : DCICache) (a : Address) (k : StoreKey) : Prop :=
  c.trackedContracts.containsKey a ∧ (c.shouldSkipFullIndexing a → k ∈ c.trackedKeys a)

instance (c : DCICache) (a : Address) (k : StoreKey) : Decidable (c.Indexes a k) :=
  inferInstanceAs (Decidable (_ ∧ _))

def DynamicContractIndexer.snapshot (s : DynamicContractIndexer) (src : DciSources)
    (bc : BlockChanges) :
    Except DciError (HashMap Address Transaction × HashMap Address AccountDelta) := do
  let (cache, m) ← s.selectEntrypoints src.order bc
  let new := cache.newAccounts src.order (← m.byTx src (m.trace src bc.block).traced)
  let accounts ← requestAccounts { s with cache := cache } src bc.block new
  return (new.txs, accounts)

/-- A slot is in the snapshot of an account that is requested for a block. -/
def DynamicContractIndexer.Snapshots (s : DynamicContractIndexer) (src : DciSources)
    (bc : BlockChanges) (a : Address) (k : StoreKey) : Prop :=
  ∃ txs accounts, s.snapshot src bc = .ok (txs, accounts) ∧ a ∈ txs ∧ (slotAt accounts a k).isSome

variable {order : VisitOrder} {new : NewAccounts} {accounts : HashMap Address AccountDelta}
  {w : Nat × Option StoreVal}

namespace DynamicContractIndexer
variable (s : DynamicContractIndexer) (a : Address) (k : StoreKey)

section
variable (tracked : HashSet StoreKey) (slots : HashMap StoreKey ContractStorageChange)
include tracked slots

lemma lookup_filterMap_slots : (HashMap.ofList (slots.toList.filterMap fun e =>
      if e.1 ∈ tracked then some (e.1, slotValue e.2.value) else none)).lookup k =
      if k ∈ tracked then (slots.lookup k).map fun change => slotValue change.value else none := by
  have hlookup := lookup_ofList_filterMap_toList slots
    (fun k change => if k ∈ tracked then some (slotValue change.value) else none) k
  simp only [apply_ite (Option.map _), map_some, map_none] at hlookup
  rw [hlookup]
  split_ifs
  · exact (map_eq_bind ..).symm
  · exact bind_fun_none _

lemma lookup_filterMap_keys : (HashMap.ofList (tracked.keys.filterMap fun slot =>
      (slots.lookup slot).map fun change => (slot, slotValue change.value))).lookup k =
      if k ∈ tracked then (slots.lookup k).map fun change => slotValue change.value else none := by
  have hlookup := lookup_ofList_filterMap_toList tracked
    (fun k _ => (slots.lookup k).map fun change => slotValue change.value) k
  simp only [Option.map_map] at hlookup
  rw [← map_fst_toList, filterMap_map]
  refine hlookup.trans ?_
  split_ifs with hmem
  · rw [lookup_eq_some_iff.mpr hmem, bind_some]
  · rw [lookup_eq_none.mpr hmem, bind_none]

end

lemma lookup_slotUpdates (changes : ContractChanges) : (s.slotUpdates a changes).lookup k =
      if s.cache.shouldSkipFullIndexing a → k ∈ s.cache.trackedKeys a then
        (changes.slots.lookup k).map fun change => slotValue change.value
      else none := by
  unfold slotUpdates
  cases hskip : s.cache.shouldSkipFullIndexing a with
  | false =>
    simp only [Bool.false_eq_true, if_false, false_implies, if_true]
    exact lookup_ofList_map_toList changes.slots (fun change => slotValue change.value) k
  | true =>
    simp only [if_true, true_implies]
    generalize s.cache.trackedKeys a = tracked
    split_ifs with hfew hmem hmem
    · rw [lookup_filterMap_slots, if_pos hmem]
    · rw [lookup_filterMap_slots, if_neg hmem]
    · rw [lookup_filterMap_keys, if_pos hmem]
    · rw [lookup_filterMap_keys, if_neg hmem]

/-- A transaction updates the indexed slots that it changes. -/
lemma slotAt_trackedDeltas (tx : TxWithContractChanges) : slotAt (s.trackedDeltas tx) a k =
      if s.cache.Indexes a k then (tx.slotChange a k).map fun change => slotValue change.value
      else none := by
  let delta (a : Address) (changes : ContractChanges) : Option AccountDelta :=
    if !s.cache.trackedContracts.containsKey a then none
    else
      let slots := s.slotUpdates a changes
      if !slots.entries.isEmpty || changes.nativeBalance.isSome then
        some ⟨s.chain, a, slots, changes.nativeBalance, none, .update⟩
      else none
  have hdeltas : s.trackedDeltas tx = HashMap.ofList (tx.contractChanges.toList.filterMap fun e =>
      (delta e.1 e.2).map fun d => (e.1, d)) := by
    unfold trackedDeltas HashMap.ofList HashMap.extend
    rw [foldl_filterMap]
    congr 1
    funext deltas e
    dsimp only [delta]
    split_ifs <;> rfl
  rw [slotAt, hdeltas, lookup_ofList_filterMap_toList, slotChange]
  cases hchanges : tx.contractChanges.lookup a with
  | none => simp
  | some changes =>
    have hslots := s.lookup_slotUpdates a k changes
    rw [bind_some, bind_some]
    dsimp only [delta]
    by_cases htracked : s.cache.trackedContracts.containsKey a = true
    · have hindexes : s.cache.Indexes a k ↔
          (s.cache.shouldSkipFullIndexing a → k ∈ s.cache.trackedKeys a) := and_iff_right htracked
      simp only [htracked, hindexes, Bool.not_true, Bool.false_eq_true, if_false]
      rw [← hslots]
      split_ifs with hsome
      · rfl
      · rw [Bool.or_eq_true, not_or, Bool.not_eq_true', Bool.not_eq_false] at hsome
        have hempty := List.isEmpty_iff.mp hsome.1
        rw [bind_none, eq_comm, AList.lookup_eq_none, AList.mem_keys, AList.keys, hempty]
        exact not_mem_nil
    · have hindexes : ¬ s.cache.Indexes a k := fun h => htracked h.1
      rw [if_neg hindexes, if_pos (by simpa using htracked), bind_none]

section
variable {s} (g : SlotEnd) {updates updates' : HashMap TxHash TxWithChanges}
  {tx : TxWithContractChanges}

/-- The updates are current, and filed under the hash of their transaction. -/
def Filed (updates : HashMap TxHash TxWithChanges) : Prop :=
  ∀ hash u, updates.lookup hash = some u → u.tx.hash = hash ∧ g.Current u ∧ u.tx ∈ g.transactions

lemma addTrackedDeltas_ok (h : s.addTrackedDeltas updates tx = .ok updates') :
    (s.trackedDeltas tx).entries = [] ∧ updates' = updates ∨
      ∃ u, updates' = updates.insert tx.tx.hash u ∧ (updates.lookup tx.tx.hash = none ∧
            u = { empty tx.tx with accountDeltas := s.trackedDeltas tx } ∨
          ∃ existing, updates.lookup tx.tx.hash = some existing ∧ existing.merge
            { empty tx.tx with accountDeltas := s.trackedDeltas tx } = .ok u) := by
  unfold addTrackedDeltas at h
  dsimp only at h
  split_ifs at h with hempty
  · cases h
    exact .inl ⟨List.isEmpty_iff.mp hempty, rfl⟩
  · split at h
    · rename_i existing hexisting
      obtain ⟨u, hmerge, rfl⟩ := ok_of_map_ok h
      exact .inr ⟨u, rfl, .inr ⟨existing, hexisting, hmerge⟩⟩
    · rename_i hnone
      cases h
      exact .inr ⟨_, rfl, .inl ⟨hnone, rfl⟩⟩

lemma current_trackedDeltas (hchange : ∀ change, tx.slotChange g.account g.slot = some change →
      slotContent (some change.value) = g.content ∨ tx.tx.index < g.last ∧ tx.tx ∈ g.transactions) :
    g.Current { empty tx.tx with accountDeltas := s.trackedDeltas tx } := by
  intro v hv
  rw [SlotEnd.write, slotAt_trackedDeltas] at hv
  split_ifs at hv with hindexes
  obtain ⟨change, hslots, rfl⟩ := map_eq_some_iff.mp hv
  rw [slotContent_slotValue]
  exact hchange change hslots

section
variable (h : s.addTrackedDeltas updates tx = .ok updates')
include h

lemma filed_addTrackedDeltas (htx : tx.tx ∈ g.transactions)
    (hchange : ∀ change, tx.slotChange g.account g.slot = some change →
      slotContent (some change.value) = g.content ∨ tx.tx.index < g.last)
    (hfiled : Filed g updates) : Filed g updates' := by
  have hcur := current_trackedDeltas (s := s) g fun change hslots =>
    (hchange change hslots).imp id fun hindex => ⟨hindex, htx⟩
  rcases addTrackedDeltas_ok h with ⟨-, rfl⟩ | ⟨u, rfl, hu⟩
  · exact hfiled
  · have hu' : u.tx = tx.tx ∧ g.Current u := by
      rcases hu with ⟨-, rfl⟩ | ⟨existing, hexisting, hmerge⟩
      · exact ⟨rfl, hcur⟩
      · obtain ⟨hhash, hold, -⟩ := hfiled _ _ hexisting
        have hmerged := merge_ok hmerge
        exact ⟨hmerged.tx, g.current_merged hmerged hold hcur hhash htx⟩
    intro hash u' hlookup
    rw [lookup_insert_ite] at hlookup
    split_ifs at hlookup with hhash
    · cases hlookup
      rw [hu'.1]
      exact ⟨hhash.symm, hu'.2, htx⟩
    · exact hfiled hash u' hlookup

/-- An update that is not before the last write stays, or comes with a transaction. -/
lemma written_addTrackedDeltas
    (hwritten : (g.last ≤ tx.tx.index ∧ (slotAt (s.trackedDeltas tx) g.account g.slot).isSome) ∨
      ∃ u ∈ updates.values, g.Written u) : ∃ u ∈ updates'.values, g.Written u := by
  rcases addTrackedDeltas_ok h with ⟨hempty, rfl⟩ | ⟨u, rfl, hu⟩
  · refine hwritten.resolve_left ?_
    rintro ⟨-, hsome⟩
    have hnone : (s.trackedDeltas tx).lookup g.account = none := by
      rw [AList.lookup_eq_none, AList.mem_keys, AList.keys, hempty]
      exact not_mem_nil
    rw [slotAt, hnone] at hsome
    cases hsome
  · have hmem : u ∈ HashMap.values (updates.insert tx.tx.hash u) :=
      HashMap.mem_values.mpr ⟨tx.tx.hash, lookup_insert _⟩
    rcases hwritten with hnew | ⟨u₀, hu₀, hw⟩
    · refine ⟨u, hmem, ?_⟩
      rcases hu with ⟨-, rfl⟩ | ⟨existing, -, hmerge⟩
      · exact hnew
      · exact g.written_merged (merge_ok hmerge) (.inr hnew)
    · obtain ⟨hash, hlookup⟩ := HashMap.mem_values.mp hu₀
      by_cases hhash : hash = tx.tx.hash
      · subst hhash
        refine ⟨u, hmem, ?_⟩
        rcases hu with ⟨hnone, -⟩ | ⟨existing, hexisting, hmerge⟩
        · rw [hnone] at hlookup
          cases hlookup
        · cases hexisting.symm.trans hlookup
          exact g.written_merged (merge_ok hmerge) (.inl hw)
      · exact ⟨u₀, HashMap.mem_values.mpr ⟨hash, by rw [lookup_insert_ne hhash, hlookup]⟩, hw⟩

end

variable {bc bc' : BlockChanges}
variable (hchanges : ∀ tx ∈ bc.blockContractChanges, tx.tx ∈ g.transactions ∧
  ∀ change, tx.slotChange g.account g.slot = some change →
    slotContent (some change.value) = g.content ∨ tx.tx.index < g.last)
include hchanges

lemma filed_extractTrackedUpdates (h : s.extractTrackedUpdates bc = .ok updates) :
    Filed g updates := by
  refine foldlM_ok_invariant (P := Filed g) ?_ (fun hash u hlookup => ?_) h
  · intro updates tx updates' htx hfiled hstep
    obtain ⟨hmem, hchange⟩ := hchanges tx htx
    exact filed_addTrackedDeltas g hstep hmem hchange hfiled
  · rw [lookup_empty] at hlookup
    cases hlookup

omit hchanges in
lemma written_extractTrackedUpdates (h : s.extractTrackedUpdates bc = .ok updates)
    (htx : tx ∈ bc.blockContractChanges) (hlast : g.last ≤ tx.tx.index)
    (hwrite : (slotAt (s.trackedDeltas tx) g.account g.slot).isSome) :
    ∃ u ∈ updates.values, g.Written u := by
  refine foldlM_ok_forall (P := fun _ => True) (Q := fun tx updates => g.last ≤ tx.tx.index →
    (slotAt (s.trackedDeltas tx) g.account g.slot).isSome → ∃ u ∈ HashMap.values updates,
      g.Written u) ?_ trivial h tx htx hlast hwrite
  intro updates tx updates' _ _ hstep
  exact ⟨trivial, fun hlast hwrite => written_addTrackedDeltas g hstep (.inl ⟨hlast, hwrite⟩),
    fun _ hold hlast hwrite => written_addTrackedDeltas g hstep (.inr (hold hlast hwrite))⟩

lemma addTrackedUpdates_current (h : s.addTrackedUpdates order bc = .ok bc')
    (hcur : ∀ t ∈ bc.txsWithUpdate, g.Current t) :
    ∀ t ∈ bc'.txsWithUpdate, g.Current t := by
  obtain ⟨updates, hupdates, h⟩ := ok_of_bind_ok h
  obtain ⟨txs, hmerge, h⟩ := ok_of_bind_ok h
  cases h
  have hfiled := filed_extractTrackedUpdates g hchanges hupdates
  have htxs := g.mergeUpdates_current hmerge hcur fun u hu => by
    obtain ⟨entry, hentry, rfl⟩ := mem_map.mp hu
    exact (hfiled entry.1 entry.2 (HashMap.mem_toList.mp (by simpa using hentry))).2
  intro t ht
  exact htxs t ((mem_insertionSort _).mp ht)

omit hchanges in
/-- The last write stays, or comes with the changes of the tracked contracts. -/
lemma addTrackedUpdates_written (h : s.addTrackedUpdates order bc = .ok bc')
    (hwritten : (∃ t ∈ bc.txsWithUpdate, g.Written t) ∨ s.cache.Indexes g.account g.slot ∧
      ∃ tx ∈ bc.blockContractChanges, g.last ≤ tx.tx.index ∧
        (tx.slotChange g.account g.slot).isSome) :
    ∃ t ∈ bc'.txsWithUpdate, g.Written t := by
  obtain ⟨updates, hupdates, h⟩ := ok_of_bind_ok h
  obtain ⟨txs, hmerge, h⟩ := ok_of_bind_ok h
  cases h
  obtain ⟨t, ht, hw⟩ := g.mergeUpdates_written hmerge (by
    refine hwritten.imp id ?_
    rintro ⟨hindexes, tx, htx, hlast, hslots⟩
    obtain ⟨u, hu, hw⟩ := written_extractTrackedUpdates g hupdates htx hlast (by
      rw [slotAt_trackedDeltas, if_pos hindexes, isSome_map]
      exact hslots)
    refine ⟨u, ?_, hw⟩
    obtain ⟨entry, hentry, rfl⟩ := mem_map.mp hu
    exact mem_map.mpr ⟨entry, by simpa using hentry, rfl⟩)
  exact ⟨t, (mem_insertionSort _).mpr ht, hw⟩

end

section
variable {s s' : DynamicContractIndexer} {src : DciSources} {bc bc' : BlockChanges} {m : Selection}
  {storage : Address → StoreKey → Option StoreVal}

lemma attempt_ok {A : Type} {ask : Nat → Except String A} {n left : Nat} {x : A}
    (h : attempt ask n left = .ok x) : ∃ n, ask n = .ok x := by
  induction left generalizing n with
  | zero => exact ⟨n, ok_of_mapError_ok h⟩
  | succ _ ih =>
    unfold attempt at h
    split at h
    · rename_i y hy
      cases h
      exact ⟨n, hy⟩
    · exact ih h

lemma storageRequest_address {c : DCICache} {address : Address} {r : StorageSnapshotRequest}
    (h : c.storageRequest new address = .ok r) :
    r.address = address := by
  unfold storageRequest at h
  split_ifs at h
  · cases h
    rfl
  · split at h
    · cases h
      rfl
    · cases h

lemma requestAccounts_content (hsrc : src.Returns bc.block storage)
    (h : s.requestAccounts src bc.block new = .ok accounts) {entry : Address × Transaction}
    (hentry : entry ∈ src.order.visit new.txs.toList) {k : StoreKey} {v : Option StoreVal}
    (hv : slotAt accounts entry.1 k = some v) : slotContent v = storage entry.1 k := by
  obtain ⟨requests, hrequests, h⟩ := ok_of_bind_ok h
  obtain ⟨r, hr, hrequest⟩ := exists_of_mem_left (forall₂_of_mapM_ok hrequests) hentry
  have haddress := storageRequest_address hrequest
  have hnonempty : ¬ requests.isEmpty := by
    intro hempty
    rw [List.isEmpty_iff.mp hempty] at hr
    cases hr
  rw [if_neg hnonempty] at h
  obtain ⟨n, hn⟩ := attempt_ok h
  rw [← haddress] at hv ⊢
  exact hsrc n requests accounts hn r hr k v hv

variable (g : SlotEnd)

lemma traceSelected_current (hsrc : src.Returns bc.block storage)
    (hcontent : g.content = storage g.account g.slot)
    (h : s.traceSelected src bc m = .ok (s', bc')) (hcur : ∀ t ∈ bc.txsWithUpdate, g.Current t) :
    ∀ t ∈ bc'.txsWithUpdate, g.Current t := by
  unfold traceSelected at h
  split_ifs at h with hempty
  · cases h
    exact hcur
  · obtain ⟨byTx, accounts, rest, txs, -, hrequest, hinject, hpause, -, -, -⟩ := applyTraces_ok h
    refine g.pause_current hpause (g.injectAccounts_current hinject ?_ hcur)
    rintro entry hentry v haccount hv
    rw [← haccount] at hv
    rw [hcontent, ← haccount]
    exact requestAccounts_content hsrc hrequest hentry hv

lemma traceSelected_written (h : s.traceSelected src bc m = .ok (s', bc'))
    (hwritten : (∃ t ∈ bc.txsWithUpdate, g.Written t) ∨ g.last = 0 ∧
      ∃ byTx accounts, m.byTx src (m.trace src bc.block).traced = .ok byTx ∧
        s.requestAccounts src bc.block (s.cache.newAccounts src.order byTx) = .ok accounts ∧
        g.account ∈ (s.cache.newAccounts src.order byTx).txs ∧
        (slotAt accounts g.account g.slot).isSome) :
    ∃ t ∈ bc'.txsWithUpdate, g.Written t := by
  unfold traceSelected at h
  split_ifs at h with hempty
  · cases h
    refine hwritten.resolve_right ?_
    rintro ⟨-, byTx, _, hbyTx, -, hmem, -⟩
    rw [trace_of_isEmpty hempty] at hbyTx
    have hgroups : group [] = byTx := Except.ok.inj hbyTx
    have hnone : ungroup src.order (group ([] : List (Transaction × TracedEntryPoint))) = [] := by
      unfold ungroup
      rw [show (group ([] : List (Transaction × TracedEntryPoint))).toList = [] from rfl,
        (src.order.perm []).eq_nil]
      rfl
    unfold newAccounts at hmem
    rw [← hgroups, hnone] at hmem
    exact absurd hmem (notMem_empty _)
  · obtain ⟨byTx, accounts, rest, txs, hbyTx, hrequest, hinject, hpause, -, -, -⟩ :=
      applyTraces_ok h
    refine g.pause_written hpause (g.injectAccounts_written hinject ?_)
    rcases hwritten with hold | ⟨hlast, byTx', accounts', hbyTx', hrequest', hmem, hsome⟩
    · exact .inr hold
    · cases hbyTx.symm.trans hbyTx'
      cases hrequest.symm.trans hrequest'
      refine .inl ⟨?_, hsome, hlast⟩
      obtain ⟨tx, htx⟩ := HashMap.mem_iff_lookup.mp hmem
      exact mem_map.mpr ⟨(g.account, tx), by simpa using HashMap.mem_toList.mpr htx, rfl⟩

lemma traceSelected_changes (h : s.traceSelected src bc m = .ok (s', bc')) :
    bc'.blockContractChanges = bc.blockContractChanges := by
  unfold traceSelected at h
  split_ifs at h with hempty
  · cases h
    rfl
  · obtain ⟨_, _, _, _, -, -, -, -, -, -, hbc⟩ := applyTraces_ok h
    rw [hbc]

end
end DynamicContractIndexer

namespace DCICache
variable {c c' : DCICache}

lemma mem_trackedKeys {a : Address} {k : StoreKey} :
    k ∈ c.trackedKeys a ↔ c.trackedContracts.Holds a fun set => k ∈ set := by
  have hfold : ∀ (sets : List (HashSet StoreKey)) (merged : HashSet StoreKey),
      k ∈ sets.foldl (fun merged set => HashMap.extend merged set.toList) merged ↔
        k ∈ merged ∨ ∃ set ∈ sets, k ∈ set := by
    intro sets
    induction sets with
    | nil => simp
    | cons _ _ ih =>
      intro merged
      rw [foldl_cons, ih, mem_extend_toList, exists_mem_cons_iff]
      tauto
  unfold trackedKeys VersionedCache.Holds
  rw [hfold]
  have hempty : k ∉ (∅ : HashSet StoreKey) := notMem_empty k
  cases c.trackedContracts.getAll a <;> simp [hempty]

lemma indexes_handleFinality {height : Nat} (h : (handleFinality height).exec c = .ok c')
    (a : Address) (k : StoreKey) : c'.Indexes a k ↔ c.Indexes a k := by
  obtain ⟨n, htracked⟩ := handleFinality_part h .trackedContracts
  obtain ⟨n₁, herc20⟩ := handleFinality_part h .erc20Addresses
  obtain ⟨n₂, hblacklist⟩ := handleFinality_part h .blacklistedAddresses
  have hholds : ∀ P : HashSet StoreKey → Prop,
      (∀ x y, P ((SubCache.strategy .trackedContracts).apply x y) ↔ P x ∨ P y) →
      (c'.trackedContracts.Holds a P ↔ c.trackedContracts.Holds a P) := by
    intro P hP
    rw [show c'.trackedContracts = _ from htracked]
    exact holds_finalize _ hP n a
  have hskip : c'.shouldSkipFullIndexing a = c.shouldSkipFullIndexing a := by
    unfold shouldSkipFullIndexing
    rw [show c'.erc20Addresses = _ from herc20, show c'.blacklistedAddresses = _ from hblacklist]
    exact congrArg₂ (fun x y => Option.getD x false || Option.getD y false)
      (get_finalize _ n₁ a) (get_finalize _ n₂ a)
  unfold Indexes
  rw [hskip, containsKey_iff, containsKey_iff, mem_trackedKeys,
    mem_trackedKeys, hholds _ (fun _ _ => (or_self_iff).symm), hholds]
  intro x y
  exact HashMap.mem_extend_toList.trans or_comm

end DCICache
namespace BlockChanges
variable {bc : BlockChanges} {a : Address} {k : StoreKey}

def lastIndex (bc : BlockChanges) (a : Address) (k : StoreKey) : Nat :=
  ((bc.slotWrites a k).map Prod.fst).max?.getD 0

lemma le_lastIndex (hw : w ∈ bc.slotWrites a k) : w.1 ≤ bc.lastIndex a k :=
  List.le_max?_getD_of_mem (mem_map_of_mem hw)

lemma exists_lastIndex (h : bc.slotWrites a k ≠ []) :
    ∃ w ∈ bc.slotWrites a k, w.1 = bc.lastIndex a k := by
  unfold lastIndex
  cases hmax : ((bc.slotWrites a k).map Prod.fst).max? with
  | none => exact absurd (map_eq_nil_iff.mp (List.max?_eq_none_iff.mp hmax)) h
  | some => exact mem_map.mp (List.max?_eq_some_iff.mp hmax).1

lemma lastIndex_of_nil (h : bc.slotWrites a k = []) : bc.lastIndex a k = 0 := by
  rw [lastIndex, h]
  rfl

variable {storage : Address → StoreKey → Option StoreVal}

lemma content_or_lt (h : bc.Agrees storage) (hw : w ∈ bc.slotWrites a k) :
    slotContent w.2 = storage a k ∨ w.1 < bc.lastIndex a k := by
  rcases Nat.lt_or_ge w.1 (bc.lastIndex a k) with hlt | hge
  · exact .inr hlt
  · exact .inl (h a k w hw fun w' hw' => (le_lastIndex hw').trans hge)

lemma mem_slotWrites : w ∈ bc.slotWrites a k ↔
    (∃ t ∈ bc.txsWithUpdate, slotAt t.accountDeltas a k = some w.2 ∧ t.tx.index = w.1) ∨
      ∃ t ∈ bc.blockContractChanges, ∃ change, t.slotChange a k = some change ∧
        t.tx.index = w.1 ∧ some change.value = w.2 := by
  obtain ⟨index, v⟩ := w
  simp only [slotWrites, mem_append, mem_filterMap, map_eq_some_iff, Prod.mk.injEq]
  constructor
  · rintro (⟨t, ht, v', hv, hindex, rfl⟩ | hchange)
    · exact .inl ⟨t, ht, hv, hindex⟩
    · exact .inr hchange
  · rintro (⟨t, ht, hv, hindex⟩ | hchange)
    · exact .inl ⟨t, ht, v, hv, hindex, rfl⟩
    · exact .inr hchange

def slotEnd (bc : BlockChanges) (hindexed : bc.Indexed)
    (storage : Address → StoreKey → Option StoreVal) (a : Address) (k : StoreKey) : SlotEnd where
  account := a
  slot := k
  content := storage a k
  last := bc.lastIndex a k
  transactions := bc.transactions
  indexed := hindexed

lemma current_slotEnd (hindexed : bc.Indexed) (h : bc.Agrees storage) :
    ∀ t ∈ bc.txsWithUpdate, (bc.slotEnd hindexed storage a k).Current t := by
  intro t ht v hv
  have hw : (t.tx.index, v) ∈ bc.slotWrites a k := mem_slotWrites.mpr (.inl ⟨t, ht, hv, rfl⟩)
  refine (content_or_lt h hw).imp id fun hlt => ⟨hlt, ?_⟩
  exact mem_append_left _ (mem_map.mpr ⟨t, ht, rfl⟩)

lemma changes_slotEnd (h : bc.Agrees storage) : ∀ tx ∈ bc.blockContractChanges,
    tx.tx ∈ bc.transactions ∧ ∀ change, tx.slotChange a k = some change →
      slotContent (some change.value) = storage a k ∨ tx.tx.index < bc.lastIndex a k := by
  intro tx htx
  refine ⟨mem_append_right _ (mem_map.mpr ⟨tx, htx, rfl⟩), fun change hchange => ?_⟩
  have hw : (tx.tx.index, some change.value) ∈ bc.slotWrites a k :=
    mem_slotWrites.mpr (.inr ⟨tx, htx, change, hchange, rfl, rfl⟩)
  exact content_or_lt h hw

end BlockChanges

namespace DynamicContractIndexer
variable {s s' : DynamicContractIndexer} {src : DciSources} {bc bc' : BlockChanges}
  {storage : Address → StoreKey → Option StoreVal}

lemma snapshot_ok {txs : HashMap Address Transaction}
    (h : s.snapshot src bc = .ok (txs, accounts)) :
    ∃ cache m byTx, s.selectEntrypoints src.order bc = .ok (cache, m) ∧
      m.byTx src (m.trace src bc.block).traced = .ok byTx ∧
      requestAccounts { s with cache := cache } src bc.block (cache.newAccounts src.order byTx) =
        .ok accounts ∧ txs = (cache.newAccounts src.order byTx).txs := by
  obtain ⟨⟨cache, m⟩, hselect, h⟩ := ok_of_bind_ok h
  obtain ⟨byTx, hbyTx, h⟩ := ok_of_bind_ok h
  obtain ⟨accounts', haccounts, h⟩ := ok_of_bind_ok h
  cases h
  exact ⟨cache, m, byTx, hselect, hbyTx, haccounts, rfl⟩

/-- The aggregated block has the content at the end of the block in each indexed slot that is in
a snapshot or changes in the block. -/
theorem slotContent_of_processBlockUpdate (hprocess : s.processBlockUpdate src bc = .ok (s', bc'))
    {height : Option Nat} {agg : BlockAggregatedChanges}
    (hagg : bc'.intoAggregated height = .ok agg) (hindexed : bc.Indexed)
    (hsrc : src.Returns bc.block storage) (hagrees : bc.Agrees storage) {a : Address} {k : StoreKey}
    (hindexes : s'.cache.Indexes a k)
    (hslots : s.Snapshots src bc a k ∨ bc.slotWrites a k ≠ []) :
    ∃ v, slotAt agg.accountDeltas a k = some v ∧ slotContent v = storage a k := by
  obtain ⟨c₁, m, s₂, bc₂, c₃, hselect, htraces, -, hadd, hfinality, -⟩ :=
    processBlockUpdate_steps hprocess
  let g := bc.slotEnd hindexed storage a k
  have hchanges := traceSelected_changes htraces
  have hcur := addTrackedUpdates_current g (by rw [hchanges]; exact changes_slotEnd hagrees) hadd
    (traceSelected_current g hsrc rfl htraces (current_slotEnd hindexed hagrees))
  have hwritten : ∃ t ∈ bc'.txsWithUpdate, g.Written t := by
    refine addTrackedUpdates_written g hadd ?_
    rw [hchanges]
    by_cases hwrites : bc.slotWrites a k = []
    · obtain ⟨txs, accounts, hsnap, hmem, hsome⟩ := hslots.resolve_right (not_not.mpr hwrites)
      obtain ⟨c₁', m', byTx, hselect', hbyTx, haccounts, rfl⟩ := snapshot_ok hsnap
      cases hselect.symm.trans hselect'
      exact .inl (traceSelected_written g htraces (.inr ⟨lastIndex_of_nil hwrites,
        byTx, accounts, hbyTx, haccounts, hmem, hsome⟩))
    · obtain ⟨w, hw, hlast⟩ := exists_lastIndex hwrites
      rcases mem_slotWrites.mp hw with ⟨t, ht, hv, hindex⟩ | ⟨tx, htx, change, hchange, hindex, -⟩
      · refine .inl (traceSelected_written g htraces (.inl ⟨t, ht, ?_, ?_⟩))
        · rw [hindex, hlast]
          exact le_rfl
        · exact isSome_of_eq_some hv
      · refine .inr ⟨(indexes_handleFinality hfinality a k).mp hindexes, tx, htx, ?_,
          isSome_of_eq_some hchange⟩
        rw [hindex, hlast]
        exact le_rfl
  obtain ⟨-, merged, hmerged, rfl⟩ := intoAggregated_ok hagg
  have hsorted := (aggregateTxs_sorted hmerged).1
  obtain ⟨v, hv, hcontent⟩ := g.lastWrite_content hsorted hcur hwritten
  have hslot := aggregateTxs_lastWrite (fun _ => rfl) (fun _ _ _ hm => hm.slotAt a) hmerged k
  exact ⟨v, hslot.trans hv, hcontent⟩

section

def txAt (index : UInt8) : Transaction := ⟨⟨[index]⟩, ⟨[1]⟩, .new, none, index.toNat⟩

def changing (index : UInt8) (a : Address) (k : StoreKey) (value : StoreVal) :
    TxWithContractChanges :=
  ⟨txAt index, HashMap.ofList [(a, ⟨a, HashMap.ofList [(k, ⟨value, .new⟩)], none⟩)]⟩

lemma slotChange_changing (index : UInt8) (a a' : Address) (k k' : StoreKey) (value : StoreVal) :
    (changing index a k value).slotChange a' k' =
      if a = a' ∧ k = k' then some ⟨value, .new⟩ else none := by
  unfold slotChange changing
  rw [lookup_ofList_singleton]
  by_cases ha : a = a'
  · rw [if_pos ha, bind_some, lookup_ofList_singleton]
    simp only [ha, true_and]
  · rw [if_neg ha, if_neg (fun h => ha h.1), bind_none]

def hookBlock (txs : List TxWithChanges) (changes : List TxWithContractChanges) : BlockChanges :=
  ⟨"dci", .ethereum, blockAt 1, 1, false, ∅, txs, changes, [], none⟩

def hook : Address := ⟨[9]⟩

/-- A block that changes a slot of a hook, brings an entry point of the hook, and changes the slot
again. -/
def tracedBlock : BlockChanges :=
  hookBlock [{ empty (txAt 1) with
      entrypoints := HashMap.ofList [("pool", ofList [⟨"hook:quote", hook, "quote()"⟩])]
      entrypointParams := HashMap.ofList [("hook:quote",
        ofList [(.rpcTracer ⟨none, .new, none, none⟩, "pool")])] }]
    [changing 0 hook ⟨[1]⟩ ⟨[5]⟩, changing 2 hook ⟨[1]⟩ ⟨[7]⟩]

def hookStorage (a : Address) (k : StoreKey) : Option StoreVal :=
  if a = hook ∧ k = ⟨[1]⟩ then some ⟨[7]⟩ else none

def hookSources : DciSources where
  order := .asListed
  trace hash entries := entries.map fun e => .ok ⟨e.entryPoint, e.params, hash,
    ⟨∅, HashMap.ofList [(hook, ofList [⟨[1]⟩])]⟩⟩
  accountsAtBlock _ _ _ := .ok (HashMap.ofList [(hook,
    ⟨.ethereum, hook, HashMap.ofList [(⟨[1]⟩, some ⟨[7]⟩)], none, none, .creation⟩)])
  debugTraced _ := ""

lemma hookSources_returns (b : Block) : hookSources.Returns b hookStorage := by
  intro n requests accounts hok r _ k v hv
  cases hok
  unfold slotAt at hv
  rw [lookup_ofList_singleton] at hv
  split_ifs at hv with ha
  · rw [bind_some, lookup_ofList_singleton] at hv
    split_ifs at hv with hk
    rw [← Option.some.inj hv, ← ha, ← hk]
    decide
  · cases hv

lemma tracedBlock_agrees : tracedBlock.Agrees hookStorage := by
  intro a k w hw hmax
  have hwrites : tracedBlock.slotWrites hook ⟨[1]⟩ = [(0, some ⟨[5]⟩), (2, some ⟨[7]⟩)] := by
    decide +kernel
  by_cases hslots : hook = a ∧ (⟨[1]⟩ : Bytes) = k
  · obtain ⟨rfl, rfl⟩ := hslots
    rw [hwrites] at hw hmax
    rcases mem_cons.mp hw with rfl | hw
    · have hle := hmax (2, some ⟨[7]⟩) (by simp)
      cases hle
    · cases mem_singleton.mp hw
      decide
  · have hnone : tracedBlock.slotWrites a k = [] := by
      simp [slotWrites, tracedBlock, hookBlock, slotChange_changing, hslots, slotAt, empty]
    rw [hnone] at hw
    cases hw

theorem slotContent_of_processBlockUpdate_traced : ∃ s' bc' agg,
    (DynamicContractIndexer.new .ethereum).processBlockUpdate hookSources tracedBlock =
      .ok (s', bc') ∧
    bc'.intoAggregated none = .ok agg ∧
    ∃ v, slotAt agg.accountDeltas hook ⟨[1]⟩ = some v ∧ slotContent v = some ⟨[7]⟩ := by
  have hcheck : (((new .ethereum).processBlockUpdate hookSources
      tracedBlock).toOption.any fun r => (r.2.intoAggregated none).toOption.any fun _ =>
        r.1.cache.Indexes hook ⟨[1]⟩) := by decide +kernel
  obtain ⟨⟨s', bc'⟩, hprocess, hcheck⟩ := exists_ok_of_any hcheck
  obtain ⟨agg, hagg, hindexes⟩ := exists_ok_of_any hcheck
  refine ⟨s', bc', agg, hprocess, hagg, ?_⟩
  exact slotContent_of_processBlockUpdate hprocess hagg (by decide) (hookSources_returns _)
    tracedBlock_agrees (of_decide_eq_true hindexes) (.inr (by decide +kernel))

def withToken : DynamicContractIndexer :=
  { DynamicContractIndexer.new .ethereum with
    cache := (DCICache.new.writePermanent .trackedContracts fun _ =>
      HashMap.ofList [(hook, ofList [⟨[2]⟩])]).writePermanent .erc20Addresses fun _ =>
        HashMap.ofList [(hook, true)] }

/-- Other slots of a tracked token are not in the block. -/
theorem not_slotContent_token : ∃ s' bc' agg,
    withToken.processBlockUpdate hookSources (hookBlock [] [changing 0 hook ⟨[1]⟩ ⟨[7]⟩]) =
      .ok (s', bc') ∧
    bc'.intoAggregated none = .ok agg ∧
    (hookBlock [] [changing 0 hook ⟨[1]⟩ ⟨[7]⟩]).Indexed ∧
    hookSources.Returns (blockAt 1) hookStorage ∧
    (hookBlock [] [changing 0 hook ⟨[1]⟩ ⟨[7]⟩]).Agrees hookStorage ∧
    s'.cache.trackedContracts.containsKey hook ∧
    (hookBlock [] [changing 0 hook ⟨[1]⟩ ⟨[7]⟩]).slotWrites hook ⟨[1]⟩ ≠ [] ∧
    slotAt agg.accountDeltas hook ⟨[1]⟩ = none := by
  have hcheck : ((withToken.processBlockUpdate hookSources
      (hookBlock [] [changing 0 hook ⟨[1]⟩ ⟨[7]⟩])).toOption.any fun r =>
        (r.2.intoAggregated none).toOption.any fun agg =>
          r.1.cache.trackedContracts.containsKey hook ∧
            slotAt agg.accountDeltas hook ⟨[1]⟩ = none) := by decide +kernel
  obtain ⟨⟨s', bc'⟩, hprocess, hcheck⟩ := exists_ok_of_any hcheck
  obtain ⟨agg, hagg, hcheck⟩ := exists_ok_of_any hcheck
  obtain ⟨htracked, hnone⟩ := of_decide_eq_true hcheck
  refine ⟨s', bc', agg, hprocess, hagg, by decide, hookSources_returns _, ?_, htracked,
    by decide +kernel, hnone⟩
  intro a k w hw _
  rcases mem_slotWrites.mp hw with ⟨t, ht, -⟩ | ⟨t, ht, change, hchange, -, hvalue⟩
  · cases ht
  · cases mem_singleton.mp ht
    rw [slotChange_changing] at hchange
    split_ifs at hchange with hslots
    cases hchange
    rw [← hvalue, ← hslots.1, ← hslots.2]
    decide

end
end DynamicContractIndexer
end Tycho
