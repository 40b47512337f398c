import Tycho.Client.BlockHistory
import Tycho.Client.StateSyncMessage

/-! One merged message does to a consumer what the messages do one after the other, exactly when
no change that is older than a snapshot is left in it. -/
namespace Tycho
open Collections Replay HashMap List Option AList AccountDelta

namespace BlockAggregatedChanges

def componentWrite (d : BlockAggregatedChanges) (id : ComponentId) :
    ProtocolComponentState.Cell → Option (Option Bytes)
  | .attr a => (d.stateDeltas.lookup id).bind fun delta => delta.write a
  | .balance t => (d.componentBalances.lookup₂ id t).map fun b => some b.balance

def accountWrite (d : BlockAggregatedChanges) (address : Address) :
    Account.Cell → Option (Option Account.CellVal)
  | .tokenBalance t => (d.accountBalances.lookup₂ address t).map fun b => some (.balance b)
  | k => (d.accountDeltas.lookup address).bind fun delta => delta.write k

@[mk_iff]
structure Keyed (d : BlockAggregatedChanges) : Prop where
  stateEntries : ∀ e ∈ d.stateDeltas.toList, e.2.componentId = e.1
  accountEntries : ∀ e ∈ d.accountDeltas.toList, e.2.address = e.1

instance (d : BlockAggregatedChanges) : Decidable d.Keyed :=
  decidable_of_iff' _ (keyed_iff d)

end BlockAggregatedChanges

/-- The parts of a component that no change touches, and its cells. -/
def ComponentWithState.view (s : ComponentWithState) :
    ComponentWithState × (ProtocolComponentState.Cell → Option Bytes) :=
  ({ s with state := { s.state with attributes := ∅, balances := ∅ } }, s.state.cell)

def Account.view (s : Account) : Account × (Account.Cell → Option Account.CellVal) :=
  (s.frame, s.cell)

/-- Two states that no reader can tell apart. -/
structure ConsumerState.Same (c c' : ConsumerState) : Prop where
  states : ∀ id, (c.states.lookup id).map (·.view) = (c'.states.lookup id).map (·.view)
  accounts : ∀ a, (c.accounts.lookup a).map (·.view) = (c'.accounts.lookup a).map (·.view)

namespace StateSyncMessage
variable {H : Type}

def componentWrite (id : ComponentId) (m : StateSyncMessage H)
    (k : ProtocolComponentState.Cell) : Option (Option Bytes) :=
  m.deltas.bind fun d => d.componentWrite id k

def accountWrite (a : Address) (m : StateSyncMessage H) (k : Account.Cell) :
    Option (Option Account.CellVal) :=
  m.deltas.bind fun d => d.accountWrite a k

def Keyed (m : StateSyncMessage H) : Prop := ∀ d ∈ m.deltas, d.Keyed

instance (m : StateSyncMessage H) : Decidable m.Keyed :=
  inferInstanceAs (Decidable (∀ d ∈ m.deltas, d.Keyed))

/-- For every component with a snapshot that is not removed or replaced later, a change of an
older message is changed again from the snapshot's message on, or has the value that the snapshot
holds. The same for accounts, which are never removed. -/
structure Fresh (ms : List (StateSyncMessage H)) : Prop where
  components : ∀ pre m post id snapshot, ms = pre ++ m :: post →
    m.snapshots.states.lookup id = some snapshot →
    (∀ m' ∈ post, id ∉ m'.snapshots.states ∧ id ∉ m'.removedComponents) →
    ∀ k v, lastWrite (componentWrite id) pre k = some v →
      lastWrite (componentWrite id) (m :: post) k = none → v = snapshot.state.cell k
  accounts : ∀ pre m post a account, ms = pre ++ m :: post →
    m.snapshots.vmStorage.lookup a = some account → (∀ m' ∈ post, a ∉ m'.snapshots.vmStorage) →
    ∀ k v, lastWrite (accountWrite a) pre k = some v →
      lastWrite (accountWrite a) (m :: post) k = none → v = account.cell k

end StateSyncMessage

variable {K V F : Type}

section
variable {d l r : BlockAggregatedChanges}

lemma updateComponent_cell (d : BlockAggregatedChanges) (id : ComponentId)
    (s : ProtocolComponentState) (k : ProtocolComponentState.Cell) :
    (d.updateComponent id s).cell k = (d.componentWrite id k).getD (s.cell k) := by
  cases k with
  | attr a =>
    change (d.updateComponent id s).attributes.lookup a = _
    unfold BlockAggregatedChanges.updateComponent BlockAggregatedChanges.componentWrite
    cases d.stateDeltas.lookup id with
    | none => rfl
    | some delta =>
      simp only [bind_some, ProtocolComponentStateDelta.write, lookup_retain,
        lookup_extend_toList, ProtocolComponentState.cell]
      by_cases hd : a ∈ delta.deletedAttributes
      · simp [hd]
      · cases delta.updatedAttributes.lookup a <;> cases s.attributes.lookup a <;> simp [hd]
  | balance t =>
    change (HashMap.extend s.balances _).lookup t = _
    rw [lookup_extend, lastOf_map _ ComponentBalance.balance, lastOf_toList]
    unfold BlockAggregatedChanges.componentWrite HashMap.lookup₂
    cases d.componentBalances.lookup id with
    | none => rfl
    | some balances =>
      simp only [getD_some, bind_some]
      cases balances.lookup t <;> rfl

lemma updateAccount_cell (d : BlockAggregatedChanges) (a : Address) (s : Account)
    (k : Account.Cell) : (d.updateAccount a s).cell k = (d.accountWrite a k).getD (s.cell k) := by
  cases k with
  | tokenBalance t =>
    change ((overwriteAt d.accountBalances a s.tokenBalances).lookup t).map _ = _
    rw [lookup_overwriteAt]
    change _ = ((d.accountBalances.lookup₂ a t).map _).getD _
    cases d.accountBalances.lookup₂ a t <;> rfl
  | slot key =>
    unfold BlockAggregatedChanges.updateAccount BlockAggregatedChanges.accountWrite
    cases d.accountDeltas.lookup a with
    | none => rfl
    | some delta =>
      simp only [Account.cell, write, bind_some, lookup_extend, lookup_slotValues]
      cases delta.slots.lookup key <;> rfl
  | nativeBalance | code =>
    unfold BlockAggregatedChanges.updateAccount BlockAggregatedChanges.accountWrite
    cases d.accountDeltas.lookup a with
    | none => rfl
    | some delta =>
      simp only [Account.cell, write, bind_some]
      cases delta.balance <;> cases delta.code <;> rfl

lemma updateAccount_frame (d : BlockAggregatedChanges) (a : Address) (s : Account) :
    (d.updateAccount a s).frame = s.frame := by
  unfold BlockAggregatedChanges.updateAccount
  cases d.accountDeltas.lookup a <;> rfl

lemma BlockAggregatedChanges.Keyed.state (h : d.Keyed) {id : ComponentId}
    {delta : ProtocolComponentStateDelta} (hd : d.stateDeltas.lookup id = some delta) :
    delta.componentId = id :=
  h.stateEntries (id, delta) (HashMap.mem_toList.mpr hd)

lemma BlockAggregatedChanges.Keyed.account (h : d.Keyed) {a : Address}
    {delta : AccountDelta} (hd : d.accountDeltas.lookup a = some delta) : delta.address = a :=
  h.accountEntries (a, delta) (HashMap.mem_toList.mpr hd)

lemma mergedEntry_of_bestEffort [DecidableEq K] {merge : V → V → Except MergeError V}
    {m n : HashMap K V} {k : K}
    (hok : ∀ v w, m.lookup k = some v → n.lookup k = some w → ∃ u, merge v w = .ok u) :
    HashMap.MergedEntry merge (m.lookup k) (n.lookup k)
      ((mergeWith (bestEffort merge) m n.toList).lookup k) := by
  rw [lookup_mergeWith, valuesAt_toList]
  cases hn : n.lookup k with
  | none => exact .kept _
  | some w =>
    cases hm : m.lookup k with
    | none => exact .inserted w
    | some v =>
      obtain ⟨u, hu⟩ := hok v w hm hn
      have hbest : bestEffort merge v w = u := by rw [bestEffort, hu]; rfl
      change HashMap.MergedEntry merge (some v) (some w) (some (bestEffort merge v w))
      rw [hbest]
      exact .merged hu

section
variable (hl : l.Keyed) (hr : r.Keyed)
include hl hr

lemma stateEntry_merge (id : ComponentId) :
    HashMap.MergedEntry ProtocolComponentStateDelta.merge (l.stateDeltas.lookup id)
      (r.stateDeltas.lookup id) ((l.merge r).stateDeltas.lookup id) :=
  mergedEntry_of_bestEffort fun _ _ hv hw =>
    ProtocolComponentStateDelta.merge_isOk ((hl.state hv).trans (hr.state hw).symm)

lemma accountEntry_merge (a : Address) : HashMap.MergedEntry merge (l.accountDeltas.lookup a)
      (r.accountDeltas.lookup a) ((l.merge r).accountDeltas.lookup a) :=
  mergedEntry_of_bestEffort fun _ _ hv hw =>
    merge_isOk ((hl.account hv).trans (hr.account hw).symm)

lemma keyed_merge : (l.merge r).Keyed := by
  constructor
  · rintro ⟨id, delta⟩ he
    have hentry := stateEntry_merge hl hr id
    rw [HashMap.mem_toList.mp he] at hentry
    generalize hlo : l.stateDeltas.lookup id = lo at hentry
    generalize hro : r.stateDeltas.lookup id = ro at hentry
    cases hentry with
    | kept => exact hl.state hlo
    | inserted => exact hr.state hro
    | merged hm =>
      rw [(ProtocolComponentStateDelta.merge_componentId hm).2]
      exact hl.state hlo
  · rintro ⟨a, delta⟩ he
    have hentry := accountEntry_merge hl hr a
    rw [HashMap.mem_toList.mp he] at hentry
    generalize hlo : l.accountDeltas.lookup a = lo at hentry
    generalize hro : r.accountDeltas.lookup a = ro at hentry
    cases hentry with
    | kept => exact hl.account hlo
    | inserted => exact hr.account hro
    | merged hm =>
      rw [(merge_address hm).2.1]
      exact hl.account hlo

lemma componentWrite_merge (id : ComponentId) (k : ProtocolComponentState.Cell) :
    (l.merge r).componentWrite id k = (r.componentWrite id k).or (l.componentWrite id k) := by
  cases k with
  | attr a =>
    exact (stateEntry_merge hl hr id).bind_or_left fun _ _ _ hm =>
      ProtocolComponentStateDelta.merge_write hm a
  | balance t =>
    change ((l.componentBalances.mergeNested r.componentBalances).lookup₂ id t).map _ = _
    rw [lookup₂_mergeNested, map_or]
    rfl

lemma accountWrite_merge (a : Address) (k : Account.Cell) :
    (l.merge r).accountWrite a k = (r.accountWrite a k).or (l.accountWrite a k) := by
  cases k with
  | tokenBalance t =>
    change ((l.accountBalances.mergeNested r.accountBalances).lookup₂ a t).map _ = _
    rw [lookup₂_mergeNested, map_or]
    rfl
  | slot key | nativeBalance | code =>
    exact (accountEntry_merge hl hr a).bind_or_left fun _ _ _ hm => merge_write hm _

end

end

namespace StateSyncMessage
variable {H : Type} {m m' : StateSyncMessage H}

def componentChange (id : ComponentId) (m : StateSyncMessage H) :
    Change ComponentWithState ProtocolComponentState.Cell (Option Bytes) where
  removed := id ∈ m.removedComponents
  snapshot := (m.snapshots.states.lookup id).map (·.view)
  write := m.componentWrite id

def accountChange (a : Address) (m : StateSyncMessage H) :
    Change Account Account.Cell (Option Account.CellVal) where
  removed := false
  snapshot := (m.snapshots.vmStorage.lookup a).map (·.view)
  write := m.accountWrite a

section
variable (hm : m.Keyed) (hm' : m'.Keyed)
include hm hm'

lemma keyed_merge : (m.merge m').Keyed := by
  intro d hd
  change d ∈ mergeDeltas m.deltas m'.deltas at hd
  unfold Keyed at hm hm'
  generalize m.deltas = o at hm hd
  generalize m'.deltas = o' at hm' hd
  cases o with
  | none =>
    cases o' with
    | none => cases hd
    | some => exact hm' d hd
  | some l =>
    cases o' with
    | none => exact hm d hd
    | some r =>
      cases hd
      exact Tycho.keyed_merge (hm l rfl) (hm' r rfl)

/-- The newer message's changes win, cell by cell. -/
lemma bind_mergeDeltas {X : Type} {f : BlockAggregatedChanges → Option X}
    (hf : ∀ l r, l.Keyed → r.Keyed → f (l.merge r) = (f r).or (f l)) :
    (m.merge m').deltas.bind f = (m'.deltas.bind f).or (m.deltas.bind f) := by
  change (mergeDeltas m.deltas m'.deltas).bind f = _
  unfold Keyed at hm hm'
  generalize m.deltas = o at hm
  generalize m'.deltas = o' at hm'
  cases o with
  | none =>
    cases o' with
    | none => rfl
    | some => exact or_none.symm
  | some l =>
    cases o' with
    | none => rfl
    | some r => exact hf l r (hm l rfl) (hm' r rfl)

lemma componentChange_merge (id : ComponentId) :
    componentChange id (m.merge m') = (componentChange id m).merge (componentChange id m') := by
  have hsnap : (m.merge m').snapshots.states.lookup id = (m'.snapshots.states.lookup id).or
        (if id ∈ m'.removedComponents then none else m.snapshots.states.lookup id) := by
    unfold merge Snapshot.extend
    rw [lookup_extend_toList, lookup_retain]
    congr 1
    by_cases hid : id ∈ m'.removedComponents <;> cases m.snapshots.states.lookup id <;> simp [hid]
  have hremoved : id ∈ (m.merge m').removedComponents ↔
      id ∈ m.removedComponents ∧ m'.snapshots.states.lookup id = none ∨
        id ∈ m'.removedComponents := by
    change id ∈ HashMap.extend (HashMap.retain m.removedComponents _)
      m'.removedComponents.toList ↔ _
    rw [mem_extend_toList, or_comm, lookup_eq_none]
    apply or_congr_left
    rw [mem_iff_lookup, mem_iff_lookup, lookup_retain]
    simp [filter_eq_some_iff]
  unfold Change.merge componentChange
  congr 1
  · rw [Bool.eq_iff_iff]
    simp [hremoved]
  · rw [hsnap, map_or]
    by_cases hid : id ∈ m'.removedComponents <;> simp [hid]
  · funext k
    exact bind_mergeDeltas hm hm' fun l r hl hr => componentWrite_merge hl hr id k

lemma accountChange_merge (a : Address) :
    accountChange a (m.merge m') = (accountChange a m).merge (accountChange a m') := by
  have hsnap : (m.merge m').snapshots.vmStorage.lookup a =
      (m'.snapshots.vmStorage.lookup a).or (m.snapshots.vmStorage.lookup a) :=
    lookup_extend_toList _ _ a
  unfold Change.merge accountChange
  congr 1
  · rw [hsnap, map_or]
    rfl
  · funext k
    exact bind_mergeDeltas hm hm' fun l r hl hr => accountWrite_merge hl hr a k

end

end StateSyncMessage

namespace ConsumerState
variable {H : Type}
open StateSyncMessage

lemma applyDeltas_states (c : ConsumerState) (d : BlockAggregatedChanges) (id : ComponentId) :
    ((c.applyDeltas d).states.lookup id).map (·.view) =
      ((c.states.lookup id).map (·.view)).map (overwrite (d.componentWrite id)) := by
  rw [applyDeltas, lookup_mapValues, Option.map_map, Option.map_map]
  congr 1
  funext s
  exact Prod.ext rfl (funext fun k => updateComponent_cell d id s.state k)

lemma applyDeltas_accounts (c : ConsumerState) (d : BlockAggregatedChanges) (a : Address) :
    ((c.applyDeltas d).accounts.lookup a).map (·.view) =
      ((c.accounts.lookup a).map (·.view)).map (overwrite (d.accountWrite a)) := by
  rw [applyDeltas, lookup_mapValues, Option.map_map, Option.map_map]
  congr 1
  funext s
  exact Prod.ext (updateAccount_frame d a s) (funext fun k => updateAccount_cell d a s k)

lemma map_overwrite_none (x : Option (F × (K → V))) : x.map (overwrite fun _ => none) = x := by
  cases x <;> rfl

lemma process_states (c : ConsumerState) (m : StateSyncMessage H) (id : ComponentId) :
    ((c.process m).states.lookup id).map (·.view) =
      Change.apply ((c.states.lookup id).map (·.view)) (componentChange id m) := by
  have hinsert : (HashMap.extend (HashMap.eraseAll c.states m.removedComponents.keys)
      m.snapshots.states.toList).lookup id = (m.snapshots.states.lookup id).or
        (if id ∈ m.removedComponents then none else c.states.lookup id) := by
    rw [lookup_extend_toList, lookup_eraseAll]
    simp only [← AList.mem_keys]
  have hbase : ((componentChange id m).snapshot.or (if (componentChange id m).removed then none
      else (c.states.lookup id).map (·.view))) =
      ((m.snapshots.states.lookup id).or
        (if id ∈ m.removedComponents then none else c.states.lookup id)).map (·.view) := by
    unfold componentChange
    rw [map_or]
    by_cases hid : id ∈ m.removedComponents <;> simp [hid]
  rw [Change.apply, hbase, ← hinsert]
  unfold process componentChange componentWrite
  cases m.deltas with
  | none => exact (map_overwrite_none _).symm
  | some d => exact applyDeltas_states _ d id

lemma process_accounts (c : ConsumerState) (m : StateSyncMessage H) (a : Address) :
    ((c.process m).accounts.lookup a).map (·.view) =
      Change.apply ((c.accounts.lookup a).map (·.view)) (accountChange a m) := by
  have hbase : ((accountChange a m).snapshot.or (if (accountChange a m).removed then none
      else (c.accounts.lookup a).map (·.view))) =
      ((HashMap.extend c.accounts m.snapshots.vmStorage.toList).lookup a).map (·.view) := by
    rw [lookup_extend_toList, map_or]
    rfl
  rw [Change.apply, hbase]
  unfold process accountChange accountWrite
  cases m.deltas with
  | none => exact (map_overwrite_none _).symm
  | some d => exact applyDeltas_accounts _ d a

lemma foldl_process (obs : ConsumerState → Option (F × (K → V)))
    {change : StateSyncMessage H → Change F K V}
    (h : ∀ c m, obs (process c m) = Change.apply (obs c) (change m))
    (ms : List (StateSyncMessage H)) (c : ConsumerState) :
    obs (ms.foldl process c) = (ms.map change).foldl Change.apply (obs c) := by
  induction ms generalizing c with
  | nil => rfl
  | cons _ _ ih => rw [foldl_cons, ih, h, map_cons, foldl_cons]

end ConsumerState

namespace StateSyncMessage
variable {H : Type}

lemma foldl_merge {change : StateSyncMessage H → Change F K V}
    (h : ∀ m m', m.Keyed → m'.Keyed → change (m.merge m') = (change m).merge (change m'))
    {m : StateSyncMessage H} {ms : List (StateSyncMessage H)} (hkeyed : ∀ m' ∈ m :: ms, m'.Keyed) :
    change (ms.foldl merge m) = ((m :: ms).map change).foldl Change.merge Change.empty := by
  induction ms generalizing m with
  | nil => exact (Change.empty_merge (change m)).symm
  | cons m' ms ih =>
    obtain ⟨hm, hkeyed⟩ := forall_mem_cons.mp hkeyed
    obtain ⟨hm', hkeyed⟩ := forall_mem_cons.mp hkeyed
    rw [foldl_cons, ih (forall_mem_cons.mpr ⟨keyed_merge hm hm', hkeyed⟩)]
    simp only [map_cons, foldl_cons, h m m' hm hm', Change.empty_merge]

lemma fresh_iff (ms : List (StateSyncMessage H)) :
    Fresh ms ↔ (∀ id, Change.Fresh (ms.map (componentChange id))) ∧
      ∀ a, Change.Fresh (ms.map (accountChange a)) := by
  have hcomp : ∀ id (m : StateSyncMessage H), (componentChange id m).Quiet ↔
      id ∉ m.snapshots.states ∧ id ∉ m.removedComponents := by
    intro id m
    constructor
    · rintro ⟨hkept, hnone⟩
      exact ⟨lookup_eq_none.mp (map_eq_none_iff.mp hnone), of_decide_eq_false hkept⟩
    · rintro ⟨hnone, hkept⟩
      exact ⟨decide_eq_false hkept, map_eq_none_iff.mpr (lookup_eq_none.mpr hnone)⟩
  have haccount : ∀ a (m : StateSyncMessage H), (accountChange a m).Quiet ↔
      a ∉ m.snapshots.vmStorage := by
    intro a m
    constructor
    · rintro ⟨-, hnone⟩
      exact lookup_eq_none.mp (map_eq_none_iff.mp hnone)
    · intro hnone
      exact ⟨rfl, map_eq_none_iff.mpr (lookup_eq_none.mpr hnone)⟩
  simp only [Change.fresh_map_iff, hcomp, haccount]
  constructor
  · intro hfresh
    refine ⟨fun id pre m post y heq hy hquiet => ?_, fun a pre m post y heq hy hquiet => ?_⟩
    · obtain ⟨snapshot, hsnap, rfl⟩ := map_eq_some_iff.mp hy
      exact hfresh.components pre m post id snapshot heq hsnap hquiet
    · obtain ⟨account, haccount, rfl⟩ := map_eq_some_iff.mp hy
      exact hfresh.accounts pre m post a account heq haccount hquiet
  · rintro ⟨hcomps, haccounts⟩
    refine ⟨fun pre m post id snapshot heq hsnap hquiet => ?_,
      fun pre m post a account heq haccount hquiet => ?_⟩
    · exact hcomps id pre m post snapshot.view heq (map_eq_some_iff.mpr ⟨snapshot, hsnap, rfl⟩)
        hquiet
    · exact haccounts a pre m post account.view heq (map_eq_some_iff.mpr ⟨account, haccount, rfl⟩)
        hquiet

end StateSyncMessage

namespace ConsumerState
variable {H : Type}
open StateSyncMessage

/-- The merged message has the effect of the messages, just when they are fresh. -/
theorem same_merged_iff (c : ConsumerState) (m : StateSyncMessage H)
    (ms : List (StateSyncMessage H)) (hkeyed : ∀ m' ∈ m :: ms, m'.Keyed) :
    Same (c.process (ms.foldl StateSyncMessage.merge m)) ((m :: ms).foldl process c) ↔
      Fresh (m :: ms) := by
  have hstates : ∀ id, ((c.process (ms.foldl merge m)).states.lookup id).map (·.view) =
      (((m :: ms).foldl process c).states.lookup id).map (·.view) ↔
      Change.Fresh ((m :: ms).map (componentChange id)) := by
    intro id
    have hmerged : componentChange id (ms.foldl merge m) = _ :=
      foldl_merge (fun _ _ hm hm' => componentChange_merge hm hm' id) hkeyed
    rw [process_states, hmerged, foldl_process (fun c => (c.states.lookup id).map (·.view))
      (fun c m => process_states c m id)]
    exact Change.apply_merged_iff _ _
  have haccounts : ∀ a, ((c.process (ms.foldl merge m)).accounts.lookup a).map (·.view) =
      (((m :: ms).foldl process c).accounts.lookup a).map (·.view) ↔
      Change.Fresh ((m :: ms).map (accountChange a)) := by
    intro a
    have hmerged : accountChange a (ms.foldl merge m) = _ :=
      foldl_merge (fun _ _ hm hm' => accountChange_merge hm hm' a) hkeyed
    rw [process_accounts, hmerged, foldl_process (fun c => (c.accounts.lookup a).map (·.view))
      (fun c m => process_accounts c m a)]
    exact Change.apply_merged_iff _ _
  rw [fresh_iff]
  constructor
  · rintro ⟨hs, ha⟩
    exact ⟨fun id => (hstates id).mp (hs id), fun a => (haccounts a).mp (ha a)⟩
  · rintro ⟨hs, ha⟩
    exact ⟨fun id => (hstates id).mpr (hs id), fun a => (haccounts a).mpr (ha a)⟩

section

def poolWith (reserve : Nat) : ComponentWithState where
  state := ⟨"pool", HashMap.ofList [("reserve", ⟨[UInt8.ofNat reserve]⟩)], ∅⟩
  component := { (default : ProtocolComponent) with id := "pool" }
  componentTvl := none
  entrypoints := []

def messageOf (number : Nat) (snapshot change : Option Nat) (removed : Bool) :
    StateSyncMessage BlockHeader where
  header := { (default : BlockHeader) with number }
  snapshots := { (default : Snapshot) with
    states := HashMap.ofList (snapshot.toList.map fun reserve => ("pool", poolWith reserve)) }
  deltas := some { (default : BlockAggregatedChanges) with
    stateDeltas := HashMap.ofList (change.toList.map fun reserve => ("pool",
      .new "pool" (HashMap.ofList [("reserve", ⟨[UInt8.ofNat reserve]⟩)]) ∅)) }
  removedComponents := if removed then HashMap.ofList [("pool", (poolWith 0).component)] else ∅

/-- A change in block 1, the removal in block 2 and a snapshot in block 3. -/
def readded : List (StateSyncMessage BlockHeader) :=
  [messageOf 2 none none true, messageOf 3 (some 7) none false]

/-- The consumer of the merged message has the value of block 1. -/
theorem not_same_readded :
    ¬Same (process ⟨∅, ∅⟩ (readded.foldl StateSyncMessage.merge (messageOf 1 none (some 5) false)))
      ((messageOf 1 none (some 5) false :: readded).foldl process ⟨∅, ∅⟩) := by
  intro hsame
  have hview := hsame.states "pool"
  have hcells := congrArg (Option.map fun v => v.2 (.attr "reserve")) hview
  rw [Option.map_map, Option.map_map] at hcells
  exact absurd hcells (by decide +kernel)

theorem same_merged_iff_readded : Same
    (process ⟨∅, ∅⟩ (readded.foldl StateSyncMessage.merge (messageOf 1 none none false)))
    ((messageOf 1 none none false :: readded).foldl process ⟨∅, ∅⟩) ↔
      Fresh (messageOf 1 none none false :: readded) :=
  same_merged_iff ⟨∅, ∅⟩ (messageOf 1 none none false) readded (by decide +kernel)

end
end ConsumerState

/-- Every trigger and every slot of `other` is one of `s`, as in a merge of the two. -/
structure TracingResult.Covers (s other : TracingResult) : Prop where
  retriggers : ∀ r ∈ other.retriggers, r ∈ s.retriggers
  accessed : ∀ a, ∀ slots ∈ other.accessedSlots.lookup a,
    ∃ covering ∈ s.accessedSlots.lookup a, ∀ slot ∈ slots, slot ∈ covering

lemma TracingResult.covers_refl (s : TracingResult) : s.Covers s :=
  ⟨fun _ h => h, fun _ slots h => ⟨slots, h, fun _ hslots => hslots⟩⟩

namespace BlockAggregatedChanges
variable {m : BlockAggregatedChanges}

/-- Whatever `m` announces, `s` announces as well. -/
@[mk_iff]
structure Announces (s m : BlockAggregatedChanges) : Prop where
  tokens : ∀ a, ∀ token ∈ m.newTokens.lookup a, token ∈ s.newTokens.lookup a
  entrypoints : ∀ c, ∀ e ∈ (m.dciUpdate.newEntrypoints.lookup c).getD ∅,
    e ∈ (s.dciUpdate.newEntrypoints.lookup c).getD ∅
  params : ∀ id, ∀ e ∈ (m.dciUpdate.newEntrypointParams.lookup id).getD ∅,
    e ∈ (s.dciUpdate.newEntrypointParams.lookup id).getD ∅
  traces : ∀ id, ∀ result ∈ m.dciUpdate.traceResults.lookup id,
    ∃ announced ∈ s.dciUpdate.traceResults.lookup id, announced.Covers result

/-- `s` announces what any of the blocks does, at the block and the heights of the last one. -/
structure AnnouncesAll (s first : BlockAggregatedChanges) (rest : List BlockAggregatedChanges) :
    Prop where
  announces : ∀ m ∈ first :: rest, s.Announces m
  block : s.block = (rest.getLast?.getD first).block
  finalized : s.finalizedBlockHeight = (rest.getLast?.getD first).finalizedBlockHeight
  committed : s.dbCommittedBlockHeight = (rest.getLast?.getD first).dbCommittedBlockHeight

variable (first : BlockAggregatedChanges) (rest : List BlockAggregatedChanges)

lemma foldl_merge_keeps : (rest.foldl merge first).newTokens = first.newTokens ∧
      (rest.foldl merge first).dciUpdate = first.dciUpdate ∧
      (rest.foldl merge first).finalizedBlockHeight = first.finalizedBlockHeight ∧
      (rest.foldl merge first).dbCommittedBlockHeight = first.dbCommittedBlockHeight := by
  induction rest generalizing first with
  | nil => exact ⟨rfl, rfl, rfl, rfl⟩
  | cons m _ ih => exact ih (first.merge m)

lemma block_foldl_merge : (rest.foldl merge first).block = (rest.getLast?.getD first).block := by
  induction rest generalizing first with
  | nil => rfl
  | cons m rest ih =>
    rw [foldl_cons, ih, getLast?_cons]
    cases rest.getLast? with
    | none => rfl
    | some => rfl

lemma announces_refl : first.Announces first where
  tokens := fun _ _ h => h
  entrypoints := fun _ _ h => h
  params := fun _ _ h => h
  traces := fun _ result h => ⟨result, h, result.covers_refl⟩

lemma announces_foldl_merge : (rest.foldl merge first).Announces m ↔ first.Announces m := by
  obtain ⟨htoken, hdci, -, -⟩ := foldl_merge_keeps first rest
  rw [announces_iff, announces_iff, htoken, hdci]

/-- The merged block announces what the first one does, at the first one's heights. -/
theorem announcesAll_merged_iff : (rest.foldl merge first).AnnouncesAll first rest ↔
    (∀ m ∈ rest, first.Announces m) ∧
      first.finalizedBlockHeight = (rest.getLast?.getD first).finalizedBlockHeight ∧
      first.dbCommittedBlockHeight = (rest.getLast?.getD first).dbCommittedBlockHeight := by
  obtain ⟨-, -, hfinal, hcomp⟩ := foldl_merge_keeps first rest
  constructor
  · intro h
    refine ⟨fun m hm => ?_, hfinal ▸ h.finalized, hcomp ▸ h.committed⟩
    exact (announces_foldl_merge first rest).mp (h.announces m (mem_cons_of_mem _ hm))
  · rintro ⟨hann, hf, hc⟩
    refine ⟨fun m hm => (announces_foldl_merge first rest).mpr ?_, block_foldl_merge first rest,
      hfinal.trans hf, hcomp.trans hc⟩
    exact forall_mem_cons.mpr ⟨announces_refl first, hann⟩ m hm

/-- A block, and the next one with a new token in it. -/
def blockBefore : BlockAggregatedChanges := { (default : BlockAggregatedChanges) with
  block := ⟨1, .ethereum, ⟨[1]⟩, ⟨[0]⟩, 12⟩ }

def blockWithToken : BlockAggregatedChanges := { (default : BlockAggregatedChanges) with
  block := ⟨2, .ethereum, ⟨[2]⟩, ⟨[1]⟩, 24⟩
  newTokens := HashMap.ofList [(⟨[7]⟩, ⟨⟨[7]⟩, "DAI", 18, 0, [], .ethereum, 100⟩)] }

theorem not_announcesAll_token : blockWithToken.extractor = blockBefore.extractor ∧
    blockWithToken.block.number = blockBefore.block.number + 1 ∧
    blockWithToken.block.parentHash = blockBefore.block.hash ∧
    ¬([blockWithToken].foldl merge blockBefore).AnnouncesAll blockBefore [blockWithToken] := by
  refine ⟨rfl, rfl, rfl, fun h => ?_⟩
  have htoken := (h.announces blockWithToken (by simp)).tokens ⟨[7]⟩
    ⟨⟨[7]⟩, "DAI", 18, 0, [], .ethereum, 100⟩ (by decide +kernel)
  exact absurd htoken (by decide +kernel)

end BlockAggregatedChanges
end Tycho
