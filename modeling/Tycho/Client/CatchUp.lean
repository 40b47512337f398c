import Tycho.Client.MessageMerge
import Tycho.Client.Synchronizer
import Tycho.Indexer.PendingDeltas

/-! Catching up: what the buffered deltas do to a snapshot, object by object. -/
namespace Tycho
open Collections Replay HashMap Option AList BlockAggregatedChanges

variable {d : BlockAggregatedChanges} {a : Address}

namespace BlockAggregatedChanges

def Touches (d : BlockAggregatedChanges) (id : ComponentId) : Prop :=
  id ∈ d.stateDeltas ∨ id ∈ d.componentBalances

instance (d : BlockAggregatedChanges) (id : ComponentId) : Decidable (d.Touches id) :=
  inferInstanceAs (Decidable (_ ∨ _))

def TouchesAccount (d : BlockAggregatedChanges) (a : Address) : Prop :=
  a ∈ d.accountDeltas ∨ a ∈ d.accountBalances

instance (d : BlockAggregatedChanges) (a : Address) : Decidable (d.TouchesAccount a) :=
  inferInstanceAs (Decidable (_ ∨ _))

/-- The changes of the account delete no slot and have no token balances. -/
def Plain (d : BlockAggregatedChanges) (a : Address) : Prop :=
  a ∉ d.accountBalances ∧ ∀ delta ∈ d.accountDeltas.lookup a, ∀ e ∈ delta.slots.toList, e.2 ≠ none

instance (d : BlockAggregatedChanges) (a : Address) : Decidable (d.Plain a) :=
  inferInstanceAs (Decidable (_ ∧ ∀ delta ∈ d.accountDeltas.lookup a, _))

/-- A change of this cell reaches the snapshot: the account is tracked, and the change is neither a
token balance nor the deletion of a slot. -/
def Applied (d : BlockAggregatedChanges) (contractIds : HashSet Address) (a : Address) :
    Account.Cell → Prop
  | .tokenBalance _ => False
  | .slot key => a ∈ contractIds ∧
    ∀ delta ∈ d.accountDeltas.lookup a, delta.slots.lookup key ≠ some none
  | .nativeBalance | .code => a ∈ contractIds

instance (d : BlockAggregatedChanges) (contractIds : HashSet Address) (a : Address) :
    DecidablePred (d.Applied contractIds a)
  | .tokenBalance _ => inferInstanceAs (Decidable False)
  | .slot key => inferInstanceAs
    (Decidable (_ ∧ ∀ delta ∈ d.accountDeltas.lookup a, delta.slots.lookup key ≠ some none))
  | .nativeBalance | .code => inferInstanceAs (Decidable (a ∈ contractIds))

def appliedWrite (d : BlockAggregatedChanges) (contractIds : HashSet Address) (a : Address)
    (k : Account.Cell) : Option (Option Account.CellVal) :=
  if d.Applied contractIds a k then d.accountWrite a k else none

lemma Applied.tracked {contractIds : HashSet Address} {k : Account.Cell}
    (h : d.Applied contractIds a k) : a ∈ contractIds := by
  cases k with
  | tokenBalance => exact h.elim
  | slot => exact h.1
  | nativeBalance | code => exact h

lemma appliedWrite_of_not_mem {contractIds : HashSet Address} (h : a ∉ d.accountDeltas) :
    d.appliedWrite contractIds a = fun _ => none := by
  funext k
  cases k with
  | tokenBalance => rfl
  | slot | nativeBalance | code => simp [appliedWrite, accountWrite, lookup_eq_none.mpr h]

lemma appliedWrite_of_plain {contractIds : HashSet Address} (ha : a ∈ contractIds)
    (h : d.Plain a) : d.appliedWrite contractIds a = d.accountWrite a := by
  obtain ⟨hbalances, hslots⟩ := h
  funext k
  cases k with
  | tokenBalance =>
    simp [appliedWrite, Applied, accountWrite, HashMap.lookup₂, lookup_eq_none.mpr hbalances]
  | slot key =>
    refine if_pos ⟨ha, fun delta hdelta hnone => ?_⟩
    exact hslots delta hdelta (key, none) (HashMap.mem_toList.mpr hnone) rfl
  | nativeBalance | code => exact if_pos ha

lemma componentWrite_of_not_touches {id : ComponentId} (h : ¬d.Touches id) :
    d.componentWrite id = fun _ => none := by
  obtain ⟨hstate, hbal⟩ := not_or.mp h
  funext k
  cases k with
  | attr => simp [componentWrite, lookup_eq_none.mpr hstate]
  | balance => simp [componentWrite, HashMap.lookup₂, lookup_eq_none.mpr hbal]

lemma accountWrite_of_not_touches (h : ¬d.TouchesAccount a) : d.accountWrite a = fun _ => none := by
  obtain ⟨hdelta, hbal⟩ := not_or.mp h
  funext k
  cases k with
  | tokenBalance => simp [accountWrite, HashMap.lookup₂, lookup_eq_none.mpr hbal]
  | slot key | nativeBalance | code => simp [accountWrite, lookup_eq_none.mpr hdelta]

end BlockAggregatedChanges

namespace Snapshot
open ProtocolComponentState

lemma view_applyStateDelta (id : ComponentId) (delta : ProtocolComponentStateDelta)
    (cws : ComponentWithState) :
    (applyStateDelta id delta cws).view = overwrite (stateWrite delta) cws.view := by
  refine Prod.ext rfl (funext fun k => ?_)
  cases k with
  | attr name =>
    change (HashMap.eraseAll _ _).lookup name = (delta.write name).getD _
    rw [lookup_eraseAll, lookup_extend_toList, ProtocolComponentStateDelta.write]
    simp only [← mem_keys]
    split_ifs
    · rfl
    · cases delta.updatedAttributes.lookup name <;> rfl
  | balance => rfl

lemma view_applyBalances (id : ComponentId) (balances : HashMap Address ComponentBalance)
    (cws : ComponentWithState) :
    (applyBalances id balances cws).view = overwrite (balanceWrite balances) cws.view := by
  refine Prod.ext rfl (funext fun k => ?_)
  cases k with
  | attr => rfl
  | balance t =>
    change (HashMap.extend cws.state.balances _).lookup t = _
    rw [lookup_extend, lastOf_map _ ComponentBalance.balance, lastOf_toList]
    change _ = ((balances.lookup t).map _).getD _
    cases balances.lookup t <;> rfl

lemma view_applyAccountDelta (contractIds : HashSet Address) {delta : AccountDelta}
    (hdelta : d.accountDeltas.lookup a = some delta) (account : Account) :
    (applyAccountDelta contractIds a delta account).view =
      overwrite (d.appliedWrite contractIds a) account.view := by
  unfold applyAccountDelta
  by_cases ha : a ∈ contractIds
  · rw [if_pos ha]
    refine Prod.ext rfl (funext fun k => ?_)
    cases k with
    | slot key =>
      have hlookup := lookup_ofList_filterMap_toList delta.slots (fun _ v => v) key
      rw [lookup_ofList] at hlookup
      change ((HashMap.extend account.slots _).lookup key).map _ =
        (d.appliedWrite contractIds a (.slot key)).getD _
      rw [lookup_extend, hlookup]
      cases hslots : delta.slots.lookup key with
      | none =>
        simp [appliedWrite, accountWrite, AccountDelta.write, hdelta, hslots, Account.view]
        rfl
      | some v =>
        cases v with
        | none =>
          simp [appliedWrite, Applied, hdelta, hslots]
          rfl
        | some => simp [appliedWrite, Applied, accountWrite, AccountDelta.write, hdelta, hslots, ha]
    | nativeBalance =>
      change some _ = (d.appliedWrite contractIds a .nativeBalance).getD _
      simp only [appliedWrite, Applied, if_pos ha, accountWrite, hdelta]
      change some _ = (delta.balance.map _).getD _
      cases delta.balance <;> rfl
    | code =>
      change some _ = (d.appliedWrite contractIds a .code).getD _
      simp only [appliedWrite, Applied, if_pos ha, accountWrite, hdelta]
      change some _ = (delta.code.map _).getD _
      cases delta.code <;> rfl
    | tokenBalance => rfl
  · -- an account that is not tracked stays as it is
    rw [if_neg ha]
    refine Prod.ext rfl (funext fun k => ?_)
    change _ = (d.appliedWrite contractIds a k).getD _
    rw [appliedWrite, if_neg fun happlied => ha happlied.tracked]
    rfl

section
variable (s : Snapshot) (contractIds : HashSet Address) (d : BlockAggregatedChanges)

lemma componentWrite_eq (id : ComponentId) : d.componentWrite id = nativeWrite d id := by
  funext k
  unfold nativeWrite balanceWriteAt stateWriteAt
  cases k with
  | attr =>
    unfold componentWrite
    cases d.componentBalances.lookup id <;> cases d.stateDeltas.lookup id <;> rfl
  | balance =>
    unfold componentWrite HashMap.lookup₂
    cases d.stateDeltas.lookup id <;> cases d.componentBalances.lookup id <;>
      exact or_none.symm

lemma accountWrite_eq (a : Address) : d.accountWrite a = vmWrite d a := by
  funext k
  unfold vmWrite tokenBalanceWriteAt accountWriteAt accountWrite
  cases k with
  | tokenBalance =>
    unfold HashMap.lookup₂
    cases d.accountDeltas.lookup a <;> cases d.accountBalances.lookup a <;> exact or_none.symm
  | slot | nativeBalance | code =>
    cases d.accountBalances.lookup a <;> rfl

lemma applyDelta_states (id : ComponentId) :
    ((s.applyDelta contractIds d).states.lookup id).map (·.view) =
      ((s.states.lookup id).map (·.view)).map (overwrite (d.componentWrite id)) := by
  unfold applyDelta
  rw [lookup_foldl_modify, lookup_foldl_modify, map_map, map_map, map_map]
  congr 1
  funext cws
  rw [componentWrite_eq]
  simp only [Function.comp]
  change _ = overwrite (fun k => (balanceWriteAt _ id k).or (stateWriteAt _ id k)) _
  rw [← overwrite_overwrite]
  unfold balanceWriteAt stateWriteAt
  cases d.stateDeltas.lookup id <;> cases d.componentBalances.lookup id <;>
    simp [view_applyStateDelta, view_applyBalances] <;> rfl

lemma applyDelta_vmStorage (a : Address) :
    ((s.applyDelta contractIds d).vmStorage.lookup a).map (·.view) =
      ((s.vmStorage.lookup a).map (·.view)).map (overwrite (d.appliedWrite contractIds a)) := by
  unfold applyDelta
  rw [lookup_foldl_modify, map_map, map_map]
  congr 1
  funext account
  cases hdelta : d.accountDeltas.lookup a with
  | none =>
    rw [appliedWrite_of_not_mem (lookup_eq_none.mp hdelta)]
    rfl
  | some delta => exact view_applyAccountDelta contractIds hdelta account

lemma applyDelta_accounts (ha : a ∈ contractIds) (hplain : d.Plain a) :
    ((s.applyDelta contractIds d).vmStorage.lookup a).map (·.view) =
      ((s.vmStorage.lookup a).map (·.view)).map (overwrite (d.accountWrite a)) := by
  rw [applyDelta_vmStorage, appliedWrite_of_plain ha hplain]

/-- No object is added and none is removed. -/
lemma mem_applyDelta (id : ComponentId) (a : Address) :
    (id ∈ (s.applyDelta contractIds d).states ↔ id ∈ s.states) ∧
      (a ∈ (s.applyDelta contractIds d).vmStorage ↔ a ∈ s.vmStorage) := by
  unfold applyDelta
  simp only [mem_iff_lookup, lookup_foldl_modify]
  cases s.states.lookup id <;> cases s.vmStorage.lookup a <;> simp

end
end Snapshot

lemma Synchronizer.mem_applyDeltasToSnapshot (deltas : List BlockAggregatedChanges)
    (snapshot : Snapshot) (block : Nat) (contractIds : HashSet Address) (id : ComponentId)
    (a : Address) :
    (id ∈ (applyDeltasToSnapshot deltas snapshot block contractIds).states ↔ id ∈ snapshot.states) ∧
    (a ∈ (applyDeltasToSnapshot deltas snapshot block contractIds).vmStorage ↔
      a ∈ snapshot.vmStorage) := by
  unfold applyDeltasToSnapshot
  induction deltas generalizing snapshot with
  | nil => exact ⟨Iff.rfl, Iff.rfl⟩
  | cons d _ ih =>
    rw [List.foldl_cons]
    split_ifs with hnum
    · exact ih snapshot
    · obtain ⟨hstates, hvm⟩ := Snapshot.mem_applyDelta snapshot contractIds d id a
      obtain ⟨ihstates, ihvm⟩ := ih (snapshot.applyDelta contractIds d)
      exact ⟨ihstates.trans hstates, ihvm.trans hvm⟩

/-- What is seen of the snapshot at one object is overwritten by one delta above its block after
the other. -/
lemma Synchronizer.applyDeltasToSnapshot_view {F K V : Type}
    (obs : Snapshot → Option (F × (K → V))) (write : BlockAggregatedChanges → K → Option V)
    (deltas : List BlockAggregatedChanges) (snapshot : Snapshot) (block : Nat)
    (contractIds : HashSet Address) (hobs : ∀ s, ∀ d ∈ deltas, block < d.block.number →
      obs (s.applyDelta contractIds d) = (obs s).map (overwrite (write d))) :
    obs (applyDeltasToSnapshot deltas snapshot block contractIds) =
      (deltas.filter fun d => block < d.block.number).foldl
        (fun v d => v.map (overwrite (write d))) (obs snapshot) := by
  unfold applyDeltasToSnapshot
  induction deltas generalizing snapshot with
  | nil => rfl
  | cons d _ ih =>
    have hrest := fun s x hx => hobs s x (List.mem_cons_of_mem d hx)
    rw [List.foldl_cons, ih _ hrest, List.filter_cons]
    by_cases hnum : d.block.number ≤ block
    · have hskipped : ¬block < d.block.number := by omega
      simp [hnum, hskipped]
    · have habove : block < d.block.number := by omega
      simp [hnum, habove, hobs snapshot d List.mem_cons_self habove]

/-- `s'` is what `s` becomes when the deltas are applied in order, as the service applies them. -/
structure Snapshot.CaughtUp (s s' : Snapshot) (deltas : List BlockAggregatedChanges) : Prop where
  states : ∀ cws r, s.states.lookup cws.state.componentId = some cws →
    deltas.foldlM (fun st d => nativeStep d st) (cws.state, false) = .ok r →
    (s'.states.lookup cws.state.componentId).map (·.view) = some { cws with state := r.1 }.view
  accounts : ∀ account r, s.vmStorage.lookup account.address = some account →
    deltas.foldlM (fun st d => vmStep d st) (account, false) = .ok r →
    (s'.vmStorage.lookup account.address).map (·.view) = some r.1.view

/-- The last change of a cell reaches it, or sets what the changes before it have left there that
did. It is asked of the accounts whose deltas are their own. -/
def Snapshot.NoneLost (s : Snapshot) (contractIds : HashSet Address)
    (deltas : List BlockAggregatedChanges) : Prop :=
  ∀ account, s.vmStorage.lookup account.address = some account →
    (∀ d ∈ deltas, d.Filed account) → ∀ k before d after v, deltas = before ++ d :: after →
      d.accountWrite account.address k = some v →
      (∀ x ∈ after, x.accountWrite account.address k = none) →
      d.Applied contractIds account.address k ∨
        v = (lastWrite (fun x => x.appliedWrite contractIds account.address) before k).getD
          (account.cell k)

namespace Synchronizer

section
variable (deltas : List BlockAggregatedChanges) (snapshot : Snapshot) (block : Nat)
  (contractIds : HashSet Address)

lemma states_caughtUp {cws : ComponentWithState} {r : ProtocolComponentState × Bool}
    (hcws : snapshot.states.lookup cws.state.componentId = some cws)
    (hr : (deltas.filter fun d => block < d.block.number).foldlM (fun st d => nativeStep d st)
      (cws.state, false) = .ok r) :
    ((applyDeltasToSnapshot deltas snapshot block contractIds).states.lookup
      cws.state.componentId).map (·.view) = some { cws with state := r.1 }.view := by
  obtain ⟨hid, hcell⟩ := (Overwrites.replay fun d _ => nativeStep_overwrites d).view_of_ok hr
  rw [applyDeltasToSnapshot_view (fun s => (s.states.lookup _).map (·.view)) _ _ _ _ _
    fun s d _ _ => s.applyDelta_states contractIds d _, Change.foldl_map_overwrite, hcws]
  refine congrArg some (Prod.ext ?_ (funext fun k => ?_))
  · simp only [ComponentWithState.view, overwrite, hid]
  · simp only [Snapshot.componentWrite_eq]
    exact (hcell k).symm

/-- An account is caught up if every cell has the value of the last change. -/
lemma accounts_caughtUp_iff {account : Account} {r : Account × Bool}
    (haccount : snapshot.vmStorage.lookup account.address = some account)
    (hr : (deltas.filter fun d => block < d.block.number).foldlM (fun st d => vmStep d st)
      (account, false) = .ok r) :
    ((applyDeltasToSnapshot deltas snapshot block contractIds).vmStorage.lookup
      account.address).map (·.view) = some r.1.view ↔
    ∀ k, (lastWrite (fun d => d.appliedWrite contractIds account.address)
        (deltas.filter fun d => block < d.block.number) k).getD (account.cell k) =
      (lastWrite (fun d => d.accountWrite account.address)
        (deltas.filter fun d => block < d.block.number) k).getD (account.cell k) := by
  obtain ⟨hframe, hcell⟩ := (Overwrites.replay fun d _ => vmStep_overwrites d).view_of_ok hr
  rw [applyDeltasToSnapshot_view (fun s => (s.vmStorage.lookup _).map (·.view)) _ _ _ _ _
    fun s d _ _ => s.applyDelta_vmStorage contractIds d _, Change.foldl_map_overwrite, haccount,
    Option.map_some, Option.map_some, Option.some_inj]
  simp only [Snapshot.accountWrite_eq]
  constructor
  · intro h k
    exact (congrFun (congrArg Prod.snd h) k).trans (hcell k)
  · exact fun h => Prod.ext hframe.symm (funext fun k => (h k).trans (hcell k).symm)

/-- Token balances and deleted slots of accounts, and accounts that are not tracked, are what
catching up misses. -/
theorem caughtUp_iff :
    snapshot.CaughtUp (applyDeltasToSnapshot deltas snapshot block contractIds)
      (deltas.filter fun d => block < d.block.number) ↔
    snapshot.NoneLost contractIds (deltas.filter fun d => block < d.block.number) := by
  have hmade := fun (account : Account) k => lastWrite_ite_getD_iff
    (fun d : BlockAggregatedChanges => d.accountWrite account.address)
    (fun d => d.Applied contractIds account.address)
    (deltas.filter fun d => block < d.block.number) k (account.cell k)
  have hcells := @accounts_caughtUp_iff deltas snapshot block contractIds
  constructor
  · intro h account haccount hfiled k
    obtain ⟨r, hr⟩ := exists_foldlM_vmStep_ok_iff.mpr hfiled
    have hview := h.accounts account r haccount hr
    exact (hmade account k).mp ((hcells haccount hr).mp hview k)
  · intro h
    refine ⟨fun cws r => states_caughtUp deltas snapshot block contractIds,
      fun account r haccount hr => (hcells haccount hr).mpr fun k => ?_⟩
    exact (hmade account k).mpr (h account haccount (exists_foldlM_vmStep_ok_iff.mp ⟨r, hr⟩) k)

end

def heldAccount : Account := ⟨.ethereum, ⟨[7]⟩, "", ∅, .new, ∅, .new, .new, .new, .new, none⟩

def heldSnapshot : Snapshot := ⟨∅, HashMap.ofList [(⟨[7]⟩, heldAccount)]⟩

def balanceUpdate : HashMap Address AccountBalance :=
  HashMap.ofList [(⟨[8]⟩, ⟨⟨[7]⟩, ⟨[8]⟩, ⟨[5]⟩, .new⟩)]

def balanceBlock : BlockAggregatedChanges := { (default : BlockAggregatedChanges) with
  block := ⟨1, .ethereum, ⟨[1]⟩, ⟨[0]⟩, 12⟩
  accountBalances := HashMap.ofList [(⟨[7]⟩, balanceUpdate)] }

/-- The account keeps the balance of the snapshot's block. -/
theorem not_caughtUp_balance : ¬heldSnapshot.CaughtUp
    (applyDeltasToSnapshot [balanceBlock] heldSnapshot 0 (.ofList [⟨[7]⟩])) [balanceBlock] := by
  intro h
  have hview := h.accounts heldAccount (heldAccount.insertTokenBalances balanceUpdate, true)
    (by decide +kernel) (by decide +kernel)
  have hcells := congrArg (Option.map fun v => v.2 (.tokenBalance ⟨[8]⟩)) hview
  exact absurd hcells (by decide +kernel)

end Synchronizer
end Tycho
