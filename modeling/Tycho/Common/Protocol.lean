import Tycho.Common.Basic
import Tycho.Replay.Overwrite

/-! Protocol components, their state, and the deltas that overwrite it. -/
namespace Tycho
open Collections Replay HashMap

structure ProtocolComponent where
  id : ComponentId
  protocolSystem : String
  protocolTypeName : String
  chain : Chain
  tokens : List Address
  contractAddresses : List Address
  staticAttributes : HashMap AttrStoreKey StoreVal
  change : ChangeType
  creationTx : TxHash
  createdAt : NaiveDateTime
deriving DecidableEq

instance : Inhabited ProtocolComponent := ⟨⟨"", "", "", default, [], [], ∅, default, .new, 0⟩⟩

structure ComponentBalance where
  token : Address
  balance : Balance
  balanceFloat : F64
  modifyTx : TxHash
  componentId : ComponentId
deriving DecidableEq

structure ProtocolComponentStateDelta where
  componentId : ComponentId
  updatedAttributes : HashMap AttrStoreKey StoreVal
  deletedAttributes : HashSet AttrStoreKey
  createdAttributes : HashSet AttrStoreKey
deriving DecidableEq

def ProtocolComponentStateDelta.new (componentId : ComponentId)
    (updatedAttributes : HashMap AttrStoreKey StoreVal)
    (deletedAttributes : HashSet AttrStoreKey) : ProtocolComponentStateDelta :=
  ⟨componentId, updatedAttributes, deletedAttributes, ∅⟩

structure ProtocolComponentState where
  componentId : ComponentId
  attributes : HashMap AttrStoreKey StoreVal
  balances : HashMap Address Balance
deriving DecidableEq

/-- Deletions are carried out after updates, so they win within one delta. -/
def ProtocolComponentState.applyStateDelta (s : ProtocolComponentState)
    (delta : ProtocolComponentStateDelta) : Except MergeError ProtocolComponentState :=
  if s.componentId ≠ delta.componentId then
    .error (.idMismatch "ProtocolComponentStates" s.componentId delta.componentId)
  else
    let attributes := HashMap.extend s.attributes delta.updatedAttributes.toList
    .ok { s with attributes := attributes.retain fun attr _ => attr ∉ delta.deletedAttributes }

def ProtocolComponentState.applyBalanceDelta (s : ProtocolComponentState)
    (delta : HashMap Address ComponentBalance) : Except MergeError ProtocolComponentState :=
  .ok { s with
    balances := HashMap.extend s.balances (delta.toList.map fun e => (e.1, e.2.balance)) }

/-- `other` is the more recent delta. -/
def ProtocolComponentStateDelta.merge (s other : ProtocolComponentStateDelta) :
    Except MergeError ProtocolComponentStateDelta :=
  if s.componentId ≠ other.componentId then
    .error (.idMismatch "ProtocolComponentStateDeltas" s.componentId other.componentId)
  else
    let updated := HashMap.eraseAll s.updatedAttributes other.deletedAttributes.keys
    let created := HashMap.eraseAll s.createdAttributes other.deletedAttributes.keys
    let deleted := HashMap.eraseAll s.deletedAttributes other.updatedAttributes.keys
    .ok { s with
      updatedAttributes := HashMap.extend updated other.updatedAttributes.toList
      deletedAttributes := HashSet.extend deleted other.deletedAttributes.keys
      createdAttributes := HashSet.extend created other.createdAttributes.keys }

/-- What a delta does to an attribute: nothing, store a value, or delete it. -/
def ProtocolComponentStateDelta.write (delta : ProtocolComponentStateDelta) (a : AttrStoreKey) :
    Option (Option StoreVal) :=
  if a ∈ delta.deletedAttributes then some none
  else (delta.updatedAttributes.lookup a).map some

variable {other s : ProtocolComponentStateDelta}

namespace ProtocolComponentStateDelta

/-- A merged delta writes what the more recent delta writes, and elsewhere what the older one
writes. -/
lemma merge_write {m : ProtocolComponentStateDelta} (h : s.merge other = .ok m) (a : AttrStoreKey) :
    m.write a = (other.write a).or (s.write a) := by
  unfold merge at h
  split_ifs at h with hid
  cases h
  simp only [write, HashSet.mem_extend, mem_eraseAll, lookup_extend_toList,
    lookup_eraseAll, mem_keys_iff, ← mem_iff_lookup]
  by_cases hd : a ∈ other.deletedAttributes
  · simp [hd]
  · cases hu : other.updatedAttributes.lookup a with
    | none =>
      have hn : a ∉ other.updatedAttributes := AList.lookup_eq_none.mp hu
      simp [hd, hn]
    | some v =>
      have hm : a ∈ other.updatedAttributes := HashMap.mem_iff_lookup.mpr ⟨v, hu⟩
      simp [hd, hm]

lemma merge_componentId {m : ProtocolComponentStateDelta} (h : s.merge other = .ok m) :
    s.componentId = other.componentId ∧ m.componentId = s.componentId := by
  unfold merge at h
  split_ifs at h with hid
  cases h
  exact ⟨not_not.mp hid, rfl⟩

lemma merge_isOk (h : s.componentId = other.componentId) : ∃ m, s.merge other = .ok m := by
  unfold merge
  rw [if_neg (not_not.mpr h)]
  exact ⟨_, rfl⟩

end ProtocolComponentStateDelta

namespace ProtocolComponentState

/-- The cells of a component's state that deltas overwrite. -/
inductive Cell where
  | attr (name : AttrStoreKey)
  | balance (token : Address)
deriving DecidableEq

def cell (s : ProtocolComponentState) : Cell → Option Bytes
  | .attr a => s.attributes.lookup a
  | .balance t => s.balances.lookup t

/-- The writes of a state delta, which leaves balances alone. -/
def stateWrite (delta : ProtocolComponentStateDelta) : Cell → Option (Option Bytes)
  | .attr a => delta.write a
  | .balance _ => none

def balanceWrite (delta : HashMap Address ComponentBalance) : Cell → Option (Option Bytes)
  | .attr _ => none
  | .balance t => (delta.lookup t).map fun b => some b.balance

def stateCheck (delta : ProtocolComponentStateDelta) (id : ComponentId) : Option MergeError :=
  if id ≠ delta.componentId then
    some (.idMismatch "ProtocolComponentStates" id delta.componentId)
  else none

lemma applyStateDelta_overwrites (delta : ProtocolComponentStateDelta) :
    Overwrites componentId cell (fun s => s.applyStateDelta delta) (stateCheck delta)
      fun _ => stateWrite delta := by
  constructor
  · intro s e he
    unfold stateCheck at he
    unfold applyStateDelta
    split_ifs at he ⊢ with hid
    exact congrArg Except.error (Option.some.inj he)
  · intro s hs
    have hid : s.componentId = delta.componentId := by
      unfold stateCheck at hs
      split_ifs at hs with hid
      exact not_not.mp hid
    unfold applyStateDelta
    rw [if_neg (not_not.mpr hid)]
    refine ⟨_, rfl, rfl, ?_⟩
    intro k
    cases k with
    | attr a =>
      simp only [cell, stateWrite, ProtocolComponentStateDelta.write, lookup_retain,
        lookup_extend_toList]
      by_cases hd : a ∈ delta.deletedAttributes
      · simp [hd]
      · cases delta.updatedAttributes.lookup a <;> cases s.attributes.lookup a <;> simp [hd]
    | balance => rfl

lemma applyBalanceDelta_overwrites (delta : HashMap Address ComponentBalance) :
    Overwrites componentId cell (fun s => s.applyBalanceDelta delta) (fun _ => none)
      fun _ => balanceWrite delta := by
  constructor
  · intro s e he
    cases he
  · intro s _
    refine ⟨_, rfl, rfl, ?_⟩
    intro k
    cases k with
    | attr => rfl
    | balance t =>
      have hl := lookup_ofList_map_toList delta (fun b => b.balance) t
      rw [lookup_ofList] at hl
      simp only [cell, balanceWrite, lookup_extend, hl]
      cases delta.lookup t <;> rfl

end ProtocolComponentState
end Tycho
