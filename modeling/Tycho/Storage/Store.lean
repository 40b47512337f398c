import Tycho.Common.Blockchain

/-! What the extractor reads back from the database. -/
namespace Tycho
open Collections AList

/-- The part of a stored account that the extractor reads. -/
structure StoredContract where
  address : Address
  slots : HashMap StoreKey StoreVal

/-- The reads of `ExtractorGateway`. Unknown keys are left out of the answers. -/
structure ExtractorGateway where
  getProtocolStates : List ComponentId → Except StorageError (List ProtocolComponentState)
  getContracts : List Address → Except StorageError (List StoredContract)
  getComponentsBalances : List ComponentId →
    Except StorageError (HashMap ComponentId (HashMap Address ComponentBalance))
  getAccountBalances : List Address →
    Except StorageError (HashMap Address (HashMap Address AccountBalance))

/-- The current rows of the database. -/
structure Store where
  protocolStates : HashMap ComponentId (HashMap AttrStoreKey StoreVal)
  contracts : HashMap Address (HashMap StoreKey StoreVal)
  componentBalances : HashMap ComponentId (HashMap Address ComponentBalance)
  accountBalances : HashMap Address (HashMap Address AccountBalance)

namespace Store
variable (s : Store)

def attr (c : ComponentId) (a : AttrStoreKey) : Option StoreVal :=
  s.protocolStates.lookup₂ c a

def slot (a : Address) (k : StoreKey) : Option StoreVal := s.contracts.lookup₂ a k

/-- States are grouped from the attribute rows, so a component without attributes has none. -/
def state (c : ComponentId) : Option ProtocolComponentState :=
  (s.protocolStates.lookup c).bind fun attributes =>
    if attributes.keys = [] then none else some ⟨c, attributes, ∅⟩

def contract (a : Address) : Option StoredContract :=
  (s.contracts.lookup a).map fun slots => ⟨a, slots⟩

/-- Reads from the current rows. -/
def gateway : ExtractorGateway where
  getProtocolStates ids := .ok (ids.filterMap s.state)
  getContracts addresses := .ok (addresses.filterMap s.contract)
  getComponentsBalances ids := .ok (s.componentBalances.retain fun c _ => c ∈ ids)
  getAccountBalances accounts := .ok (s.accountBalances.retain fun a _ => a ∈ accounts)

lemma componentId_of_state {c : ComponentId} {st : ProtocolComponentState}
    (h : s.state c = some st) : st.componentId = c ∧ ∀ a, st.attributes.lookup a = s.attr c a := by
  obtain ⟨attributes, hl, hst⟩ := Option.bind_eq_some_iff.mp h
  split_ifs at hst
  cases hst
  refine ⟨rfl, fun a => ?_⟩
  rw [attr, HashMap.lookup₂, hl]
  rfl

lemma find?_contract {addresses : List Address} {a : Address} (ha : a ∈ addresses) :
    (addresses.filterMap s.contract).find? (fun st => st.address == a) = s.contract a := by
  refine find?_filterMap (fun a' st h => ?_) ha
  obtain ⟨slots, -, rfl⟩ := Option.map_eq_some_iff.mp h
  rfl

lemma state_eq_none_iff {c : ComponentId} : s.state c = none ↔ ∀ a, s.attr c a = none := by
  unfold state attr HashMap.lookup₂
  cases hl : s.protocolStates.lookup c with
  | none => simp
  | some =>
    simp only [Option.bind_some, ite_eq_left_iff, reduceCtorEq, imp_false, not_not]
    constructor
    · intro hk a
      rw [lookup_eq_none, mem_keys, hk]
      exact List.not_mem_nil
    · intro h
      rw [List.eq_nil_iff_forall_not_mem]
      intro a ha
      exact lookup_eq_none.mp (h a) (mem_keys.mpr ha)

end Store
end Tycho
