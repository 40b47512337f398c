import Tycho.Common.Basic
import Tycho.Replay.Overwrite

/-! Accounts, their storage, and the deltas that overwrite them. -/
namespace Tycho
open Collections Replay HashMap

abbrev ContractStore := HashMap StoreKey StoreVal
abbrev ContractStoreDeltas := HashMap StoreKey (Option StoreVal)

structure AccountBalance where
  account : Address
  token : Address
  balance : Balance
  modifyTx : TxHash
deriving DecidableEq

structure Account where
  chain : Chain
  address : Address
  title : String
  slots : ContractStore
  nativeBalance : Balance
  tokenBalances : HashMap Address AccountBalance
  code : Code
  codeHash : CodeHash
  balanceModifyTx : TxHash
  codeModifyTx : TxHash
  creationTx : Option TxHash
deriving DecidableEq

structure AccountDelta where
  chain : Chain
  address : Address
  slots : ContractStoreDeltas
  balance : Option Balance
  code : Option Code
  change : ChangeType
deriving DecidableEq

/-- The slots of a delta with deleted slots as empty values. -/
def AccountDelta.slotValues (delta : AccountDelta) : List (StoreKey × StoreVal) :=
  delta.slots.toList.map fun e => (e.1, e.2.getD .new)

def debugAccountId (id : Chain × Address) : String :=
  "(" ++ id.1.debug ++ ", " ++ id.2.debug ++ ")"

def Account.applyDelta (s : Account) (delta : AccountDelta) : Except MergeError Account :=
  let selfId := (s.chain, s.address)
  let otherId := (delta.chain, delta.address)
  if selfId ≠ otherId then
    .error (.idMismatch "AccountDeltas" (debugAccountId selfId) (debugAccountId otherId))
  else
    .ok { s with
      nativeBalance := delta.balance.getD s.nativeBalance
      code := delta.code.getD s.code
      slots := HashMap.extend s.slots delta.slotValues }

/-- `other` is the more recent delta. Only the addresses are compared. -/
def AccountDelta.merge (s other : AccountDelta) : Except MergeError AccountDelta :=
  if s.address ≠ other.address then
    .error (.idMismatch "AccountDelta" s.address.toString other.address.toString)
  else
    .ok { s with
      slots := HashMap.extend s.slots other.slots.toList
      balance := other.balance.or s.balance
      code := other.code.or s.code }

section
variable (keccak256 : Bytes → Bytes)

/-- The account a delta describes, with its transaction fields given. -/
def AccountDelta.toAccount (delta : AccountDelta) (modifyTx : TxHash)
    (creationTx : Option TxHash) : Account where
  chain := delta.chain
  address := delta.address
  title := delta.address.toString
  slots := HashMap.ofList delta.slotValues
  nativeBalance := delta.balance.getD .new
  tokenBalances := ∅
  code := delta.code.getD .new
  codeHash := (delta.code.map keccak256).getD (keccak256 .new)
  balanceModifyTx := modifyTx
  codeModifyTx := modifyTx
  creationTx := creationTx

def AccountDelta.intoAccountWithoutTx (delta : AccountDelta) : Account :=
  delta.toAccount keccak256 ⟨[0]⟩ none

def AccountDelta.refIntoAccount (delta : AccountDelta) (tx : Transaction) : Account :=
  delta.toAccount keccak256 tx.hash (some tx.hash)

end

namespace Account

/-- The cells of an account that deltas and balance changes overwrite. -/
inductive Cell where
  | slot (key : StoreKey)
  | nativeBalance
  | code
  | tokenBalance (token : Address)
deriving DecidableEq

inductive CellVal where
  | bytes (value : Bytes)
  | balance (value : AccountBalance)
deriving DecidableEq

def cell (s : Account) : Cell → Option CellVal
  | .slot k => (s.slots.lookup k).map .bytes
  | .nativeBalance => some (.bytes s.nativeBalance)
  | .code => some (.bytes s.code)
  | .tokenBalance t => (s.tokenBalances.lookup t).map .balance

/-- The part of an account that no delta changes. -/
def frame (s : Account) : Account :=
  { s with slots := ∅, nativeBalance := .new, tokenBalances := ∅, code := .new }

lemma address_eq_of_frame {s t : Account} (h : t.frame = s.frame) : t.address = s.address := by
  have h : t.frame.address = s.frame.address := by rw [h]
  exact h

lemma chain_eq_of_frame {s t : Account} (h : t.frame = s.frame) : t.chain = s.chain := by
  have h : t.frame.chain = s.frame.chain := by rw [h]
  exact h

def deltaCheck (delta : AccountDelta) (s : Account) : Option MergeError :=
  if (s.chain, s.address) ≠ (delta.chain, delta.address) then
    some (.idMismatch "AccountDeltas" (debugAccountId (s.chain, s.address))
      (debugAccountId (delta.chain, delta.address)))
  else none

end Account

variable {m other s : AccountDelta}

namespace AccountDelta

def write (delta : AccountDelta) : Account.Cell → Option (Option Account.CellVal)
  | .slot k => (delta.slots.lookup k).map fun v => some (.bytes (v.getD .new))
  | .nativeBalance => delta.balance.map fun b => some (.bytes b)
  | .code => delta.code.map fun c => some (.bytes c)
  | .tokenBalance _ => none

lemma lookup_slotValues (delta : AccountDelta) (k : StoreKey) :
    HashMap.lastOf delta.slotValues k = (delta.slots.lookup k).map (·.getD .new) := by
  rw [← lookup_ofList]
  exact lookup_ofList_map_toList delta.slots (fun v => v.getD .new) k

section
variable (h : s.merge other = .ok m)
include h

/-- A merged delta writes what the more recent delta writes, and elsewhere what the older one
writes. -/
lemma merge_write (k : Account.Cell) : m.write k = (other.write k).or (s.write k) := by
  unfold merge at h
  split_ifs at h with ha
  cases h
  cases k with
  | slot k =>
    simp only [write, lookup_extend_toList]
    cases other.slots.lookup k <;> rfl
  | nativeBalance =>
    simp only [write]
    cases other.balance <;> rfl
  | code =>
    simp only [write]
    cases other.code <;> rfl
  | tokenBalance => rfl

lemma merge_slots (k : StoreKey) :
    m.slots.lookup k = (other.slots.lookup k).or (s.slots.lookup k) := by
  unfold merge at h
  split_ifs at h with ha
  cases h
  exact lookup_extend_toList _ _ _

lemma merge_address : s.address = other.address ∧ m.address = s.address ∧ m.chain = s.chain := by
  unfold merge at h
  split_ifs at h with ha
  cases h
  exact ⟨not_not.mp ha, rfl, rfl⟩

end

lemma merge_isOk (h : s.address = other.address) : ∃ m, s.merge other = .ok m := by
  unfold merge
  rw [if_neg (not_not.mpr h)]
  exact ⟨_, rfl⟩

end AccountDelta

namespace Account

lemma applyDelta_overwrites (delta : AccountDelta) :
    Overwrites frame cell (fun s => s.applyDelta delta) (deltaCheck delta)
      fun _ => delta.write := by
  constructor
  · intro s e he
    have he : deltaCheck delta s = some e := he
    unfold deltaCheck at he
    split_ifs at he with hid
    rw [← Option.some.inj he]
    exact if_pos hid
  · intro s hs
    have hs : deltaCheck delta s = none := hs
    have hid : (s.chain, s.address) = (delta.chain, delta.address) := by
      unfold deltaCheck at hs
      split_ifs at hs with hid
      exact not_not.mp hid
    unfold applyDelta
    rw [if_neg (not_not.mpr hid)]
    refine ⟨_, rfl, rfl, ?_⟩
    intro k
    cases k with
    | slot k =>
      simp only [cell, AccountDelta.write, lookup_extend, AccountDelta.lookup_slotValues]
      cases delta.slots.lookup k <;> rfl
    | nativeBalance =>
      simp only [cell, AccountDelta.write]
      cases delta.balance <;> rfl
    | code =>
      simp only [cell, AccountDelta.write]
      cases delta.code <;> rfl
    | tokenBalance => rfl

end Account
end Tycho
