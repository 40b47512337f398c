import Tycho.Storage.WriteOp

/-! The gateway that collects writes in an open transaction and submits it to the database. -/
namespace Tycho
open Collections Replay HashMap List

namespace WriteOp

def blockRows : Rows Block where
  rows
    | upsertBlock l => l
    | _ => []
  key := 0

def contractRows : Rows (TxHash × AccountDelta) where
  rows
    | updateContracts l => l
    | _ => []
  key := 3

def accountBalanceRows : Rows AccountBalance where
  rows
    | insertAccountBalances l => l
    | _ => []
  key := 6

def componentBalanceRows : Rows ComponentBalance where
  rows
    | insertComponentBalances l => l
    | _ => []
  key := 8

def stateRows : Rows (TxHash × ProtocolComponentStateDelta) where
  rows
    | upsertProtocolState l => l
    | _ => []
  key := 9

end WriteOp

/-- The hash that stands in for the transaction of a balance that is read back. -/
def zeroTxHash : TxHash := ⟨List.replicate 32 0⟩

namespace Store
open WriteOp

/-- An account that exists already is left as it is. -/
def insertContract (contracts : HashMap Address (HashMap StoreKey StoreVal)) (new : Account) :
    HashMap Address (HashMap StoreKey StoreVal) :=
  HashMap.orInsert contracts new.address ∅

def updateContract (contracts : HashMap Address (HashMap StoreKey StoreVal))
    (update : TxHash × AccountDelta) : HashMap Address (HashMap StoreKey StoreVal) :=
  HashMap.upsert contracts update.2.address ∅ fun slots =>
    HashMap.extend slots update.2.slotValues

def addComponentBalance (stored : HashMap ComponentId (HashMap Address ComponentBalance))
    (b : ComponentBalance) : HashMap ComponentId (HashMap Address ComponentBalance) :=
  HashMap.upsert stored b.componentId ∅ fun balances =>
    AList.insert b.token { b with modifyTx := zeroTxHash } balances

/-- Balances of the native token are not read back. -/
def addAccountBalance (nativeToken : Address)
    (stored : HashMap Address (HashMap Address AccountBalance)) (b : AccountBalance) :
    HashMap Address (HashMap Address AccountBalance) :=
  if b.token = nativeToken then stored
  else HashMap.upsert stored b.account ∅ fun balances =>
    AList.insert b.token { b with modifyTx := zeroTxHash } balances

/-- In one delta, deletions come after updates. -/
def updateProtocolState (states : HashMap ComponentId (HashMap AttrStoreKey StoreVal))
    (update : TxHash × ProtocolComponentStateDelta) :
    HashMap ComponentId (HashMap AttrStoreKey StoreVal) :=
  HashMap.upsert states update.2.componentId ∅ fun attributes =>
    (HashMap.extend attributes update.2.updatedAttributes.toList).retain fun attr _ =>
      attr ∉ update.2.deletedAttributes

/-- What an operation does to the tables that are read back. Rows count in the order of their
block times and transaction indices, which is the order in which they were staged. -/
def execute (nativeToken : Address) (s : Store) (op : WriteOp) : Store where
  protocolStates := (stateRows.rows op).foldl updateProtocolState s.protocolStates
  contracts := match op with
    | .insertContract contracts => contracts.foldl insertContract s.contracts
    | .updateContracts updates => updates.foldl updateContract s.contracts
    | _ => s.contracts
  componentBalances :=
    (componentBalanceRows.rows op).foldl addComponentBalance s.componentBalances
  accountBalances :=
    (accountBalanceRows.rows op).foldl (addAccountBalance nativeToken) s.accountBalances

section

def slotRow (u : TxHash × AccountDelta) (key : Address × StoreKey) : Option StoreVal :=
  if u.2.address = key.1 then (u.2.slots.lookup key.2).map (·.getD .new) else none

def componentBalanceRow (b : ComponentBalance) (key : ComponentId × Address) :
    Option ComponentBalance :=
  if b.componentId = key.1 then
    if b.token = key.2 then some { b with modifyTx := zeroTxHash } else none
  else none

def accountBalanceRow (b : AccountBalance) (key : Address × Address) : Option AccountBalance :=
  if b.account = key.1 then
    if b.token = key.2 then some { b with modifyTx := zeroTxHash } else none
  else none

def attrRow (u : TxHash × ProtocolComponentStateDelta) (key : ComponentId × AttrStoreKey) :
    Option (Option StoreVal) :=
  if u.2.componentId = key.1 then u.2.write key.2 else none

end

section
variable {V : Type} {contracts : HashMap Address (HashMap StoreKey StoreVal)}

lemma lookup₂_updateContract (u : TxHash × AccountDelta) (a : Address) (k : StoreKey) :
    (updateContract contracts u).lookup₂ a k = (slotRow u (a, k)).or (contracts.lookup₂ a k) := by
  refine lookup₂_upsert_or _ _ _ _ _ fun slots => ?_
  rw [lookup_extend, AccountDelta.lookup_slotValues]

lemma lookup₂_insertContract (new : Account) (a : Address) (k : StoreKey) :
    (insertContract contracts new).lookup₂ a k = contracts.lookup₂ a k := by
  unfold insertContract HashMap.lookup₂
  rw [lookup_orInsert]
  cases contracts.lookup a with
  | some => rfl
  | none =>
    rw [Option.none_or]
    split_ifs <;> rfl

private lemma lookup₂_setBalance {K : Type} [DecidableEq K] (m : HashMap K (HashMap Address V))
    (k k' : K) (t t' : Address) (v : V) :
    (HashMap.upsert m k ∅ fun balances => AList.insert t v balances).lookup₂ k' t' =
      (if k = k' then if t = t' then some v else none else none).or (m.lookup₂ k' t') := by
  refine lookup₂_upsert_or _ _ _ _ _ fun balances => ?_
  rw [lookup_insert_ite]
  by_cases ht : t = t'
  · rw [if_pos ht.symm, if_pos ht]
    rfl
  · rw [if_neg (Ne.symm ht), if_neg ht, Option.none_or]

lemma lookup₂_addAccountBalance {native : Address}
    {stored : HashMap Address (HashMap Address AccountBalance)} (b : AccountBalance) (a : Address)
    {t : Address} (ht : t ≠ native) : (addAccountBalance native stored b).lookup₂ a t =
      (accountBalanceRow b (a, t)).or (stored.lookup₂ a t) := by
  unfold addAccountBalance
  by_cases hb : b.token = native
  · have htoken : b.token ≠ t := fun h => ht (h.symm.trans hb)
    have hrow : accountBalanceRow b (a, t) = none := by simp [accountBalanceRow, htoken]
    rw [if_pos hb, hrow, Option.none_or]
  · rw [if_neg hb]
    exact lookup₂_setBalance _ _ _ _ _ _

lemma lookup₂_updateProtocolState {states : HashMap ComponentId (HashMap AttrStoreKey StoreVal)}
    (u : TxHash × ProtocolComponentStateDelta) (c : ComponentId) (a : AttrStoreKey) :
    (updateProtocolState states u).lookup₂ c a = (attrRow u (c, a)).getD (states.lookup₂ c a) := by
  have hwrite : ∀ attributes : HashMap AttrStoreKey StoreVal,
      ((HashMap.extend attributes u.2.updatedAttributes.toList).retain fun attr _ =>
        attr ∉ u.2.deletedAttributes).lookup a = (u.2.write a).getD (attributes.lookup a) := by
    intro attributes
    simp only [ProtocolComponentStateDelta.write, lookup_retain, lookup_extend_toList]
    by_cases hd : a ∈ u.2.deletedAttributes
    · simp [hd]
    · cases u.2.updatedAttributes.lookup a <;> cases attributes.lookup a <;> simp [hd]
  refine (lookup₂_upsert _ _ _ _ _ hwrite).trans ?_
  unfold attrRow
  split_ifs <;> rfl

end

section
variable (native : Address) (s : Store) (ops : List WriteOp)

lemma slot_foldl_execute (a : Address) (k : StoreKey) : (ops.foldl (execute native) s).slot a k =
      (lastWrite slotRow (contractRows.all ops) (a, k)).or (s.slot a k) := by
  rw [Rows.all, lastWrite_flatMap]
  refine foldl_last (fun s : Store => s.slot a k) (fun s op => ?_) ops s
  cases op with
  | updateContracts updates =>
    exact foldl_last (fun m => HashMap.lookup₂ m a k) (fun _ u => lookup₂_updateContract u a k)
      updates s.contracts
  | insertContract contracts =>
    exact foldl_keeps (fun m => HashMap.lookup₂ m a k) insertContract
      (fun _ new => lookup₂_insertContract new a k) contracts s.contracts
  | _ => rfl

lemma componentBalance_foldl_execute (c : ComponentId) (t : Address) :
    (ops.foldl (execute native) s).componentBalances.lookup₂ c t =
      (lastWrite componentBalanceRow (componentBalanceRows.all ops) (c, t)).or
        (s.componentBalances.lookup₂ c t) := by
  rw [Rows.all, lastWrite_flatMap]
  refine foldl_last (fun s : Store => s.componentBalances.lookup₂ c t) (fun s op => ?_) ops s
  exact foldl_last (fun m => HashMap.lookup₂ m c t)
    (fun m b => lookup₂_setBalance m b.componentId c b.token t _) _ s.componentBalances

lemma accountBalance_foldl_execute (a : Address) {t : Address} (ht : t ≠ native) :
    (ops.foldl (execute native) s).accountBalances.lookup₂ a t =
      (lastWrite accountBalanceRow (accountBalanceRows.all ops) (a, t)).or
        (s.accountBalances.lookup₂ a t) := by
  rw [Rows.all, lastWrite_flatMap]
  refine foldl_last (fun s : Store => s.accountBalances.lookup₂ a t) (fun s op => ?_) ops s
  exact foldl_last (fun m => HashMap.lookup₂ m a t)
    (fun _ b => lookup₂_addAccountBalance b a ht) _ s.accountBalances

lemma attr_foldl_execute (c : ComponentId) (a : AttrStoreKey) :
    (ops.foldl (execute native) s).attr c a =
      (lastWrite attrRow (stateRows.all ops) (c, a)).getD (s.attr c a) := by
  rw [Rows.all, lastWrite_flatMap]
  refine foldl_last_getD (fun s : Store => s.attr c a) (fun s op => ?_) ops s
  exact foldl_last_getD (fun m => HashMap.lookup₂ m c a)
    (fun _ u => lookup₂_updateProtocolState u c a) _ s.protocolStates

end
end Store

/-- The transactions that the database has executed, oldest first, and the open one. `stored` are
the rows that the database had at the start. -/
structure CachedGateway where
  nativeToken : Address
  stored : Store
  submitted : List DBTransaction
  openTx : Option DBTransaction

namespace CachedGateway
open WriteOp
variable (g : CachedGateway)

/-- Reads go to the database and do not see the open transaction. -/
def store : Store :=
  (g.submitted.flatMap DBTransaction.operations).foldl (Store.execute g.nativeToken) g.stored

/-- The open transaction with another block in its range, or a new one. -/
def transactionFor (b : Block) : DBTransaction :=
  match g.openTx with
  | some tx => { tx with stop := b }
  | none => ⟨b, b, 0, []⟩

def startTransaction (b : Block) : CachedGateway :=
  { g with openTx := some (g.transactionFor b) }

def addOp (op : WriteOp) : Except StorageError CachedGateway :=
  match g.openTx with
  | none => .error (.unexpected "Usage error: No transaction started")
  | some tx => .ok { g with openTx := some (tx.addOperation op) }

/-- `answer` is what the database answers if the transaction is submitted. -/
def commitTransaction (minOpsBatchSize : Nat) (answer : Except StorageError Unit) :
    Except StorageError Unit × CachedGateway :=
  match g.openTx with
  | none => (.error (.unexpected "Usage error: Commit without transaction"), g)
  | some tx =>
    if tx.size > minOpsBatchSize then
      match answer with
      | .ok () => (.ok (), { g with openTx := none, submitted := g.submitted ++ [tx.sorted] })
      | .error e => (.error e, { g with openTx := none })
    -- a transaction that is not submitted stays open
    else (.ok (), g)

def Submitted (b : Block) : Prop :=
  ∃ tx ∈ g.submitted, b ∈ blockRows.all tx.operations

variable {g}

lemma foldlM_addOp {tx : DBTransaction} (h : g.openTx = some tx) (ops : List WriteOp) :
    ops.foldlM addOp g = .ok { g with openTx := some (tx.addOperations ops) } := by
  induction ops generalizing g tx with
  | nil =>
    rw [foldlM_nil]
    exact congrArg Except.ok (by rw [DBTransaction.addOperations, foldl_nil, ← h])
  | cons op _ ih =>
    have hop : g.addOp op = .ok { g with openTx := some (tx.addOperation op) } := by
      rw [addOp, h]
    rw [foldlM_cons, hop]
    exact ih rfl

section
variable {B : Type} (ops : B → List WriteOp)

/-- The submitted transactions hold the rows of some blocks, and the open one those of the blocks
after them. -/
structure Holds (g : CachedGateway) (written staged : List B) : Prop where
  merged : ∀ tx, g.openTx = some tx → tx.Merged
  openRows : ∀ (R : Type) (p : Rows R) (tx : DBTransaction), g.openTx = some tx →
    p.all tx.operations = p.all (staged.flatMap ops)
  closed : g.openTx = none → staged = []
  rows : ∀ (R : Type) (p : Rows R), p.all (g.submitted.flatMap DBTransaction.operations) =
    p.all (written.flatMap ops)

variable {ops} {written staged : List B} {b : B}

section
variable (h : Holds ops g written staged)
include h

lemma Holds.transactionFor (block : Block) :
    (g.transactionFor block).Merged ∧ ∀ (R : Type) (p : Rows R),
      p.all (g.transactionFor block).operations = p.all (staged.flatMap ops) := by
  unfold CachedGateway.transactionFor
  cases htx : g.openTx with
  | some tx => exact ⟨h.merged tx htx, fun R p => h.openRows R p tx htx⟩
  | none =>
    rw [h.closed htx]
    exact ⟨nodup_nil, fun _ _ => rfl⟩

section
variable (block : Block) (hops : ∀ op ∈ ops b, op.orderKey ≠ 5)
include block hops

/-- The open transaction with the operations of one more block. -/
lemma Holds.addOperations :
    ((g.transactionFor block).addOperations (ops b)).Merged ∧ ∀ (R : Type) (p : Rows R),
      p.all ((g.transactionFor block).addOperations (ops b)).operations =
        p.all ((staged ++ [b]).flatMap ops) := by
  obtain ⟨hmerged, hrows⟩ := h.transactionFor block
  refine ⟨hmerged.addOperations hops, fun R p => ?_⟩
  rw [hmerged.rows_addOperations p hops, hrows, flatMap_append, flatMap_singleton, Rows.all_append]

lemma Holds.stage :
    Holds ops { g with openTx := some ((g.transactionFor block).addOperations (ops b)) } written
      (staged ++ [b]) := by
  obtain ⟨hmerged, hrows⟩ := h.addOperations block hops
  constructor
  · rintro tx ⟨⟩
    exact hmerged
  · rintro R p tx ⟨⟩
    exact hrows R p
  · rintro ⟨⟩
  · exact h.rows

lemma Holds.submit : Holds ops { g with
      openTx := none
      submitted := g.submitted ++
        [((g.transactionFor block).addOperations (ops b)).sorted] } (written ++ staged ++ [b]) [] :=
          by
  obtain ⟨-, hrows⟩ := h.addOperations block hops
  constructor
  · rintro tx ⟨⟩
  · rintro R p tx ⟨⟩
  · exact fun _ => rfl
  · intro R p
    rw [flatMap_append, flatMap_singleton, Rows.all_append, h.rows, DBTransaction.rows_sorted,
      hrows, ← Rows.all_append, ← flatMap_append, append_assoc]

end

lemma Holds.discard : Holds ops { g with openTx := none } written [] :=
  ⟨by rintro tx ⟨⟩, by rintro R p tx ⟨⟩, fun _ => rfl, h.rows⟩

/-- The blocks of submitted transactions are those whose rows are written. -/
lemma Holds.submitted_iff {block : Block} :
    g.Submitted block ↔ ∃ b ∈ written, block ∈ blockRows.all (ops b) := by
  have hmem : ∀ {A : Type} (l : List A) (f : A → List WriteOp),
      block ∈ blockRows.all (l.flatMap f) ↔ ∃ a ∈ l, block ∈ blockRows.all (f a) := by
    intro A l f
    rw [Rows.all, flatMap_assoc, mem_flatMap]
    rfl
  rw [← hmem, ← h.rows, hmem]
  rfl

end

end
end CachedGateway
end Tycho
