import Tycho.Collections.StableSort
import Tycho.Storage.Store

/-! Write operations, and how a database transaction collects them. -/
namespace Tycho
open Collections List Option

structure ExtractionState where
  name : String
  chain : Chain
  cursor : String
  blockHash : BlockHash
deriving DecidableEq

inductive WriteOp where
  | upsertBlock (blocks : List Block)
  | upsertTx (txs : List Transaction)
  | saveExtractionState (state : ExtractionState)
  | insertContract (contracts : List Account)
  | updateContracts (updates : List (TxHash × AccountDelta))
  | insertAccountBalances (balances : List AccountBalance)
  | insertProtocolComponents (components : List ProtocolComponent)
  | insertTokens (tokens : List Token)
  | updateTokens (tokens : List Token)
  | insertComponentBalances (balances : List ComponentBalance)
  | upsertProtocolState (deltas : List (TxHash × ProtocolComponentStateDelta))
  | insertEntryPoints (points : HashMap ComponentId (HashSet EntryPoint))
  | insertEntryPointTracingParams
      (params : HashMap EntryPointId (HashSet (TracingParams × ComponentId)))
  | upsertTracedEntryPoints (points : List TracedEntryPoint)

/-- Extend each set of the first map, and count what is new. -/
def extendSets {K A : Type} [DecidableEq K] [DecidableEq A] (l r : HashMap K (HashSet A)) :
    HashMap K (HashSet A) × Nat :=
  r.toList.foldl (fun st e =>
    let old := (st.1.lookup e.1).getD ∅
    let new := old.extend e.2.keys
    (st.1.insert e.1 new, st.2 + (new.keys.length - old.keys.length))) (l, 0)

variable {n : Nat} {l op : WriteOp} {ops ops' : List WriteOp} {R : Type} {m r : WriteOp} {b : Block}

namespace WriteOp

def orderKey : WriteOp → Nat
  | upsertBlock _ => 0
  | upsertTx _ => 1
  | insertContract _ => 2
  | updateContracts _ => 3
  | insertTokens _ => 4
  | updateTokens _ => 5
  | insertAccountBalances _ => 6
  | insertProtocolComponents _ => 7
  | insertComponentBalances _ => 8
  | upsertProtocolState _ => 9
  | insertEntryPoints _ => 10
  | insertEntryPointTracingParams _ => 11
  | upsertTracedEntryPoints _ => 12
  | saveExtractionState _ => 13

/-- An operation with another one merged into it, and how much the transaction grows. New tokens
are also merged into updated ones. -/
def merge? : WriteOp → WriteOp → Option (WriteOp × Nat)
  | upsertBlock l, upsertBlock r => some (upsertBlock (l ++ r), r.length)
  | upsertTx l, upsertTx r => some (upsertTx (l ++ r), r.length)
  | saveExtractionState _, saveExtractionState r => some (saveExtractionState r, 0)
  | insertContract l, insertContract r => some (insertContract (l ++ r), r.length)
  | updateContracts l, updateContracts r => some (updateContracts (l ++ r), r.length)
  | insertAccountBalances l, insertAccountBalances r =>
    some (insertAccountBalances (l ++ r), r.length)
  | insertProtocolComponents l, insertProtocolComponents r =>
    some (insertProtocolComponents (l ++ r), r.length)
  | insertTokens l, insertTokens r => some (insertTokens (l ++ r), r.length)
  | updateTokens l, insertTokens r => some (updateTokens (l ++ r), r.length)
  | insertComponentBalances l, insertComponentBalances r =>
    some (insertComponentBalances (l ++ r), r.length)
  | upsertProtocolState l, upsertProtocolState r => some (upsertProtocolState (l ++ r), r.length)
  | insertEntryPoints l, insertEntryPoints r =>
    some (insertEntryPoints (extendSets l r).1, (extendSets l r).2)
  | insertEntryPointTracingParams l, insertEntryPointTracingParams r =>
    some (insertEntryPointTracingParams (extendSets l r).1, (extendSets l r).2)
  | upsertTracedEntryPoints l, upsertTracedEntryPoints r =>
    some (upsertTracedEntryPoints (l ++ r), r.length)
  | _, _ => none

lemma orderKey_of_merge? (h : l.merge? r = some (m, n)) :
    m.orderKey = l.orderKey ∧ (r.orderKey = l.orderKey ∨ r.orderKey = 4) := by
  unfold merge? at h
  split at h <;> cases h <;> simp [orderKey]

/-- Operations of one kind are merged, except for token updates. -/
lemma merge?_of_orderKey_eq (h : l.orderKey = r.orderKey) (hr : r.orderKey ≠ 5) :
    ∃ m n, l.merge? r = some (m, n) := by
  cases l <;> cases r <;> first | exact ⟨_, _, rfl⟩ | cases h
  exact absurd rfl hr

lemma merge?_upsertBlock (h : l.merge? (upsertBlock [b]) = some (m, n)) : n = 1 := by
  cases l <;> cases h
  rfl

/-- Merge an operation into the first one that takes it. -/
def mergeInto : List WriteOp → WriteOp → Option (List WriteOp × Nat)
  | [], _ => none
  | l :: rest, op =>
    match l.merge? op with
    | some (m, n) => some (m :: rest, n)
    | none => (mergeInto rest op).map fun r => (l :: r.1, r.2)

/-- The rows of one kind of operation. -/
structure Rows (R : Type) where
  rows : WriteOp → List R
  key : Nat
  key_ne : key ≠ 4 := by decide
  rows_eq_nil : ∀ op, op.orderKey ≠ key → rows op = [] := by
    intro op h
    cases op <;> first | rfl | exact absurd rfl h
  rows_merge? : ∀ l r m n, l.merge? r = some (m, n) → l.orderKey = key →
      rows m = rows l ++ rows r := by
    intro l r m n h hk
    cases l <;> cases hk
    cases r <;> cases h
    rfl

section
variable {R : Type} (p : Rows R)

/-- The rows of one kind of a list of operations. -/
def Rows.all (ops : List WriteOp) : List R := ops.flatMap p.rows

lemma Rows.all_append (l l' : List WriteOp) : p.all (l ++ l') = p.all l ++ p.all l' :=
  flatMap_append

lemma Rows.all_eq_nil (h : p.key ∉ ops.map orderKey) : p.all ops = [] := by
  rw [Rows.all, flatMap_eq_nil_iff]
  intro op hop
  refine p.rows_eq_nil op fun hkey => h ?_
  rw [← hkey]
  exact mem_map_of_mem hop

lemma mergeInto_eq_some (h : mergeInto ops op = some (ops', n)) :
    ∃ l₁ l m l₂, ops = l₁ ++ l :: l₂ ∧ ops' = l₁ ++ m :: l₂ ∧ l.merge? op = some (m, n) := by
  induction ops generalizing ops' n with
  | nil => cases h
  | cons l rest ih =>
    unfold mergeInto at h
    cases hm : l.merge? op with
    | some =>
      rw [hm] at h
      cases h
      exact ⟨[], l, _, rest, rfl, rfl, hm⟩
    | none =>
      rw [hm] at h
      obtain ⟨r, hr, heq⟩ := map_eq_some_iff.mp h
      cases heq
      obtain ⟨l₁, l', m, l₂, rfl, hr', hm'⟩ := ih hr
      exact ⟨l :: l₁, l', m, l₂, rfl, congrArg (l :: ·) hr', hm'⟩

lemma keys_mergeInto (h : mergeInto ops op = some (ops', n)) :
    ops'.map orderKey = ops.map orderKey := by
  obtain ⟨l₁, l, m, l₂, rfl, rfl, hm⟩ := mergeInto_eq_some h
  rw [map_append, map_append, map_cons, map_cons, (orderKey_of_merge? hm).1]

lemma notMem_of_mergeInto_eq_none (hop : op.orderKey ≠ 5) (h : mergeInto ops op = none) :
    op.orderKey ∉ ops.map orderKey := by
  induction ops with
  | nil => exact not_mem_nil
  | cons l _ ih =>
    unfold mergeInto at h
    cases hm : l.merge? op with
    | some =>
      rw [hm] at h
      cases h
    | none =>
      rw [hm] at h
      rw [map_cons, mem_cons, not_or]
      refine ⟨fun hkey => ?_, ih (map_eq_none_iff.mp h)⟩
      obtain ⟨m, n, hsome⟩ := merge?_of_orderKey_eq hkey.symm hop
      rw [hm] at hsome
      cases hsome

/-- New rows come last as long as there is one operation of each kind. -/
lemma Rows.all_mergeInto (hkeys : (ops.map orderKey).Nodup)
    (h : mergeInto ops op = some (ops', n)) :
    p.all ops' = p.all ops ++ p.rows op := by
  obtain ⟨l₁, l, m, l₂, rfl, rfl, hm⟩ := mergeInto_eq_some h
  obtain ⟨hkey, hop⟩ := orderKey_of_merge? hm
  rw [map_append, map_cons] at hkeys
  obtain ⟨hl, -⟩ := nodup_cons.mp (nodup_append.mp hkeys).2.1
  rw [Rows.all_append, Rows.all_append, append_assoc]
  congr 1
  by_cases hl' : l.orderKey = p.key
  · -- no later operation has rows of this kind
    have hnil : l₂.flatMap p.rows = [] := p.all_eq_nil (hl' ▸ hl)
    rw [Rows.all, Rows.all, flatMap_cons, flatMap_cons, p.rows_merge? _ _ _ _ hm hl', hnil,
      append_nil, append_nil]
  · have hop' : p.rows op = [] := p.rows_eq_nil op (by
      rcases hop with hop | hop
      · rwa [hop]
      · rw [hop]
        exact p.key_ne.symm)
    rw [Rows.all, Rows.all, flatMap_cons, flatMap_cons, p.rows_eq_nil _ (hkey ▸ hl'),
      p.rows_eq_nil l hl', hop', append_nil]

lemma Rows.all_eq_atKey (ops : List WriteOp) :
    p.all ops = (atKey orderKey p.key ops).flatMap p.rows := by
  unfold Rows.all atKey
  induction ops with
  | nil => rfl
  | cons op _ ih =>
    by_cases hop : op.orderKey = p.key
    · simp [hop, ih]
    · simp [hop, ih, p.rows_eq_nil op hop]

end
end WriteOp

/-- A group of operations that the database executes together. -/
structure DBTransaction where
  start : Block
  stop : Block
  size : Nat
  operations : List WriteOp

namespace DBTransaction
open WriteOp

def addOperation (tx : DBTransaction) (op : WriteOp) : DBTransaction :=
  match mergeInto tx.operations op with
  | some (ops, n) => { tx with size := tx.size + n, operations := ops }
  -- a new operation counts once, however many rows it has
  | none => { tx with size := tx.size + 1, operations := tx.operations ++ [op] }

/-- The operations in the order in which they are executed. -/
def sorted (tx : DBTransaction) : DBTransaction :=
  { tx with operations := tx.operations.insertionSort fun a b => a.orderKey ≤ b.orderKey }

/-- There is one operation of each kind. -/
def Merged (tx : DBTransaction) : Prop := (tx.operations.map orderKey).Nodup

variable {tx : DBTransaction}

lemma Merged.addOperation (h : tx.Merged) (hop : op.orderKey ≠ 5) :
    (tx.addOperation op).Merged := by
  unfold DBTransaction.addOperation Merged
  cases hm : mergeInto tx.operations op with
  | some =>
    rw [keys_mergeInto hm]
    exact h
  | none =>
    rw [map_append]
    exact nodup_append.mpr ⟨h, nodup_singleton _, fun k hk k' hk' => by
      rw [map_singleton, mem_singleton] at hk'
      rintro rfl
      exact notMem_of_mergeInto_eq_none hop hm (hk' ▸ hk)⟩

lemma Merged.rows_addOperation (h : tx.Merged) (p : Rows R) (op : WriteOp) :
    p.all (tx.addOperation op).operations = p.all tx.operations ++ p.rows op := by
  unfold DBTransaction.addOperation
  cases hm : mergeInto tx.operations op with
  | some => exact p.all_mergeInto h hm
  | none =>
    rw [Rows.all_append]
    exact congrArg _ (append_nil _)

/-- The order in which the kinds are executed does not matter for the rows of one kind. -/
lemma rows_sorted (tx : DBTransaction) (p : Rows R) :
    p.all tx.sorted.operations = p.all tx.operations := by
  have hsorted : atKey orderKey p.key tx.sorted.operations = atKey orderKey p.key tx.operations :=
    atKey_sortBy p.key tx.operations
  rw [Rows.all_eq_atKey, Rows.all_eq_atKey, hsorted]

lemma size_addOperation (op : WriteOp) : tx.size ≤ (tx.addOperation op).size := by
  unfold addOperation
  cases mergeInto tx.operations op with
  | some => exact Nat.le_add_right _ _
  | none => exact Nat.le_add_right _ _

/-- Operations that are added one after the other. -/
def addOperations (tx : DBTransaction) (ops : List WriteOp) : DBTransaction :=
  ops.foldl addOperation tx

lemma Merged.addOperations (h : tx.Merged) (hops : ∀ op ∈ ops, op.orderKey ≠ 5) :
    (tx.addOperations ops).Merged := by
  induction ops generalizing tx with
  | nil => exact h
  | cons _ _ ih =>
    obtain ⟨hop, hops⟩ := forall_mem_cons.mp hops
    exact ih (h.addOperation hop) hops

lemma Merged.rows_addOperations (h : tx.Merged) (p : Rows R) (hops : ∀ op ∈ ops, op.orderKey ≠ 5) :
    p.all (tx.addOperations ops).operations = p.all tx.operations ++ p.all ops := by
  induction ops generalizing tx with
  | nil => exact (append_nil _).symm
  | cons _ _ ih =>
    obtain ⟨hop, hops⟩ := forall_mem_cons.mp hops
    rw [DBTransaction.addOperations, foldl_cons, ← DBTransaction.addOperations,
      ih (h.addOperation hop) hops, h.rows_addOperation, append_assoc]
    rfl

lemma size_addOperations (ops : List WriteOp) : tx.size ≤ (tx.addOperations ops).size := by
  induction ops generalizing tx with
  | nil => exact le_refl _
  | cons op _ ih => exact (size_addOperation op).trans ih

/-- A transaction with a block in it is not empty. -/
lemma size_addOperations_pos (h : WriteOp.upsertBlock [b] ∈ ops) :
    0 < (tx.addOperations ops).size := by
  obtain ⟨l, l', rfl⟩ := mem_iff_append.mp h
  have hstep : ∀ tx : DBTransaction, 0 < (tx.addOperation (.upsertBlock [b])).size := by
    intro tx
    unfold addOperation
    cases hm : mergeInto tx.operations (.upsertBlock [b]) with
    | some =>
      obtain ⟨_, _, _, _, -, -, hm⟩ := mergeInto_eq_some hm
      have hn := merge?_upsertBlock hm
      exact Nat.add_pos_right _ (hn ▸ Nat.one_pos)
    | none => exact Nat.succ_pos _
  rw [addOperations, foldl_append, foldl_cons]
  exact (hstep _).trans_le (size_addOperations l')

end DBTransaction
end Tycho
