import Tycho.Indexer.Commit
import Tycho.Indexer.RevertRestores

/-! What the database has of the blocks whose transactions were submitted. -/
namespace Tycho
open Collections Replay HashMap List ReorgBuffer AccountDelta ExtractorPgGateway TxWithChanges Store

/-- Every change of a transaction is filed under the identifiers that it carries. -/
structure TxWithChanges.Filed (t : TxWithChanges) : Prop where
  states : ∀ e ∈ t.stateUpdates.toList, e.2.componentId = e.1
  accounts : ∀ e ∈ t.accountDeltas.toList, e.2.address = e.1
  componentBalances : ∀ e ∈ t.balanceChanges.toList, ∀ b ∈ e.2.toList,
    b.2.componentId = e.1 ∧ b.2.token = b.1
  accountBalances : ∀ e ∈ t.accountBalanceChanges.toList, ∀ b ∈ e.2.toList,
    b.2.account = e.1 ∧ b.2.token = b.1

namespace TxWithChanges
variable {t : TxWithChanges}

/-- A transaction does not change a slot of an account that it deletes. -/
def StoresSlot (t : TxWithChanges) (key : Address × StoreKey) : Prop :=
  ∀ delta, t.accountDeltas.lookup key.1 = some delta → delta.change = .deletion →
    key.2 ∉ delta.slots

lemma lastWrite_accountRows (h : t.Filed) {key : Address × StoreKey} (hkey : t.StoresSlot key) :
    lastWrite Store.slotRow (accountRows t) key = t.slotUpdate key := by
  rw [accountRows, lastWrite_filterMap]
  refine lastWrite_values fun e he => ?_
  obtain ⟨a, delta⟩ := e
  have hadd : delta.address = a := h.accounts _ he
  by_cases ha : a = key.1
  · rw [if_pos ha]
    cases hchange : delta.change with
    | deletion =>
      have hslots : key.2 ∉ delta.slots :=
        hkey delta (ha ▸ HashMap.mem_toList.mp he) hchange
      simp [stored, hchange, AList.lookup_eq_none.mpr hslots]
    | update => simp [stored, hchange, Store.slotRow, hadd, ha]
    | creation => simp [stored, hchange, Store.slotRow, hadd, ha]
  · rw [if_neg ha]
    cases hchange : delta.change <;>
      simp [stored, hchange, Store.slotRow, hadd, ha]

lemma lastWrite_stateRows (h : t.Filed) (key : ComponentId × AttrStoreKey) :
    lastWrite Store.attrRow (t.stateUpdates.values.map fun delta => (t.tx.hash, delta)) key =
      attrWrite t key := by
  rw [lastWrite_map]
  refine lastWrite_values fun e he => ?_
  rw [Store.attrRow, h.states e he]

end TxWithChanges
namespace CachedGateway
open WriteOp
variable {pg : ExtractorPgGateway} {g : CachedGateway} {written staged : List BlockUpdateWithCursor}

/-- The rows of some blocks are those of their transactions. -/
lemma all_flatMap_operations {R : Type} {p : Rows R} {rows : TxWithChanges → List R}
    (h : ∀ m, p.all (pg.operations m) = m.blockUpdate.txsWithUpdate.flatMap rows)
    (blocks : List BlockUpdateWithCursor) :
    p.all (blocks.flatMap pg.operations) = (txs blocks).flatMap rows := by
  have hblock : ∀ m, (pg.operations m).flatMap p.rows = m.blockUpdate.txsWithUpdate.flatMap rows :=
    h
  rw [Rows.all, txs, flatMap_assoc, flatMap_assoc]
  exact flatMap_congr fun m _ => hblock m

section
variable (h : Holds pg.operations g written staged)
  (hfiled : ∀ t ∈ txs written, t.Filed)
include h hfiled

lemma Holds.slot {a : Address} {k : StoreKey} (hstores : ∀ t ∈ txs written, t.StoresSlot (a, k)) :
    g.store.slot a k = (lastWrite slotUpdate (txs written) (a, k)).or (g.stored.slot a k) := by
  rw [store, slot_foldl_execute, h.rows,
    all_flatMap_operations fun m => contractRows_operations, lastWrite_flatMap]
  rw [lastWrite_congr fun t ht => lastWrite_accountRows (hfiled t ht) (hstores t ht)]

lemma Holds.attr (c : ComponentId) (a : AttrStoreKey) : g.store.attr c a =
      (lastWrite attrWrite (txs written) (c, a)).getD (g.stored.attr c a) := by
  rw [store, attr_foldl_execute, h.rows,
    all_flatMap_operations fun m => stateRows_operations, lastWrite_flatMap]
  rw [lastWrite_congr fun t ht => lastWrite_stateRows (hfiled t ht) (c, a)]

/-- A balance is read back without its transaction. -/
lemma Holds.componentBalance (c : ComponentId) (token : Address) :
    g.store.componentBalances.lookup₂ c token =
      ((lastWrite componentBalance (txs written) (c, token)).map
        fun b => { b with modifyTx := zeroTxHash }).or
        (g.stored.componentBalances.lookup₂ c token) := by
  rw [store, componentBalance_foldl_execute, h.rows,
    all_flatMap_operations fun m => componentBalanceRows_operations,
    lastWrite_flatMap, ← lastWrite_map_value]
  exact congrArg (Option.or · _) (lastWrite_congr fun t ht =>
    lastWrite_values₂ _ (hfiled t ht).componentBalances (c, token))

lemma Holds.accountBalance (a : Address) {token : Address} (htoken : token ≠ g.nativeToken) :
    g.store.accountBalances.lookup₂ a token =
      ((lastWrite accountBalance (txs written) (a, token)).map
        fun b => { b with modifyTx := zeroTxHash }).or
        (g.stored.accountBalances.lookup₂ a token) := by
  rw [store, accountBalance_foldl_execute _ _ _ a htoken, h.rows,
    all_flatMap_operations fun m => accountBalanceRows_operations,
    lastWrite_flatMap, ← lastWrite_map_value]
  exact congrArg (Option.or · _) (lastWrite_congr fun t ht =>
    lastWrite_values₂ _ (hfiled t ht).accountBalances (a, token))

end

end CachedGateway

namespace Indexer
variable {pg : ExtractorPgGateway} {ix : Indexer}
  {chain written staged queued : List BlockUpdateWithCursor}

/-- If the blocks that write a key and have left the buffer are submitted, then the written blocks
decide the key. -/
lemma Placed.lastWrite_drained {K V : Type} {w : TxWithChanges → K → Option V} {key : K}
    (h : Placed pg ix chain written staged queued)
    (hchain : chain.Pairwise fun m n => (block m).number < (block n).number)
    (hsub : ∀ m ∈ written ++ staged ++ queued,
      (∃ t ∈ m.blockUpdate.txsWithUpdate, w t key ≠ none) → ix.stateGateway.Submitted (block m)) :
    lastWrite w (txs (written ++ staged ++ queued)) key = lastWrite w (txs written) key := by
  have hrest : lastWrite w (txs (staged ++ queued)) key = none := by
    rw [lastWrite_eq_none_iff]
    intro t ht
    by_contra hwrites
    obtain ⟨m, hm, ht⟩ := mem_flatMap.mp ht
    have hdrain : m ∈ written ++ staged ++ queued := by
      rw [append_assoc]
      exact mem_append_right _ hm
    -- a submitted block is one of the written ones, and these have smaller numbers
    obtain ⟨n, hn, hblock⟩ :=
      h.holds.submitted_iff.mp (hsub m hdrain ⟨t, ht, hwrites⟩)
    rw [blockRows_operations, mem_singleton] at hblock
    rw [h.chain_eq, append_assoc written, append_assoc written] at hchain
    have hlt := (pairwise_append.mp hchain).2.2 n hn m (mem_append_left _ hm)
    have heq : (block m).number = (block n).number := congrArg Block.number hblock
    omega
  have htxs : txs (written ++ staged ++ queued) = txs written ++ txs (staged ++ queued) := by
    rw [append_assoc, txs, flatMap_append]
    rfl
  rw [htxs, lastWrite_append, hrest, Option.none_or]

end Indexer
end Tycho
