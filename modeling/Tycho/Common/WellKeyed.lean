import Tycho.Common.Aggregation

/-! The shape of the blocks that the extractors build from the stream, and when their
transactions can be aggregated. -/
namespace Tycho
open Collections HashMap List

/-- Every delta of a transaction is filed under its own identifier and is on the given chain. -/
@[mk_iff]
structure TxWithChanges.WellKeyed (t : TxWithChanges) (chain : Chain) : Prop where
  stateEntries : ∀ e ∈ t.stateUpdates.toList, e.2.componentId = e.1
  accountEntries : ∀ e ∈ t.accountDeltas.toList, e.2.address = e.1 ∧ e.2.chain = chain

/-- `BlockChanges::try_from_message` files deltas under their own identifiers and takes the
chain of every delta from the block. -/
def BlockChanges.WellKeyed (b : BlockChanges) : Prop :=
  ∀ t ∈ b.txsWithUpdate, t.WellKeyed b.chain

instance (t : TxWithChanges) (chain : Chain) : Decidable (t.WellKeyed chain) :=
  decidable_of_iff' _ (t.wellKeyed_iff chain)

instance (b : BlockChanges) : Decidable b.WellKeyed :=
  inferInstanceAs (Decidable (∀ t ∈ b.txsWithUpdate, t.WellKeyed b.chain))

namespace TxWithChanges
variable {s t m : TxWithChanges} {chain : Chain}

lemma WellKeyed.states (h : t.WellKeyed chain) {c : ComponentId}
    {delta : ProtocolComponentStateDelta} (hd : t.stateUpdates.lookup c = some delta) :
    delta.componentId = c :=
  h.stateEntries (c, delta) (HashMap.mem_toList.mpr hd)

lemma WellKeyed.accounts (h : t.WellKeyed chain) {a : Address} {delta : AccountDelta}
    (hd : t.accountDeltas.lookup a = some delta) : delta.address = a ∧ delta.chain = chain :=
  h.accountEntries (a, delta) (HashMap.mem_toList.mpr hd)

lemma Merged.wellKeyed (h : Merged s t m) (hs : s.WellKeyed chain) (ht : t.WellKeyed chain) :
    m.WellKeyed chain := by
  constructor
  · intro e he
    obtain ⟨c, delta⟩ := e
    have hc := mergeEntries_toList_lookup h.states c
    rw [HashMap.mem_toList.mp he] at hc
    generalize hso : s.stateUpdates.lookup c = so at hc
    generalize hto : t.stateUpdates.lookup c = to' at hc
    cases hc with
    | kept => exact hs.states hso
    | inserted => exact ht.states hto
    | merged hm =>
      rw [(ProtocolComponentStateDelta.merge_componentId hm).2]
      exact hs.states hso
  · intro e he
    obtain ⟨a, delta⟩ := e
    have ha := mergeEntries_toList_lookup h.accounts a
    rw [HashMap.mem_toList.mp he] at ha
    generalize hso : s.accountDeltas.lookup a = so at ha
    generalize hto : t.accountDeltas.lookup a = to' at ha
    cases ha with
    | kept => exact hs.accounts hso
    | inserted => exact ht.accounts hto
    | merged hm =>
      obtain ⟨-, hu, hc⟩ := AccountDelta.merge_address hm
      change _ = a ∧ _ = chain
      rw [hu, hc]
      exact hs.accounts hso

lemma merge_isOk (hb : s.tx.blockHash = t.tx.blockHash) (hi : s.tx.index ≤ t.tx.index)
    (hs : s.WellKeyed chain) (ht : t.WellKeyed chain) : ∃ m, s.merge t = .ok m := by
  obtain ⟨accounts, ha⟩ : ∃ accounts, HashMap.mergeEntries AccountDelta.merge s.accountDeltas
      t.accountDeltas.toList = .ok accounts := by
    refine mergeEntries_isOk (nodup_toList _) ?_
    intro e he v hv
    have hw := ht.accountEntries e he
    exact AccountDelta.merge_isOk ((hs.accounts hv).1.trans hw.1.symm)
  obtain ⟨states, hst⟩ : ∃ states, HashMap.mergeEntries ProtocolComponentStateDelta.merge
      s.stateUpdates t.stateUpdates.toList = .ok states := by
    refine mergeEntries_isOk (nodup_toList _) ?_
    intro e he v hv
    have hw := ht.stateEntries e he
    exact ProtocolComponentStateDelta.merge_isOk ((hs.states hv).trans hw.symm)
  unfold merge
  rw [if_neg (not_not.mpr hb), if_neg (Nat.not_lt.mpr hi), ha, hst]
  exact ⟨_, rfl⟩

end TxWithChanges

variable {first m : TxWithChanges} {rest txs : List TxWithChanges} {chain : Chain}

namespace BlockChanges

/-- Transactions that can be aggregated lie in one block and are sorted by index. -/
lemma foldlM_merge_ok (h : rest.foldlM TxWithChanges.merge first = .ok m) :
    (first :: rest).Pairwise (fun t u => t.tx.index ≤ u.tx.index) ∧
      ∀ t ∈ rest, t.tx.blockHash = first.tx.blockHash := by
  induction rest generalizing first with
  | nil => exact ⟨pairwise_singleton _ _, fun t ht => (nomatch ht)⟩
  | cons t _ ih =>
    obtain ⟨first', hm, h⟩ := foldlM_cons_ok h
    have hmerged := TxWithChanges.merge_ok hm
    obtain ⟨hsorted, hhash⟩ := ih h
    obtain ⟨hle, hrest⟩ := pairwise_cons.mp hsorted
    rw [hmerged.tx] at hle hhash
    have hfirst := hmerged.index
    refine ⟨pairwise_cons.mpr ⟨?_, pairwise_cons.mpr ⟨hle, hrest⟩⟩, ?_⟩
    · exact forall_mem_cons.mpr ⟨hfirst, fun u hu => hfirst.trans (hle u hu)⟩
    · exact forall_mem_cons.mpr ⟨hmerged.blockHash.symm,
        fun u hu => (hhash u hu).trans hmerged.blockHash.symm⟩

lemma foldlM_merge_isOk (hsorted : (first :: rest).Pairwise fun t u => t.tx.index ≤ u.tx.index)
    (hhash : ∀ t ∈ rest, t.tx.blockHash = first.tx.blockHash) (hfirst : first.WellKeyed chain)
    (hkey : ∀ t ∈ rest, t.WellKeyed chain) :
    ∃ m, rest.foldlM TxWithChanges.merge first = .ok m := by
  induction rest generalizing first with
  | nil => exact ⟨first, rfl⟩
  | cons t _ ih =>
    obtain ⟨hle, hrest⟩ := pairwise_cons.mp hsorted
    have ht := hkey t mem_cons_self
    have hht := hhash t mem_cons_self
    obtain ⟨acc, hacc⟩ := TxWithChanges.merge_isOk hht.symm (hle t mem_cons_self) hfirst ht
    have hmerged := TxWithChanges.merge_ok hacc
    obtain ⟨m, hm⟩ := @ih acc (by
        obtain ⟨hle', hrest'⟩ := pairwise_cons.mp hrest
        exact pairwise_cons.mpr ⟨by rwa [hmerged.tx], hrest'⟩)
      (by
        intro u hu
        rw [hmerged.tx, hht]
        exact hhash u (mem_cons_of_mem _ hu))
      (hmerged.wellKeyed hfirst ht) (fun u hu => hkey u (mem_cons_of_mem _ hu))
    refine ⟨m, ?_⟩
    rw [foldlM_cons, hacc]
    exact hm

lemma aggregateTxs_sorted (h : aggregateTxs txs = .ok m) :
    txs.Pairwise (fun t u => t.tx.index ≤ u.tx.index) ∧
      ∀ t ∈ txs, ∀ u ∈ txs, t.tx.blockHash = u.tx.blockHash := by
  cases txs with
  | nil => exact ⟨List.Pairwise.nil, fun t ht => (nomatch ht)⟩
  | cons first rest =>
    obtain ⟨hsorted, hhash⟩ := foldlM_merge_ok h
    have hall : ∀ t ∈ first :: rest, t.tx.blockHash = first.tx.blockHash :=
      forall_mem_cons.mpr ⟨rfl, hhash⟩
    exact ⟨hsorted, fun t ht u hu => (hall t ht).trans (hall u hu).symm⟩

lemma aggregateTxs_isOk (hsorted : txs.Pairwise fun t u => t.tx.index ≤ u.tx.index)
    (hhash : ∀ t ∈ txs, ∀ u ∈ txs, t.tx.blockHash = u.tx.blockHash)
    (hkey : ∀ t ∈ txs, t.WellKeyed chain) : ∃ m, aggregateTxs txs = .ok m := by
  cases txs with
  | nil => exact ⟨_, rfl⟩
  | cons first =>
    exact foldlM_merge_isOk hsorted (fun t ht => hhash t (mem_cons_of_mem _ ht) first mem_cons_self)
      (hkey first mem_cons_self) (fun t ht => hkey t (mem_cons_of_mem _ ht))

end BlockChanges
end Tycho
