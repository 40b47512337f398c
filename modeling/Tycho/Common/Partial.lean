import Tycho.Collections.StableSort
import Tycho.Common.WellKeyed

/-! Partial blocks: subscribers who apply the message of every partial block see the same block
as those who apply the message of the merged one. -/
namespace Tycho
open Collections Replay HashMap List BlockChanges TxWithChanges ProtocolComponentState
variable {ps : List BlockChanges} {msgs : List BlockAggregatedChanges}

namespace TxWithChanges

def withHash (hash : BlockHash) (t : TxWithChanges) : TxWithChanges :=
  { t with tx := { t.tx with blockHash := hash } }

end TxWithChanges

namespace BlockChanges

/-- Sorting a later run of transactions followed by an earlier one puts the earlier one first. -/
lemma insertionSort_append {l l' : List TxWithChanges}
    (hl : l.Pairwise fun t u => t.tx.index ≤ u.tx.index)
    (hl' : l'.Pairwise fun t u => t.tx.index ≤ u.tx.index)
    (h : ∀ t ∈ l, ∀ u ∈ l', t.tx.index < u.tx.index) :
    (l' ++ l).insertionSort (fun t u => t.tx.index ≤ u.tx.index) = l ++ l' := by
  refine eq_of_sorted (@sortBy_sorted _ (fun t => t.tx.index) (l' ++ l))
    (pairwise_append.mpr ⟨hl, hl', fun t ht u hu => (h t ht u hu).le⟩) fun i => ?_
  change atKey _ i (sortBy _ (l' ++ l)) = _
  rw [atKey_sortBy, atKey_append, atKey_append]
  -- the two lists have no key in common
  by_cases hi : atKey (fun t : TxWithChanges => t.tx.index) i l = []
  · rw [hi, append_nil, nil_append]
  · obtain ⟨t, ht⟩ := exists_mem_of_ne_nil _ hi
    obtain ⟨ht, hti⟩ := mem_filter.mp ht
    have hnil : atKey (fun t : TxWithChanges => t.tx.index) i l' = [] := by
      refine filter_eq_nil_iff.mpr fun u hu hui => ?_
      exact (h t ht u hu).ne ((of_decide_eq_true hti).trans (of_decide_eq_true hui).symm)
    rw [hnil, append_nil, nil_append]

end BlockChanges

/-- One piece of information in the trace results of an entry point. -/
inductive TraceFact where
  | traced
  | retrigger (address : Address) (location : AddressStorageLocation)
  | called (address : Address)
  | accessed (address : Address) (slot : StoreKey)

variable {f : TraceFact} {K V X : Type}

namespace TracingResult

def has (r : TracingResult) : TraceFact → Prop
  | .traced => True
  | .retrigger a l => (a, l) ∈ r.retriggers
  | .called a => a ∈ r.accessedSlots
  | .accessed a k => (r.accessedSlots.lookup₂ a k).isSome

lemma has_merge {r r' : TracingResult} : (r.merge r').has f ↔ r.has f ∨ r'.has f := by
  cases f with
  | traced => simp [has]
  | retrigger =>
    simp only [has, merge, mem_extend_toList]
    tauto
  | called => simp only [has, merge, mem_mergeNested]
  | accessed =>
    simp only [has, merge, lookup₂_mergeNested, Option.isSome_or, Bool.or_eq_true]
    tauto

end TracingResult

def announces (traces : HashMap EntryPointId TracingResult) (id : EntryPointId) (f : TraceFact) :
    Prop :=
  ∃ r, traces.lookup id = some r ∧ r.has f

variable {id : EntryPointId} {t : TxWithChanges} {rest : List BlockChanges}
  {w : TxWithChanges → K → Option V} {k : K}

lemma announces_insertTrace {m : HashMap EntryPointId TracingResult} {r : TracedEntryPoint} :
    announces (insertTrace m r) id f ↔
      announces m id f ∨ r.entryPointId = id ∧ r.tracingResult.has f := by
  unfold insertTrace
  by_cases hid : r.entryPointId = id
  · subst hid
    cases hm : m.lookup r.entryPointId with
    | none => simp [announces, hm]
    | some => simp [announces, hm, TracingResult.has_merge]
  · cases hm : m.lookup r.entryPointId <;>
      simp [announces, hid, Ne.symm hid]

lemma announces_aggregateTraces {results : List TracedEntryPoint} :
    announces (aggregateTraces results) id f ↔
      ∃ r ∈ results, r.entryPointId = id ∧ r.tracingResult.has f := by
  have hfold : ∀ m : HashMap EntryPointId TracingResult,
      announces (results.foldl insertTrace m) id f ↔
        announces m id f ∨ ∃ r ∈ results, r.entryPointId = id ∧ r.tracingResult.has f := by
    induction results with
    | nil => simp
    | cons _ _ ih =>
      intro m
      rw [foldl_cons, ih, announces_insertTrace, or_assoc]
      simp only [mem_cons, exists_eq_or_imp]
  have h := hfold ∅
  simpa [announces, aggregateTraces] using h

/-- Partial blocks of one block, in increasing order, as the stream delivers them. -/
structure PartialSequence (ps : List BlockChanges) : Prop where
  oneBlock : ∀ p ∈ ps, ∀ q ∈ ps, p.extractor = q.extractor ∧ p.chain = q.chain ∧
    p.block.number = q.block.number ∧ p.revert = q.revert
  indexed : ∀ p ∈ ps, p.partialBlockIndex.isSome
  increasing : ps.Pairwise fun p q => p.partialBlockIndex < q.partialBlockIndex
  txsIncreasing : ps.Pairwise fun p q =>
    ∀ t ∈ p.txsWithUpdate, ∀ u ∈ q.txsWithUpdate, t.tx.index < u.tx.index
  wellKeyed : ∀ p ∈ ps, p.WellKeyed

/-- What folding `mergePartial` over partial blocks builds. -/
structure MergesTo (ps : List BlockChanges) (merged : BlockChanges) : Prop where
  header : ∃ p ∈ ps, ∃ tokens txs changes traces, merged = { p with
    newTokens := tokens, txsWithUpdate := txs, blockContractChanges := changes,
    traceResults := traces }
  txs : merged.txsWithUpdate.map (withHash .new) =
    (ps.flatMap fun p => p.txsWithUpdate).map (withHash .new)
  sorted : merged.txsWithUpdate.Pairwise fun t u => t.tx.index ≤ u.tx.index
  hash : ∀ t ∈ merged.txsWithUpdate, ∀ u ∈ merged.txsWithUpdate, t.tx.blockHash = u.tx.blockHash
  tokens : ∀ a, merged.newTokens.lookup a = lastWrite (fun p a => p.newTokens.lookup a) ps a
  traces : ∀ r, r ∈ merged.traceResults ↔ ∃ p ∈ ps, r ∈ p.traceResults

namespace MergesTo
variable {acc p : BlockChanges}

lemma singleton (hsorted : p.txsWithUpdate.Pairwise fun t u => t.tx.index ≤ u.tx.index)
    (hhash : ∀ t ∈ p.txsWithUpdate, ∀ u ∈ p.txsWithUpdate, t.tx.blockHash = u.tx.blockHash) :
    MergesTo [p] p where
  header := ⟨p, mem_singleton_self p, _, _, _, _, rfl⟩
  txs := by rw [flatMap_singleton]
  sorted := hsorted
  hash := hhash
  tokens := fun a => (lastWrite_singleton (fun p a => p.newTokens.lookup a) p a).symm
  traces := by simp

section
variable (h : MergesTo ps acc)
include h

lemma mem_txs (ht : t ∈ acc.txsWithUpdate) :
    ∃ p ∈ ps, ∃ u ∈ p.txsWithUpdate, u.withHash .new = t.withHash .new := by
  have hm := mem_map_of_mem (f := withHash .new) ht
  rw [h.txs, mem_map] at hm
  obtain ⟨u, hu, hut⟩ := hm
  obtain ⟨p, hp, hup⟩ := mem_flatMap.mp hu
  exact ⟨p, hp, u, hup, hut⟩

lemma mem_index (ht : t ∈ acc.txsWithUpdate) :
    ∃ p ∈ ps, ∃ u ∈ p.txsWithUpdate, u.tx.index = t.tx.index := by
  obtain ⟨p, hp, u, hu, hut⟩ := h.mem_txs ht
  exact ⟨p, hp, u, hu, congrArg (fun t => t.tx.index) hut⟩

lemma absorbPartial
    (hlt : ∀ q ∈ ps, ∀ t ∈ q.txsWithUpdate, ∀ u ∈ p.txsWithUpdate, t.tx.index < u.tx.index)
    (hsorted : p.txsWithUpdate.Pairwise fun t u => t.tx.index ≤ u.tx.index) :
    MergesTo (ps ++ [p]) (p.absorbPartial acc) := by
  have hacc : ∀ t ∈ acc.txsWithUpdate, ∀ u ∈ p.txsWithUpdate, t.tx.index < u.tx.index := by
    intro t ht u hu
    obtain ⟨q, hq, t', ht', hi⟩ := h.mem_index ht
    rw [← hi]
    exact hlt q hq t' ht' u hu
  have htxs : (p.absorbPartial acc).txsWithUpdate =
      (acc.txsWithUpdate ++ p.txsWithUpdate).map (withHash p.block.hash) := by
    rw [← insertionSort_append h.sorted hsorted hacc]
    rfl
  constructor
  · exact ⟨p, mem_append_right _ (mem_singleton_self p), _, _, _, _, rfl⟩
  · rw [htxs, map_map, flatMap_append, map_append, map_append, ← h.txs, flatMap_singleton]
    rfl
  · rw [htxs, pairwise_map]
    refine pairwise_append.mpr ⟨h.sorted, hsorted, ?_⟩
    intro t ht u hu
    exact (hacc t ht u hu).le
  · rw [htxs]
    intro t ht u hu
    obtain ⟨t', -, rfl⟩ := mem_map.mp ht
    obtain ⟨u', -, rfl⟩ := mem_map.mp hu
    rfl
  · intro a
    rw [lastWrite_append, lastWrite_singleton, ← h.tokens]
    rw [← Option.map_id' (x := acc.newTokens.lookup a)]
    exact lookup_foldl_orInsert (fun _ t => t) p.newTokens acc.newTokens a
  · intro r
    change r ∈ p.traceResults ++ acc.traceResults ↔ _
    rw [mem_append, h.traces]
    simp only [mem_append, mem_singleton, or_and_right, exists_or, exists_eq_left]
    exact or_comm

/-- One step of the fold: the next partial block has a higher index, so it is the current one. -/
lemma mergePartial (hseq : PartialSequence (ps ++ p :: rest)) :
    acc.mergePartial p = .ok (p.absorbPartial acc) := by
  obtain ⟨q, hq, tokens, txs, changes, traces, rfl⟩ := h.header
  have hqm : q ∈ ps ++ p :: rest := mem_append_left _ hq
  have hpm : p ∈ ps ++ p :: rest := mem_append_right _ mem_cons_self
  obtain ⟨i, hi⟩ := Option.isSome_iff_exists.mp (hseq.indexed q hqm)
  obtain ⟨j, hj⟩ := Option.isSome_iff_exists.mp (hseq.indexed p hpm)
  obtain ⟨he, hc, hn, hr⟩ := hseq.oneBlock q hqm p hpm
  have hij : q.partialBlockIndex < p.partialBlockIndex :=
    (pairwise_append.mp hseq.increasing).2.2 q hq p mem_cons_self
  rw [hi, hj, Option.some_lt_some] at hij
  unfold mergePartial
  simp only [hi, hj, he, hc, hn, hr, ne_eq, not_true_eq_false, if_false]
  rw [if_neg (by omega), if_pos hij]

lemma foldlM_mergePartial (hseq : PartialSequence (ps ++ rest))
    (hsorted : ∀ p ∈ rest, p.txsWithUpdate.Pairwise fun t u => t.tx.index ≤ u.tx.index) :
    ∃ merged, rest.foldlM BlockChanges.mergePartial acc = .ok merged ∧
      MergesTo (ps ++ rest) merged := by
  induction rest generalizing ps acc with
  | nil => exact ⟨acc, rfl, by rwa [append_nil]⟩
  | cons p rest ih =>
    have hstep := h.mergePartial hseq
    have hlt : ∀ q ∈ ps, ∀ t ∈ q.txsWithUpdate, ∀ u ∈ p.txsWithUpdate, t.tx.index < u.tx.index :=
      fun q hq => (pairwise_append.mp hseq.txsIncreasing).2.2 q hq p mem_cons_self
    have hnext := h.absorbPartial hlt (hsorted p mem_cons_self)
    have happend : ps ++ p :: rest = (ps ++ [p]) ++ rest := by simp
    obtain ⟨merged, hm, hmerged⟩ := ih hnext (happend ▸ hseq) fun q hq =>
      hsorted q (mem_cons_of_mem _ hq)
    refine ⟨merged, ?_, by rwa [happend]⟩
    rw [foldlM_cons, hstep]
    exact hm

end

/-- A reading of transactions that does not look at their block. -/
lemma lastWrite_txs (hw : ∀ h t k, w (withHash h t) k = w t k) (h : MergesTo ps acc) (k : K) :
    lastWrite w acc.txsWithUpdate k = lastWrite (fun p => lastWrite w p.txsWithUpdate) ps k := by
  have hmap : ∀ l : List TxWithChanges,
      lastWrite w (l.map (withHash .new)) k = lastWrite w l k := by
    intro l
    rw [lastWrite_map]
    exact lastWrite_congr fun t _ => hw .new t k
  rw [← hmap, h.txs, hmap, lastWrite_flatMap]

lemma findSome?_txs {f : TxWithChanges → Option X}
    (hf : ∀ h t, f (withHash h t) = f t) (h : MergesTo ps acc) :
    acc.txsWithUpdate.findSome? f = ps.findSome? fun p => p.txsWithUpdate.findSome? f := by
  have hmap : ∀ l : List TxWithChanges, (l.map (withHash .new)).findSome? f = l.findSome? f := by
    intro l
    rw [List.findSome?_map]
    exact findSome?_congr fun t _ => hf .new t
  rw [← hmap, h.txs, hmap, findSome?_flatMap]

lemma wellKeyed (h : MergesTo ps acc) (hseq : PartialSequence ps) : acc.WellKeyed := by
  intro t ht
  obtain ⟨p, hp, u, hu, hut⟩ := h.mem_txs ht
  obtain ⟨q, hq, tokens, txs, changes, traces, rfl⟩ := h.header
  have hkey := hseq.wellKeyed p hp u hu
  have hstates := congrArg stateUpdates hut
  change u.stateUpdates = t.stateUpdates at hstates
  have haccounts := congrArg accountDeltas hut
  change u.accountDeltas = t.accountDeltas at haccounts
  have hchain : p.chain = q.chain := (hseq.oneBlock p hp q hq).2.1
  constructor
  · rw [← hstates]
    exact hkey.stateEntries
  · rw [← haccounts]
    exact hchain ▸ hkey.accountEntries

end MergesTo
/-- The messages `msgs`, applied in order, say the same about a block as the message `agg`. -/
structure SameBlock (msgs : List BlockAggregatedChanges) (agg : BlockAggregatedChanges) :
    Prop where
  states : ∀ c s, Agree componentId cell
    (applyStateAt agg.stateDeltas c s)
    (msgs.foldlM (fun s m => applyStateAt m.stateDeltas c s) s)
  accounts : ∀ a s, Agree Account.frame Account.cell (applyAccountAt agg.accountDeltas a s)
    (msgs.foldlM (fun s m => applyAccountAt m.accountDeltas a s) s)
  componentBalances : ∀ c (balances : HashMap Address ComponentBalance) token,
    (overwriteAt agg.componentBalances c balances).lookup token =
      (msgs.foldl (fun b m => overwriteAt m.componentBalances c b) balances).lookup token
  accountBalances : ∀ a (balances : HashMap Address AccountBalance) token,
    (overwriteAt agg.accountBalances a balances).lookup token =
      (msgs.foldl (fun b m => overwriteAt m.accountBalances a b) balances).lookup token
  newComponents : ∀ c, agg.newProtocolComponents.lookup c =
    (msgs.foldl (fun cs m => HashMap.extend cs m.newProtocolComponents.toList) ∅).lookup c
  newTokens : ∀ a, agg.newTokens.lookup a =
    (msgs.foldl (fun ts m => HashMap.extend ts m.newTokens.toList) ∅).lookup a
  traces : ∀ id f, announces agg.dciUpdate.traceResults id f ↔
    ∃ m ∈ msgs, announces m.dciUpdate.traceResults id f

/-- The message of each partial block, with whatever committed height it was emitted. -/
def Messages (ps : List BlockChanges) (msgs : List BlockAggregatedChanges) : Prop :=
  List.Forall₂ (fun p m => ∃ h, intoAggregated p h = .ok m) ps msgs

namespace Messages
lemma aggregated (h : Messages ps msgs) {p : BlockChanges} (hp : p ∈ ps) :
    ∃ m, aggregateTxs p.txsWithUpdate = .ok m := by
  obtain ⟨msg, -, height, hm⟩ := exists_of_mem_left h hp
  obtain ⟨-, m, hm, -⟩ := intoAggregated_ok hm
  exact ⟨m, hm⟩

/-- A reading of messages is a reading of the partial blocks they come from. -/
lemma lastWrite_eq {v : BlockAggregatedChanges → K → Option V} {u : BlockChanges → K → Option V}
    (h : Messages ps msgs) (hv : ∀ p height m, aggregateTxs p.txsWithUpdate = .ok m →
      v (aggregatedMessage p height m) k = u p k) :
    lastWrite v msgs k = lastWrite u ps k := by
  induction h with
  | nil => rfl
  | cons hm _ ih =>
    obtain ⟨height, hm⟩ := hm
    obtain ⟨-, m, hagg, rfl⟩ := intoAggregated_ok hm
    rw [lastWrite_cons, lastWrite_cons, hv _ _ m hagg, ih]

lemma findSome?_eq {f : TxWithChanges → Option X} (g : BlockAggregatedChanges → Option X)
    (h : Messages ps msgs) (hg : ∀ p height m, g (aggregatedMessage p height m) = f m)
    (hf : ∀ p ∈ ps, ∀ m, aggregateTxs p.txsWithUpdate = .ok m → f m = p.txsWithUpdate.findSome? f) :
    msgs.findSome? g = ps.findSome? fun p => p.txsWithUpdate.findSome? f := by
  induction h with
  | nil => rfl
  | cons hm _ ih =>
    obtain ⟨height, hm⟩ := hm
    obtain ⟨-, m, hagg, rfl⟩ := intoAggregated_ok hm
    rw [List.findSome?_cons, List.findSome?_cons, hg, hf _ mem_cons_self m hagg,
      ih fun p hp => hf p (mem_cons_of_mem _ hp)]

lemma announces_iff (h : Messages ps msgs) (id : EntryPointId) (f : TraceFact) :
    (∃ m ∈ msgs, announces m.dciUpdate.traceResults id f) ↔
      ∃ p ∈ ps, ∃ r ∈ p.traceResults, r.entryPointId = id ∧ r.tracingResult.has f := by
  induction h with
  | nil => simp
  | cons hm _ ih =>
    obtain ⟨height, hm⟩ := hm
    obtain ⟨-, m, hagg, rfl⟩ := intoAggregated_ok hm
    simp only [mem_cons, exists_eq_or_imp, ih]
    rw [← announces_aggregateTraces]
    rfl

end Messages

namespace MergesTo
variable {merged : BlockChanges} {m : TxWithChanges}

/-- A reading in which later transactions take precedence is the same for the merged block and
for the messages of the partial blocks. -/
lemma write_eq (v : BlockAggregatedChanges → K → Option V) (hmerged : MergesTo ps merged)
    (hmsgs : Messages ps msgs)
    (hv : ∀ p height m, v (aggregatedMessage p height m) k = w m k)
    (hhash : ∀ h t k, w (withHash h t) k = w t k)
    (hw : ∀ txs m, aggregateTxs txs = .ok m → w m k = lastWrite w txs k)
    (hm : aggregateTxs merged.txsWithUpdate = .ok m) :
    w m k = lastWrite v msgs k := by
  rw [hw _ m hm, hmerged.lastWrite_txs hhash, hmsgs.lastWrite_eq fun p height m hagg =>
    (hv p height m).trans (hw p.txsWithUpdate m hagg)]

/-- A reading in which earlier transactions take precedence. -/
lemma check_eq {f : TxWithChanges → Option X} (g : BlockAggregatedChanges → Option X)
    (hmerged : MergesTo ps merged) (hmsgs : Messages ps msgs)
    (hg : ∀ p height m, g (aggregatedMessage p height m) = f m)
    (hhash : ∀ h t, f (withHash h t) = f t)
    (hf : ∀ b, b = merged ∨ b ∈ ps → ∀ m, aggregateTxs b.txsWithUpdate = .ok m →
      f m = b.txsWithUpdate.findSome? f)
    (hm : aggregateTxs merged.txsWithUpdate = .ok m) :
    f m = msgs.findSome? g := by
  rw [hf merged (.inl rfl) m hm, hmerged.findSome?_txs hhash,
    hmsgs.findSome?_eq g hg fun p hp => hf p (.inr hp)]

/-- The merged block says what the partial blocks say together. -/
lemma sameBlock (hmerged : MergesTo ps merged) (hseq : PartialSequence ps)
    (hmsgs : Messages ps msgs) (hm : aggregateTxs merged.txsWithUpdate = .ok m)
    (h : Option Nat) : SameBlock msgs (merged.aggregatedMessage h m) := by
  constructor
  · intro c s
    have hfold := Overwrites.replay (l := msgs) fun m _ => applyStateAt_overwrites m.stateDeltas c
    refine (applyStateAt_overwrites _ c).agree hfold rfl ?_ ?_
    · exact hmerged.check_eq (fun m => stateCheckAt m.stateDeltas c s.componentId) hmsgs
        (fun _ _ _ => rfl) (fun _ _ => rfl)
        (fun _ _ _ hm => aggregateTxs_stateCheck hm c s.componentId) hm
    · intro k
      rw [← hmerged.write_eq (fun m => stateWriteAt m.stateDeltas c) hmsgs (fun _ _ _ => rfl)
        (fun _ _ _ => rfl) (fun _ _ hm => aggregateTxs_stateWrite hm c k) hm]
      rfl
  · intro a s
    have hfold := Overwrites.replay (l := msgs)
      fun m _ => applyAccountAt_overwrites m.accountDeltas a
    have hkey : ∀ b, b = merged ∨ b ∈ ps → b.WellKeyed := by
      intro b hb
      rcases hb with rfl | hb
      · exact hmerged.wellKeyed hseq
      · exact hseq.wellKeyed b hb
    refine (applyAccountAt_overwrites _ a).agree hfold rfl ?_ ?_
    · exact hmerged.check_eq (fun m => accountCheckAt m.accountDeltas a s.frame) hmsgs
        (fun _ _ _ => rfl) (fun _ _ => rfl)
        (fun b hb _ hm => aggregateTxs_accountCheckOfChain hm
          (fun t ht a delta hd => ((hkey b hb t ht).accounts hd).2) a s.frame) hm
    · intro k
      rw [← hmerged.write_eq (fun m => accountWriteAt m.accountDeltas a) hmsgs (fun _ _ _ => rfl)
        (fun _ _ _ => rfl) (fun _ _ hm => aggregateTxs_accountWrite hm a k) hm]
      rfl
  · intro c balances token
    rw [lookup_overwriteAt, lookup_foldl_overwriteAt,
      ← hmerged.write_eq (fun m => m.componentBalances.lookup₂ c) hmsgs (fun _ _ _ => rfl)
        (fun _ _ _ => rfl) (fun _ _ hm => aggregateTxs_componentBalances hm c token) hm]
    rfl
  · intro a balances token
    rw [lookup_overwriteAt, lookup_foldl_overwriteAt,
      ← hmerged.write_eq (fun m => m.accountBalances.lookup₂ a) hmsgs (fun _ _ _ => rfl)
        (fun _ _ _ => rfl) (fun _ _ hm => aggregateTxs_accountBalances hm a token) hm]
    rfl
  · intro c
    rw [lookup_foldl_extend, AList.lookup_empty, Option.or_none,
      ← hmerged.write_eq (w := fun t c => t.protocolComponents.lookup c)
        (fun m c => m.newProtocolComponents.lookup c) hmsgs (fun _ _ _ => rfl) (fun _ _ _ => rfl)
        (fun _ _ hm => aggregateTxs_components hm c) hm]
    rfl
  · intro a
    rw [lookup_foldl_extend, AList.lookup_empty, Option.or_none,
      hmsgs.lastWrite_eq (u := fun p a => p.newTokens.lookup a)
      fun _ _ _ _ => rfl, ← hmerged.tokens]
    rfl
  · intro id f
    rw [hmsgs.announces_iff]
    refine announces_aggregateTraces.trans ?_
    simp only [hmerged.traces]
    constructor
    · rintro ⟨r, ⟨p, hp, hr⟩, hid, hf⟩
      exact ⟨p, hp, r, hr, hid, hf⟩
    · rintro ⟨p, hp, r, hr, hid, hf⟩
      exact ⟨r, ⟨p, hp, hr⟩, hid, hf⟩

end MergesTo

/-- Folding `mergePartial` over the partial blocks of a block succeeds, and the message of the
result can replace the messages of the partial blocks. -/
theorem foldlM_mergePartial_sameBlock {p : BlockChanges} {ps : List BlockChanges}
    {msgs : List BlockAggregatedChanges} (hseq : PartialSequence (p :: ps))
    (hmsgs : Messages (p :: ps) msgs) :
    ∃ merged, ps.foldlM mergePartial p = .ok merged ∧
      ∀ h, (∀ n, h = some n → n ≤ merged.finalizedBlockHeight) →
        ∃ agg, merged.intoAggregated h = .ok agg ∧ SameBlock msgs agg := by
  have hsorted : ∀ q ∈ p :: ps, q.txsWithUpdate.Pairwise (fun t u => t.tx.index ≤ u.tx.index) ∧
      ∀ t ∈ q.txsWithUpdate, ∀ u ∈ q.txsWithUpdate, t.tx.blockHash = u.tx.blockHash := by
    intro q hq
    obtain ⟨m, hm⟩ := hmsgs.aggregated hq
    exact aggregateTxs_sorted hm
  obtain ⟨hs, hh⟩ := hsorted p mem_cons_self
  obtain ⟨merged, hfold, hmerged⟩ := (MergesTo.singleton hs hh).foldlM_mergePartial hseq
    fun q hq => (hsorted q (mem_cons_of_mem _ hq)).1
  obtain ⟨m, hm⟩ := BlockChanges.aggregateTxs_isOk hmerged.sorted hmerged.hash
    (hmerged.wellKeyed hseq)
  refine ⟨merged, hfold, fun h hle => ⟨_, intoAggregated_of_aggregateTxs hle hm, ?_⟩⟩
  exact hmerged.sameBlock hseq hmsgs hm h

/-- Two partial blocks of one block: the first sets an attribute, the second deletes it and sets
a balance. -/
def poolPartial (index txIndex : Nat) (update : ProtocolComponentStateDelta)
    (balances : List (Address × ComponentBalance)) : BlockChanges where
  extractor := "vm:pool"
  chain := .ethereum
  block := ⟨7, .ethereum, ⟨[7]⟩, ⟨[6]⟩, 0⟩
  finalizedBlockHeight := 5
  revert := false
  newTokens := ∅
  txsWithUpdate := [{ empty ⟨⟨[1]⟩, ⟨[7]⟩, ⟨[]⟩, none, txIndex⟩ with
    stateUpdates := HashMap.ofList [(update.componentId, update)]
    balanceChanges := HashMap.ofList [(update.componentId, HashMap.ofList balances)] }]
  blockContractChanges := []
  traceResults := []
  partialBlockIndex := some index

def feePartial : BlockChanges :=
  poolPartial 0 3 ⟨"pool", HashMap.ofList [("fee", ⟨[1]⟩)], ∅, HashSet.ofList ["fee"]⟩ []

def balancePartial : BlockChanges :=
  poolPartial 1 4 ⟨"pool", ∅, HashSet.ofList ["fee"], ∅⟩
    [(⟨[9]⟩, ⟨⟨[9]⟩, ⟨[8]⟩, .zero, ⟨[1]⟩, "pool"⟩)]

theorem foldlM_mergePartial_sameBlock_feePartial : PartialSequence [feePartial, balancePartial] ∧
      ∃ msgs merged agg, Messages [feePartial, balancePartial] msgs ∧
        [balancePartial].foldlM mergePartial feePartial = .ok merged ∧
        merged.intoAggregated (some 5) = .ok agg ∧ SameBlock msgs agg := by
  have hindex : feePartial.partialBlockIndex < balancePartial.partialBlockIndex :=
    Option.some_lt_some.mpr Nat.zero_lt_one
  have hseq : PartialSequence [feePartial, balancePartial] :=
    ⟨by decide, by decide, pairwise_pair.mpr hindex, by decide, by decide⟩
  obtain ⟨m₀, h₀⟩ : ∃ m, feePartial.intoAggregated none = .ok m := ⟨_, rfl⟩
  obtain ⟨m₁, h₁⟩ : ∃ m, balancePartial.intoAggregated none = .ok m := ⟨_, rfl⟩
  have hmsgs : Messages [feePartial, balancePartial] [m₀, m₁] :=
    .cons ⟨_, h₀⟩ (.cons ⟨_, h₁⟩ .nil)
  obtain ⟨merged, hfold, hagg⟩ := foldlM_mergePartial_sameBlock hseq hmsgs
  have hheight : merged.finalizedBlockHeight = 5 := by
    cases hfold
    rfl
  obtain ⟨agg, hok, hsame⟩ := hagg (some 5) (by simp [hheight])
  exact ⟨hseq, _, merged, agg, hmsgs, hfold, hok, hsame⟩

end Tycho
