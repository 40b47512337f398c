import Tycho.Collections.Fallible
import Tycho.Common.Blockchain

/-! Aggregating the transactions of a block into one message preserves their meaning. -/
namespace Tycho
open Collections Replay HashMap Option ProtocolComponentState Account

def applyStateAt (m : HashMap ComponentId ProtocolComponentStateDelta) (c : ComponentId)
    (s : ProtocolComponentState) : Except MergeError ProtocolComponentState :=
  (m.lookup c).elim (.ok s) fun delta => s.applyStateDelta delta

def applyAccountAt (m : HashMap Address AccountDelta) (a : Address) (s : Account) :
    Except MergeError Account :=
  (m.lookup a).elim (.ok s) fun delta => s.applyDelta delta

def overwriteAt {K V : Type} [DecidableEq K] (m : HashMap K (HashMap Address V)) (k : K)
    (balances : HashMap Address V) : HashMap Address V :=
  HashMap.extend balances ((m.lookup k).getD ∅).toList

/-- A message has the same effect as a list of transactions applied one after the other. -/
structure BlockAggregatedChanges.Summarises (agg : BlockAggregatedChanges)
    (txs : List TxWithChanges) : Prop where
  states : ∀ c s, Agree componentId cell
    (applyStateAt agg.stateDeltas c s)
    (txs.foldlM (fun s t => applyStateAt t.stateUpdates c s) s)
  accounts : ∀ a s s', txs.foldlM (fun s t => applyAccountAt t.accountDeltas a s) s = .ok s' →
    ∃ s'', applyAccountAt agg.accountDeltas a s = .ok s'' ∧ s''.frame = s'.frame ∧
      ∀ k, s''.cell k = s'.cell k
  accountsOfChain : ∀ chain,
    (∀ t ∈ txs, ∀ a delta, t.accountDeltas.lookup a = some delta → delta.chain = chain) →
    ∀ a s, Agree frame cell (applyAccountAt agg.accountDeltas a s)
      (txs.foldlM (fun s t => applyAccountAt t.accountDeltas a s) s)
  componentBalances : ∀ c (balances : HashMap Address ComponentBalance) token,
    (overwriteAt agg.componentBalances c balances).lookup token =
      (txs.foldl (fun m t => overwriteAt t.balanceChanges c m) balances).lookup token
  accountBalances : ∀ a (balances : HashMap Address AccountBalance) token,
    (overwriteAt agg.accountBalances a balances).lookup token =
      (txs.foldl (fun m t => overwriteAt t.accountBalanceChanges a m) balances).lookup token

variable {K V D : Type} {b : BlockChanges} {h : Option Nat}

section

def stateCheckAt (m : HashMap ComponentId ProtocolComponentStateDelta) (c id : ComponentId) :
    Option MergeError :=
  (m.lookup c).bind fun delta => stateCheck delta id

def stateWriteAt (m : HashMap ComponentId ProtocolComponentStateDelta) (c : ComponentId)
    (k : ProtocolComponentState.Cell) : Option (Option Bytes) :=
  (m.lookup c).bind fun delta => stateWrite delta k

def accountCheckAt (m : HashMap Address AccountDelta) (a : Address) (s : Account) :
    Option MergeError :=
  (m.lookup a).bind fun delta => deltaCheck delta s

def accountWriteAt (m : HashMap Address AccountDelta) (a : Address) (k : Account.Cell) :
    Option (Option Account.CellVal) :=
  (m.lookup a).bind fun delta => delta.write k

lemma applyStateAt_overwrites (m : HashMap ComponentId ProtocolComponentStateDelta)
    (c : ComponentId) :
    Overwrites componentId cell (applyStateAt m c) (stateCheckAt m c) fun _ => stateWriteAt m c :=
  Overwrites.option applyStateDelta_overwrites (m.lookup c)

lemma applyAccountAt_overwrites (m : HashMap Address AccountDelta) (a : Address) :
    Overwrites frame cell (applyAccountAt m a) (accountCheckAt m a) fun _ => accountWriteAt m a :=
  Overwrites.option applyDelta_overwrites (m.lookup a)

lemma lookup_overwriteAt [DecidableEq K] (m : HashMap K (HashMap Address V)) (k : K)
    (balances : HashMap Address V) (token : Address) :
    (overwriteAt m k balances).lookup token = (m.lookup₂ k token).or (balances.lookup token) := by
  rw [overwriteAt, lookup_extend_toList, HashMap.lookup₂]
  cases m.lookup k <;> rfl

lemma lookup_foldl_overwriteAt [DecidableEq K] (f : D → HashMap K (HashMap Address V))
    (l : List D) (k : K) (balances : HashMap Address V) (token : Address) :
    (l.foldl (fun m d => overwriteAt (f d) k m) balances).lookup token =
      (lastWrite (fun d => (f d).lookup₂ k) l token).or (balances.lookup token) :=
  lookup_foldl_last (fun m d => lookup_overwriteAt (f d) k m token) l balances

lemma lookup_foldl_extend [DecidableEq K] (f : D → HashMap K V) (l : List D) (m : HashMap K V)
    (k : K) :
    (l.foldl (fun m d => HashMap.extend m (f d).toList) m).lookup k =
      (lastWrite (fun d k => (f d).lookup k) l k).or (m.lookup k) :=
  lookup_foldl_last (w := fun d k => (f d).lookup k) (fun m d => lookup_extend_toList m (f d) k) l m

end

namespace TxWithChanges
variable {s t m : TxWithChanges}

/-- What a successful merge has checked and what it returns. -/
structure Merged (s t m : TxWithChanges) : Prop where
  blockHash : s.tx.blockHash = t.tx.blockHash
  index : s.tx.index ≤ t.tx.index
  tx : m.tx = t.tx
  components : m.protocolComponents =
    HashMap.extend s.protocolComponents t.protocolComponents.toList
  accounts : HashMap.mergeEntries AccountDelta.merge s.accountDeltas t.accountDeltas.toList =
    .ok m.accountDeltas
  states : HashMap.mergeEntries ProtocolComponentStateDelta.merge s.stateUpdates
    t.stateUpdates.toList = .ok m.stateUpdates
  balances : m.balanceChanges = s.balanceChanges.mergeNested t.balanceChanges
  accountBalances : m.accountBalanceChanges =
    s.accountBalanceChanges.mergeNested t.accountBalanceChanges

lemma merge_ok (h : s.merge t = .ok m) : Merged s t m := by
  unfold merge at h
  by_cases hb : s.tx.blockHash ≠ t.tx.blockHash
  · rw [if_pos hb] at h
    cases h
  by_cases hi : s.tx.index > t.tx.index
  · rw [if_neg hb, if_pos hi] at h
    cases h
  rw [if_neg hb, if_neg hi] at h
  obtain ⟨accounts, ha, h⟩ := ok_of_bind_ok h
  obtain ⟨states, hs, h⟩ := ok_of_bind_ok h
  cases h
  exact ⟨not_not.mp hb, Nat.le_of_not_lt hi, rfl, rfl, ha, hs, rfl, rfl⟩

lemma Merged.stateWrite (h : Merged s t m) (c : ComponentId) (k : ProtocolComponentState.Cell) :
    stateWriteAt m.stateUpdates c k =
      (stateWriteAt t.stateUpdates c k).or (stateWriteAt s.stateUpdates c k) := by
  refine (mergeEntries_toList_lookup h.states c).bind_or_left ?_
  intro v w u hm
  cases k with
  | attr a => exact ProtocolComponentStateDelta.merge_write hm a
  | balance => rfl

lemma Merged.stateCheck (h : Merged s t m) (c id : ComponentId) : stateCheckAt m.stateUpdates c id =
      (stateCheckAt s.stateUpdates c id).or (stateCheckAt t.stateUpdates c id) := by
  refine (mergeEntries_toList_lookup h.states c).bind_or_right ?_
  intro v w u hm
  obtain ⟨hv, hu⟩ := ProtocolComponentStateDelta.merge_componentId hm
  simp only [ProtocolComponentState.stateCheck, hu, ← hv, Option.or_self]

lemma Merged.accountWrite (h : Merged s t m) (a : Address) (k : Account.Cell) :
    accountWriteAt m.accountDeltas a k =
      (accountWriteAt t.accountDeltas a k).or (accountWriteAt s.accountDeltas a k) := by
  refine (mergeEntries_toList_lookup h.accounts a).bind_or_left ?_
  intro v w u hm
  exact AccountDelta.merge_write hm k

/-- `AccountDelta.merge` keeps the older delta's chain and does not compare it with the newer
one's, so the checks compose only once the chain is fixed. -/
lemma Merged.accountCheckOn (h : Merged s t m) (chain : Chain) (a : Address) (account : Account) :
    let f := fun delta : AccountDelta => deltaCheck { delta with chain := chain } account
    (m.accountDeltas.lookup a).bind f =
      ((s.accountDeltas.lookup a).bind f).or ((t.accountDeltas.lookup a).bind f) := by
  refine (mergeEntries_toList_lookup h.accounts a).bind_or_right ?_
  intro v w u hm
  obtain ⟨hv, hu, -⟩ := AccountDelta.merge_address hm
  simp only [deltaCheck, hu, ← hv, Option.or_self]

lemma Merged.accountId (h : Merged s t m) (a : Address) :
    let f := fun delta : AccountDelta => some (delta.chain, delta.address)
    (m.accountDeltas.lookup a).bind f =
      ((s.accountDeltas.lookup a).bind f).or ((t.accountDeltas.lookup a).bind f) := by
  refine (mergeEntries_toList_lookup h.accounts a).bind_or_right ?_
  intro v w u hm
  obtain ⟨-, hu, hc⟩ := AccountDelta.merge_address hm
  simp only [hu, hc, some_or]

end TxWithChanges

namespace BlockChanges
variable {txs : List TxWithChanges} {m : TxWithChanges}

/-- The merged transaction writes what the last transaction writes. -/
lemma aggregateTxs_lastWrite {w : TxWithChanges → K → Option V}
    (he : ∀ k, w (.empty default) k = none)
    (hm : ∀ s t m, TxWithChanges.Merged s t m → ∀ k, w m k = (w t k).or (w s k))
    (h : aggregateTxs txs = .ok m) (k : K) : w m k = lastWrite w txs k := by
  cases txs with
  | nil =>
    cases h
    exact he k
  | cons =>
    have hfold := foldlM_ok_hom (g := fun x t => (w t k).or x) (fun t => w t k)
      (fun s t m hmerge => hm s t m (TxWithChanges.merge_ok hmerge) k) h
    rw [hfold, foldl_or_eq_lastWrite, lastWrite_cons]

/-- Reading an observation in which earlier transactions take precedence. -/
lemma aggregateTxs_findSome? {X : Type} {f : TxWithChanges → Option X}
    (he : f (.empty default) = none)
    (hm : ∀ s t m, TxWithChanges.Merged s t m → f m = (f s).or (f t))
    (h : aggregateTxs txs = .ok m) : f m = txs.findSome? f := by
  cases txs with
  | nil =>
    cases h
    exact he
  | cons first =>
    have hfold := foldlM_ok_hom (g := fun x t => x.or (f t)) f
      (fun s t m hmerge => hm s t m (TxWithChanges.merge_ok hmerge)) h
    rw [hfold, foldl_or_eq_findSome?, List.findSome?_cons]
    cases f first <;> rfl

lemma intoAggregated_ok {agg : BlockAggregatedChanges} (hagg : b.intoAggregated h = .ok agg) :
    (∀ n, h = some n → n ≤ b.finalizedBlockHeight) ∧
      ∃ m, aggregateTxs b.txsWithUpdate = .ok m ∧ agg = b.aggregatedMessage h m := by
  unfold intoAggregated at hagg
  by_cases hh : (h.any fun n => n > b.finalizedBlockHeight) = true
  · rw [if_pos hh] at hagg
    cases hagg
  · rw [if_neg hh] at hagg
    have hn : ∀ n, h = some n → n ≤ b.finalizedBlockHeight := by
      intro n hn
      subst hn
      simpa using hh
    obtain ⟨m, hm, hagg⟩ := ok_of_bind_ok hagg
    cases hagg
    exact ⟨hn, m, hm, rfl⟩

section
variable (hm : aggregateTxs txs = .ok m)
include hm

lemma aggregateTxs_stateCheck (c id : ComponentId) :
    stateCheckAt m.stateUpdates c id = txs.findSome? fun t => stateCheckAt t.stateUpdates c id :=
  aggregateTxs_findSome? rfl (fun _ _ _ h => h.stateCheck c id) hm

lemma aggregateTxs_stateWrite (c : ComponentId) (k : ProtocolComponentState.Cell) :
    stateWriteAt m.stateUpdates c k = lastWrite (fun t => stateWriteAt t.stateUpdates c) txs k :=
  aggregateTxs_lastWrite (fun _ => rfl) (fun _ _ _ h => h.stateWrite c) hm k

lemma aggregateTxs_accountWrite (a : Address) (k : Account.Cell) :
    accountWriteAt m.accountDeltas a k =
      lastWrite (fun t => accountWriteAt t.accountDeltas a) txs k :=
  aggregateTxs_lastWrite (fun _ => rfl) (fun _ _ _ h => h.accountWrite a) hm k

lemma aggregateTxs_accountId (a : Address) :
    ((m.accountDeltas.lookup a).bind fun d => some (d.chain, d.address)) =
      txs.findSome? fun t => (t.accountDeltas.lookup a).bind fun d => some (d.chain, d.address) :=
  aggregateTxs_findSome? rfl (fun _ _ _ h => h.accountId a) hm

lemma aggregateTxs_accountCheck {a : Address} {s : Account}
    (hs : ∀ t ∈ txs, accountCheckAt t.accountDeltas a s = none) :
    accountCheckAt m.accountDeltas a s = none := by
  have hid := aggregateTxs_accountId hm a
  cases hd : m.accountDeltas.lookup a with
  | none => rw [accountCheckAt, hd, bind_none]
  | some =>
    rw [hd, bind_some] at hid
    obtain ⟨t, ht, hti⟩ := List.exists_of_findSome?_eq_some hid.symm
    obtain ⟨delta', hd', hid'⟩ := bind_eq_some_iff.mp hti
    have hcheck := hs t ht
    rw [accountCheckAt, hd', bind_some] at hcheck
    obtain ⟨hc, ha⟩ := Prod.mk.inj (Option.some.inj hid')
    rw [accountCheckAt, hd, bind_some]
    unfold deltaCheck at hcheck ⊢
    rwa [hc, ha] at hcheck

lemma aggregateTxs_accountCheckOfChain {chain : Chain}
    (hc : ∀ t ∈ txs, ∀ a delta, t.accountDeltas.lookup a = some delta → delta.chain = chain)
    (a : Address) (s : Account) :
    accountCheckAt m.accountDeltas a s =
      txs.findSome? fun t => accountCheckAt t.accountDeltas a s := by
  have hcheck := aggregateTxs_findSome? rfl (fun _ _ _ h => h.accountCheckOn chain a s) hm
  have hchain : ∀ delta, m.accountDeltas.lookup a = some delta → delta.chain = chain := by
    intro delta hd
    have hid := aggregateTxs_accountId hm a
    rw [hd, bind_some] at hid
    obtain ⟨t, ht, hti⟩ := List.exists_of_findSome?_eq_some hid.symm
    obtain ⟨delta', hd', hid'⟩ := bind_eq_some_iff.mp hti
    rw [← hc t ht a delta' hd', (Prod.mk.inj (Option.some.inj hid')).1]
  have hon : ∀ accounts : HashMap Address AccountDelta,
      (∀ delta, accounts.lookup a = some delta → delta.chain = chain) →
      ((accounts.lookup a).bind fun d => deltaCheck { d with chain := chain } s) =
        accountCheckAt accounts a s := by
    intro accounts h
    unfold accountCheckAt
    cases hd : accounts.lookup a with
    | none => rfl
    | some delta => rw [bind_some, bind_some, ← h delta hd]
  rw [hon m.accountDeltas hchain] at hcheck
  rw [hcheck]
  apply findSome?_congr
  intro t ht
  exact hon t.accountDeltas (hc t ht a)

lemma aggregateTxs_componentBalances (c : ComponentId) (token : Address) :
    m.balanceChanges.lookup₂ c token =
      lastWrite (fun t => t.balanceChanges.lookup₂ c) txs token := by
  refine aggregateTxs_lastWrite (w := fun t => t.balanceChanges.lookup₂ c) (fun _ => rfl) ?_ hm
    token
  intro s t m h token
  rw [h.balances, lookup₂_mergeNested]

lemma aggregateTxs_accountBalances (a : Address) (token : Address) :
    m.accountBalanceChanges.lookup₂ a token =
      lastWrite (fun t => t.accountBalanceChanges.lookup₂ a) txs token := by
  refine aggregateTxs_lastWrite (w := fun t => t.accountBalanceChanges.lookup₂ a) (fun _ => rfl)
    ?_ hm token
  intro s t m h token
  rw [h.accountBalances, lookup₂_mergeNested]

lemma aggregateTxs_components (c : ComponentId) : m.protocolComponents.lookup c =
      lastWrite (fun t c => t.protocolComponents.lookup c) txs c := by
  refine aggregateTxs_lastWrite (w := fun t c => t.protocolComponents.lookup c) (fun _ => rfl)
    ?_ hm c
  intro s t m h c
  rw [h.components, lookup_extend_toList]

end

lemma intoAggregated_of_aggregateTxs {m : TxWithChanges}
    (hh : ∀ n, h = some n → n ≤ b.finalizedBlockHeight) (hm : aggregateTxs b.txsWithUpdate = .ok m)
    :
    b.intoAggregated h = .ok (b.aggregatedMessage h m) := by
  have hn : ¬(h.any fun n => n > b.finalizedBlockHeight) = true := by
    cases h with
    | none => simp
    | some n => simpa using hh n rfl
  unfold intoAggregated
  rw [if_neg hn, hm]
  rfl

/-- Subscribers who apply the message of a block end up where subscribers who apply its
transactions one by one do. -/
theorem intoAggregated_summarises {b : BlockChanges} {h : Option Nat}
    {agg : BlockAggregatedChanges} (hagg : b.intoAggregated h = .ok agg) :
    agg.Summarises b.txsWithUpdate := by
  obtain ⟨-, m, hm, rfl⟩ := intoAggregated_ok hagg
  constructor
  · intro c s
    have hseq := Overwrites.replay (l := b.txsWithUpdate)
      fun t _ => applyStateAt_overwrites t.stateUpdates c
    refine (applyStateAt_overwrites m.stateUpdates c).agree hseq rfl
      (aggregateTxs_stateCheck hm c s.componentId) ?_
    intro k
    rw [aggregateTxs_stateWrite hm]
  · intro a s s' hs
    have hseq := Overwrites.replay (l := b.txsWithUpdate)
      fun t _ => applyAccountAt_overwrites t.accountDeltas a
    have hnone := List.findSome?_eq_none_iff.mp (hseq.check_of_ok hs)
    obtain ⟨hf, hv⟩ := hseq.view_of_ok hs
    obtain ⟨s'', hs'', hf'', hv''⟩ := (applyAccountAt_overwrites m.accountDeltas a).writes s
      (aggregateTxs_accountCheck hm hnone)
    refine ⟨s'', hs'', hf''.trans hf.symm, ?_⟩
    intro k
    rw [hv'', hv, aggregateTxs_accountWrite hm]
  · intro chain hc a s
    have hseq := Overwrites.replay (l := b.txsWithUpdate)
      fun t _ => applyAccountAt_overwrites t.accountDeltas a
    refine (applyAccountAt_overwrites m.accountDeltas a).agree hseq rfl
      (aggregateTxs_accountCheckOfChain hm hc a s.frame) ?_
    intro k
    rw [aggregateTxs_accountWrite hm]
  · intro c balances token
    rw [lookup_overwriteAt, lookup_foldl_overwriteAt, ← aggregateTxs_componentBalances hm]
    rfl
  · intro a balances token
    rw [lookup_overwriteAt, lookup_foldl_overwriteAt, ← aggregateTxs_accountBalances hm]
    rfl

/-- A block whose first transaction both updates and deletes an attribute that the second one
creates again. -/
def recreatedAttribute : BlockChanges where
  extractor := "vm:pool"
  chain := .ethereum
  block := ⟨7, .ethereum, ⟨[7]⟩, ⟨[6]⟩, 0⟩
  finalizedBlockHeight := 5
  revert := false
  newTokens := ∅
  txsWithUpdate := [ { TxWithChanges.empty ⟨⟨[1]⟩, ⟨[7]⟩, ⟨[]⟩, none, 0⟩ with
      stateUpdates := HashMap.ofList
        [("pool", ⟨"pool", HashMap.ofList [("fee", ⟨[1]⟩)], HashSet.ofList ["fee"], ∅⟩)]
      accountDeltas := HashMap.ofList
        [(⟨[9]⟩, ⟨.ethereum, ⟨[9]⟩, HashMap.ofList [(⟨[0]⟩, none)], none, none, .update⟩)] },
    { TxWithChanges.empty ⟨⟨[2]⟩, ⟨[7]⟩, ⟨[]⟩, none, 1⟩ with
      stateUpdates := HashMap.ofList
        [("pool", ⟨"pool", HashMap.ofList [("fee", ⟨[2]⟩)], ∅, HashSet.ofList ["fee"]⟩)]
      accountDeltas := HashMap.ofList
        [(⟨[9]⟩, ⟨.ethereum, ⟨[9]⟩, HashMap.ofList [(⟨[0]⟩, some ⟨[3]⟩)], none, none, .update⟩)] }]
  blockContractChanges := []
  traceResults := []
  partialBlockIndex := none

theorem intoAggregated_summarises_recreatedAttribute :
    ∃ agg, recreatedAttribute.intoAggregated (some 5) = .ok agg ∧
      agg.Summarises recreatedAttribute.txsWithUpdate := by
  obtain ⟨agg, hagg⟩ : ∃ agg, recreatedAttribute.intoAggregated (some 5) = .ok agg := ⟨_, rfl⟩
  exact ⟨agg, hagg, intoAggregated_summarises hagg⟩

end BlockChanges
end Tycho
