import Tycho.Common.WellKeyed
import Tycho.Dci.BlockWrites

/-! The last write to a slot stays when transactions are merged, in any order, and snapshots are
attributed to them. -/
namespace Tycho
open Collections Replay List Option AList DynamicContractIndexer

def slotAt (deltas : HashMap Address AccountDelta) (a : Address) (k : StoreKey) :
    Option (Option StoreVal) :=
  (deltas.lookup a).bind fun delta => delta.slots.lookup k

/-- The content of a slot. There is none if the slot is zero or deleted. -/
def slotContent (v : Option StoreVal) : Option StoreVal := v.bind slotValue

lemma slotContent_slotValue (v : StoreVal) : slotContent (slotValue v) = slotContent (some v) := by
  unfold slotContent slotValue
  split_ifs with hzero
  · simp [hzero]
  · simp [hzero]

lemma TxWithChanges.Merged.slotAt {s t m : TxWithChanges} (h : Merged s t m) (a : Address)
    (k : StoreKey) : slotAt m.accountDeltas a k =
      (slotAt t.accountDeltas a k).or (slotAt s.accountDeltas a k) := by
  refine (HashMap.mergeEntries_toList_lookup h.accounts a).bind_or_left ?_
  intro v w u hm
  exact AccountDelta.merge_slots hm k

/-- A slot with its content at the end of a block, the index of the last transaction that writes
it, and the transactions of the block. -/
structure SlotEnd where
  account : Address
  slot : StoreKey
  content : Option StoreVal
  last : Nat
  transactions : List Transaction
  indexed : ∀ tx ∈ transactions, ∀ tx' ∈ transactions, tx.hash = tx'.hash → tx.index = tx'.index

variable {acc acc' : HashMap Address AccountDelta × List TxWithChanges}
  {entry : Address × Transaction}

namespace SlotEnd
variable (g : SlotEnd) {t t' u m : TxWithChanges} {txs txs' : List TxWithChanges}

def write (t : TxWithChanges) : Option (Option StoreVal) := slotAt t.accountDeltas g.account g.slot

/-- A transaction writes the content that the slot has in the end, or precedes the last write. -/
def Current (t : TxWithChanges) : Prop :=
  ∀ v, g.write t = some v → slotContent v = g.content ∨ t.tx.index < g.last ∧ t.tx ∈ g.transactions

def Written (t : TxWithChanges) : Prop := g.last ≤ t.tx.index ∧ (g.write t).isSome

lemma lastWrite_content (hsorted : txs.Pairwise fun t u => t.tx.index ≤ u.tx.index)
    (hcur : ∀ t ∈ txs, g.Current t) (hwritten : ∃ t ∈ txs, g.Written t) :
    ∃ v, lastWrite (fun t => slotAt t.accountDeltas g.account) txs g.slot = some v ∧
      slotContent v = g.content := by
  obtain ⟨t₀, ht₀, hlast, hwrite⟩ := hwritten
  cases hv : lastWrite (fun t => slotAt t.accountDeltas g.account) txs g.slot with
  | none =>
    have hnone := (lastWrite_eq_none_iff _).mp hv t₀ ht₀
    rw [write, hnone] at hwrite
    cases hwrite
  | some v =>
    obtain ⟨l₁, t, l₂, rfl, ht, hafter⟩ := (lastWrite_eq_some_iff _).mp hv
    refine ⟨v, rfl, (hcur t (by simp) v ht).resolve_right fun hbefore => ?_⟩
    -- the last write is not after this transaction, so it is not before it either
    have hle : t₀.tx.index ≤ t.tx.index := by
      rw [pairwise_append] at hsorted
      rcases mem_append.mp ht₀ with hl₁ | hl₂
      · exact hsorted.2.2 t₀ hl₁ t mem_cons_self
      · rcases mem_cons.mp hl₂ with rfl | hl₂
        · exact le_rfl
        · rw [write, hafter t₀ hl₂] at hwrite
          cases hwrite
    omega

section

lemma current_merged (hm : TxWithChanges.Merged t u m) (ht : g.Current t) (hu : g.Current u)
    (hhash : t.tx.hash = u.tx.hash) (htx : u.tx ∈ g.transactions) : g.Current m := by
  intro v hv
  rw [write, hm.slotAt] at hv
  rw [hm.tx]
  rcases or_eq_some_iff.mp hv with hnew | ⟨-, hold⟩
  · exact hu v hnew
  · rcases ht v hold with hcontent | ⟨hindex, hmem⟩
    · exact .inl hcontent
    · rw [g.indexed _ hmem _ htx hhash] at hindex
      exact .inr ⟨hindex, htx⟩

lemma written_merged (hm : TxWithChanges.Merged t u m) (h : g.Written t ∨ g.Written u) :
    g.Written m := by
  have hindex := hm.index
  unfold Written write
  rw [hm.slotAt, hm.tx, isSome_or, Bool.or_eq_true]
  rcases h with ⟨hlast, hwrite⟩ | ⟨hlast, hwrite⟩
  · exact ⟨by omega, .inr hwrite⟩
  · exact ⟨hlast, .inl hwrite⟩

lemma mergeLast_ok (h : mergeLast u txs = .ok txs') (hany : ∃ t ∈ txs, t.tx.hash = u.tx.hash) :
    ∃ l₁ t l₂ t', txs = l₁ ++ t :: l₂ ∧ txs' = l₁ ++ t' :: l₂ ∧ t.tx.hash = u.tx.hash ∧
      t.merge u = .ok t' := by
  induction txs generalizing txs' with
  | nil =>
    obtain ⟨t, ht, -⟩ := hany
    cases ht
  | cons t txs ih =>
    unfold mergeLast at h
    split_ifs at h with hfound
    · obtain ⟨t', hmerge, rfl⟩ := ok_of_map_ok h
      exact ⟨[], t, txs, t', rfl, rfl, hfound.1, hmerge⟩
    · obtain ⟨rest, hrest, rfl⟩ := ok_of_map_ok h
      have hlater : ∃ t ∈ txs, t.tx.hash = u.tx.hash := by
        obtain ⟨t₀, ht₀, hhash⟩ := hany
        rcases mem_cons.mp ht₀ with rfl | ht₀
        · by_contra hnone
          exact hfound ⟨hhash, fun t ht heq => hnone ⟨t, ht, heq⟩⟩
        · exact ⟨t₀, ht₀, hhash⟩
      obtain ⟨l₁, t₁, l₂, t', rfl, rfl, hhash, hmerge⟩ := ih hrest hlater
      exact ⟨t :: l₁, t₁, l₂, t', rfl, rfl, hhash, hmerge⟩

section
variable {P : TxWithChanges → Prop} {l₁ l₂ : List TxWithChanges} {t t' : TxWithChanges}
  (ht : P t → P t')
include ht

lemma forall_mem_replace (h : ∀ x ∈ l₁ ++ t :: l₂, P x) : ∀ x ∈ l₁ ++ t' :: l₂, P x := by
  rw [forall_mem_append, forall_mem_cons] at h ⊢
  exact ⟨h.1, ht h.2.1, h.2.2⟩

lemma exists_mem_replace (h : ∃ x ∈ l₁ ++ t :: l₂, P x) : ∃ x ∈ l₁ ++ t' :: l₂, P x := by
  simp only [mem_append, mem_cons, or_and_right, exists_or, exists_eq_left] at h ⊢
  exact h.imp_right (Or.imp_left ht)

end

lemma mergeUpdate_ok {acc acc' : List TxWithChanges × List TxWithChanges}
    (h : mergeUpdate acc u = .ok acc') :
    acc'.1 ++ acc'.2 = acc.1 ++ acc.2 ++ [u] ∨
      ∃ l₁ t l₂ t', acc.1 ++ acc.2 = l₁ ++ t :: l₂ ∧ acc'.1 ++ acc'.2 = l₁ ++ t' :: l₂ ∧
        t.tx.hash = u.tx.hash ∧ t.merge u = .ok t' := by
  unfold mergeUpdate at h
  split_ifs at h with hany
  · obtain ⟨merged, hmerge, rfl⟩ := ok_of_map_ok h
    obtain ⟨l₁, t, l₂, t', hl, rfl, hhash, ht'⟩ := mergeLast_ok hmerge (by simpa using hany)
    exact .inr ⟨l₁, t, l₂ ++ acc.2, t', by simp [hl], by simp, hhash, ht'⟩
  · cases h
    exact .inl (append_assoc _ _ _).symm

variable {updates : List TxWithChanges}

lemma mergeUpdates_current (h : mergeUpdates txs updates = .ok txs') (hcur : ∀ t ∈ txs, g.Current t)
    (hupdates : ∀ u ∈ updates, g.Current u ∧ u.tx ∈ g.transactions) : ∀ t ∈ txs', g.Current t := by
  obtain ⟨⟨merged, new⟩, hfold, hout⟩ := ok_of_bind_ok h
  cases hout
  refine foldlM_ok_invariant (P := fun acc : List TxWithChanges × List TxWithChanges =>
    ∀ t ∈ acc.1 ++ acc.2, g.Current t) ?_ (by simpa using hcur) hfold
  intro acc u acc' hu haccount hstep
  obtain ⟨hcurrentU, htx⟩ := hupdates u hu
  rcases mergeUpdate_ok hstep with hnew | ⟨l₁, t, l₂, t', hold, hnew, hhash, hmerge⟩
  · rw [hnew]
    exact forall_mem_append.mpr ⟨haccount, forall_mem_singleton.mpr hcurrentU⟩
  · rw [hold] at haccount
    rw [hnew]
    exact forall_mem_replace
      (fun ht => g.current_merged (TxWithChanges.merge_ok hmerge) ht hcurrentU hhash htx) haccount

lemma mergeUpdate_written {acc acc' : List TxWithChanges × List TxWithChanges}
    (h : mergeUpdate acc u = .ok acc')
    (hwritten : g.Written u ∨ ∃ t ∈ acc.1 ++ acc.2, g.Written t) :
    ∃ t ∈ acc'.1 ++ acc'.2, g.Written t := by
  rcases mergeUpdate_ok h with hnew | ⟨l₁, t, l₂, t', hold, hnew, hhash, hmerge⟩
  · rw [hnew]
    rcases hwritten with hu | ⟨t, ht, hw⟩
    · exact ⟨u, by simp, hu⟩
    · exact ⟨t, mem_append_left _ ht, hw⟩
  · have hmerged := TxWithChanges.merge_ok hmerge
    rw [hnew]
    rw [hold] at hwritten
    rcases hwritten with hu | ⟨x, hx, hw⟩
    · exact ⟨t', by simp, g.written_merged hmerged (.inr hu)⟩
    · exact exists_mem_replace (fun ht => g.written_merged hmerged (.inl ht)) ⟨x, hx, hw⟩

lemma mergeUpdates_written (h : mergeUpdates txs updates = .ok txs')
    (hwritten : (∃ t ∈ txs, g.Written t) ∨ ∃ u ∈ updates, g.Written u) :
    ∃ t ∈ txs', g.Written t := by
  obtain ⟨⟨merged, new⟩, hfold, hout⟩ := ok_of_bind_ok h
  cases hout
  rcases hwritten with hold | ⟨u, hu, hnew⟩
  · exact foldlM_ok_invariant (P := fun acc : List TxWithChanges × List TxWithChanges =>
      ∃ t ∈ acc.1 ++ acc.2, g.Written t)
      (fun acc u acc' _ haccount hstep => g.mergeUpdate_written hstep (.inr haccount))
      (by simpa using hold) hfold
  · refine foldlM_ok_forall (P := fun _ => True) (Q := fun u acc => g.Written u →
      ∃ t ∈ acc.1 ++ acc.2, g.Written t) ?_ trivial hfold u hu hnew
    intro acc u acc' _ _ hstep
    exact ⟨trivial, fun hw => g.mergeUpdate_written hstep (.inl hw),
      fun u' haccount hw => g.mergeUpdate_written hstep (.inr (haccount hw))⟩

end
section
variable {tx : Transaction} {f : TxWithChanges → Except MergeError TxWithChanges}

/-- One transaction is changed, a known one or an empty one. -/
lemma withTx_ok (h : withTx tx f txs = .ok txs') :
    ∃ l₁ t l₂ t', (l₁ ++ t :: l₂ = txs ∨ l₁ ++ t :: l₂ = txs ++ [.empty tx]) ∧
      txs' = l₁ ++ t' :: l₂ ∧ f t = .ok t' := by
  induction txs generalizing txs' with
  | nil =>
    obtain ⟨t', hf, rfl⟩ := ok_of_map_ok h
    exact ⟨[], .empty tx, [], t', .inr rfl, rfl, hf⟩
  | cons t txs ih =>
    unfold withTx at h
    split_ifs at h with hhash
    · obtain ⟨t', hf, rfl⟩ := ok_of_map_ok h
      exact ⟨[], t, txs, t', .inl rfl, rfl, hf⟩
    · obtain ⟨rest, hrest, rfl⟩ := ok_of_map_ok h
      obtain ⟨l₁, t₁, l₂, t', hl, rfl, hf⟩ := ih hrest
      refine ⟨t :: l₁, t₁, l₂, t', ?_, rfl, hf⟩
      rw [cons_append, cons_append, cons_inj_right, cons_inj_right]
      exact hl

variable {w : Option (Option StoreVal)}
  (hf : ∀ t t', f t = .ok t' → t'.tx = t.tx ∧ g.write t' = w.or (g.write t))
include hf

/-- Transactions stay current when the final content is written to one of them. -/
lemma withTx_current (hw : ∀ v, w = some v → slotContent v = g.content)
    (h : withTx tx f txs = .ok txs') (hcur : ∀ t ∈ txs, g.Current t) :
    ∀ t ∈ txs', g.Current t := by
  obtain ⟨l₁, t, l₂, t', hl, rfl, ht'⟩ := withTx_ok h
  have hall : ∀ x ∈ l₁ ++ t :: l₂, g.Current x := by
    rcases hl with hl | hl
    · rwa [hl]
    · rw [hl]
      refine forall_mem_append.mpr ⟨hcur, forall_mem_singleton.mpr ?_⟩
      intro v hv
      cases hv
  refine forall_mem_replace (fun ht v hv => ?_) hall
  obtain ⟨htx, hwrite⟩ := hf t t' ht'
  rw [hwrite] at hv
  rw [htx]
  rcases or_eq_some_iff.mp hv with hnew | ⟨-, hold⟩
  · exact .inl (hw v hnew)
  · exact ht v hold

lemma withTx_written (h : withTx tx f txs = .ok txs')
    (hwrite : w.isSome ∧ g.last = 0 ∨ ∃ t ∈ txs, g.Written t) : ∃ t ∈ txs', g.Written t := by
  obtain ⟨l₁, t, l₂, t', hl, rfl, ht'⟩ := withTx_ok h
  obtain ⟨htx, hwritten⟩ := hf t t' ht'
  rcases hwrite with ⟨hw, hlast⟩ | ⟨x, hx, hx'⟩
  · refine ⟨t', by simp, by omega, ?_⟩
    rw [hwritten, isSome_or, hw, Bool.true_or]
  · have hmem : x ∈ l₁ ++ t :: l₂ := by
      rcases hl with hl | hl
      · rwa [hl]
      · rw [hl]
        exact mem_append_left _ hx
    refine exists_mem_replace (fun ht => ⟨by rw [htx]; exact ht.1, ?_⟩) ⟨x, hmem, hx'⟩
    rw [hwritten, isSome_or, ht.2, Bool.or_true]

end

section
variable {account : Address} {tx : Transaction} {delta : AccountDelta}

def writeOf (account : Address) (delta : AccountDelta) : Option (Option StoreVal) :=
  if account = g.account then delta.slots.lookup g.slot else none

lemma insertAccountDelta_write {t t' : TxWithChanges}
    (h : (match t.accountDeltas.lookup account with
      | some existing => (existing.merge delta).map fun merged =>
        { t with accountDeltas := t.accountDeltas.insert account merged }
      | none => Except.ok { t with accountDeltas := t.accountDeltas.insert account delta }) =
      .ok t') :
    t'.tx = t.tx ∧ g.write t' = (g.writeOf account delta).or (g.write t) := by
  unfold write writeOf slotAt
  split at h
  · rename_i existing hexisting
    obtain ⟨merged, hmerge, rfl⟩ := ok_of_map_ok h
    refine ⟨rfl, ?_⟩
    split_ifs with haccount
    · rw [← haccount, hexisting, lookup_insert]
      exact AccountDelta.merge_slots hmerge g.slot
    · rw [lookup_insert_ne (Ne.symm haccount), none_or]
  · rename_i hnone
    cases h
    refine ⟨rfl, ?_⟩
    split_ifs with haccount
    · rw [← haccount, hnone, lookup_insert, bind_none, or_none]
      rfl
    · rw [lookup_insert_ne (Ne.symm haccount), none_or]

variable {accounts rest : HashMap Address AccountDelta} {entries : List (Address × Transaction)}

lemma injectAccount_ok (h : injectAccount acc entry = .ok acc') :
    ∃ delta, acc.1.lookup entry.1 = some delta ∧
      insertAccountDelta acc.2 entry.1 entry.2 delta = .ok acc'.2 ∧
      acc'.1 = acc.1.erase entry.1 := by
  unfold injectAccount at h
  split at h
  · rename_i delta hdelta
    obtain ⟨txs, htxs, rfl⟩ := ok_of_map_ok h
    exact ⟨delta, hdelta, ok_of_mapError_ok htxs, rfl⟩
  · cases h

/-- The accounts that are left are those of the answer. -/
def Left (accounts : HashMap Address AccountDelta)
    (acc : HashMap Address AccountDelta × List TxWithChanges) : Prop :=
  ∀ a delta, acc.1.lookup a = some delta → accounts.lookup a = some delta

lemma left_injectAccount (h : injectAccount acc entry = .ok acc') (hleft : Left accounts acc) :
    Left accounts acc' := by
  obtain ⟨_, -, -, herase⟩ := injectAccount_ok h
  intro a delta hdelta
  rw [herase, HashMap.lookup_erase_ite] at hdelta
  split_ifs at hdelta
  exact hleft a delta hdelta

/-- Transactions stay current when a snapshot is attributed to them, in any order. -/
lemma injectAccounts_current (h : entries.foldlM injectAccount (accounts, txs) = .ok (rest, txs'))
    (hcontent : ∀ entry ∈ entries, ∀ v, entry.1 = g.account →
      slotAt accounts g.account g.slot = some v → slotContent v = g.content)
    (hcur : ∀ t ∈ txs, g.Current t) : ∀ t ∈ txs', g.Current t := by
  refine (foldlM_ok_invariant (P := fun acc => Left accounts acc ∧ ∀ t ∈ acc.2, g.Current t) ?_
    ⟨fun _ _ hdelta => hdelta, hcur⟩ h).2
  rintro acc entry acc' hentry ⟨hleft, hacc⟩ hstep
  refine ⟨left_injectAccount hstep hleft, ?_⟩
  obtain ⟨delta, hdelta, hinsert, -⟩ := injectAccount_ok hstep
  refine g.withTx_current (fun t t' => g.insertAccountDelta_write) ?_ hinsert hacc
  intro v hv
  unfold writeOf at hv
  split_ifs at hv with haccount
  refine hcontent entry hentry v haccount ?_
  rw [slotAt, ← haccount, hleft _ _ hdelta]
  exact hv

lemma injectAccount_written (h : injectAccount acc entry = .ok acc') (hleft : Left accounts acc)
    (hwritten : (entry.1 = g.account ∧ (slotAt accounts g.account g.slot).isSome ∧ g.last = 0) ∨
      ∃ t ∈ acc.2, g.Written t) : ∃ t ∈ acc'.2, g.Written t := by
  obtain ⟨delta, hdelta, hinsert, -⟩ := injectAccount_ok h
  refine g.withTx_written (fun t t' => g.insertAccountDelta_write) hinsert ?_
  rcases hwritten with ⟨haccount, hsome, hlast⟩ | hold
  · refine .inl ⟨?_, hlast⟩
    rw [slotAt, ← haccount, hleft _ _ hdelta] at hsome
    rw [writeOf, if_pos haccount]
    exact hsome
  · exact .inr hold

/-- The last write stays, or the snapshot writes the slot and nothing else does. -/
lemma injectAccounts_written (h : entries.foldlM injectAccount (accounts, txs) = .ok (rest, txs'))
    (hwritten : (g.account ∈ entries.map Prod.fst ∧
      (slotAt accounts g.account g.slot).isSome ∧ g.last = 0) ∨ ∃ t ∈ txs, g.Written t) :
    ∃ t ∈ txs', g.Written t := by
  rcases hwritten with ⟨hmem, hsnap⟩ | hold
  · obtain ⟨entry, hentry, haccount⟩ := mem_map.mp hmem
    refine foldlM_ok_forall (P := Left accounts) (Q := fun entry acc => entry.1 = g.account →
      ∃ t ∈ acc.2, g.Written t) ?_ (fun _ _ hdelta => hdelta) h entry hentry haccount
    intro acc entry acc' _ hleft hstep
    exact ⟨left_injectAccount hstep hleft,
      fun haccount => g.injectAccount_written hstep hleft (.inl ⟨haccount, hsnap⟩),
      fun _ hacc haccount => g.injectAccount_written hstep hleft (.inr (hacc haccount))⟩
  · refine (foldlM_ok_invariant (P := fun acc => Left accounts acc ∧ ∃ t ∈ acc.2, g.Written t) ?_
      ⟨fun _ _ hdelta => hdelta, hold⟩ h).2
    rintro acc entry acc' _ ⟨hleft, hacc⟩ hstep
    exact ⟨left_injectAccount hstep hleft, g.injectAccount_written hstep hleft (.inr hacc)⟩

end
section
variable {entries : List (ComponentId × Transaction)} {attr : AttrStoreKey} {val : StoreVal}

lemma insertStateAttributeUpdate_write {t t' : TxWithChanges} {id : ComponentId}
    {delta : ProtocolComponentStateDelta}
    (h : (match t.stateUpdates.lookup id with
      | none => Except.ok { t with stateUpdates := t.stateUpdates.insert id delta }
      | some existing => (existing.merge delta).map fun merged =>
        { t with stateUpdates := t.stateUpdates.insert id merged }) = .ok t') :
    t'.tx = t.tx ∧ g.write t' = none.or (g.write t) := by
  split at h
  · cases h
    exact ⟨rfl, rfl⟩
  · obtain ⟨merged, -, rfl⟩ := ok_of_map_ok h
    exact ⟨rfl, rfl⟩

section
variable (h : entries.foldlM (fun txs e => (insertStateAttributeUpdate txs e.1 e.2 attr
  val).mapError DciError.mergeError) txs = .ok txs')
include h

lemma pause_current (hcur : ∀ t ∈ txs, g.Current t) : ∀ t ∈ txs', g.Current t := by
  refine foldlM_ok_invariant (P := fun txs => ∀ t ∈ txs, g.Current t) ?_ hcur h
  intro txs entry txs' _ htxs hstep
  exact g.withTx_current (fun t t' => g.insertStateAttributeUpdate_write)
    (fun v hv => (nomatch hv)) (ok_of_mapError_ok hstep) htxs

lemma pause_written (hwritten : ∃ t ∈ txs, g.Written t) : ∃ t ∈ txs', g.Written t := by
  refine foldlM_ok_invariant (P := fun txs => ∃ t ∈ txs, g.Written t) ?_ hwritten h
  intro txs entry txs' _ htxs hstep
  exact g.withTx_written (fun t t' => g.insertStateAttributeUpdate_write) (ok_of_mapError_ok hstep)
    (.inr htxs)

end

end
end SlotEnd

end Tycho
