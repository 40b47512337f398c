import Tycho.Indexer.RevertState

/-! What a client has after a revert, compared with what it had before the reverted blocks. -/
namespace Tycho
open Collections Replay Revert Option TxWithChanges HashMap ProtocolComponentStateDelta
variable {c : ComponentId} {a : AttrStoreKey}

def replayState (txs : List TxWithChanges) (c : ComponentId) (s : ProtocolComponentState) :
    Except MergeError ProtocolComponentState :=
  txs.foldlM (fun s t => applyStateAt t.stateUpdates c s) s

def attrWrite (t : TxWithChanges) (key : ComponentId × AttrStoreKey) : Option (Option StoreVal) :=
  (t.stateUpdates.lookup key.1).bind fun delta => delta.write key.2

/-- The value of an attribute after some transactions on top of the database. -/
def attrAfter (D : Store) (txs : List TxWithChanges) (c : ComponentId) (a : AttrStoreKey) :
    Option StoreVal :=
  (lastWrite attrWrite txs (c, a)).getD (D.attr c a)

section
variable {D : Store} {txs : List TxWithChanges}

lemma attributeUpdate_of_attrWrite_none {t : TxWithChanges} (h : attrWrite t (c, a) = none) :
    t.attributeUpdate (c, a) = none := by
  refine bind_eq_none_iff.mpr fun delta hd => ?_
  have h := bind_eq_none_iff.mp h delta hd
  unfold write at h
  split_ifs at h
  simpa using h

lemma attributeUpdate_of_attrWrite_some {t : TxWithChanges} {v : StoreVal}
    (h : attrWrite t (c, a) = some (some v)) : t.attributeUpdate (c, a) = some v := by
  obtain ⟨delta, hd, h⟩ := bind_eq_some_iff.mp h
  unfold write at h
  split_ifs at h
  · cases h
  · exact bind_eq_some_iff.mpr ⟨delta, hd, by simpa using h⟩

/-- A revert finds the value that an attribute has; it may only miss that there is none. -/
lemma previousAttr_of_attrAfter {v : StoreVal} (h : attrAfter D txs c a = some v) :
    previousAttr D txs c a = some v := by
  unfold attrAfter at h
  unfold previousAttr
  cases hw : lastWrite attrWrite txs (c, a) with
  | none =>
    have hnone : lastWrite attributeUpdate txs (c, a) = none :=
      (lastWrite_eq_none_iff _).mpr fun t ht =>
        attributeUpdate_of_attrWrite_none ((lastWrite_eq_none_iff _).mp hw t ht)
    rw [hw] at h
    rw [hnone]
    exact h
  | some =>
    rw [hw, getD_some] at h
    subst h
    -- after the last write of the attribute, no transaction gives it a value
    obtain ⟨l₁, t, l₂, heq, ht, hl₂⟩ := (lastWrite_eq_some_iff _).mp hw
    have hlast : lastWrite attributeUpdate txs (c, a) = some v :=
      (lastWrite_eq_some_iff _).mpr ⟨l₁, t, l₂, heq, attributeUpdate_of_attrWrite_some ht,
        fun t' ht' => attributeUpdate_of_attrWrite_none (hl₂ t' ht')⟩
    rw [hlast]
    rfl

lemma replayState_ok (hk : ∀ t ∈ txs, ∃ chain, t.WellKeyed chain) {s : ProtocolComponentState}
    (hs : s.componentId = c) :
    ∃ s', replayState txs c s = .ok s' ∧ s'.componentId = c ∧ ∀ a, s'.attributes.lookup a =
      (lastWrite attrWrite txs (c, a)).getD (s.attributes.lookup a) := by
  have hreplay := Overwrites.replay (l := txs) fun t _ => applyStateAt_overwrites t.stateUpdates c
  obtain ⟨s', hs', hid, hcells⟩ := hreplay.writes s (by
    rw [List.findSome?_eq_none_iff]
    intro t ht
    obtain ⟨chain, hkey⟩ := hk t ht
    exact bind_eq_none_iff.mpr fun delta hd =>
      if_neg (not_not.mpr (hs.trans (hkey.states hd).symm)))
  refine ⟨s', hs', hid.trans hs, fun a => ?_⟩
  exact hcells (.attr a)

end

namespace Reorg
variable (r : Reorg) (D : Store)

/-- The attributes of a component that the database has. -/
def client (c : ComponentId) : ProtocolComponentState :=
  ⟨c, (D.protocolStates.lookup c).getD ∅, ∅⟩

/-- A revert gives every component that was there before the reverted blocks its attributes
back. -/
def RestoresAttributes : Prop :=
  ∃ msg e, r.extractor.handleRevert D.gateway r.processRevert r.signal = .ok (some msg, e) ∧
    ∀ c, ¬ CreatedIn r.revertedTxs c → ∃ before after restored,
      replayState r.keptTxs c (client D c) = .ok before ∧
      replayState r.revertedTxs c before = .ok after ∧
      applyStateAt msg.stateDeltas c after = .ok restored ∧
      ∀ a, restored.attributes.lookup a = before.attributes.lookup a

def CreatesAttr (c : ComponentId) (a : AttrStoreKey) : Prop :=
  ∃ t ∈ r.revertedTxs, ∃ delta, t.stateUpdates.lookup c = some delta ∧ a ∈ delta.createdAttributes

/-- A reverted transaction updates an attribute that the range does not introduce, or deletes an
attribute. -/
def LooksUp (c : ComponentId) (a : AttrStoreKey) : Prop :=
  ∃ t ∈ r.revertedTxs, ∃ delta, t.stateUpdates.lookup c = some delta ∧
    (a ∈ delta.updatedAttributes ∧ ¬ r.CreatesAttr c a ∨ a ∈ delta.deletedAttributes)

/-- What must hold for a revert to restore the attributes: something is reverted; every component
with an attribute to look up that no kept transaction updates has an attribute in the database; an
attribute that the range introduces had no value before; and an attribute to look up that has no
value before the range was never given one in the kept transactions or in the database. -/
structure Revertible : Prop where
  nonempty : r.reverted ≠ []
  known : ∀ c a, ¬ CreatedIn r.revertedTxs c → r.LooksUp c a →
    (∀ t ∈ r.keptTxs, t.attributeUpdate (c, a) = none) → ∃ a', D.attr c a' ≠ none
  created : ∀ c a, ¬ CreatedIn r.revertedTxs c → r.CreatesAttr c a →
    attrAfter D r.keptTxs c a = none
  deleted : ∀ c a, ¬ CreatedIn r.revertedTxs c → r.LooksUp c a → ¬ r.CreatesAttr c a →
    attrAfter D r.keptTxs c a = none →
      (∀ t ∈ r.keptTxs, t.attributeUpdate (c, a) = none) ∧ D.attr c a = none

variable {r D}

lemma mem_revertedCreated (hc : ¬ CreatedIn r.revertedTxs c) :
    a ∈ ((revertedCreated r.revertedTxs).lookup c).getD ∅ ↔ r.CreatesAttr c a := by
  rw [revertedCreated, mem_createdAttrs, mem_creations]
  exact and_iff_right hc

lemma mem_revertedStateKeys : (c, a) ∈ revertedStateKeys r.revertedTxs ↔
      ¬ CreatedIn r.revertedTxs c ∧ r.LooksUp c a := by
  rw [revertedStateKeys, mem_protocolStateKeys, mem_creations]
  refine and_congr_right fun hc => ?_
  simp only [mem_revertedCreated hc]
  rfl

lemma known_iff : Known D r.keptTxs (revertedStateKeys r.revertedTxs) ↔
    ∀ c a, ¬ CreatedIn r.revertedTxs c → r.LooksUp c a →
      (∀ t ∈ r.keptTxs, t.attributeUpdate (c, a) = none) → ∃ a', D.attr c a' ≠ none := by
  have hstate : ∀ c, D.state c ≠ none ↔ ∃ a', D.attr c a' ≠ none := fun c => by
    rw [Ne, D.state_eq_none_iff, not_forall]
  unfold Known
  simp only [mem_revertedStateKeys, lastWrite_eq_none_iff, hstate, and_imp]

lemma previousAttr_eq_none_iff {txs : List TxWithChanges} : previousAttr D txs c a = none ↔
      (∀ t ∈ txs, t.attributeUpdate (c, a) = none) ∧ D.attr c a = none := by
  rw [previousAttr, or_eq_none_iff, lastWrite_eq_none_iff]

/-- An attribute that is neither introduced nor looked up is not touched by the range. -/
lemma attrWrite_eq_none (hcreates : ¬ r.CreatesAttr c a) (hlooks : ¬ r.LooksUp c a) :
    lastWrite attrWrite r.revertedTxs (c, a) = none := by
  rw [lastWrite_eq_none_iff]
  intro t ht
  refine bind_eq_none_iff.mpr fun delta hd => ?_
  have hup : a ∉ delta.updatedAttributes := fun hup =>
    hlooks ⟨t, ht, delta, hd, .inl ⟨hup, hcreates⟩⟩
  have hdeleted : a ∉ delta.deletedAttributes :=
    fun ha => hlooks ⟨t, ht, delta, hd, .inr ha⟩
  rw [write, if_neg hdeleted, AList.lookup_eq_none.mpr hup]
  rfl

/-- What a client has for a component before the range, and after the message of the revert. -/
structure Client (r : Reorg) (D : Store) (msg : BlockAggregatedChanges) (c : ComponentId)
    (before after restored : ProtocolComponentState) : Prop where
  kept : replayState r.keptTxs c (client D c) = .ok before
  reverted : replayState r.revertedTxs c before = .ok after
  message : applyStateAt msg.stateDeltas c after = .ok restored
  before_attr : ∀ a, before.attributes.lookup a = attrAfter D r.keptTxs c a
  created : ∀ a, r.CreatesAttr c a → restored.attributes.lookup a = none
  lookedUp : ∀ a, ¬ r.CreatesAttr c a → r.LooksUp c a →
    restored.attributes.lookup a = previousAttr D r.keptTxs c a
  untouched : ∀ a, ¬ r.CreatesAttr c a → ¬ r.LooksUp c a →
    restored.attributes.lookup a = before.attributes.lookup a

lemma exists_client {msg : BlockAggregatedChanges}
    (hparts : Parts D.gateway r.buffer r.extractor r.revertedTxs msg)
    (hc : ¬ CreatedIn r.revertedTxs c) : ∃ before after restored,
      Client r D msg c before after restored := by
  obtain ⟨before, hbefore, hid, hattrs⟩ := replayState_ok (c := c) (s := client D c)
    (fun t ht => r.wellKeyed_of_mem (List.mem_append_left _ ht)) rfl
  obtain ⟨after, hafter, hid', hattrs'⟩ := replayState_ok
    (fun t ht => r.wellKeyed_of_mem (List.mem_append_right _ ht)) hid
  obtain ⟨hids, hwrites⟩ := stateDeltas_write rfl hparts.stateDeltas c
  obtain ⟨restored, hrestore, -, hcells⟩ :=
    (applyStateAt_overwrites msg.stateDeltas c).writes after (bind_eq_none_iff.mpr fun delta hd =>
      if_neg (not_not.mpr (hid'.trans (hids delta hd).symm)))
  have hrestoredAttr : ∀ a, restored.attributes.lookup a =
      ((msg.stateDeltas.lookup c).bind fun delta => delta.write a).getD
        (after.attributes.lookup a) := fun a => hcells (.attr a)
  have hbase : ∀ a, (client D c).attributes.lookup a = D.attr c a := by
    intro a
    unfold client Store.attr lookup₂
    cases D.protocolStates.lookup c <;> rfl
  refine ⟨before, after, restored, hbefore, hafter, hrestore, fun a => ?_, fun a h => ?_,
    fun a h h' => ?_, fun a h h' => ?_⟩
  · rw [hattrs, hbase]
    rfl
  · rw [hrestoredAttr, (hwrites a).1 ((mem_revertedCreated hc).mpr h)]
    rfl
  · rw [hrestoredAttr, (hwrites a).2.1 (fun hin => h ((mem_revertedCreated hc).mp hin))
      (mem_revertedStateKeys.mpr ⟨hc, h'⟩)]
    rfl
  · rw [hrestoredAttr, (hwrites a).2.2 (fun hin => h ((mem_revertedCreated hc).mp hin))
      (fun hin => h' (mem_revertedStateKeys.mp hin).2), getD_none, hattrs',
      attrWrite_eq_none h h']
    rfl

/-- A revert has a message unless there is nothing to revert, or the state of a component has to
be looked up and there is none. -/
lemma handleRevert_isOk_iff :
    (∃ msg e, r.extractor.handleRevert D.gateway r.processRevert r.signal = .ok (some msg, e)) ↔
      r.reverted ≠ [] ∧ ∀ c a, ¬ CreatedIn r.revertedTxs c → r.LooksUp c a →
        (∀ t ∈ r.keptTxs, t.attributeUpdate (c, a) = none) → ∃ a', D.attr c a' ≠ none := by
  have hkept : r.buffer.blockMessages ≠ [] := by
    intro hnil
    have hlast := r.last
    have hkept : r.kept = [] := hnil
    rw [hkept] at hlast
    cases hlast
  have hisOk : (∃ msg, r.message D.gateway = .ok msg) ↔ r.reverted ≠ [] ∧
      Known D r.keptTxs (revertedStateKeys r.revertedTxs) :=
    message_isOk_iff rfl rfl rfl rfl hkept
  rw [← known_iff]
  constructor
  · rintro ⟨msg, e, hrev⟩
    obtain ⟨hparts, hne, -⟩ := r.parts_of_handleRevert hrev
    exact ⟨hne, (stateDeltas_isOk_iff rfl).mp ⟨_, hparts.stateDeltas⟩⟩
  · intro h
    obtain ⟨msg, hmsg⟩ := hisOk.mpr h
    obtain ⟨e, hrev⟩ := r.handleRevert_of_message hmsg
    exact ⟨msg, e, hrev⟩

/-- A revert gives the components their attributes back exactly under these conditions. -/
theorem restoresAttributes_iff : r.RestoresAttributes D ↔ r.Revertible D := by
  constructor
  · rintro ⟨msg, e, hrev, hall⟩
    obtain ⟨hparts, hne, -⟩ := r.parts_of_handleRevert hrev
    have hknown := (handleRevert_isOk_iff.mp ⟨msg, e, hrev⟩).2
    -- the client of each component is determined, so the attributes can be compared
    have hsame : ∀ c, ¬ CreatedIn r.revertedTxs c → ∃ before after restored,
        Client r D msg c before after restored ∧
        ∀ a, restored.attributes.lookup a = attrAfter D r.keptTxs c a := by
      intro c hc
      obtain ⟨before, after, restored, hclient⟩ := exists_client hparts hc
      obtain ⟨before', after', restored', hb, ha, hm, heq⟩ := hall c hc
      cases hclient.kept.symm.trans hb
      cases hclient.reverted.symm.trans ha
      cases hclient.message.symm.trans hm
      exact ⟨before, after, restored, hclient, fun a => (heq a).trans (hclient.before_attr a)⟩
    refine ⟨hne, hknown, fun c a hc hcreates => ?_, fun c a hc hlooks hcreates h => ?_⟩
    · obtain ⟨before, after, restored, hclient, heq⟩ := hsame c hc
      rw [← heq, hclient.created a hcreates]
    · obtain ⟨before, after, restored, hclient, heq⟩ := hsame c hc
      rw [← previousAttr_eq_none_iff, ← hclient.lookedUp a hcreates hlooks, heq, h]
  · intro h
    obtain ⟨msg, e, hrev⟩ := handleRevert_isOk_iff.mpr ⟨h.nonempty, h.known⟩
    refine ⟨msg, e, hrev, fun c hc => ?_⟩
    obtain ⟨before, after, restored, hclient⟩ :=
      exists_client (r.parts_of_handleRevert hrev).1 hc
    refine ⟨before, after, restored, hclient.kept, hclient.reverted, hclient.message, fun a => ?_⟩
    by_cases hcreates : r.CreatesAttr c a
    · rw [hclient.created a hcreates, hclient.before_attr, h.created c a hc hcreates]
    · by_cases hlooks : r.LooksUp c a
      · rw [hclient.lookedUp a hcreates hlooks, hclient.before_attr]
        cases hafter : attrAfter D r.keptTxs c a with
        | some => exact previousAttr_of_attrAfter hafter
        | none =>
          exact previousAttr_eq_none_iff.mpr (h.deleted c a hc hlooks hcreates hafter)
      · exact hclient.untouched a hcreates hlooks

def poolTx (updated : List (AttrStoreKey × StoreVal)) (deleted created : List AttrStoreKey) :
    TxWithChanges :=
  { empty default with
    stateUpdates := ofList [("pool", ⟨"pool", ofList updated,
      HashSet.ofList deleted, HashSet.ofList created⟩)] }

def poolBlock (n : UInt8) (txs : List TxWithChanges) : BlockUpdateWithCursor where
  blockUpdate := {
    extractor := "pools"
    chain := .ethereum
    block := ⟨n.toNat, .ethereum, ⟨[n]⟩, ⟨[n - 1]⟩, n.toNat⟩
    finalizedBlockHeight := 0
    revert := false
    newTokens := ∅
    txsWithUpdate := txs
    blockContractChanges := []
    traceResults := []
    partialBlockIndex := none }
  cursor := ""

def poolReorg (kept : List TxWithChanges) (undone : List BlockUpdateWithCursor)
    (hash_ne : ∀ m ∈ undone, (block m).hash ≠ ⟨[1]⟩)
    (wellKeyed : ∀ m ∈ poolBlock 1 kept :: undone, m.blockUpdate.WellKeyed) : Reorg where
  extractor := ⟨"pools", .ethereum, 1, "", none, true, ⟨poolBlock 1 kept :: undone, false⟩, none⟩
  kept := [poolBlock 1 kept]
  undone := undone
  target := poolBlock 1 kept
  signal := ⟨some ⟨"0x01", 1⟩, ""⟩
  processRevert := fun _ => .ok ()
  firstMessageProcessed := rfl
  blockMessages := rfl
  last := rfl
  lastValidBlock := by
    have hhash : Bytes.fromStr "0x01" = .ok ⟨[1]⟩ := by decide
    exact ⟨⟨"0x01", 1⟩, rfl, hhash⟩
  accepted := rfl
  hash_ne := hash_ne
  wellKeyed := by
    intro b hb
    rw [toList_none, List.append_nil] at hb
    obtain ⟨m, hm, rfl⟩ := List.mem_map.mp hb
    exact wellKeyed m hm

/-- Block 1 sets the fee, block 2 deletes it and block 3 creates it again. -/
def recreatedFee : Reorg :=
  poolReorg [poolTx [("fee", ⟨[1]⟩)] [] []]
    [poolBlock 2 [poolTx [] ["fee"] []], poolBlock 3 [poolTx [("fee", ⟨[3]⟩)] [] ["fee"]]]
    (by decide) (by decide)

/-- The fee counts as created in the range, so it is deleted although it was set before. -/
theorem not_restoresAttributes_recreatedFee : ¬ recreatedFee.RestoresAttributes ⟨∅, ∅, ∅, ∅⟩ := by
  rintro ⟨msg, e, hrev, hall⟩
  obtain ⟨before, after, restored, hbefore, hafter, hrestore, hsame⟩ := hall "pool" (by decide)
  obtain ⟨msg', e', hrev', hfee⟩ : ∃ msg e, recreatedFee.extractor.handleRevert
      (Store.gateway ⟨∅, ∅, ∅, ∅⟩) recreatedFee.processRevert recreatedFee.signal =
        .ok (some msg, e) ∧ (applyStateAt msg.stateDeltas "pool"
      ⟨"pool", ofList [("fee", ⟨[3]⟩)], ∅⟩).map (fun s => s.attributes.lookup "fee") =
        .ok none := ⟨_, _, rfl, by decide⟩
  cases hrev.symm.trans hrev'
  have hbefore' : replayState recreatedFee.keptTxs "pool" (client ⟨∅, ∅, ∅, ∅⟩ "pool") =
    .ok ⟨"pool", ofList [("fee", ⟨[1]⟩)], ∅⟩ := rfl
  cases hbefore.symm.trans hbefore'
  have hafter' : replayState recreatedFee.revertedTxs "pool" ⟨"pool", ofList [("fee", ⟨[1]⟩)], ∅⟩ =
      .ok ⟨"pool", ofList [("fee", ⟨[3]⟩)], ∅⟩ := rfl
  cases hafter.symm.trans hafter'
  rw [hrestore] at hfee
  have hnone : restored.attributes.lookup "fee" = none := Except.ok.inj hfee
  exact absurd (hnone.symm.trans (hsame "fee")) (by decide)

end Reorg
end Tycho
