import Tycho.Indexer.RevertRestores

/-! A revert and the contract storage and balances of a client. -/
namespace Tycho
open Collections Replay Revert Option TxWithChanges HashMap Store

def replayAccount (txs : List TxWithChanges) (a : Address) (s : Account) :
    Except MergeError Account :=
  txs.foldlM (fun s t => applyAccountAt t.accountDeltas a s) s

def replayBalances (txs : List TxWithChanges) (c : ComponentId)
    (balances : HashMap Address ComponentBalance) : HashMap Address ComponentBalance :=
  txs.foldl (fun m t => overwriteAt t.balanceChanges c m) balances

variable {k : StoreKey} {s s' : Account} {a : Address} {c : ComponentId}

section
variable {txs : List TxWithChanges} {a : Address}

lemma accountWriteAt_slot (deltas : HashMap Address AccountDelta) (a : Address) (k : StoreKey) :
    accountWriteAt deltas a (.slot k) = ((deltas.lookup a).bind fun delta =>
      (delta.slots.lookup k).map (·.getD .new)).map fun v => some (.bytes v) := by
  unfold accountWriteAt
  cases deltas.lookup a with
  | none => rfl
  | some =>
    simp only [bind_some, AccountDelta.write, map_map]
    rfl

lemma slot_of_cell {w : Option StoreVal}
    (h : s'.cell (.slot k) = (w.map fun v => some (Account.CellVal.bytes v)).getD
      (s.cell (.slot k)))
    :
    s'.slots.lookup k = w.or (s.slots.lookup k) := by
  have hinject : Function.Injective Account.CellVal.bytes := fun v v' hv => by
    cases hv
    rfl
  refine map_injective hinject (h.trans ?_)
  cases w <;> rfl

lemma replayAccount_slots (h : replayAccount txs a s = .ok s') :
    s'.frame = s.frame ∧ ∀ k, s'.slots.lookup k =
      (lastWrite slotUpdate txs (a, k)).or (s.slots.lookup k) := by
  have hreplay := Overwrites.replay (l := txs) fun t _ => applyAccountAt_overwrites t.accountDeltas
    a
  obtain ⟨hframe, hcells⟩ := hreplay.view_of_ok h
  refine ⟨hframe, fun k => slot_of_cell ((hcells (.slot k)).trans ?_)⟩
  have hlast : lastWrite (fun t => accountWriteAt t.accountDeltas a) txs (.slot k) =
      (lastWrite slotUpdate txs (a, k)).map fun v => some (.bytes v) := by
    rw [← lastWrite_map_value]
    exact lastWrite_congr fun t _ => accountWriteAt_slot t.accountDeltas a k
  rw [hlast]

end

namespace Reorg
variable (r : Reorg) (D : Store) (msg : BlockAggregatedChanges)

def ChangesSlot (a : Address) (k : StoreKey) : Prop :=
  ∃ t ∈ r.revertedTxs, ∃ delta, t.accountDeltas.lookup a = some delta ∧ k ∈ delta.slots

def ChangesBalance (c : ComponentId) (token : Address) : Prop :=
  ∃ t ∈ r.revertedTxs, ∃ balances, t.balanceChanges.lookup c = some balances ∧ token ∈ balances

/-- A message gives accounts their slots back. A changed slot that was not there before is
empty. -/
def RestoresSlots : Prop :=
  ∀ a (s before after : Account), ¬ CreatedIn r.revertedTxs a.toString → s.address = a →
    s.chain = r.extractor.chain → (∀ k, s.slots.lookup k = D.slot a k) →
    replayAccount r.keptTxs a s = .ok before → replayAccount r.revertedTxs a before = .ok after →
    ∃ restored, applyAccountAt msg.accountDeltas a after = .ok restored ∧ ∀ k, (r.ChangesSlot a k →
        restored.slots.lookup k = some ((before.slots.lookup k).getD .new)) ∧
      (¬ r.ChangesSlot a k → restored.slots.lookup k = before.slots.lookup k)

/-- A message gives components their balances back. A changed balance that was not there before
is empty. -/
def RestoresBalances : Prop :=
  ∀ c (balances : HashMap Address ComponentBalance), ¬ CreatedIn r.revertedTxs c →
    (∀ t, balances.lookup t = D.componentBalances.lookup₂ c t) →
    let before := replayBalances r.keptTxs c balances
    let restored := overwriteAt msg.componentBalances c (replayBalances r.revertedTxs c before)
    ∀ t, (r.ChangesBalance c t →
        restored.lookup t = some ((before.lookup t).getD ⟨t, .new, .zero, .new, c⟩)) ∧
      (¬ r.ChangesBalance c t → restored.lookup t = before.lookup t)

variable {r D msg}

lemma mem_accountStateKeys :
    (a, k) ∈ accountStateKeys (revertedComponents r.revertedTxs).1 r.revertedTxs ↔
      ¬ CreatedIn r.revertedTxs a.toString ∧ r.ChangesSlot a k := by
  rw [accountStateKeys, mem_collectKeys, decide_eq_true_eq, mem_creations]
  rfl

lemma mem_componentBalanceKeys {t : Address} :
    (c, t) ∈ componentBalanceKeys (revertedComponents r.revertedTxs).1 r.revertedTxs ↔
      ¬ CreatedIn r.revertedTxs c ∧ r.ChangesBalance c t := by
  rw [componentBalanceKeys, mem_collectKeys, decide_eq_true_eq, mem_creations]
  rfl

lemma lastWrite_slotUpdate_eq_none (h : ¬ r.ChangesSlot a k) :
    lastWrite slotUpdate r.revertedTxs (a, k) = none := by
  rw [lastWrite_eq_none_iff]
  intro t ht
  refine bind_eq_none_iff.mpr fun delta hd => ?_
  rw [AList.lookup_eq_none.mpr fun hk => h ⟨t, ht, delta, hd, hk⟩]
  rfl

lemma lastWrite_componentBalance_eq_none {token : Address} (h : ¬ r.ChangesBalance c token) :
    lastWrite componentBalance r.revertedTxs (c, token) = none := by
  rw [lastWrite_eq_none_iff]
  intro t ht
  exact bind_eq_none_iff.mpr fun balances hb =>
    AList.lookup_eq_none.mpr fun hk => h ⟨t, ht, balances, hb, hk⟩

lemma restoresSlots (hparts : Parts D.gateway r.buffer r.extractor r.revertedTxs msg) :
    r.RestoresSlots D msg := by
  intro a s before after ha hadd hchain hslots hbefore hafter
  obtain ⟨deltas, hdeltas, hmem, hspec⟩ := accountDeltas_spec rfl r.buffer r.extractor.chain
    (accountStateKeys (revertedComponents r.revertedTxs).1 r.revertedTxs)
  cases hdeltas.symm.trans hparts.accountDeltas
  obtain ⟨hframe, hkept⟩ := replayAccount_slots hbefore
  obtain ⟨hframe', hrev⟩ := replayAccount_slots hafter
  have hframe'' : after.frame = s.frame := hframe'.trans hframe
  have hcheck : accountCheckAt msg.accountDeltas a after.frame = none := by
    refine bind_eq_none_iff.mpr fun delta hd => if_neg (not_not.mpr ?_)
    obtain ⟨ha', hc', -⟩ := hspec a delta hd
    rw [hframe'', ha', hc', ← hadd, ← hchain]
    rfl
  obtain ⟨restored, hrestore, -, hcells⟩ :=
    (applyAccountAt_overwrites msg.accountDeltas a).writes after hcheck
  have hwrite : ∀ k, restored.slots.lookup k = ((msg.accountDeltas.lookup a).bind fun delta =>
        (delta.slots.lookup k).map (·.getD .new)).or (after.slots.lookup k) := by
    intro k
    exact slot_of_cell ((hcells (.slot k)).trans (by rw [accountWriteAt_slot]))
  refine ⟨restored, hrestore, fun k => ⟨fun hk => ?_, fun hk => ?_⟩⟩
  · have hkey := mem_accountStateKeys.mpr ⟨ha, hk⟩
    obtain ⟨delta, hd⟩ := mem_iff_lookup.mp ((hmem a).mpr ⟨k, hkey⟩)
    rw [hwrite, hd, bind_some, (hspec a delta hd).2.2.1 k hkey, hkept, hslots]
    rfl
  · have hkey : (a, k) ∉ accountStateKeys (revertedComponents r.revertedTxs).1 r.revertedTxs :=
      fun hkey => hk (mem_accountStateKeys.mp hkey).2
    have hnone : ((msg.accountDeltas.lookup a).bind fun delta =>
        (delta.slots.lookup k).map (·.getD .new)) = none :=
      bind_eq_none_iff.mpr fun delta hd => by rw [(hspec a delta hd).2.2.2 k hkey, map_none]
    rw [hwrite, hnone, hrev, lastWrite_slotUpdate_eq_none hk]
    rfl

lemma lookup_replayBalances (txs : List TxWithChanges) (c : ComponentId)
    (balances : HashMap Address ComponentBalance) (t : Address) :
    (replayBalances txs c balances).lookup t =
      (lastWrite componentBalance txs (c, t)).or (balances.lookup t) := by
  rw [replayBalances, lookup_foldl_overwriteAt]
  rfl

lemma restoresBalances (hparts : Parts D.gateway r.buffer r.extractor r.revertedTxs msg) :
    r.RestoresBalances D msg := by
  intro c balances hc hbal before restored t
  obtain ⟨found, hfound, hspec⟩ := getComponentBalances_spec r.buffer rfl
    (componentBalanceKeys (revertedComponents r.revertedTxs).1 r.revertedTxs)
  cases hfound.symm.trans hparts.componentBalances
  have hrestore : restored.lookup t = (msg.componentBalances.lookup₂ c t).or
      ((replayBalances r.revertedTxs c before).lookup t) := lookup_overwriteAt _ _ _ _
  have hbefore : before.lookup t = componentBalanceAfter D r.keptTxs c t := by
    rw [lookup_replayBalances, hbal]
    rfl
  constructor
  · intro hk
    rw [hrestore, (hspec c t).1 (mem_componentBalanceKeys.mpr ⟨hc, hk⟩), hbefore]
    rfl
  · intro hk
    rw [hrestore, (hspec c t).2 (fun hkey => hk (mem_componentBalanceKeys.mp hkey).2),
      lookup_replayBalances, lastWrite_componentBalance_eq_none hk]
    rfl

/-- Whenever a revert has a message, it gives accounts their slots and components their balances
back. -/
theorem restores_slots_and_balances (r : Reorg) (D : Store) :
    ((∃ msg e, r.extractor.handleRevert D.gateway r.processRevert r.signal = .ok (some msg, e)) ↔
      r.reverted ≠ [] ∧ ∀ c a, ¬ CreatedIn r.revertedTxs c → r.LooksUp c a →
        (∀ t ∈ r.keptTxs, t.attributeUpdate (c, a) = none) → ∃ a', D.attr c a' ≠ none) ∧
    ∀ msg e, r.extractor.handleRevert D.gateway r.processRevert r.signal = .ok (some msg, e) →
      r.RestoresSlots D msg ∧ r.RestoresBalances D msg := by
  refine ⟨handleRevert_isOk_iff, fun msg e hrevert => ?_⟩
  obtain ⟨hparts, -⟩ := r.parts_of_handleRevert hrevert
  exact ⟨restoresSlots hparts, restoresBalances hparts⟩

/-- A transaction that sets slots and a token balance of a vault, and the same balance of a
pool. -/
def vaultTx (slots : List (StoreKey × Option StoreVal)) (balance : Balance) : TxWithChanges :=
  { empty default with
    accountDeltas := ofList [(⟨[10]⟩, ⟨.ethereum, ⟨[10]⟩, ofList slots, none, none, .update⟩)]
    balanceChanges := ofList [("pool", ofList [(⟨[11]⟩, ⟨⟨[11]⟩, balance, .zero, .new, "pool"⟩)])]
    accountBalanceChanges := ofList [(⟨[10]⟩, ofList [(⟨[11]⟩, ⟨⟨[10]⟩, ⟨[11]⟩, balance, .new⟩)])] }

/-- Block 2 changes the balances again, with or without a slot. -/
def vaultReorg (slotChanges : Bool) : Reorg :=
  poolReorg [vaultTx [(⟨[0]⟩, some ⟨[1]⟩)] ⟨[1]⟩]
    [poolBlock 2 [vaultTx (if slotChanges then [(⟨[0]⟩, some ⟨[2]⟩)] else []) ⟨[2]⟩]]
    (by cases slotChanges <;> decide) (by cases slotChanges <;> decide)

theorem restores_slots_and_balances_vaultReorg : ∃ msg e,
    (vaultReorg true).extractor.handleRevert (gateway ⟨∅, ∅, ∅, ∅⟩)
      (vaultReorg true).processRevert (vaultReorg true).signal = .ok (some msg, e) ∧
    (vaultReorg true).RestoresSlots ⟨∅, ∅, ∅, ∅⟩ msg ∧
    (vaultReorg true).RestoresBalances ⟨∅, ∅, ∅, ∅⟩ msg :=
  ⟨_, _, rfl, (restores_slots_and_balances (vaultReorg true) ⟨∅, ∅, ∅, ∅⟩).2 _ _ rfl⟩

section
variable (r D msg)

def ChangesAccountBalance (a token : Address) : Prop :=
  ∃ t ∈ r.revertedTxs, ∃ balances,
    t.accountBalanceChanges.lookup a = some balances ∧ token ∈ balances

/-- A message has the previous value of every token balance that was changed. -/
def RestoresAccountBalances : Prop :=
  ∀ a token, r.ChangesAccountBalance a token → msg.accountBalances.lookup₂ a token =
    some ((accountBalanceAfter D r.keptTxs a token).getD ⟨a, token, .new, .new⟩)

/-- The balances of an account are restored only along with its slots. -/
def SlotsChange : Prop :=
  ∀ a token, r.ChangesAccountBalance a token →
    ¬ CreatedIn r.revertedTxs a.toString ∧ ∃ k, r.ChangesSlot a k

end

theorem restoresAccountBalances_iff {e : ProtocolExtractor}
    (hrevert : r.extractor.handleRevert D.gateway r.processRevert r.signal = .ok (some msg, e)) :
    r.RestoresAccountBalances D msg ↔ r.SlotsChange := by
  obtain ⟨hparts, -⟩ := r.parts_of_handleRevert hrevert
  obtain ⟨deltas, hdelta, hmem, -⟩ := accountDeltas_spec rfl r.buffer r.extractor.chain
    (accountStateKeys (revertedComponents r.revertedTxs).1 r.revertedTxs)
  cases hdelta.symm.trans hparts.accountDeltas
  obtain ⟨found, hfound, hspec⟩ := getAccountBalances_spec r.buffer rfl
    (accountBalanceKeys r.revertedTxs msg.accountDeltas)
  cases hfound.symm.trans hparts.accountBalances
  have hdeltas : ∀ a, a ∈ msg.accountDeltas ↔
      ¬ CreatedIn r.revertedTxs a.toString ∧ ∃ k, r.ChangesSlot a k := by
    intro a
    rw [hmem a, ← exists_and_left]
    exact exists_congr fun k => mem_accountStateKeys
  have hkey : ∀ a token, (a, token) ∈ accountBalanceKeys r.revertedTxs msg.accountDeltas ↔
      a ∈ msg.accountDeltas ∧ r.ChangesAccountBalance a token := by
    intro a token
    rw [accountBalanceKeys, mem_collectKeys, decide_eq_true_eq]
    rfl
  constructor
  · intro h a token hchange
    rw [← hdeltas]
    by_contra ha
    -- without a delta for the account, the message has no balance for it
    have hnone := (hspec a token).2 fun hin => ha ((hkey a token).mp hin).1
    rw [h a token hchange] at hnone
    cases hnone
  · intro h a token hchange
    exact (hspec a token).1 ((hkey a token).mpr ⟨(hdeltas a).mpr (h a token hchange), hchange⟩)

theorem restoresAccountBalances_iff_vaultReorg : ∃ msg e,
    (vaultReorg true).extractor.handleRevert (gateway ⟨∅, ∅, ∅, ∅⟩)
      (vaultReorg true).processRevert (vaultReorg true).signal = .ok (some msg, e) ∧
    ((vaultReorg true).RestoresAccountBalances ⟨∅, ∅, ∅, ∅⟩ msg ↔ (vaultReorg true).SlotsChange) :=
  ⟨_, _, rfl, restoresAccountBalances_iff rfl⟩

/-- The vault has a new balance in block 2 and no new slot, so its balance stays. -/
theorem not_restoresAccountBalances_vaultReorg : ∃ msg e,
    (vaultReorg false).extractor.handleRevert (gateway ⟨∅, ∅, ∅, ∅⟩)
      (vaultReorg false).processRevert (vaultReorg false).signal = .ok (some msg, e) ∧
    ¬ (vaultReorg false).RestoresAccountBalances ⟨∅, ∅, ∅, ∅⟩ msg := by
  refine ⟨_, _, rfl, fun h => ?_⟩
  have hback := h ⟨[10]⟩ ⟨[11]⟩ ⟨_, List.mem_singleton_self _, _, rfl, by decide⟩
  exact absurd hback (by decide)

/-- Whether a component is alive after some transactions. -/
def aliveAfter (alive : ComponentId → Bool) (txs : List TxWithChanges) (c : ComponentId) : Bool :=
  ((lastWrite event txs c).map (· == .creation)).getD (alive c)

/-- A message adds its new components and removes its deleted ones. -/
def applyComponents (msg : BlockAggregatedChanges) (alive : ComponentId → Bool) (c : ComponentId) :
    Bool :=
  (alive c || c ∈ msg.newProtocolComponents) && c ∉ msg.deletedProtocolComponents

/-- A revert restores which components are alive if the first event of each changes that. -/
theorem restoresComponents_iff {e : ProtocolExtractor} (alive : ComponentId → Bool)
    (hrevert : r.extractor.handleRevert D.gateway r.processRevert r.signal = .ok (some msg, e)) :
    (∀ c, applyComponents msg (aliveAfter alive r.revertedTxs) c = alive c) ↔
      ∀ c change, r.revertedTxs.findSome? (event · c) = some change →
        alive c = (change == .deletion) := by
  obtain ⟨-, -, hnew, hdeleted⟩ := r.parts_of_handleRevert hrevert
  refine forall_congr' fun c => ?_
  have hseen := seen_revertedComponents r.revertedTxs c
  unfold applyComponents
  rw [hnew, hdeleted]
  unfold seen at hseen
  split_ifs at hseen with hcreated hremoved
  · have hne : (ChangeType.creation == .deletion) = false := rfl
    simp only [← hseen, hcreated, Option.some.injEq, forall_eq', hne]
    simp
  · simp only [← hseen, hcreated, hremoved, Option.some.injEq, forall_eq']
    rw [@eq_comm Bool (alive c)]
    simp
  · have hnone : lastWrite event r.revertedTxs c = none :=
      (lastWrite_eq_none_iff ..).mpr (List.findSome?_eq_none_iff.mp hseen.symm)
    simp [← hseen, hcreated, hremoved, aliveAfter, hnone]

/-- Block 2 has an event of a pool that block 1 creates. -/
def recreated (change : ChangeType) : Reorg :=
  let tx (change : ChangeType) : TxWithChanges := { empty default with
    protocolComponents := ofList [("pool", { (default : ProtocolComponent) with change })] }
  poolReorg [tx .creation] [poolBlock 2 [tx change]] (by cases change <;> decide)
    (by cases change <;> decide)

theorem restoresComponents_iff_recreated : ∃ msg e,
    (recreated .deletion).extractor.handleRevert (gateway ⟨∅, ∅, ∅, ∅⟩)
      (recreated .deletion).processRevert (recreated .deletion).signal = .ok (some msg, e) ∧
    ((∀ c, applyComponents msg (aliveAfter (· == "pool") (recreated .deletion).revertedTxs) c =
        (c == "pool")) ↔
      ∀ c change, (recreated .deletion).revertedTxs.findSome? (event · c) = some change →
        (c == "pool") = (change == .deletion)) :=
  ⟨_, _, rfl, restoresComponents_iff (· == "pool") rfl⟩

/-- A pool that is created twice is removed with the second creation. -/
theorem not_restoresComponents_recreated : ∃ msg e,
    (recreated .creation).extractor.handleRevert (gateway ⟨∅, ∅, ∅, ∅⟩)
      (recreated .creation).processRevert (recreated .creation).signal = .ok (some msg, e) ∧
    aliveAfter (fun _ => false) (recreated .creation).keptTxs "pool" = true ∧
    applyComponents msg (aliveAfter (fun _ => false)
      ((recreated .creation).keptTxs ++ (recreated .creation).revertedTxs)) "pool" = false :=
  ⟨_, _, rfl, by decide, by decide⟩

end Reorg
end Tycho
