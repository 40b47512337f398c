import Tycho.Indexer.Rpc

/-! The state served at a block number, compared with the replay of the chain up to that block. -/
namespace Tycho
open Collections Replay List HashMap AccountDelta PendingDeltas

def BlockAggregatedChanges.number (m : BlockAggregatedChanges) : Nat := m.block.number

/-- Deltas of a message are filed under their own identifiers and are on the given chain, and
token balances come with a delta of their account, as `BlockChanges::try_from_message` and the
aggregation leave them. -/
structure BlockAggregatedChanges.WellKeyed (m : BlockAggregatedChanges) (chain : Chain) :
    Prop where
  stateEntries : ∀ e ∈ m.stateDeltas.toList, e.2.componentId = e.1
  accountEntries : ∀ e ∈ m.accountDeltas.toList, e.2.address = e.1 ∧ e.2.chain = chain
  balanceEntries : ∀ e ∈ m.accountBalances.toList, e.1 ∈ m.accountDeltas

/-- The cell of a component after some messages, replayed on an empty state. -/
def replayCell (messages : List BlockAggregatedChanges) (id : ComponentId)
    (k : ProtocolComponentState.Cell) : Option Bytes :=
  (lastWrite (fun m => nativeWrite m id) messages k).getD none

def baseCell : Account.Cell → Option Account.CellVal
  | .nativeBalance => some (.bytes .new)
  | .code => some (.bytes .new)
  | .slot _ => none
  | .tokenBalance _ => none

def replayAccountCell (messages : List BlockAggregatedChanges) (a : Address) (k : Account.Cell) :
    Option Account.CellVal :=
  (lastWrite (fun m => vmWrite m a) messages k).getD (baseCell k)

/-- An answer for some components holds their states after some messages. A component without
a state in the answer has nothing to tell. -/
structure ServesStates (states : List ProtocolComponentState) (ids : List ComponentId)
    (messages : List BlockAggregatedChanges) : Prop where
  sound : ∀ s ∈ states, s.componentId ∈ ids ∧ ∀ k, s.cell k = replayCell messages s.componentId k
  complete : ∀ id ∈ ids, (∃ s ∈ states, s.componentId = id) ∨ ∀ k, replayCell messages id k = none

/-- An answer for some accounts holds them as they are after some messages. -/
structure ServesAccounts (accounts : List Account) (addresses : List Address) (chain : Chain)
    (messages : List BlockAggregatedChanges) : Prop where
  sound : ∀ s ∈ accounts, s.address ∈ addresses ∧ s.chain = chain ∧
    ∀ k, s.cell k = replayAccountCell messages s.address k
  complete : ∀ a ∈ addresses, (∃ m ∈ messages, a ∈ m.accountDeltas) →
    ∃ s ∈ accounts, s.address = a

variable {a : Address} {l : List BlockAggregatedChanges}

variable {s : Account} {history : List BlockAggregatedChanges} {m : BlockAggregatedChanges}
  {o : Option Account} {b : ReorgBuffer BlockAggregatedChanges}

namespace BlockAggregatedChanges.WellKeyed
variable {m : BlockAggregatedChanges} {chain : Chain}

section
variable (h : m.WellKeyed chain)
include h

lemma stateCheckAt_eq_none (c : ComponentId) : stateCheckAt m.stateDeltas c c = none := by
  refine Option.bind_eq_none_iff.mpr fun delta hd => if_neg (not_not.mpr ?_)
  exact (h.stateEntries (c, delta) (mem_toList.mpr hd)).symm

lemma filed (hs : s.chain = chain) : m.Filed s := by
  intro delta hd
  obtain ⟨ha, hc⟩ := h.accountEntries (s.address, delta) (mem_toList.mpr hd)
  rw [hs, ha, hc]

lemma vmWrite_eq_none (ha : a ∉ m.accountDeltas) (k : Account.Cell) : vmWrite m a k = none := by
  have hb : m.accountBalances.lookup a = none := Option.eq_none_iff_forall_ne_some.mpr
    fun balances hb => ha (h.balanceEntries (a, balances) (mem_toList.mpr hb))
  rw [vmWrite, tokenBalanceWriteAt, accountWriteAt, hb, AList.lookup_eq_none.mpr ha]
  rfl

end

end BlockAggregatedChanges.WellKeyed

lemma replayCell_append (l l' : List BlockAggregatedChanges) (id : ComponentId)
    (k : ProtocolComponentState.Cell) :
    replayCell (l ++ l') id k =
      (lastWrite (fun m => nativeWrite m id) l' k).getD (replayCell l id k) := by
  rw [replayCell, replayCell, lastWrite_append, Option.getD_or]

lemma replayAccountCell_append (l l' : List BlockAggregatedChanges) (a : Address)
    (k : Account.Cell) :
    replayAccountCell (l ++ l') a k =
      (lastWrite (fun m => vmWrite m a) l' k).getD (replayAccountCell l a k) := by
  rw [replayAccountCell, replayAccountCell, lastWrite_append, Option.getD_or]

namespace PendingDeltas
variable {p : PendingDeltas} {name : String} {version : Option BlockNumberOrTimestamp}
  {messages : List BlockAggregatedChanges} {chain : Chain}

section
variable (he : p.entries version name = .ok messages)
include he

lemma updateVmState_ok (hk : ∀ m ∈ messages, m.Filed s) :
    ∃ s', (p.updateVmState s version name).map Prod.fst = .ok s' ∧
      s'.frame = s.frame ∧ ∀ k, s'.cell k =
        (lastWrite (fun m => vmWrite m s.address) messages k).getD (s.cell k) := by
  have hreplay := Overwrites.replay (l := messages) fun m _ => vmStep_overwrites m
  have hfiled : ∀ m ∈ messages, m.Filed s.frame := hk
  obtain ⟨st, hst, hid, hcells⟩ := hreplay.writes (s, false)
    (List.findSome?_eq_none_iff.mpr fun m hm => BlockAggregatedChanges.filed_iff.mp (hfiled m hm))
  refine ⟨st.1, ?_, hid, hcells⟩
  unfold updateVmState
  rw [he]
  change Except.map Prod.fst (Except.mapError _ _) = _
  rw [hst]
  rfl

variable (hk : ∀ m ∈ messages, m.WellKeyed chain)
include hk

/-- Well-keyed buffered messages can be applied to any state. -/
lemma updateNativeState_ok (s : ProtocolComponentState) :
    ∃ s', (p.updateNativeState s version name).map Prod.fst = .ok s' ∧
      s'.componentId = s.componentId ∧ ∀ k, s'.cell k =
        (lastWrite (fun m => nativeWrite m s.componentId) messages k).getD (s.cell k) := by
  have hreplay := Overwrites.replay (l := messages) fun m _ => nativeStep_overwrites m
  obtain ⟨st, hst, hid, hcells⟩ := hreplay.writes (s, false)
    (List.findSome?_eq_none_iff.mpr fun m hm => (hk m hm).stateCheckAt_eq_none s.componentId)
  refine ⟨st.1, ?_, hid, hcells⟩
  unfold updateNativeState
  rw [he]
  change Except.map Prod.fst (Except.mapError _ _) = _
  rw [hst]
  rfl

lemma mergeNativeStates_serves {ids : List ComponentId}
    {dbStates : List ProtocolComponentState} (hdb : ServesStates dbStates ids history) :
    ∃ states, p.mergeNativeStates ids dbStates version name = .ok states ∧
      ServesStates states ids (history ++ messages) := by
  have hupdate := updateNativeState_ok he hk
  obtain ⟨states, hok, hfrom, hall⟩ := completeWith_isOk ProtocolComponentState.componentId
    (fun id => (p.updateNativeState ⟨id, ∅, ∅⟩ version name).map Prod.fst) ids dbStates
    (fun s _ => ⟨_, (hupdate s).choose_spec.1, (hupdate s).choose_spec.2.1⟩)
    (fun id _ _ => ⟨_, (hupdate ⟨id, ∅, ∅⟩).choose_spec.1, (hupdate ⟨id, ∅, ∅⟩).choose_spec.2.1⟩)
  refine ⟨states, hok, ?_, fun id hin => .inl (hall id hin)⟩
  intro s' hs'
  rcases hfrom s' hs' with ⟨s, hs, hr⟩ | ⟨id, hin, hnot, hr⟩
  · obtain ⟨t, ht, hid, hcells⟩ := hupdate s
    cases ht.symm.trans hr
    obtain ⟨hin, hold⟩ := hdb.sound s hs
    rw [hid]
    refine ⟨hin, fun k => ?_⟩
    rw [hcells, replayCell_append, hold]
  · obtain ⟨t, ht, htid, hcells⟩ := hupdate ⟨id, ∅, ∅⟩
    cases ht.symm.trans hr
    have hnone : ∀ k, replayCell history id k = none := by
      rcases hdb.complete id hin with ⟨s, hs, hsides⟩ | hnone
      · exact absurd hsides (hnot s hs)
      · exact hnone
    rw [htid]
    refine ⟨hin, fun k => ?_⟩
    rw [hcells, replayCell_append, hnone]
    cases k <;> rfl

end

lemma replayAccountCell_of_untouched (hk : ∀ m ∈ l, m.WellKeyed chain)
    (h : ∀ m ∈ l, a ∉ m.accountDeltas) (k : Account.Cell) :
    replayAccountCell l a k = baseCell k := by
  have hnone : lastWrite (fun m => vmWrite m a) l k = none :=
    (lastWrite_eq_none_iff _).mpr fun m hm => (hk m hm).vmWrite_eq_none (h m hm) k
  rw [replayAccountCell, hnone]
  rfl

section
variable (keccak256 : Bytes → Bytes)

lemma cell_intoAccountWithoutTx (delta : AccountDelta) (k : Account.Cell) :
    (delta.intoAccountWithoutTx keccak256).cell k = (delta.write k).getD (baseCell k) := by
  cases k with
  | slot key =>
    change ((HashMap.ofList delta.slotValues).lookup key).map _ = _
    rw [lookup_ofList, lookup_slotValues, write]
    cases delta.slots.lookup key <;> rfl
  | nativeBalance => cases h : delta.balance <;> simp [Account.cell, write, h,
      intoAccountWithoutTx, toAccount, baseCell]
  | code => cases h : delta.code <;> simp [Account.cell, write, h,
      intoAccountWithoutTx, toAccount, baseCell]
  | tokenBalance => rfl

lemma accountStep_some (m : BlockAggregatedChanges) (s : Account) :
    accountStep keccak256 s.address (some s) m = (vmStep m (s, false)).map fun st => some st.1 := by
  unfold accountStep vmStep
  cases hd : m.accountDeltas.lookup s.address with
  | none =>
    cases hb : m.accountBalances.lookup s.address with
    | none => simp [bind, Except.bind, hb, Except.map, pure, Except.pure]
    | some => simp [bind, Except.bind, hb, Except.map, pure, Except.pure]
  | some delta =>
    cases hs : s.applyDelta delta with
    | error => simp [bind, Except.bind, hs, Except.map]
    | ok t =>
      have ht : t.address = s.address :=
        Account.address_eq_of_frame ((Account.applyDelta_overwrites delta).view_of_ok hs).1
      simp only [bind, Except.bind, hs, Except.map, pure, Except.pure, Option.elim_some,
        Option.getD_some, Option.map_some]
      rw [ht]
      cases m.accountBalances.lookup s.address <;> rfl

lemma accountStep_ok (hm : m.Filed s) :
    ∃ s', accountStep keccak256 s.address (some s) m = .ok (some s') ∧ s'.frame = s.frame ∧
      ∀ k, s'.cell k = (vmWrite m s.address k).getD (s.cell k) := by
  have hfiled : m.Filed s.frame := hm
  obtain ⟨st, hst, hframe, hcells⟩ := (vmStep_overwrites m).writes (s, false)
    (BlockAggregatedChanges.filed_iff.mp hfiled)
  refine ⟨st.1, ?_, hframe, hcells⟩
  rw [accountStep_some, hst]
  rfl

section
variable {before after : List BlockAggregatedChanges}

lemma foldlM_accountStep_absent (h : ∀ m ∈ l, a ∉ m.accountDeltas) :
    l.foldlM (accountStep keccak256 a) none = .ok none := by
  induction l with
  | nil => rfl
  | cons m l ih =>
    have hd : m.accountDeltas.lookup a = none := AList.lookup_eq_none.mpr (h m mem_cons_self)
    have hstep : accountStep keccak256 a none m = .ok none := by
      simp [accountStep, hd, bind, Except.bind, pure, Except.pure]
    rw [foldlM_cons, hstep]
    exact ih fun m' hm' => h m' (mem_cons_of_mem m hm')

lemma foldlM_accountStep_some (h : ∀ m ∈ l, m.Filed s) :
    ∃ s', l.foldlM (accountStep keccak256 s.address) (some s) = .ok (some s') ∧ s'.frame = s.frame ∧
      ∀ k, s'.cell k = (lastWrite (fun m => vmWrite m s.address) l k).getD (s.cell k) := by
  induction l generalizing s with
  | nil => exact ⟨s, rfl, rfl, fun _ => rfl⟩
  | cons m l ih =>
    obtain ⟨t, ht, hframe, hcells⟩ := accountStep_ok keccak256 (h m mem_cons_self)
    have hadd := Account.address_eq_of_frame hframe
    obtain ⟨s', hs', hframe', hcells'⟩ := @ih t fun m' hm' => by
      rw [BlockAggregatedChanges.Filed, hadd, Account.chain_eq_of_frame hframe]
      exact h m' (mem_cons_of_mem m hm')
    rw [hadd] at hs' hcells'
    refine ⟨s', ?_, hframe'.trans hframe, fun k => ?_⟩
    · rw [foldlM_cons, ht]
      exact hs'
    · rw [hcells', hcells, lastWrite_cons, Option.getD_or]

/-- An account is built from the messages of the only buffer, from its first delta on. -/
lemma getAccount_first {delta : AccountDelta} (hb : p.buffers.values = [b])
    (he : b.getBlockRange none version = .ok (before ++ m :: after))
    (hbefore : ∀ x ∈ before, delta.address ∉ x.accountDeltas)
    (hd : m.accountDeltas.lookup delta.address = some delta)
    (hfiled : ∀ x ∈ m :: after, x.Filed (delta.intoAccountWithoutTx keccak256)) :
    ∃ s, p.getAccount keccak256 delta.address version = .ok s ∧ s.address = delta.address ∧
      s.chain = delta.chain ∧
      ∀ k, s.cell k = replayAccountCell (m :: after) delta.address k := by
  obtain ⟨s, hs, hframe, hcells⟩ := foldlM_accountStep_some keccak256 hfiled
  have hcreate : accountStep keccak256 delta.address none m =
      accountStep keccak256 delta.address (some (delta.intoAccountWithoutTx keccak256)) m := by
    simp [accountStep, hd]
  have hfold : (before ++ m :: after).foldlM (accountStep keccak256 delta.address) none =
      .ok (some s) := by
    rw [foldlM_append, foldlM_accountStep_absent keccak256 hbefore]
    change (m :: after).foldlM (accountStep keccak256 delta.address) none = _
    rw [foldlM_cons, hcreate, ← foldlM_cons]
    exact hs
  refine ⟨s, ?_, Account.address_eq_of_frame hframe, Account.chain_eq_of_frame hframe, fun k => ?_⟩
  · simp only [getAccount, hb, foldlM_cons, foldlM_nil, he, hfold, Except.mapError, bind,
      Except.bind, pure, Except.pure]
  · rw [hcells, cell_intoAccountWithoutTx, replayAccountCell]
    change (lastWrite (fun m => vmWrite m delta.address) _ k).getD _ = _
    cases hw : lastWrite (fun m => vmWrite m delta.address) (m :: after) k with
    | some => rfl
    | none =>
      -- the first delta writes to no cell that is not written
      have hnone := (lastWrite_eq_none_iff _).mp hw m mem_cons_self
      rw [vmWrite, accountWriteAt, hd, Option.bind_some] at hnone
      rw [(Option.or_eq_none_iff.mp hnone).2]
      rfl

/-- An account that the messages of the only buffer touch is built from them. -/
lemma getAccount_ok (hb : p.buffers.values = [b])
    (he : b.getBlockRange none version = .ok messages) (hk : ∀ m ∈ messages, m.WellKeyed chain)
    (ha : ∃ m ∈ messages, a ∈ m.accountDeltas) :
    ∃ s, p.getAccount keccak256 a version = .ok s ∧ s.address = a ∧ s.chain = chain ∧
      ∀ k, s.cell k = replayAccountCell messages a k := by
  obtain ⟨_, hmem, ha⟩ := ha
  obtain ⟨before, m, after, rfl, ha, hbefore⟩ :=
    exists_first (P := fun m : BlockAggregatedChanges => a ∈ m.accountDeltas) hmem ha
  obtain ⟨delta, hd⟩ := mem_iff_lookup.mp ha
  obtain ⟨ha, hc⟩ : delta.address = a ∧ delta.chain = chain :=
    (hk m (by simp)).accountEntries (a, delta) (mem_toList.mpr hd)
  subst ha hc
  obtain ⟨s, hs, hadd, hchain, hcells⟩ := getAccount_first keccak256 hb he hbefore hd
    fun x hx => (hk x (mem_append_right before hx)).filed rfl
  refine ⟨s, hs, hadd, hchain, fun k => ?_⟩
  rw [hcells, replayAccountCell_append, replayAccountCell_of_untouched
    (fun x hx => hk x (mem_append_left _ hx)) hbefore, replayAccountCell]

lemma vmWrite_token {token : Address} : vmWrite m a (.tokenBalance token) =
    (m.accountBalances.lookup₂ a token).map fun b => some (.balance b) := by
  unfold vmWrite tokenBalanceWriteAt accountWriteAt HashMap.lookup₂
  cases m.accountBalances.lookup a <;> cases m.accountDeltas.lookup a <;>
    simp [tokenBalanceWrite, write]

lemma lastWrite_token_eq_none_iff {token : Address} :
    lastWrite (fun m => vmWrite m a) l (.tokenBalance token) = none ↔
      ∀ x ∈ l, x.accountBalances.lookup₂ a token = none := by
  simp [lastWrite_eq_none_iff, vmWrite_token]

/-- What is written before the first delta is a token balance. -/
lemma replayAccountCell_append_iff (hbefore : ∀ x ∈ before, a ∉ x.accountDeltas) :
    (∀ k, replayAccountCell l a k = replayAccountCell (before ++ l) a k) ↔ ∀ token,
      (∃ x ∈ before, x.accountBalances.lookup₂ a token ≠ none) →
        ∃ x ∈ l, x.accountBalances.lookup₂ a token ≠ none := by
  simp only [replayAccountCell_append]
  constructor
  · rintro h token ⟨x, hx, hreport⟩
    by_contra! hnone
    have hcell := h (.tokenBalance token)
    rw [replayAccountCell, lastWrite_token_eq_none_iff.mpr hnone] at hcell
    -- a report before the creation is a balance that the built account does not have
    cases hw : lastWrite (fun m => vmWrite m a) before (.tokenBalance token) with
    | none => exact hreport (lastWrite_token_eq_none_iff.mp hw x hx)
    | some v =>
      obtain ⟨_, y, _, -, hy, -⟩ := (lastWrite_eq_some_iff _).mp hw
      obtain ⟨balance, -, rfl⟩ := Option.map_eq_some_iff.mp (vmWrite_token.symm.trans hy)
      rw [replayAccountCell, hw] at hcell
      cases hcell
  · intro h k
    rw [replayAccountCell]
    cases hw : lastWrite (fun m => vmWrite m a) l k with
    | some => rfl
    | none =>
      change baseCell k = replayAccountCell before a k
      cases k with
      | tokenBalance token =>
        rw [replayAccountCell, lastWrite_token_eq_none_iff.mpr fun x hx => ?_]
        · rfl
        · by_contra hreport
          obtain ⟨y, hy, hagain⟩ := h token ⟨x, hx, hreport⟩
          exact hagain (lastWrite_token_eq_none_iff.mp hw y hy)
      | _ =>
        rw [replayAccountCell, (lastWrite_eq_none_iff _).mpr fun x hx => ?_]
        · rfl
        · rw [vmWrite, tokenBalanceWriteAt, accountWriteAt,
            AList.lookup_eq_none.mpr (hbefore x hx)]
          cases x.accountBalances.lookup a <;> rfl

/-- The account built from a buffer is complete if and only if the token balances before its first
delta are reported again, and always if balances come with a delta of their account. An empty
account is its own frame. -/
theorem getAccount_eq_updateVmState_iff (hs : s.frame = s)
    (hfiled : ∀ x ∈ before ++ m :: after, x.Filed s)
    (hbefore : ∀ x ∈ before, s.address ∉ x.accountDeltas) (hm : s.address ∈ m.accountDeltas) :
    ∃ built updated,
      (ofMessages name (before ++ m :: after)).getAccount keccak256 s.address none = .ok built ∧
      ((ofMessages name (before ++ m :: after)).updateVmState s none name).map Prod.fst =
        .ok updated ∧
      ((∀ k, built.cell k = updated.cell k) ↔ ∀ token,
        (∃ x ∈ before, x.accountBalances.lookup₂ s.address token ≠ none) →
          ∃ x ∈ m :: after, x.accountBalances.lookup₂ s.address token ≠ none) ∧
      ((∀ x ∈ before, x.WellKeyed s.chain) → ∀ k, built.cell k = updated.cell k) := by
  obtain ⟨delta, hd⟩ := mem_iff_lookup.mp hm
  obtain ⟨hchain, hadd⟩ := Prod.mk.inj (hfiled m (by simp) delta hd)
  obtain ⟨updated, hupdated, -, hcells'⟩ :=
    updateVmState_ok (holds_ofMessages name (before ++ m :: after)).entries hfiled
  have hempty : ∀ k, s.cell k = baseCell k := by
    rw [← hs]
    intro k
    cases k <;> rfl
  have hrange : (⟨before ++ m :: after, false⟩ : ReorgBuffer _).getBlockRange none none =
      .ok (before ++ m :: after) := rfl
  obtain ⟨built, hbuilt, -, -, hcells⟩ := getAccount_first keccak256
    (p := ofMessages name (before ++ m :: after)) rfl hrange (hadd ▸ hbefore) (hadd ▸ hd)
    fun x hx delta' hd' => by
      change (delta.chain, delta.address) = _
      rw [← hchain, ← hadd]
      exact hfiled x (mem_append_right before hx) delta' (hadd ▸ hd')
  rw [← hadd] at hbuilt hcells
  have hupdates : ∀ k, updated.cell k = replayAccountCell (before ++ m :: after) s.address k := by
    intro k
    rw [hcells', hempty]
    rfl
  have hiff := replayAccountCell_append_iff (l := m :: after) hbefore
  simp only [← hcells, ← hupdates] at hiff
  refine ⟨built, updated, hbuilt, hupdated, hiff, fun hkeyed => hiff.mpr ?_⟩
  rintro token ⟨x, hx, hreported⟩
  have hnone := (hkeyed x hx).vmWrite_eq_none (hbefore x hx) (.tokenBalance token)
  exact absurd (Option.map_eq_none_iff.mp (vmWrite_token.symm.trans hnone)) hreported

/-- A block that creates a vault, reports a token balance of it, or both. -/
def vaultMessage (creates reports : Bool) : BlockAggregatedChanges :=
  { (default : BlockAggregatedChanges) with
    accountDeltas := HashMap.ofList
      (if creates then [(⟨[10]⟩, ⟨default, ⟨[10]⟩, ∅, none, none, .creation⟩)] else [])
    accountBalances := HashMap.ofList (if reports then
      [(⟨[10]⟩, HashMap.ofList [(⟨[11]⟩, ⟨⟨[10]⟩, ⟨[11]⟩, ⟨[1]⟩, .new⟩)])] else []) }

def noVault : Account := ⟨default, ⟨[10]⟩, "", ∅, .new, ∅, .new, .new, .new, .new, none⟩

theorem getAccount_eq_updateVmState_reported : ∃ built updated,
    (ofMessages "" [vaultMessage false true, vaultMessage true true]).getAccount id ⟨[10]⟩ none =
      .ok built ∧
    ((ofMessages "" [vaultMessage false true, vaultMessage true true]).updateVmState noVault none
      "").map Prod.fst = .ok updated ∧ ∀ k, built.cell k = updated.cell k := by
  obtain ⟨built, updated, hbuilt, hupdated, hiff, -⟩ := @getAccount_eq_updateVmState_iff noVault
    (vaultMessage true true) "" id [vaultMessage false true] [] rfl
    (by
      intro x hx delta hd
      rcases mem_pair.mp hx with rfl | rfl
      · cases (show none = some delta from hd)
      · cases (show some _ = some delta from hd)
        rfl) (by decide) (by decide)
  refine ⟨built, updated, hbuilt, hupdated, hiff.mpr fun token hreport => ?_⟩
  obtain ⟨x, hx, hreported⟩ := hreport
  cases mem_singleton.mp hx
  exact ⟨_, mem_cons_self, hreported⟩

/-- A balance that is reported before the creation is missing. -/
theorem getAccount_misses_balance :
    ((ofMessages "" [vaultMessage false true, vaultMessage true false]).getAccount id ⟨[10]⟩
      none).map (fun s => (s.tokenBalances.lookup ⟨[11]⟩).isSome) = .ok false ∧
    ((ofMessages "" [vaultMessage false true, vaultMessage true false]).updateVmState noVault none
      "").map (fun s => (s.1.tokenBalances.lookup ⟨[11]⟩).isSome) = .ok true :=
  ⟨rfl, rfl⟩

end

lemma updateVmStates_serves (hb : p.buffers.values = [b])
    (hrange : b.getBlockRange none version = .ok messages)
    (he : p.entries version name = .ok messages) (hk : ∀ m ∈ history ++ messages, m.WellKeyed chain)
    {addresses : List Address} {dbStates : List Account}
    (hdb : ServesAccounts dbStates addresses chain history)
    (htouched : ∀ a ∈ addresses, ∃ m ∈ history ++ messages, a ∈ m.accountDeltas) :
    ∃ states, p.updateVmStates keccak256 addresses dbStates version name = .ok states ∧
      ServesAccounts states addresses chain (history ++ messages) := by
  obtain ⟨hhistory, hmsgs⟩ := forall_mem_append.mp hk
  have hupdate : ∀ s ∈ dbStates, _ := fun s hs =>
    updateVmState_ok he fun m hm => (hmsgs m hm).filed (hdb.sound s hs).2.1
  -- an account that the database does not have is touched by the buffered messages only
  have hfresh : ∀ a ∈ addresses, (∀ s ∈ dbStates, s.address ≠ a) →
      (∀ m ∈ history, a ∉ m.accountDeltas) ∧ ∃ m ∈ messages, a ∈ m.accountDeltas := by
    intro a ha hnot
    have hold : ∀ m ∈ history, a ∉ m.accountDeltas := by
      intro m hm ham
      obtain ⟨s, hs, hsa⟩ := hdb.complete a ha ⟨m, hm, ham⟩
      exact hnot s hs hsa
    refine ⟨hold, ?_⟩
    obtain ⟨m, hm, ham⟩ := htouched a ha
    rcases mem_append.mp hm with hm | hm
    · exact absurd ham (hold m hm)
    · exact ⟨m, hm, ham⟩
  have hcreate : ∀ a ∈ addresses, (∀ s ∈ dbStates, s.address ≠ a) → _ := fun a ha hnot =>
    getAccount_ok keccak256 hb hrange hmsgs (hfresh a ha hnot).2
  obtain ⟨states, hok, hfrom, hall⟩ := completeWith_isOk Account.address
    (fun address => p.getAccount keccak256 address version) addresses dbStates
    (fun s hs => ⟨_, (hupdate s hs).choose_spec.1,
      Account.address_eq_of_frame (hupdate s hs).choose_spec.2.1⟩)
    (fun a ha hnot => ⟨_, (hcreate a ha hnot).choose_spec.1, (hcreate a ha hnot).choose_spec.2.1⟩)
  refine ⟨states, hok, ?_, fun a ha _ => hall a ha⟩
  intro s' hs'
  rcases hfrom s' hs' with ⟨s, hs, hr⟩ | ⟨a, ha, hnot, hr⟩
  · obtain ⟨t, ht, hframe, hcells⟩ := hupdate s hs
    cases ht.symm.trans hr
    obtain ⟨hin, hchain, hold⟩ := hdb.sound s hs
    rw [Account.address_eq_of_frame hframe, Account.chain_eq_of_frame hframe]
    refine ⟨hin, hchain, fun k => ?_⟩
    rw [hcells, replayAccountCell_append, hold]
  · obtain ⟨t, ht, hadd, hchain, hcells⟩ := hcreate a ha hnot
    cases ht.symm.trans hr
    rw [hadd]
    refine ⟨ha, hchain, fun k => ?_⟩
    rw [hcells, replayAccountCell_append,
      replayAccountCell_of_untouched hhistory (hfresh a ha hnot).1, replayAccountCell]

end

end PendingDeltas

namespace ReorgBuffer
variable {B : Type} [BlockScoped B] {b : ReorgBuffer B} {v : Nat} {first last : B}

lemma findVersion_of_split {version : BlockNumberOrTimestamp} {l₁ l₂ : List B} {m : B}
    (heq : b.blockMessages = l₁ ++ m :: l₂) (hm : version.greaterThan (block m) = false)
    (h₁ : ∀ a ∈ l₁, version.greaterThan (block a) = true) :
    b.findVersion version = .ok l₁.length := by
  unfold findVersion
  rw [heq, findIdx?_of_split (by simpa using hm) fun a ha => by simpa using h₁ a ha]

/-- Up to a block number that is in the buffer, the range holds the blocks with numbers up to
it. -/
lemma getBlockRange_number (hc : Contiguous (fun m => (block m).number) b.blockMessages)
    (hf : b.blockMessages.head? = some first) (hl : b.blockMessages.getLast? = some last)
    (hv : (block first).number ≤ v) (hv' : v ≤ (block last).number) :
    b.getBlockRange none (some (.number v)) =
      .ok (b.blockMessages.filter fun m => (block m).number ≤ v) := by
  obtain ⟨l₁, m, l₂, heq, hm, h₁, h₂⟩ := hc.split hf hl hv hv'
  have hfind : b.findVersion (.number v) = .ok l₁.length :=
    findVersion_of_split heq (by simp [BlockNumberOrTimestamp.greaterThan, hm])
      fun a ha => by simpa [BlockNumberOrTimestamp.greaterThan] using h₁ a ha
  have htaken : (l₁ ++ m :: l₂).take (l₁.length + 1) = l₁ ++ [m] := by
    rw [take_length_add_append]
    rfl
  have hfilter : (l₁ ++ m :: l₂).filter (fun m => (block m).number ≤ v) = l₁ ++ [m] :=
    @filter_le_of_split B (fun m => (block m).number) l₁ l₂ m v hm h₁ h₂
  simp only [getBlockRange, hfind, heq, htaken, hfilter, bind, Except.bind, pure, Except.pure]
  simp

lemma getBlockRange_of_found {s e : BlockNumberOrTimestamp} {i j : Nat} {last : B}
    (hs : b.findVersion s = .ok i) (he : b.findVersion e = .ok j) (hij : i ≤ j)
    (hl : b.blockMessages.getLast? = some last)
    (hbeyond : ∀ ts, e = .timestamp ts → ts ≤ (block last).ts) :
    b.getBlockRange (some s) (some e) = .ok ((b.blockMessages.take (j + 1)).drop i) := by
  cases e with
  | number =>
    simp only [getBlockRange, hs, he, bind, Except.bind, pure, Except.pure]
    simp [hij]
  | timestamp ts =>
    have hts := hbeyond ts rfl
    simp only [getBlockRange, hs, he, hl, bind, Except.bind, pure, Except.pure]
    rw [if_neg (by simpa using hts), if_neg hij.not_gt]

/-- In an ascending buffer a range ends with the first block that is not before its end, which is
one too many unless it stands there. -/
lemma getBlockRange_eq_iff {K : Type} [LinearOrder K] {version : K → BlockNumberOrTimestamp}
    {key : Block → K} {s e : K} {last : B}
    (hgt : ∀ k x, (version k).greaterThan x = decide (key x < k))
    (hbeyond : ∀ ts, version e = .timestamp ts → ts ≤ (block last).ts)
    (hkey : b.blockMessages.Pairwise fun x y => key (block x) < key (block y)) (hse : s ≤ e)
    (hl : b.blockMessages.getLast? = some last) (he : e ≤ key (block last)) :
    b.getBlockRange (some (version s)) (some (version e)) =
        .ok (b.blockMessages.filter fun m => s ≤ key (block m) ∧ key (block m) ≤ e) ↔
      ∃ m ∈ b.blockMessages, key (block m) = e := by
  have hlast : last ∈ b.blockMessages := mem_of_getLast? hl
  -- the block where the range starts, and in what is left the one where it ends
  obtain ⟨before, x, rest, heq, hx, hbefore⟩ :=
    exists_first (P := fun a => s ≤ key (block a)) hlast (hse.trans he)
  simp only [not_le] at hbefore
  rw [heq] at hkey hlast
  obtain ⟨-, hrest, -⟩ := pairwise_append.mp hkey
  have hlast : last ∈ x :: rest := by
    rcases mem_append.mp hlast with h | h
    · exact absurd (hbefore last h) (hse.trans he).not_gt
    · exact h
  have hstart : ∀ a ∈ x :: rest, s ≤ key (block a) :=
    forall_mem_cons.mpr ⟨hx, fun a ha => hx.trans ((pairwise_cons.mp hrest).1 a ha).le⟩
  obtain ⟨inside, m, after, heq', hm, hinside⟩ :=
    exists_first (P := fun a => e ≤ key (block a)) hlast he
  simp only [not_le] at hinside
  rw [heq'] at hrest hstart
  obtain ⟨-, hafter, -⟩ := pairwise_append.mp hrest
  have hafter : ∀ a ∈ after, e < key (block a) := fun a ha =>
    hm.trans_lt ((pairwise_cons.mp hafter).1 a ha)
  have hwhole : b.blockMessages = (before ++ inside) ++ m :: after := by
    rw [heq, heq', append_assoc]
  have hfront : ∀ a ∈ before ++ inside, key (block a) < e := fun a ha =>
    (mem_append.mp ha).elim (fun h => (hbefore a h).trans_le hse) (hinside a)
  have hfirst : b.findVersion (version s) = .ok before.length :=
    findVersion_of_split heq (by simpa [hgt] using hx) fun a ha => by simpa [hgt] using hbefore a ha
  have hend : b.findVersion (version e) = .ok (before ++ inside).length :=
    findVersion_of_split hwhole (by simpa [hgt] using hm) fun a ha => by
      simpa [hgt] using hfront a ha
  have hrange : b.getBlockRange (some (version s)) (some (version e)) = .ok (inside ++ [m]) := by
    have htaken : b.blockMessages.take ((before ++ inside).length + 1) =
      before ++ (inside ++ [m]) := by
      rw [hwhole, take_length_add_append, append_assoc]
      rfl
    rw [getBlockRange_of_found hfirst hend (by simp) hl hbeyond, htaken, drop_left]
  have hfilter : b.blockMessages.filter (fun m => s ≤ key (block m) ∧ key (block m) ≤ e) =
      inside ++ if key (block m) = e then [m] else [] := by
    have hbefore' : before.filter (fun m => s ≤ key (block m) ∧ key (block m) ≤ e) = [] :=
      filter_eq_nil_iff.mpr fun a ha => by simp [hbefore a ha]
    have hinside' : inside.filter (fun m => s ≤ key (block m) ∧ key (block m) ≤ e) = inside :=
      filter_eq_self.mpr fun a ha => by simp [hstart a (by simp [ha]), (hinside a ha).le]
    have hafter' : after.filter (fun m => s ≤ key (block m) ∧ key (block m) ≤ e) = [] :=
      filter_eq_nil_iff.mpr fun a ha => by simp [hafter a ha]
    rw [hwhole, filter_append, filter_append, hbefore', hinside', filter_cons, hafter']
    simp [hse.trans hm, hm.ge_iff_eq', eq_comm]
  rw [hrange, hfilter, hwhole]
  constructor
  · intro h
    by_contra hnone
    simp_all
  · rintro ⟨a, ha, hae⟩
    have ham : a = m := by
      rcases mem_append.mp ha with h | h
      · exact absurd hae (hfront a h).ne
      · exact (mem_cons.mp h).elim id fun h => absurd hae (hafter a h).ne'
    rw [if_pos (ham ▸ hae)]

/-- Ranges between two timestamps, or two numbers, of the buffer are exact when a block stands at
their end. -/
theorem getBlockRange_exact_iff {last : B} (hl : b.blockMessages.getLast? = some last)
    (hts : b.blockMessages.Pairwise fun x y => (block x).ts < (block y).ts) :
    (∀ s e : NaiveDateTime, s ≤ e → e ≤ (block last).ts →
      (b.getBlockRange (some (.timestamp s)) (some (.timestamp e)) =
          .ok (b.blockMessages.filter fun m => s ≤ (block m).ts ∧ (block m).ts ≤ e) ↔
        ∃ m ∈ b.blockMessages, (block m).ts = e)) ∧
    (b.blockMessages.Pairwise (fun x y => (block x).number < (block y).number) →
      ∀ s e : Nat, s ≤ e → e ≤ (block last).number →
        (b.getBlockRange (some (.number s)) (some (.number e)) =
            .ok (b.blockMessages.filter fun m => s ≤ (block m).number ∧ (block m).number ≤ e) ↔
          ∃ m ∈ b.blockMessages, (block m).number = e)) := by
  constructor
  · intro s e hse he
    exact getBlockRange_eq_iff (fun _ _ => rfl) (fun ts hts => by cases hts; exact he) hts hse hl he
  · intro hnumber s e hse he
    exact getBlockRange_eq_iff (fun _ _ => rfl) (fun ts hts => by cases hts) hnumber hse hl he

def stamped (number : Nat) (ts : NaiveDateTime) : BlockAggregatedChanges :=
  { (default : BlockAggregatedChanges) with block := { (default : Block) with number, ts } }

theorem getBlockRange_exact_hit :
    (⟨[stamped 1 0, stamped 2 10], false⟩ : ReorgBuffer BlockAggregatedChanges).getBlockRange
        (some (.timestamp 0)) (some (.timestamp 10)) =
      .ok ([stamped 1 0, stamped 2 10].filter fun m => 0 ≤ (block m).ts ∧ (block m).ts ≤ 10) :=
  ((getBlockRange_exact_iff rfl (by decide)).1 0 10 (by decide) (by decide)).mpr
    ⟨stamped 2 10, by simp, rfl⟩

/-- An end between two blocks also selects the one after it. -/
theorem getBlockRange_between :
    [stamped 1 0, stamped 2 10].Pairwise (fun x y => (block x).ts < (block y).ts) ∧
    (⟨[stamped 1 0, stamped 2 10], false⟩ : ReorgBuffer BlockAggregatedChanges).getBlockRange
        (some (.timestamp 0)) (some (.timestamp 5)) = .ok [stamped 1 0, stamped 2 10] ∧
    [stamped 1 0, stamped 2 10].filter (fun m => 0 ≤ (block m).ts ∧ (block m).ts ≤ 5) =
      [stamped 1 0] :=
  ⟨by decide, rfl, rfl⟩

lemma getCommitStatus_number (hf : b.blockMessages.head? = some first)
    (hl : b.blockMessages.getLast? = some last) :
    b.getCommitStatus (.number v) = some (if v ≤ (block first).number then .committed
      else if v ≤ (block last).number then .uncommitted else .unseen) := by
  unfold getCommitStatus
  rw [hf, hl]
  simp only [BlockNumberOrTimestamp.greaterThan, gt_iff_lt, Bool.not_eq_true',
    decide_eq_false_iff_not, not_lt, Bool.and_eq_true, decide_eq_true_eq]
  by_cases h : v ≤ (block first).number
  · rw [if_pos h, if_pos h]
  · rw [if_neg h, if_neg h]
    by_cases h' : v ≤ (block last).number
    · rw [if_pos h', if_pos ⟨by omega, h'⟩]
    · rw [if_neg h', if_neg fun hand => h' hand.2]

end ReorgBuffer
/-- A read of the database that answers for the blocks of a history and for no other. -/
structure Reads {A : Type} (chain : Chain) (history : List BlockAggregatedChanges)
    (read : Version → Except StorageError A) (serves : A → List BlockAggregatedChanges → Prop) :
    Prop where
  committed : ∀ m ∈ history, ∃ found,
    read ⟨.block (.number chain m.number), .last⟩ = .ok found ∧
      serves found (history.filter fun b => b.number ≤ m.number)
  latest : ∃ found, read ⟨.block (.latest chain), .last⟩ = .ok found ∧ serves found history
  unknown : ∀ v : Nat, (∀ m ∈ history, m.number ≠ v) →
    ∃ e, read ⟨.block (.number chain v), .last⟩ = .error e

/-- A database with the blocks of a history, and a service buffer with the blocks after them. -/
structure ServedChain where
  db : DbGateway
  chain : Chain
  system : String
  history : List BlockAggregatedChanges
  pending : List BlockAggregatedChanges
  contiguous : Contiguous BlockAggregatedChanges.number (history ++ pending)
  wellKeyed : ∀ m ∈ history ++ pending, m.WellKeyed chain
  states : ∀ ids, Reads chain history
    (fun version => db.getProtocolStates chain version system ids true)
    fun found messages => ServesStates found ids messages
  accounts : ∀ addresses, Reads chain history
    (fun version => db.getContracts chain addresses version true)
    fun found messages => ServesAccounts found addresses chain messages

namespace ServedChain

def handler (s : ServedChain) : RpcHandler := ⟨s.db, some (.ofMessages s.system s.pending)⟩

def blocks (s : ServedChain) : List BlockAggregatedChanges := s.history ++ s.pending

def upTo (s : ServedChain) (v : Nat) : List BlockAggregatedChanges :=
  s.blocks.filter fun m => m.number ≤ v

/-- A request for a block number is rejected if there is no such block yet, and otherwise, if
what it asks for is known, answered with the replay up to that block. -/
def ServesAt {A : Type} (s : ServedChain) (v : Nat) (answer : Except RpcError A) (known : Prop)
    (serves : A → List BlockAggregatedChanges → Prop) : Prop :=
  if ∀ m ∈ s.blocks, m.number < v then ∃ e, answer = .error e
  else known → ∃ found, answer = .ok found ∧ serves found (s.upTo v)

variable (s : ServedChain) {v : Nat} {first last : BlockAggregatedChanges}

lemma commitStatus_number : s.handler.commitStatus (.number v) s.system =
    ((⟨s.pending, false⟩ : ReorgBuffer _).getCommitStatus (.number v)).getD .committed := by
  simp only [RpcHandler.commitStatus, handler, getBlockCommitStatus, buffer, lookup_ofMessages]
  rfl

lemma commitStatus_of_pending (hf : s.pending.head? = some first)
    (hl : s.pending.getLast? = some last) :
    s.handler.commitStatus (.number v) s.system = if v ≤ first.number then .committed
      else if v ≤ last.number then .uncommitted else .unseen := by
  rw [commitStatus_number, ReorgBuffer.getCommitStatus_number hf hl]
  rfl

lemma number_lt_of_pending {m' : BlockAggregatedChanges} (hm : m ∈ s.history)
    (hm' : m' ∈ s.pending) : m.number < m'.number :=
  (pairwise_append.mp s.contiguous.pairwise).2.2 m hm m' hm'

section
variable {A : Type} {read : Version → Except StorageError A}
  {merge : PendingDeltas → A → Option BlockNumberOrTimestamp → Except PendingDeltasError A}
variable {known : Prop} {serves : A → List BlockAggregatedChanges → Prop}
  (hr : Reads s.chain s.history read serves) (hv : v < 2 ^ 63)

def answer (v : Nat) (read : Version → Except StorageError A)
    (merge : PendingDeltas → A → Option BlockNumberOrTimestamp → Except PendingDeltasError A) :
    Except RpcError A :=
  s.handler.readMerged (.block (.number s.chain v)) s.chain s.system read merge

include hr hv

/-- Below the buffer the database answers. -/
lemma servesAt_of_committed (hfirst : ∃ m ∈ s.history, m.number ≤ v)
    (hs : s.handler.commitStatus (.number v) s.system = .committed)
    (hp : ∀ m ∈ s.pending, v < m.number) :
    s.ServesAt v (s.answer v read merge) known serves := by
  have hread : s.answer v read merge = _ := RpcHandler.readMerged_committed hv hs
  unfold ServesAt
  rw [hread]
  split_ifs with hall
  · obtain ⟨e, he⟩ := hr.unknown v fun m hm => (hall m (mem_append_left _ hm)).ne
    exact ⟨_, by rw [he]; rfl⟩
  · intro _
    obtain ⟨last, hlast, hle⟩ : ∃ m ∈ s.blocks, v ≤ m.number := by simpa using hall
    obtain ⟨first, hmem, hfirst⟩ := hfirst
    obtain ⟨m, hm, rfl⟩ := s.contiguous.exists_number (mem_append_left _ hmem) hlast hfirst hle
    have hhistory : m ∈ s.history := by
      rcases mem_append.mp hm with hm | hm
      · exact hm
      · exact absurd (hp m hm) (lt_irrefl _)
    obtain ⟨found, hfound, hserves⟩ := hr.committed m hhistory
    refine ⟨found, by rw [hfound]; rfl, ?_⟩
    have hnone : s.pending.filter (fun b => b.number ≤ m.number) = [] := by
      rw [filter_eq_nil_iff]
      intro b hb
      simpa using hp b hb
    rwa [upTo, blocks, filter_append, hnone, append_nil]

/-- The first buffered block counts as committed, but the database does not have it. -/
lemma not_servesAt_of_first (hknown : known) (hf : first ∈ s.pending) (hnum : v = first.number)
    (hs : s.handler.commitStatus (.number v) s.system = .committed) :
    ¬ s.ServesAt v (s.answer v read merge) known serves := by
  have hread : s.answer v read merge = _ := RpcHandler.readMerged_committed hv hs
  have hexists : ¬ ∀ m ∈ s.blocks, m.number < v := by
    intro hall
    exact absurd (hall first (mem_append_right _ hf)) hnum.not_gt
  obtain ⟨e, he⟩ := hr.unknown v fun m hm => hnum ▸ (s.number_lt_of_pending hm hf).ne
  unfold ServesAt
  rw [if_neg hexists, hread, he]
  intro h
  obtain ⟨found, hfound, -⟩ := h hknown
  cases hfound

omit hr in
/-- Beyond the buffer every request is rejected. -/
lemma servesAt_of_unseen (hlast : ∀ m ∈ s.blocks, m.number < v)
    (hs : s.handler.commitStatus (.number v) s.system = .unseen) :
    s.ServesAt v (s.answer v read merge) known serves := by
  unfold ServesAt
  rw [if_pos hlast]
  exact RpcHandler.readMerged_unseen hv hs

variable (hmerge : known → ∀ found messages, serves found s.history →
    (⟨s.pending, false⟩ : ReorgBuffer _).getBlockRange none (some (.number v)) = .ok messages →
    s.upTo v = s.history ++ messages →
    ∃ merged, merge (.ofMessages s.system s.pending) found (some (.number v)) = .ok merged ∧
      serves merged (s.history ++ messages))
include hmerge

/-- Within the buffer the latest state of the database is merged with the buffered changes. -/
lemma servesAt_of_uncommitted (hf : s.pending.head? = some first)
    (hl : s.pending.getLast? = some last) (hlt : first.number < v) (hle : v ≤ last.number)
    (hs : s.handler.commitStatus (.number v) s.system = .uncommitted) :
    s.ServesAt v (s.answer v read merge) known serves := by
  have hpending : Contiguous BlockAggregatedChanges.number s.pending := s.contiguous.of_append_right
  have hrange := ReorgBuffer.getBlockRange_number (b := ⟨s.pending, false⟩) hpending hf hl hlt.le
    hle
  have hhistory : s.history.filter (fun b => b.number ≤ v) = s.history := by
    rw [filter_eq_self]
    intro b hb
    have := s.number_lt_of_pending hb (mem_of_head? hf)
    simpa using this.le.trans hlt.le
  have hupTo : s.upTo v = s.history ++ s.pending.filter fun m => m.number ≤ v := by
    rw [upTo, blocks, filter_append, hhistory]
  obtain ⟨found, hfound, hserves⟩ := hr.latest
  have hexists : ¬ ∀ m ∈ s.blocks, m.number < v := by
    intro hall
    exact absurd (hall last (mem_append_right _ (mem_of_getLast? hl))) hle.not_gt
  have hread : s.answer v read merge = _ :=
    RpcHandler.readMerged_uncommitted hv rfl hs hfound
  unfold ServesAt
  rw [if_neg hexists, hread, hupTo]
  intro hknown
  obtain ⟨merged, hmerged, hserved⟩ := hmerge hknown found _ hserves hrange hupTo
  exact ⟨merged, by rw [hmerged]; rfl, hserved⟩

/-- A request for a block number is served as it should be, unless it is the number of the first
buffered block. -/
lemma servesAt_of_ne (hfirst : ∃ m ∈ s.history, m.number ≤ v)
    (hne : ∀ m, s.pending.head? = some m → v ≠ m.number) :
    s.ServesAt v (s.answer v read merge) known serves := by
  cases hf : s.pending.head? with
  | none =>
    have hp : s.pending = [] := List.head?_eq_none_iff.mp hf
    refine s.servesAt_of_committed hr hv hfirst ?_ (by simp [hp])
    rw [commitStatus_number, hp]
    rfl
  | some first =>
    have hpending : s.pending ≠ [] := ne_nil_of_mem (mem_of_head? hf)
    obtain ⟨last, hl⟩ : ∃ last, s.pending.getLast? = some last :=
      ⟨_, List.getLast?_eq_some_getLast hpending⟩
    have hs := s.commitStatus_of_pending (v := v) hf hl
    have hbounds : ∀ m ∈ s.pending, first.number ≤ m.number ∧ m.number ≤ last.number :=
      fun m hm => s.contiguous.of_append_right.bounds hf hl hm
    rcases Nat.lt_trichotomy v first.number with hlt | heq | hgt
    · rw [if_pos hlt.le] at hs
      exact s.servesAt_of_committed hr hv hfirst hs fun m hm => hlt.trans_le (hbounds m hm).1
    · exact absurd heq (hne first hf)
    · rw [if_neg (by omega)] at hs
      by_cases hle : v ≤ last.number
      · rw [if_pos hle] at hs
        exact s.servesAt_of_uncommitted hr hv hmerge hf hl hgt hle hs
      · rw [if_neg hle] at hs
        refine s.servesAt_of_unseen hv (fun m hm => ?_) hs
        rcases mem_append.mp hm with hm | hm
        · have := s.number_lt_of_pending hm (mem_of_head? hf)
          omega
        · have := (hbounds m hm).2
          omega

end

variable (keccak256 : Bytes → Bytes)

/-- Requests for a block number are answered with the replay of the chain up to that block, for
every set of components and every set of accounts that exist by then, or rejected if there is no
such block. -/
def Serves (v : Nat) : Prop :=
  (∀ ids, s.ServesAt v
    (s.handler.getProtocolStateInner (.block (.number s.chain v)) s.chain s.system ids true)
    True fun found messages => ServesStates found ids messages) ∧
  ∀ addresses, s.ServesAt v
    (s.handler.getContractStateInner keccak256 (.block (.number s.chain v)) s.chain s.system
      addresses)
    (∀ a ∈ addresses, ∃ m ∈ s.upTo v, a ∈ m.accountDeltas)
    fun found messages => ServesAccounts found addresses s.chain messages

/-- The state served at a block number, from the first block of the database on, is the state
after that block, if and only if the block is not the first one that is buffered. -/
theorem serves_iff (hv : v < 2 ^ 63) (hfirst : ∃ m ∈ s.history, m.number ≤ v) :
    s.Serves keccak256 v ↔ ∀ m, s.pending.head? = some m → v ≠ m.number := by
  constructor
  · intro hserves first hf hnum
    obtain ⟨last, hl⟩ : ∃ last, s.pending.getLast? = some last :=
      ⟨_, List.getLast?_eq_some_getLast (ne_nil_of_mem (mem_of_head? hf))⟩
    have hs := s.commitStatus_of_pending (v := v) hf hl
    rw [if_pos hnum.le] at hs
    exact s.not_servesAt_of_first (s.states []) hv trivial (mem_of_head? hf) hnum hs (hserves.1 [])
  · intro hne
    have hk : ∀ m ∈ s.upTo v, m.WellKeyed s.chain := fun m hm =>
      s.wellKeyed m (mem_of_mem_filter hm)
    have hentries : ∀ messages,
        (⟨s.pending, false⟩ : ReorgBuffer _).getBlockRange none (some (.number v)) = .ok messages →
        (ofMessages s.system s.pending).entries (some (.number v)) s.system = .ok messages := by
      intro messages hrange
      simp only [entries, buffer, lookup_ofMessages, bind, Except.bind, hrange]
      rfl
    constructor
    · intro ids
      refine s.servesAt_of_ne (s.states ids) hv ?_ hfirst hne
      intro _ found messages hfound hrange hupTo
      rw [hupTo] at hk
      exact mergeNativeStates_serves (hentries messages hrange)
        (fun m hm => hk m (mem_append_right _ hm)) hfound
    · intro addresses
      refine s.servesAt_of_ne (s.accounts addresses) hv ?_ hfirst hne
      intro htouched found messages hfound hrange hupTo
      rw [hupTo] at hk htouched
      exact updateVmStates_serves keccak256 rfl hrange (hentries messages hrange) hk hfound htouched

end ServedChain

section
variable (keccak256 : Bytes → Bytes) (history : List BlockAggregatedChanges)

/-- The blocks that a version of a database with some history covers. -/
def committedUpTo : BlockOrTimestamp → Except StorageError (List BlockAggregatedChanges)
  | .block (.latest _) => .ok history
  | .block (.number chain no) =>
    if history.any fun m => m.number == no then .ok (history.filter fun m => m.number ≤ no)
    else .error (.notFound "Block" (BlockIdentifier.number chain no).debug)
  | .block (.hash hash) =>
    match history.find? fun m => m.block.hash == hash with
    | some m => .ok (history.filter fun b => b.number ≤ m.number)
    | none => .error (.notFound "Block" (BlockIdentifier.hash hash).debug)
  | .timestamp ts => .ok (history.filter fun m => m.block.ts ≤ ts)

/-- A database that answers by replaying its history. -/
def DbGateway.ofHistory : DbGateway where
  getBlock id := do
    let blocks ← committedUpTo history (.block id)
    match blocks.getLast? with
    | some m => return m.block
    | none => throw (.notFound "Block" id.debug)
  getProtocolStates _ version system ids _ := do
    let blocks ← committedUpTo history version.version
    ((ofMessages system blocks).mergeNativeStates ids [] none system).mapError
      fun _ => .unexpected "replay"
  getContracts _ addresses version _ := do
    let blocks ← committedUpTo history version.version
    let known := addresses.filter fun a => blocks.any fun m => decide (a ∈ m.accountDeltas)
    ((ofMessages "" blocks).updateVmStates keccak256 known [] none "").mapError
      fun _ => .unexpected "replay"

variable {history} {chain : Chain}

lemma reads_ofReplay {A : Type} {replay : List BlockAggregatedChanges → Except StorageError A}
    {serves : A → List BlockAggregatedChanges → Prop}
    (h : ∀ messages, (∀ m ∈ messages, m ∈ history) →
      ∃ found, replay messages = .ok found ∧ serves found messages) :
    Reads chain history (fun v => committedUpTo history v.version >>= replay) serves := by
  constructor
  · intro m hm
    obtain ⟨found, hfound, hserves⟩ := h (history.filter fun b => b.number ≤ m.number)
      fun b hb => mem_of_mem_filter hb
    have hany : (history.any fun b => (b.number : Int) == m.number) = true := by
      rw [any_eq_true]
      exact ⟨m, hm, by simp⟩
    refine ⟨found, ?_, hserves⟩
    simp only [committedUpTo, hany, if_true, Int.ofNat_le]
    exact hfound
  · exact h history fun m hm => hm
  · intro v hv
    have hany : ¬ (history.any fun b => (b.number : Int) == v) = true := by
      rw [any_eq_true]
      rintro ⟨m, hm, heq⟩
      exact hv m hm (Int.ofNat_inj.mp (by simpa using heq))
    refine ⟨.notFound "Block" (BlockIdentifier.number chain v).debug, ?_⟩
    simp only [committedUpTo, if_neg hany]
    rfl

lemma reads_states (hk : ∀ m ∈ history, m.WellKeyed chain) (system : String)
    (ids : List ComponentId) :
    Reads chain history (fun version =>
      (DbGateway.ofHistory keccak256 history).getProtocolStates chain version system ids true)
      fun found messages => ServesStates found ids messages := by
  refine reads_ofReplay fun messages hsub => ?_
  have hempty : ServesStates [] ids [] := ⟨by simp, fun id _ => .inr fun k => rfl⟩
  obtain ⟨states, hok, hserves⟩ := mergeNativeStates_serves
    (holds_ofMessages system messages).entries (fun m hm => hk m (hsub m hm)) hempty
  exact ⟨states, by rw [hok]; rfl, hserves⟩

lemma reads_accounts (hk : ∀ m ∈ history, m.WellKeyed chain) (addresses : List Address) :
    Reads chain history (fun version =>
      (DbGateway.ofHistory keccak256 history).getContracts chain addresses version true)
      fun found messages => ServesAccounts found addresses chain messages := by
  refine reads_ofReplay fun messages hsub => ?_
  let known := addresses.filter fun a => messages.any fun m => decide (a ∈ m.accountDeltas)
  have hknown : ∀ a, a ∈ known ↔ a ∈ addresses ∧ ∃ m ∈ messages, a ∈ m.accountDeltas := by
    intro a
    simp [known]
  have hempty : ServesAccounts [] known chain [] := ⟨by simp, fun a _ h => by simp at h⟩
  have hrange : (⟨messages, false⟩ : ReorgBuffer _).getBlockRange none none = .ok messages := rfl
  obtain ⟨states, hok, hserves⟩ := updateVmStates_serves keccak256
    (p := .ofMessages "" messages) rfl hrange
    (holds_ofMessages "" messages).entries (fun m hm => hk m (hsub m hm)) hempty
    fun a ha => ((hknown a).mp ha).2
  refine ⟨states, congrArg (Except.mapError _) hok, ?_, ?_⟩
  · intro s hs
    obtain ⟨ha, hc, hcells⟩ := hserves.sound s hs
    exact ⟨((hknown _).mp ha).1, hc, hcells⟩
  · intro a ha htouched
    exact hserves.complete a ((hknown a).mpr ⟨ha, htouched⟩) htouched

end

namespace ServedChain

/-- A database that has the first block of a pool, and the next two blocks in the buffer. -/
def feeChain : ServedChain where
  db := .ofHistory id [feeMessage 1 1]
  chain := .ethereum
  system := "vm:pool"
  history := [feeMessage 1 1]
  pending := [feeMessage 2 2, feeMessage 3 3]
  contiguous := by
    refine .cons_cons rfl (.cons_cons rfl (.singleton _))
  wellKeyed := by
    intro m hm
    simp only [cons_append, nil_append, mem_cons, not_mem_nil, or_false] at hm
    rcases hm with rfl | rfl | rfl <;> exact ⟨by decide, by decide, by decide⟩
  states := reads_states id (by
    intro m hm
    rw [mem_singleton.mp hm]
    exact ⟨by decide, by decide, by decide⟩) _
  accounts := reads_accounts id (by
    intro m hm
    rw [mem_singleton.mp hm]
    exact ⟨by decide, by decide, by decide⟩)

theorem serves_iff_feeChain : feeChain.Serves id 3 ∧ ¬ feeChain.Serves id 2 := by
  constructor
  · refine (feeChain.serves_iff id (by decide) ⟨_, mem_singleton_self _, by decide⟩).mpr ?_
    intro m hm
    cases hm
    decide
  · intro h
    exact (feeChain.serves_iff id (by decide) ⟨_, mem_singleton_self _, by decide⟩).mp h _ rfl rfl

/-- The first buffered block is asked of the database, which does not have it. -/
theorem not_serves_firstPending : ¬ feeChain.Serves id 2 := by
  intro h
  have hstates := h.1 ["pool"]
  rw [ServesAt, if_neg (by decide)] at hstates
  obtain ⟨found, hfound, -⟩ := hstates trivial
  have herr : ∃ e, feeChain.handler.getProtocolStateInner (.block (.number .ethereum 2)) .ethereum
      "vm:pool" ["pool"] true = .error e := ⟨_, rfl⟩
  obtain ⟨e, he⟩ := herr
  cases hfound.symm.trans he

end ServedChain
end Tycho
