import Tycho.Indexer.Mirror
import Tycho.Indexer.RevertBalances
import Tycho.Indexer.Written

/-! The values that an undo signal finds while the commit task is still at work. -/
namespace Tycho
open Collections Replay Revert List ReorgBuffer

/-- A balance with the hash that balances are read back with. -/
def ComponentBalance.untagged (b : ComponentBalance) : ComponentBalance :=
  { b with modifyTx := zeroTxHash }

def AccountBalance.untagged (b : AccountBalance) : AccountBalance :=
  { b with modifyTx := zeroTxHash }

variable {accountBalances componentBalances contracts states : List Answer}
  {plugin : Except ExtractionError Unit} {signal : BlockUndoSignal} {a token : Address}
  {c : ComponentId} {V W : Type}

namespace Feed
variable {pg : ExtractorPgGateway} {f f₀ f' : Feed} {ev : Event}
  {out : Option BlockAggregatedChanges} {ix : Indexer} {height : Option Nat}

def drained (f : Feed) : List BlockUpdateWithCursor :=
  f.chain.take (f.chain.length - f.indexer.extractor.reorgBuffer.blockMessages.length)

/-- The changes of a new block are filed under their own identifiers. -/
def Files (f : Feed) (ev : Event) : Prop :=
  ∀ m, f.chainAfter ev = f.chain ++ [m] → ∀ t ∈ m.blockUpdate.txsWithUpdate, t.Filed

/-- Every block that has left the buffer and has a certain kind of transaction is in the
database. -/
def InDatabase (f : Feed) (g : CachedGateway) (writes : TxWithChanges → Prop) : Prop :=
  ∀ m ∈ f.drained, (∃ t ∈ m.blockUpdate.txsWithUpdate, writes t) → g.Submitted (block m)

/-- The transactions that an undo signal reverts, those of a partial block included. -/
def revertedTxs (f f' : Feed) : List TxWithChanges :=
  txs (f.chain.drop f'.chain.length ++
    f.indexer.extractor.partialBlockBuffer.toList.map fun p => ⟨p, f.indexer.extractor.cursor⟩)

/-- What a run keeps up, whatever the commit task does. -/
structure Sound (pg : ExtractorPgGateway) (f₀ f : Feed) : Prop where
  ascending : f.Ascending
  placed : ∃ written staged queued, Indexer.Placed pg f.indexer f.chain written staged queued
  filed : ∀ t ∈ txs f.chain, t.Filed
  stored : f.indexer.stateGateway.stored = f₀.indexer.stateGateway.stored
  nativeToken : f.indexer.stateGateway.nativeToken = f₀.indexer.stateGateway.nativeToken

lemma Control.filed (h : Control f ev out ix height)
    (hf : ∀ t ∈ txs f.chain, t.Filed) (hev : f.Files ev) :
    ∀ t ∈ txs (f.chainAfter ev), t.Filed := by
  intro t ht
  obtain ⟨m, hm, ht⟩ := mem_flatMap.mp ht
  rcases h.chainAfter with hsub | ⟨new, hnew⟩
  · exact hf t (mem_flatMap.mpr ⟨m, hsub.subset hm, ht⟩)
  · rw [hnew] at hm
    rcases mem_append.mp hm with hm | hm
    · exact hf t (mem_flatMap.mpr ⟨m, hm, ht⟩)
    · rw [mem_singleton.mp hm] at ht
      exact hev new hnew t ht

lemma Starts.sound (h : f.Starts) : Sound pg f f := by
  refine ⟨?_, ⟨[], [], [], h.placed⟩, ?_, rfl, rfl⟩
  · rw [Ascending, h.chain]
    exact List.Pairwise.nil
  · rw [h.chain]
    intro t ht
    cases ht

lemma Sound.step (h : Sound pg f₀ f) (hascends : f.Ascends ev) (hfilter : f.Files ev)
    (hstep : f.step pg ev = some (out, f')) : Sound pg f₀ f' := by
  obtain ⟨written, staged, queued, hplaced⟩ := h.placed
  obtain ⟨ix, answers, hindex, -, hchain, -, hcontrol⟩ := step_control hstep
  obtain ⟨queued', hplaced'⟩ := hplaced.control hcontrol
  obtain ⟨hstart, hnative⟩ := @Indexer.commitSteps_stored pg ix answers
  rw [hcontrol.stored.2, ← hindex] at hstart hnative
  refine ⟨?_, ?_, ?_, hstart.trans h.stored, hnative.trans h.nativeToken⟩
  · rw [Ascending, hchain]
    exact hcontrol.ascending h.ascending hascends
  · rw [hchain, hindex]
    exact hplaced'.commitSteps answers
  · rw [hchain]
    exact hcontrol.filed h.filed hfilter

/-- What an undo signal that is answered by a message does. -/
lemma step_undo {msg : BlockAggregatedChanges}
    (h : f.step pg (.undo signal plugin contracts states componentBalances accountBalances) =
      some (some msg, f')) :
    ∃ (g : ExtractorGateway) (hash : BlockHash) (purged : List BlockUpdateWithCursor)
      (buffer : ReorgBuffer BlockUpdateWithCursor),
      f.indexer.extractor.reorgBuffer.purge hash = .ok (purged, buffer) ∧
      f'.chain = upTo hash f.chain ∧ f'.indexer.extractor.reorgBuffer = buffer ∧
      Parts g buffer f.indexer.extractor (txs (purged ++
        f.indexer.extractor.partialBlockBuffer.toList.map fun p =>
          ⟨p, f.indexer.extractor.cursor⟩)) msg ∧
      g.getContracts =
        (f.indexer.commitSteps pg contracts).stateGateway.store.gateway.getContracts ∧
      g.getProtocolStates = (f.indexer.commitSteps pg
        (contracts ++ states)).stateGateway.store.gateway.getProtocolStates ∧
      g.getComponentsBalances = (f.indexer.commitSteps pg
        (contracts ++ states ++ componentBalances)).stateGateway.store.gateway.getComponentsBalances
          ∧
      g.getAccountBalances = (f.indexer.commitSteps pg (contracts ++ states ++ componentBalances ++
        accountBalances)).stateGateway.store.gateway.getAccountBalances := by
  obtain ⟨ix', hstep, rfl⟩ := step_eq_some h
  obtain ⟨g, e, hr, rfl, hreads⟩ := Indexer.handleRevert_ok (Option.some.inj hstep)
  rcases ProtocolExtractor.handleRevert_cases hr with ⟨-, hout, -⟩ |
    ⟨hash, purged, buffer, msg', hfirst, htarget, -, hpurge, hmsg, hout, rfl⟩
  · cases hout
  · cases hout
    refine ⟨g, hash, purged, buffer, hpurge, ?_, rfl, (message_ok hmsg).1, hreads⟩
    simp only [chainAfter, hfirst, htarget]
    rfl

/-- What a read of the database can see: the blocks that are written by then, which are the oldest
ones that have left the buffer. -/
structure Reads (pg : ExtractorPgGateway) (f₀ f : Feed) (ix : Indexer)
    (written : List BlockUpdateWithCursor) : Prop where
  holds : ∃ staged, CachedGateway.Holds pg.operations ix.stateGateway written staged
  stored : ix.stateGateway.stored = f₀.indexer.stateGateway.stored
  nativeToken : ix.stateGateway.nativeToken = f₀.indexer.stateGateway.nativeToken
  subset : ∀ t ∈ txs written, t ∈ txs f.drained
  filed : ∀ t ∈ txs written, t.Filed
  writes : ∀ {K V : Type} (w : TxWithChanges → K → Option V) (key : K),
    f.InDatabase ix.stateGateway (fun t => w t key ≠ none) →
      lastWrite w (txs f.drained) key = lastWrite w (txs written) key

lemma Sound.drained_eq (h : Sound pg f₀ f) :
    f.chain = f.drained ++ f.indexer.extractor.reorgBuffer.blockMessages := by
  obtain ⟨written, staged, queued, hplaced⟩ := h.placed
  have hlen : f.chain.length - f.indexer.extractor.reorgBuffer.blockMessages.length =
      (written ++ staged ++ queued).length := by
    rw [hplaced.chain_eq, length_append, Nat.add_sub_cancel]
  rw [drained, hlen, hplaced.chain_eq, take_left]

lemma Sound.reads (h : Sound pg f₀ f) (answers : List Answer) :
    ∃ written, Reads pg f₀ f (f.indexer.commitSteps pg answers) written := by
  obtain ⟨_, _, _, hplaced⟩ := h.placed
  obtain ⟨written, staged, queued, hplaced'⟩ := hplaced.commitSteps answers
  obtain ⟨hstored, hnative⟩ := @Indexer.commitSteps_stored pg f.indexer answers
  have hdrain : written ++ staged ++ queued = f.drained := by
    have hchain := hplaced'.chain_eq
    rw [Indexer.commitSteps_extractor, h.drained_eq] at hchain
    exact (append_cancel_right hchain).symm
  have hsubset : ∀ t ∈ txs written, t ∈ txs f.drained := by
    intro t ht
    obtain ⟨m, hm, ht⟩ := mem_flatMap.mp ht
    rw [← hdrain, append_assoc]
    exact mem_flatMap.mpr ⟨m, mem_append_left _ hm, ht⟩
  refine ⟨written, ⟨staged, hplaced'.holds⟩, hstored.trans h.stored, hnative.trans h.nativeToken,
    hsubset, fun t ht => h.filed t ?_, fun w key hdb => ?_⟩
  · rw [h.drained_eq]
    obtain ⟨m, hm, ht⟩ := mem_flatMap.mp (hsubset t ht)
    exact mem_flatMap.mpr ⟨m, mem_append_left _ hm, ht⟩
  · rw [← hdrain]
    refine hplaced'.lastWrite_drained h.ascending fun m hm => ?_
    rw [hdrain] at hm
    exact hdb m hm

section
variable {written kept : List BlockUpdateWithCursor}

private lemma txs_append (l l' : List BlockUpdateWithCursor) : txs (l ++ l') = txs l ++ txs l' :=
  flatMap_append

lemma Reads.slotAfter (h : Reads pg f₀ f ix written) {k : StoreKey}
    (hdb : f.InDatabase ix.stateGateway fun t => t.slotUpdate (a, k) ≠ none)
    (hstores : ∀ t ∈ txs f.drained, t.StoresSlot (a, k)) :
    slotAfter ix.stateGateway.store (txs kept) a k =
      slotAfter f₀.indexer.stateGateway.stored (txs (f.drained ++ kept)) a k := by
  obtain ⟨staged, hholds⟩ := h.holds
  have hslots := hholds.slot h.filed fun t ht => hstores t (h.subset t ht)
  unfold Tycho.slotAfter
  rw [hslots, h.stored, txs_append, lastWrite_append, h.writes _ _ hdb, Option.or_assoc]

lemma Reads.previousAttr (h : Reads pg f₀ f ix written) {a : AttrStoreKey}
    (hdb : f.InDatabase ix.stateGateway fun t => attrWrite t (c, a) ≠ none)
    (hkept : ∀ t ∈ txs kept, attrWrite t (c, a) ≠ some none) :
    previousAttr ix.stateGateway.store (txs kept) c a =
      attrAfter f₀.indexer.stateGateway.stored (txs (f.drained ++ kept)) c a := by
  obtain ⟨staged, hholds⟩ := h.holds
  have hupdate : lastWrite attrWrite (txs kept) (c, a) =
      (lastWrite TxWithChanges.attributeUpdate (txs kept) (c, a)).map some := by
    rw [← lastWrite_map_value]
    refine lastWrite_congr fun t ht => ?_
    cases hw : attrWrite t (c, a) with
    | none => rw [attributeUpdate_of_attrWrite_none hw, Option.map_none]
    | some v =>
      cases v with
      | none => exact absurd hw (hkept t ht)
      | some => rw [attributeUpdate_of_attrWrite_some hw, Option.map_some]
  unfold Revert.previousAttr attrAfter
  rw [hholds.attr h.filed, h.stored, txs_append, lastWrite_append, h.writes _ _ hdb, hupdate]
  cases lastWrite TxWithChanges.attributeUpdate (txs kept) (c, a) <;> rfl

/-- Buffered and stored balances, apart from their transactions. -/
private lemma map_or_or {u : V → W} {z : V → V} (hu : ∀ v, u (z v) = u v) (x y d : Option V) :
    (x.or ((y.map z).or d)).map u = ((x.or y).or d).map u := by
  cases x <;> cases y <;> simp [hu]

lemma Reads.componentBalanceAfter (h : Reads pg f₀ f ix written)
    (hdb : f.InDatabase ix.stateGateway fun t => t.componentBalance (c, token) ≠ none) :
    (componentBalanceAfter ix.stateGateway.store (txs kept) c token).map ComponentBalance.untagged =
      (componentBalanceAfter f₀.indexer.stateGateway.stored
        (txs (f.drained ++ kept)) c token).map ComponentBalance.untagged := by
  obtain ⟨staged, hholds⟩ := h.holds
  unfold Tycho.componentBalanceAfter
  rw [hholds.componentBalance h.filed, h.stored, txs_append, lastWrite_append, h.writes _ _ hdb]
  refine map_or_or ?_ _ _ _
  intro b
  rfl

lemma Reads.accountBalanceAfter (h : Reads pg f₀ f ix written)
    (htoken : token ≠ f₀.indexer.stateGateway.nativeToken)
    (hdb : f.InDatabase ix.stateGateway fun t => t.accountBalance (a, token) ≠ none) :
    (accountBalanceAfter ix.stateGateway.store (txs kept) a token).map AccountBalance.untagged =
      (accountBalanceAfter f₀.indexer.stateGateway.stored
        (txs (f.drained ++ kept)) a token).map AccountBalance.untagged := by
  obtain ⟨staged, hholds⟩ := h.holds
  unfold Tycho.accountBalanceAfter
  rw [hholds.accountBalance h.filed a (h.nativeToken ▸ htoken), h.stored, txs_append,
    lastWrite_append, h.writes _ _ hdb]
  refine map_or_or ?_ _ _ _
  intro b
  rfl

end

/-- The values that an undo signal uses for the keys that it reverts are those after the target,
for every key that all the blocks which write it and have left the buffer have in the database when
it is read. -/
structure UsesTarget (pg : ExtractorPgGateway) (f₀ f f' : Feed) (msg : BlockAggregatedChanges)
    (contracts states componentBalances accountBalances : List Answer) : Prop where
  slots : ∀ a k, (a, k) ∈ accountStateKeys (revertedComponents (f.revertedTxs f')).1
      (f.revertedTxs f') →
    f.InDatabase (f.indexer.commitSteps pg contracts).stateGateway
      (fun t => t.slotUpdate (a, k) ≠ none) →
    (∀ t ∈ txs f.drained, t.StoresSlot (a, k)) →
    (msg.accountDeltas.lookup a).bind (fun delta => delta.slots.lookup k) = some (some
      (slotAfter f₀.indexer.stateGateway.stored (txs f'.chain) a k))
  attributes : ∀ c a, (c, a) ∈ revertedStateKeys (f.revertedTxs f') →
    a ∉ ((revertedCreated (f.revertedTxs f')).lookup c).getD ∅ →
    f.InDatabase (f.indexer.commitSteps pg (contracts ++ states)).stateGateway
      (fun t => attrWrite t (c, a) ≠ none) →
    (∀ t ∈ txs f'.indexer.extractor.reorgBuffer.blockMessages, attrWrite t (c, a) ≠ some none) →
    (msg.stateDeltas.lookup c).bind (fun delta => delta.write a) = some
      (attrAfter f₀.indexer.stateGateway.stored (txs f'.chain) c a)
  balances : ∀ c token, (c, token) ∈ componentBalanceKeys
      (revertedComponents (f.revertedTxs f')).1 (f.revertedTxs f') →
    f.InDatabase (f.indexer.commitSteps pg (contracts ++ states ++ componentBalances)).stateGateway
      (fun t => t.componentBalance (c, token) ≠ none) →
    (msg.componentBalances.lookup₂ c token).map ComponentBalance.untagged = some
      ((componentBalanceAfter f₀.indexer.stateGateway.stored (txs f'.chain) c
        token).getD ⟨token, .new, .zero, .new, c⟩).untagged
  tokenBalances : ∀ a token, (a, token) ∈ accountBalanceKeys (f.revertedTxs f')
      msg.accountDeltas →
    token ≠ f₀.indexer.stateGateway.nativeToken →
    f.InDatabase (f.indexer.commitSteps pg
      (contracts ++ states ++ componentBalances ++ accountBalances)).stateGateway
      (fun t => t.accountBalance (a, token) ≠ none) →
    (msg.accountBalances.lookup₂ a token).map AccountBalance.untagged = some
      ((accountBalanceAfter f₀.indexer.stateGateway.stored (txs f'.chain) a
        token).getD ⟨a, token, .new, .new⟩).untagged

private lemma getD_map {u : V → W} {x y : Option V} (h : x.map u = y.map u) (d : V) :
    u (x.getD d) = u (y.getD d) := by
  calc u (x.getD d) = (x.map u).getD (u d) := (Option.getD_map u d x).symm
    _ = (y.map u).getD (u d) := by rw [h]
    _ = u (y.getD d) := Option.getD_map u d y

/-- An undo signal does not see the blocks that the commit task has not yet written; for the other
keys it uses the values after the target. -/
theorem usesTarget_of_run {trace : List (Event × Option BlockAggregatedChanges)}
    {signal : BlockUndoSignal} {plugin : Except ExtractionError Unit}
    {contracts states componentBalances accountBalances : List Answer}
    {msg : BlockAggregatedChanges} (hstart : f₀.Starts)
    (hrun : Run (step pg) (fun f ev => f.Ascends ev ∧ f.Files ev) f₀ trace f)
    (hstep : f.step pg (.undo signal plugin contracts states componentBalances accountBalances) =
      some (some msg, f')) :
    UsesTarget pg f₀ f f' msg contracts states componentBalances accountBalances := by
  have hsound : Sound pg f₀ f := Run.invariant (P := fun _ f => Sound pg f₀ f) hstart.sound
    (fun _ _ _ _ _ h hguard hstep => h.step hguard.1 hguard.2 hstep) hrun
  obtain ⟨g, hash, purged, buffer, hpurge, hchain, hbuffer, hparts, hg₁, hg₂, hg₃, hg₄⟩ :=
    step_undo hstep
  obtain ⟨_, _, _, hplaced⟩ := hsound.placed
  obtain ⟨hmsgs, -⟩ := purge_ok hpurge
  have hsplit : f.chain = f'.chain ++ purged := hchain ▸ (hplaced.purge hpurge).2
  have htarget : f'.chain = f.drained ++ buffer.blockMessages := by
    have hdrain := hsound.drained_eq
    rw [hmsgs, ← append_assoc, hsplit] at hdrain
    exact append_cancel_right hdrain
  have hrev : f.revertedTxs f' = txs (purged ++
      f.indexer.extractor.partialBlockBuffer.toList.map fun p =>
        ⟨p, f.indexer.extractor.cursor⟩) := by
    rw [revertedTxs, hsplit, drop_left]
  rw [← hrev] at hparts
  constructor
  · intro a k hkey hdb hstores
    obtain ⟨written, hreads⟩ := hsound.reads contracts
    obtain ⟨deltas, hdeltas, hmem, hspec⟩ := accountDeltas_spec hg₁ buffer f.indexer.extractor.chain
      (accountStateKeys (revertedComponents (f.revertedTxs f')).1 (f.revertedTxs f'))
    cases hdeltas.symm.trans hparts.accountDeltas
    obtain ⟨delta, hdeltas⟩ := HashMap.mem_iff_lookup.mp ((hmem a).mpr ⟨k, hkey⟩)
    rw [hdeltas, Option.bind_some, (hspec a delta hdeltas).2.2.1 k hkey,
      hreads.slotAfter hdb hstores, htarget]
  · intro c a hkey hcreated hdb hkept
    obtain ⟨written, hreads⟩ := hsound.reads (contracts ++ states)
    rw [hbuffer] at hkept
    rw [((stateDeltas_write hg₂ hparts.stateDeltas c).2 a).2.1 hcreated hkey,
      hreads.previousAttr hdb hkept, htarget]
  · intro c token hkey hdb
    obtain ⟨written, hreads⟩ := hsound.reads (contracts ++ states ++ componentBalances)
    obtain ⟨balances, hbal, hspec⟩ := getComponentBalances_spec buffer hg₃
      (componentBalanceKeys (revertedComponents (f.revertedTxs f')).1 (f.revertedTxs f'))
    cases hbal.symm.trans hparts.componentBalances
    rw [(hspec c token).1 hkey, Option.map_some, htarget]
    exact congrArg some (getD_map (hreads.componentBalanceAfter hdb) _)
  · intro a token hkey htoken hdb
    obtain ⟨written, hreads⟩ := hsound.reads
      (contracts ++ states ++ componentBalances ++ accountBalances)
    obtain ⟨balances, hbal, hspec⟩ := getAccountBalances_spec buffer hg₄
      (accountBalanceKeys (f.revertedTxs f') msg.accountDeltas)
    cases hbal.symm.trans hparts.accountBalances
    rw [(hspec a token).1 hkey, Option.map_some, htarget]
    exact congrArg some (getD_map (hreads.accountBalanceAfter htoken hdb) _)

section
open Reorg

/-- Finality only advances, and undo signals go back to blocks above it. -/
def RespectsFinality (f : Feed) (ev : Event) : Prop :=
  f.finalizedBlockHeight ≤ f.finalizedAfter ev ∧
    ∀ signal plugin contracts states componentBalances accountBalances target,
      ev = .undo signal plugin contracts states componentBalances accountBalances →
      (f.chainAfter ev).getLast? = some target → f.finalizedBlockHeight < (block target).number

/-- The stream shows a valid chain. -/
structure ValidChain (f : Feed) (ev : Event) : Prop where
  inOrder : f.InOrder ev
  ascends : f.Ascends ev
  files : f.Files ev
  finality : f.RespectsFinality ev

def isNext (f : Feed) (b : Block) : Bool :=
  f.chain.getLast?.all (fun last => b.number == (block last).number + 1) &&
    f.chain.all (fun c => (block c).number < b.number) &&
    f.indexer.committedBlockHeight.all fun h =>
      h < b.number && (!f.chain.isEmpty || b.number == h + 1)

lemma validChain_tick {msg : BlockChanges} {cursor : String} {answers : List Answer}
    (hfull : msg.partialBlockIndex = none) (hname : msg.extractor = f.indexer.extractor.name)
    (hrevert : msg.revert = false) (hnext : f.isNext msg.block = true)
    (hfiled : ∀ t ∈ msg.txsWithUpdate, t.Filed)
    (hfinal : f.finalizedBlockHeight ≤ msg.finalizedBlockHeight) :
    f.ValidChain (.tick msg cursor answers) := by
  simp only [isNext, Bool.and_eq_true, Option.all_eq_true, all_eq_true, decide_eq_true_eq,
    beq_iff_eq, Bool.or_eq_true, Bool.not_eq_true', isEmpty_eq_false_iff] at hnext
  obtain ⟨⟨hlast, hchain⟩, hcommit⟩ := hnext
  refine ⟨inOrder_tick hfull hname hrevert hlast fun hnil h hh => ?_,
    ascends_tick hfull hchain fun h hh => (hcommit h hh).1, ?_, hfinal, ?_⟩
  · exact (hcommit h hh).2.resolve_left fun hne => hne hnil
  · intro m hm
    rw [chainAfter, hfull] at hm
    cases singleton_inj.mp (append_cancel_left hm)
    exact hfiled
  · rintro signal plugin contracts states componentBalances accountBalances target ⟨⟩

lemma validChain_undo {target : BlockUpdateWithCursor}
    (htarget : (f.chainAfter (.undo signal plugin contracts states componentBalances
      accountBalances)).getLast? = some target)
    (hfinal : f.finalizedBlockHeight < (block target).number) :
    f.ValidChain (.undo signal plugin contracts states componentBalances accountBalances) := by
  have haddress := chainAfter_undo_ne f signal plugin contracts states componentBalances
    accountBalances
  refine ⟨inOrder_undo, fun m hm => absurd hm (haddress m), fun m hm => absurd hm (haddress m),
    le_rfl, ?_⟩
  intro _ _ _ _ _ _ target' _ htarget'
  cases htarget.symm.trans htarget'
  exact hfinal

/-- Block 1 and block 4 set a slot. Block 3 hands block 1 to the commit task, which gets some
answers before the message of block 3. -/
def lagging (answers : List Answer) : List Event :=
  [.tick (streamed 1 0 [vaultTx [(⟨[0]⟩, some ⟨[1]⟩)] ⟨[1]⟩]) "" [],
    .tick (streamed 2 0 []) "" [], .tick (streamed 3 2 []) "" answers,
    .tick (streamed 4 2 [vaultTx [(⟨[0]⟩, some ⟨[4]⟩)] ⟨[4]⟩]) "" []]

def backToThree : Event := .undo ⟨some ⟨"0x03", 3⟩, ""⟩ (.ok ()) [] [] [] []

private lemma filed_vaultTx (v : StoreVal) : ∀ t ∈ [vaultTx [(⟨[0]⟩, some v)] v], t.Filed := by
  rw [forall_mem_singleton]
  constructor <;> intro e he
  · cases he
  · cases mem_singleton.mp he
    rfl
  all_goals
    cases mem_singleton.mp he
    intro b hb
    cases mem_singleton.mp hb
    exact ⟨rfl, rfl⟩

/-- If the task has written block 1, the undo signal finds its slot. -/
theorem usesTarget_of_run_lagging : ∃ trace f f' msg,
    Run (step (poolsGateway 50000)) ValidChain freshFeed trace f ∧
    trace.map Prod.fst = lagging [.ok (), .ok ()] ∧
    f.step (poolsGateway 50000) backToThree = some (some msg, f') ∧
    UsesTarget (poolsGateway 50000) freshFeed f f' msg [] [] [] [] ∧
    (msg.accountDeltas.lookup ⟨[10]⟩).bind (fun delta => delta.slots.lookup ⟨[0]⟩) =
      some (some ⟨[1]⟩) := by
  have hstart : freshFeed.Starts := ⟨rfl, rfl, rfl, rfl, rfl, rfl⟩
  have hnone : ∀ t ∈ ([] : List TxWithChanges), t.Filed := by simp
  obtain ⟨trace, f, f', msg, hrun, htrace, hstep, hslots⟩ : ∃ trace f f' msg,
      Run (step (poolsGateway 50000)) ValidChain freshFeed trace f ∧
      trace.map Prod.fst = lagging [.ok (), .ok ()] ∧
      f.step (poolsGateway 50000) backToThree = some (some msg, f') ∧
      (msg.accountDeltas.lookup ⟨[10]⟩).bind (fun delta => delta.slots.lookup ⟨[0]⟩) =
        some (some ⟨[1]⟩) := by
    refine ⟨_, _, _, _, .next (.next (.next (.next .start
      (validChain_tick rfl rfl rfl rfl (filed_vaultTx ⟨[1]⟩) (by decide)) rfl)
      (validChain_tick rfl rfl rfl rfl hnone (by decide)) rfl)
      (validChain_tick rfl rfl rfl rfl hnone (by decide)) rfl)
      (validChain_tick rfl rfl rfl rfl (filed_vaultTx ⟨[4]⟩) (by decide)) rfl, rfl, rfl, rfl⟩
  exact ⟨trace, f, f', msg, hrun, htrace, hstep, usesTarget_of_run hstart
    (hrun.mono fun f ev h => ⟨h.ascends, h.files⟩) hstep, hslots⟩

/-- Block 1 is neither in the buffer nor in the database when the slot is read. -/
theorem not_usesTarget_lagging : ∃ trace f f' msg,
    Run (step (poolsGateway 50000)) ValidChain freshFeed trace f ∧
    trace.map Prod.fst = lagging [] ∧ f.ValidChain backToThree ∧
    f.step (poolsGateway 50000) backToThree = some (some msg, f') ∧
    (⟨[10]⟩, ⟨[0]⟩) ∈ accountStateKeys (revertedComponents (f.revertedTxs f')).1
      (f.revertedTxs f') ∧
    (msg.accountDeltas.lookup ⟨[10]⟩).bind (fun delta => delta.slots.lookup ⟨[0]⟩) =
      some (some ⟨[]⟩) ∧
    slotAfter freshFeed.indexer.stateGateway.stored (txs f'.chain) ⟨[10]⟩ ⟨[0]⟩ = ⟨[1]⟩ := by
  have hnone : ∀ t ∈ ([] : List TxWithChanges), t.Filed := by simp
  refine ⟨_, _, _, _, .next (.next (.next (.next .start
    (validChain_tick rfl rfl rfl rfl (filed_vaultTx ⟨[1]⟩) (by decide)) rfl)
    (validChain_tick rfl rfl rfl rfl hnone (by decide)) rfl)
    (validChain_tick rfl rfl rfl rfl hnone (by decide)) rfl)
    (validChain_tick rfl rfl rfl rfl (filed_vaultTx ⟨[4]⟩) (by decide)) rfl, rfl,
    validChain_undo rfl (by decide), rfl, by decide, rfl, rfl⟩

end
end Feed
end Tycho
