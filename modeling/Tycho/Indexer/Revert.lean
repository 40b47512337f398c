import Tycho.Common.WellKeyed
import Tycho.Indexer.BufferLookup
import Tycho.Storage.Store

/-! Handling an undo signal: the blocks after the target leave the buffer, and a message restores
what they changed. -/
namespace Tycho
open Collections Replay List ReorgBuffer TxWithChanges HashMap

inductive ExtractionError where
  | decodeError (reason : String)
  | unknown (reason : String)
  | storage (e : StorageError)
  | mergeError (e : MergeError)
  | reorgBufferError (reason : String)
  | partialBlockBufferError (reason : String)
deriving DecidableEq

structure BlockRef where
  id : String
  number : Nat

structure BlockUndoSignal where
  lastValidBlock : Option BlockRef
  lastValidCursor : String

def BlockUndoSignal.target (signal : BlockUndoSignal) : Option BlockHash :=
  signal.lastValidBlock.bind fun r => (Bytes.fromStr r.id).toOption

/-- The state of an extractor that its handlers read and write. -/
structure ProtocolExtractor where
  name : String
  chain : Chain
  commitBatchSize : Nat
  cursor : String
  lastProcessedBlock : Option Block
  firstMessageProcessed : Bool
  reorgBuffer : ReorgBuffer BlockUpdateWithCursor
  partialBlockBuffer : Option BlockChanges

namespace Revert
variable (g : ExtractorGateway) (buffer : ReorgBuffer BlockUpdateWithCursor)

/-- Only the first creation or deletion of a component counts. The first map has the components
to delete again, the second those to create again. -/
def componentStep (st : HashMap ComponentId ProtocolComponent × HashMap ComponentId
    ProtocolComponent)
    (e : ComponentId × ProtocolComponent) :
    HashMap ComponentId ProtocolComponent × HashMap ComponentId ProtocolComponent :=
  if e.1 ∈ st.2 ∨ e.1 ∈ st.1 then st
  else match e.2.change with
    | .update => st
    | .deletion => (st.1, st.2.insert e.1 { e.2 with change := .creation })
    | .creation => (st.1.insert e.1 { e.2 with change := .deletion }, st.2)

def revertedComponents (txs : List TxWithChanges) :
    HashMap ComponentId ProtocolComponent × HashMap ComponentId ProtocolComponent :=
  txs.foldl (fun st t => t.protocolComponents.toList.foldl componentStep st) (∅, ∅)

section
variable (creations : HashMap ComponentId ProtocolComponent) (txs : List TxWithChanges)

def accountStateKeys : List (Address × StoreKey) :=
  collectKeys accountDeltas (fun a => a.toString ∉ creations) (fun _ delta => delta.slots.keys) txs

def createdAttrs : HashMap ComponentId (HashSet AttrStoreKey) :=
  groupSets (pairsOf stateUpdates (fun c => c ∉ creations)
    (fun _ delta => delta.createdAttributes.keys) txs)

/-- Updated attributes that were not created, and all deleted ones. -/
def protocolStateKeys (created : HashMap ComponentId (HashSet AttrStoreKey)) :
    List (ComponentId × AttrStoreKey) :=
  collectKeys stateUpdates (fun c => c ∉ creations)
    (fun c delta => (delta.updatedAttributes.keys.filter fun attr =>
      attr ∉ (created.lookup c).getD ∅) ++ delta.deletedAttributes.keys) txs

def componentBalanceKeys : List (ComponentId × Address) :=
  collectKeys balanceChanges (fun c => c ∉ creations) (fun _ balances => balances.keys) txs

/-- Only accounts that the message has a delta for. -/
def accountBalanceKeys (accountDeltas : HashMap Address AccountDelta) : List (Address × Address) :=
  collectKeys accountBalanceChanges (fun a => a ∈ accountDeltas)
    (fun _ balances => balances.keys) txs

end

/-- Slot values from the buffer, then from the database; a slot that neither has is empty. -/
def combinedStates (buffered : HashMap (Address × StoreKey) StoreVal)
    (missingMap : HashMap Address (List StoreKey)) (contracts : List StoredContract) :
    List ((Address × StoreKey) × StoreVal) :=
  buffered.toList ++ missingMap.toList.flatMap fun e => e.2.map fun key =>
    ((e.1, key), ((contracts.find? fun s => s.address == e.1).bind fun s =>
      s.slots.lookup key).getD .new)

/-- Native balances and code are not restored. -/
def accountDeltas (chain : Chain) (keys : List (Address × StoreKey)) :
    Except ExtractionError (HashMap Address AccountDelta) := do
  let (buffered, missing) := buffer.lookupAccountState keys
  let missingMap := group missing
  let contracts ← (g.getContracts missingMap.keys).mapError .storage
  return collect (fun a => ⟨chain, a, ∅, none, none, .update⟩)
    (fun delta e => { delta with slots := delta.slots.insert e.1 (some e.2) })
    (nest (combinedStates buffered missingMap contracts))

/-- The database state of each component with missing attributes. -/
def missingStates (missingMap : HashMap ComponentId (List AttrStoreKey))
    (states : List ProtocolComponentState) :
    Except ExtractionError (List (ProtocolComponentState × List AttrStoreKey)) :=
  missingMap.toList.mapM fun e =>
    match states.find? fun s => s.componentId == e.1 with
    | some s => .ok (s, e.2)
    | none => .error (.storage (.notFound "Component" e.1))

def dbStates (found : List (ProtocolComponentState × List AttrStoreKey)) :
    HashMap (ComponentId × AttrStoreKey) StoreVal :=
  ofList (found.flatMap fun f => f.2.filterMap fun key =>
    (f.1.attributes.lookup key).map fun value => ((f.1.componentId, key), value))

def notFound (found : List (ProtocolComponentState × List AttrStoreKey)) :
    HashMap ComponentId (HashSet AttrStoreKey) :=
  groupSets (found.flatMap fun f =>
    (f.2.filter fun key => (f.1.attributes.lookup key).isNone).map fun key =>
      (f.1.componentId, key))

/-- The deltas built from the values that were found, the attributes that were not found, and the
created attributes. -/
def assembleStateDeltas (values : List ((ComponentId × AttrStoreKey) × StoreVal))
    (notFound created : HashMap ComponentId (HashSet AttrStoreKey)) :
    HashMap ComponentId ProtocolComponentStateDelta :=
  let deltas := collect (fun c => ⟨c, ∅, (notFound.lookup c).getD ∅, ∅⟩)
    (fun delta e => { delta with updatedAttributes := delta.updatedAttributes.insert e.1 e.2 })
    (nest values)
  let deltas := notFound.toList.foldl (fun m e => orInsert m e.1 (.new e.1 ∅ e.2)) deltas
  created.toList.foldl (fun m e => upsert m e.1 (.new e.1 ∅ ∅) fun delta =>
    { delta with deletedAttributes := delta.deletedAttributes.extend e.2.keys }) deltas

def stateDeltas (keys : List (ComponentId × AttrStoreKey))
    (created : HashMap ComponentId (HashSet AttrStoreKey)) :
    Except ExtractionError (HashMap ComponentId ProtocolComponentStateDelta) := do
  let (buffered, missing) := buffer.lookupProtocolState keys
  let missingMap := group missing
  let states ← (g.getProtocolStates missingMap.keys).mapError .storage
  let found ← missingStates missingMap states
  return assembleStateDeltas ((dbStates found).toList ++ buffered.toList) (notFound found) created

section
variable {K V : Type} [DecidableEq K]

/-- Stored or default balances of an owner. -/
def filteredBalances (stored : HashMap K (HashMap Address V)) (default : K → Address → V) (k : K)
    (tokens : List Address) : HashMap Address V :=
  ofList (tokens.map fun token =>
    (token, (stored.lookup₂ k token).getD (default k token)))

/-- Buffered balances, and stored or default balances for the keys that were not buffered. -/
def previousBalances (buffered : HashMap K (HashMap Address V))
    (missingMap : HashMap K (List Address)) (stored : HashMap K (HashMap Address V))
    (default : K → Address → V) : HashMap K (HashMap Address V) :=
  extendAll ((missingMap.toList.map fun e => (e.1, filteredBalances stored default e.1 e.2)) ++
    buffered.toList)

end

def getComponentBalances (keys : List (ComponentId × Address)) :
    Except ExtractionError (HashMap ComponentId (HashMap Address ComponentBalance)) := do
  let (buffered, missing) := buffer.lookupComponentBalances keys
  let missingMap := group missing
  let stored ← (g.getComponentsBalances missingMap.keys).mapError .storage
  return previousBalances buffered missingMap stored fun id token => ⟨token, .new, .zero, .new, id⟩

def getAccountBalances (keys : List (Address × Address)) :
    Except ExtractionError (HashMap Address (HashMap Address AccountBalance)) := do
  let (buffered, missing) := buffer.lookupAccountBalances keys
  let missingMap := group missing
  let stored ← (g.getAccountBalances missingMap.keys).mapError .storage
  return previousBalances buffered missingMap stored fun account token =>
    ⟨account, token, .new, .new⟩

/-- What a revert restores. The blocks after the target are in `reverted`, and `buffer` holds
what is left. -/
def message (e : ProtocolExtractor) (reverted : List BlockUpdateWithCursor)
    (partialBlockIndex : Option Nat) : Except ExtractionError BlockAggregatedChanges := do
  let txs := txs reverted
  let (creations, deletions) := revertedComponents txs
  let accountDeltas ← accountDeltas g buffer e.chain (accountStateKeys creations txs)
  let created := createdAttrs creations txs
  let stateDeltas ← stateDeltas g buffer (protocolStateKeys creations txs created) created
  let componentBalances ← getComponentBalances g buffer (componentBalanceKeys creations txs)
  let accountBalances ← getAccountBalances g buffer (accountBalanceKeys txs accountDeltas)
  let newLatestBlock ← match buffer.getMostRecentBlock with
    | some b => .ok b
    | none => .error (.reorgBufferError "Reorg buffer is empty after purge")
  let last ← match reverted.getLast? with
    | some b => .ok b
    | none => .error (.reorgBufferError "Reorg buffer is empty after purge")
  return {
    extractor := e.name
    chain := e.chain
    block := newLatestBlock
    dbCommittedBlockHeight := none
    finalizedBlockHeight := last.blockUpdate.finalizedBlockHeight
    revert := true
    stateDeltas := stateDeltas
    accountDeltas := accountDeltas
    newTokens := ∅
    newProtocolComponents := deletions
    deletedProtocolComponents := creations
    componentBalances := componentBalances
    accountBalances := accountBalances
    componentTvl := ∅
    dciUpdate := ⟨∅, ∅, ∅⟩
    partialBlockIndex := partialBlockIndex }

end Revert

variable {g : ExtractorGateway} {msg : BlockAggregatedChanges}

namespace ProtocolExtractor

def updateCursor (e : ProtocolExtractor) (cursor : String) : ProtocolExtractor :=
  { e with cursor := cursor, firstMessageProcessed := true }

/-- `processRevert` is what the plugin does with the hash of the target; without a plugin it
accepts. -/
def handleRevert (e : ProtocolExtractor) (g : ExtractorGateway)
    (processRevert : BlockHash → Except ExtractionError Unit) (inp : BlockUndoSignal) :
    Except ExtractionError (Option BlockAggregatedChanges × ProtocolExtractor) := do
  let blockRef ← match inp.lastValidBlock with
    | some r => .ok r
    | none => .error (.decodeError "Revert without block ref")
  let blockHash ← (Bytes.fromStr blockRef.id).mapError fun err =>
    .decodeError ("Failed to parse " ++ blockRef.id ++ " as block hash: " ++ err)
  -- an undo signal before any block has nothing to revert
  if !e.firstMessageProcessed then
    return (none, e.updateCursor inp.lastValidCursor)
  processRevert blockHash
  let (purged, buffer) ← (e.reorgBuffer.purge blockHash).mapError fun err =>
    .reorgBufferError err.toString
  let partialIndex := if purged.isEmpty then e.partialBlockBuffer.bind
    BlockChanges.partialBlockIndex
    else none
  let reverted := purged ++ e.partialBlockBuffer.toList.map fun p => ⟨p, e.cursor⟩
  let message ← Revert.message g buffer e reverted partialIndex
  let e : ProtocolExtractor := { e with
    reorgBuffer := buffer
    partialBlockBuffer := none
    lastProcessedBlock := some message.block }
  return (some message, e.updateCursor inp.lastValidCursor)

/-- What an undo signal does when it succeeds. -/
lemma handleRevert_cases {e e' : ProtocolExtractor}
    {processRevert : BlockHash → Except ExtractionError Unit} {inp : BlockUndoSignal}
    {out : Option BlockAggregatedChanges} (h : e.handleRevert g processRevert inp = .ok (out, e')) :
    (e.firstMessageProcessed = false ∧ out = none ∧ e' = e.updateCursor inp.lastValidCursor) ∨
    ∃ hash purged buffer msg, e.firstMessageProcessed = true ∧ inp.target = some hash ∧
      processRevert hash = .ok () ∧ e.reorgBuffer.purge hash = .ok (purged, buffer) ∧
      Revert.message g buffer e (purged ++ e.partialBlockBuffer.toList.map fun p => ⟨p, e.cursor⟩)
        (if purged.isEmpty then e.partialBlockBuffer.bind BlockChanges.partialBlockIndex
          else none) = .ok msg ∧ out = some msg ∧
      e' = updateCursor { e with
        reorgBuffer := buffer
        partialBlockBuffer := none
        lastProcessedBlock := some msg.block } inp.lastValidCursor := by
  unfold handleRevert at h
  cases href : inp.lastValidBlock with
  | none =>
    rw [href] at h
    cases h
  | some ref =>
    rw [href] at h
    obtain ⟨_, heq, h⟩ := ok_of_bind_ok h
    cases heq
    obtain ⟨hash, hhash, h⟩ := ok_of_bind_ok h
    have htarget : inp.target = some hash := by
      rw [BlockUndoSignal.target, href, Option.bind_some, ok_of_mapError_ok hhash]
      rfl
    cases hfirst : e.firstMessageProcessed with
    | false =>
      rw [hfirst] at h
      cases h
      exact .inl ⟨rfl, rfl, rfl⟩
    | true =>
      rw [hfirst] at h
      obtain ⟨_, hplugin, h⟩ := ok_of_bind_ok h
      obtain ⟨⟨purged, buffer⟩, hpurge, h⟩ := ok_of_bind_ok h
      obtain ⟨msg, hmsg, h⟩ := ok_of_bind_ok h
      cases h
      exact .inr ⟨hash, purged, buffer, msg, rfl, htarget, hplugin, ok_of_mapError_ok hpurge, hmsg,
        rfl, rfl⟩

end ProtocolExtractor

namespace Revert

def event (t : TxWithChanges) (c : ComponentId) : Option ChangeType :=
  (t.protocolComponents.lookup c).bind fun p =>
    if p.change = .update then none else some p.change

/-- A component is created in some transactions if its first event there is its creation. -/
def CreatedIn (txs : List TxWithChanges) (c : ComponentId) : Prop :=
  txs.findSome? (fun t => event t c) = some .creation

instance (txs : List TxWithChanges) (c : ComponentId) : Decidable (CreatedIn txs c) :=
  inferInstanceAs (Decidable (_ = _))

/-- What the maps of reverted components know of a component. -/
def seen (c : ComponentId)
    (st : HashMap ComponentId ProtocolComponent × HashMap ComponentId ProtocolComponent) :
    Option ChangeType :=
  if c ∈ st.1 then some .creation else if c ∈ st.2 then some .deletion else none

lemma seen_componentStep (c : ComponentId)
    (st : HashMap ComponentId ProtocolComponent × HashMap ComponentId ProtocolComponent)
    (e : ComponentId × ProtocolComponent) :
    seen c (componentStep st e) = (seen c st).or
      (if e.1 = c then if e.2.change = .update then none else some e.2.change else none) := by
  unfold componentStep seen
  by_cases hold : e.1 ∈ st.2 ∨ e.1 ∈ st.1
  · rw [if_pos hold]
    by_cases hc : e.1 = c
    · subst hc
      by_cases h₁ : e.1 ∈ st.1
      · simp [h₁]
      · simp [h₁, hold.resolve_right h₁]
    · simp [hc]
  · rw [if_neg hold]
    obtain ⟨h₂, h₁⟩ := not_or.mp hold
    by_cases hc : e.1 = c
    · subst hc
      cases hch : e.2.change <;> simp [h₁, h₂]
    · cases hch : e.2.change <;> simp [hc, Ne.symm hc]

lemma seen_revertedComponents (txs : List TxWithChanges) (c : ComponentId) :
    seen c (revertedComponents txs) = txs.findSome? fun t => event t c := by
  have htx : ∀ (t : TxWithChanges) st,
      seen c (t.protocolComponents.toList.foldl componentStep st) = (seen c st).or (event t c) := by
    intro t st
    rw [foldl_first (seen_componentStep c), findSome?_toList t.protocolComponents
      (fun p => if p.change = .update then none else some p.change)]
    rfl
  rw [revertedComponents, foldl_first fun st t => htx t st]
  rfl

lemma mem_creations {txs : List TxWithChanges} {c : ComponentId} :
    c ∈ (revertedComponents txs).1 ↔ CreatedIn txs c := by
  unfold CreatedIn
  rw [← seen_revertedComponents]
  unfold seen
  split_ifs <;> simp_all

def revertedCreated (txs : List TxWithChanges) : HashMap ComponentId (HashSet AttrStoreKey) :=
  createdAttrs (revertedComponents txs).1 txs

def revertedStateKeys (txs : List TxWithChanges) : List (ComponentId × AttrStoreKey) :=
  protocolStateKeys (revertedComponents txs).1 txs (revertedCreated txs)

/-- What a message of a revert is made of. -/
structure Parts (g : ExtractorGateway) (buffer : ReorgBuffer BlockUpdateWithCursor)
    (e : ProtocolExtractor) (txs : List TxWithChanges) (msg : BlockAggregatedChanges) : Prop where
  accountDeltas : accountDeltas g buffer e.chain
    (accountStateKeys (revertedComponents txs).1 txs) = .ok msg.accountDeltas
  stateDeltas : stateDeltas g buffer (revertedStateKeys txs) (revertedCreated txs) =
    .ok msg.stateDeltas
  componentBalances : getComponentBalances g buffer
    (componentBalanceKeys (revertedComponents txs).1 txs) = .ok msg.componentBalances
  accountBalances : getAccountBalances g buffer (accountBalanceKeys txs msg.accountDeltas) =
    .ok msg.accountBalances
  block : buffer.getMostRecentBlock = some msg.block
  revert : msg.revert = true
  extractor : msg.extractor = e.name
  dbCommittedBlockHeight : msg.dbCommittedBlockHeight = none

section
variable {g : ExtractorGateway} {buffer : ReorgBuffer BlockUpdateWithCursor} {e : ProtocolExtractor}
  {reverted : List BlockUpdateWithCursor} {index : Option Nat}

lemma message_ok (h : message g buffer e reverted index = .ok msg) :
    Parts g buffer e (txs reverted) msg ∧ (reverted ≠ [] ∧
      msg.newProtocolComponents = (revertedComponents (txs reverted)).2 ∧
      msg.deletedProtocolComponents = (revertedComponents (txs reverted)).1) ∧
      msg.partialBlockIndex = index := by
  obtain ⟨accounts, haccounts, h⟩ := ok_of_bind_ok h
  obtain ⟨states, hstates, h⟩ := ok_of_bind_ok h
  obtain ⟨balances, hbal, h⟩ := ok_of_bind_ok h
  obtain ⟨tokens, htokens, h⟩ := ok_of_bind_ok h
  cases hb : buffer.getMostRecentBlock with
  | none =>
    rw [hb] at h
    cases h
  | some =>
    cases hl : reverted.getLast? with
    | none =>
      rw [hb, hl] at h
      cases h
    | some =>
      rw [hb, hl] at h
      cases h
      have hne : reverted ≠ [] := by
        rintro rfl
        cases hl
      exact ⟨⟨haccounts, hstates, hbal, htokens, hb, rfl, rfl, rfl⟩, ⟨hne, rfl, rfl⟩, rfl⟩

end
end Revert

/-- An extractor that is told to go back to a block in its buffer. -/
structure Reorg where
  extractor : ProtocolExtractor
  kept : List BlockUpdateWithCursor
  undone : List BlockUpdateWithCursor
  target : BlockUpdateWithCursor
  signal : BlockUndoSignal
  processRevert : BlockHash → Except ExtractionError Unit
  firstMessageProcessed : extractor.firstMessageProcessed = true
  blockMessages : extractor.reorgBuffer.blockMessages = kept ++ undone
  last : kept.getLast? = some target
  lastValidBlock : ∃ ref, signal.lastValidBlock = some ref ∧
    Bytes.fromStr ref.id = .ok (block target).hash
  accepted : processRevert (block target).hash = .ok ()
  hash_ne : ∀ m ∈ undone, (block m).hash ≠ (block target).hash
  wellKeyed : ∀ b ∈ (kept ++ undone).map BlockUpdateWithCursor.blockUpdate ++
    extractor.partialBlockBuffer.toList, b.WellKeyed

namespace Reorg
variable (r : Reorg)

def reverted : List BlockUpdateWithCursor :=
  r.undone ++ r.extractor.partialBlockBuffer.toList.map fun p => ⟨p, r.extractor.cursor⟩

def keptTxs : List TxWithChanges := txs r.kept

def revertedTxs : List TxWithChanges := txs r.reverted

def buffer : ReorgBuffer BlockUpdateWithCursor := { r.extractor.reorgBuffer with
  blockMessages := r.kept }

def partialIndex : Option Nat :=
  if r.undone.isEmpty then r.extractor.partialBlockBuffer.bind BlockChanges.partialBlockIndex
  else none

def message (g : ExtractorGateway) : Except ExtractionError BlockAggregatedChanges :=
  Revert.message g r.buffer r.extractor r.reverted r.partialIndex

lemma wellKeyed_of_mem {t : TxWithChanges} (ht : t ∈ r.keptTxs ++ r.revertedTxs) :
    ∃ chain, t.WellKeyed chain := by
  rw [keptTxs, revertedTxs, reverted, txs, txs, ← flatMap_append, mem_flatMap] at ht
  obtain ⟨m, hm, ht⟩ := ht
  refine ⟨m.blockUpdate.chain, r.wellKeyed m.blockUpdate ?_ t ht⟩
  rw [mem_append, mem_map]
  rcases mem_append.mp hm with hm | hm
  · exact .inl ⟨m, mem_append_left _ hm, rfl⟩
  · rcases mem_append.mp hm with hm | hm
    · exact .inl ⟨m, mem_append_right _ hm, rfl⟩
    · obtain ⟨p, hp, rfl⟩ := mem_map.mp hm
      exact .inr hp

lemma handleRevert_eq (g : ExtractorGateway) :
    (r.extractor.handleRevert g r.processRevert r.signal).map Prod.fst =
      (r.message g).map some := by
  obtain ⟨ref, hsignal, hhash⟩ := r.lastValidBlock
  have hpurge : r.extractor.reorgBuffer.purge (block r.target).hash = .ok (r.undone, r.buffer) :=
    purge_of_split r.blockMessages r.last rfl r.hash_ne
  unfold ProtocolExtractor.handleRevert
  simp only [hsignal, hhash, r.firstMessageProcessed, r.accepted, hpurge, bind, Except.bind,
    Except.mapError, Bool.not_true, Bool.false_eq_true, if_false]
  unfold message reverted partialIndex
  cases Revert.message g r.buffer r.extractor _ _ <;> rfl

lemma parts_of_handleRevert {e : ProtocolExtractor}
    (h : r.extractor.handleRevert g r.processRevert r.signal = .ok (some msg, e)) :
    Revert.Parts g r.buffer r.extractor r.revertedTxs msg ∧ r.reverted ≠ [] ∧
      msg.newProtocolComponents = (Revert.revertedComponents r.revertedTxs).2 ∧
      msg.deletedProtocolComponents = (Revert.revertedComponents r.revertedTxs).1 := by
  have hmap := r.handleRevert_eq g
  rw [h] at hmap
  obtain ⟨msg', hmsg, heq⟩ := ok_of_map_ok hmap.symm
  cases heq
  obtain ⟨hparts, hne, -⟩ := Revert.message_ok hmsg
  exact ⟨hparts, hne⟩

lemma handleRevert_of_message (h : r.message g = .ok msg) :
    ∃ e, r.extractor.handleRevert g r.processRevert r.signal = .ok (some msg, e) := by
  have hmap := r.handleRevert_eq g
  rw [h] at hmap
  obtain ⟨⟨o, e⟩, hok, heq⟩ := ok_of_map_ok hmap
  cases heq
  exact ⟨e, hok⟩

end Reorg
end Tycho
