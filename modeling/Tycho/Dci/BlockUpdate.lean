import Tycho.Dci.DciCache

/-! Which entry points the dynamic contract indexer traces in a block, and what it does with the
block: trace, request the state of new accounts, pause components whose tracing failed, and add the
changes of tracked contracts. -/
namespace Tycho
open Collections Replay VersionedCache HashMap

def DCICacheError.toString : DCICacheError → String
  | .unexpectedBlockOrder new last => "Unexpected block order: new block number " ++ new.repr ++
    " is not a child of " ++ last.repr
  | .blockNotFound b context =>
    "Block " ++ b ++ " not found in pending cache in context: " ++ context

/-- The variants of the extractor's error that the indexer returns. -/
inductive DciError where
  | setup (reason : String)
  | unknown (reason : String)
  | storage (e : StorageError)
  | substreamsError (reason : String)
  | mergeError (e : MergeError)
  | accountExtractionError (reason : String)
  | dciCacheError (e : DCICacheError)
deriving DecidableEq

def DciError.toString : DciError → String
  | .setup reason => "Extractor setup failed: " ++ reason
  | .unknown reason => "Unexpected extraction error: " ++ reason
  | .storage e => "Storage failure: " ++ e.toString
  | .substreamsError reason => "Stream errored: " ++ reason
  | .mergeError e => "Merge error: " ++ e.toString
  | .accountExtractionError reason => "Account extraction error: " ++ reason
  | .dciCacheError e => "DCI cache error: " ++ e.toString

structure DynamicContractIndexer where
  chain : Chain
  cache : DCICache
  addressByteLen : Nat
  maxRetryCount : Nat

def DynamicContractIndexer.new (chain : Chain) : DynamicContractIndexer := ⟨chain, .new, 20, 5⟩

/-- Tracing results and retries are kept by the id of the entry point. -/
def EntryPointWithTracingParams.key (e : EntryPointWithTracingParams) :
    EntryPointId × TracingParams :=
  (e.entryPoint.externalId, e.params)

namespace BlockChanges

def componentTokens (bc : BlockChanges) : List Address :=
  bc.txsWithUpdate.flatMap fun tx => tx.protocolComponents.values.flatMap ProtocolComponent.tokens

def links (bc : BlockChanges) : List (ComponentId × EntryPoint) :=
  bc.txsWithUpdate.flatMap fun tx => tx.entrypoints.toList.flatMap fun e =>
    e.2.keys.map fun ep => (e.1, ep)

def newEntrypoints (bc : BlockChanges) : HashMap EntryPointId EntryPoint :=
  HashMap.ofList (bc.txsWithUpdate.flatMap fun tx => tx.entrypoints.values.flatMap fun eps =>
    eps.keys.map fun ep => (ep.externalId, ep))

def entrypointParams (bc : BlockChanges) : List (EntryPointId × Transaction × TracingParams) :=
  bc.txsWithUpdate.flatMap fun tx => tx.entrypointParams.toList.flatMap fun e =>
    e.2.keys.map fun p => (e.1, tx.tx, p.1)

def newEntrypointParams (bc : BlockChanges) :
    HashMap EntryPointId (List (Transaction × TracingParams)) :=
  group bc.entrypointParams

/-- The components whose state or balances a block changes, latest transaction first. -/
def updatedComponents (bc : BlockChanges) : List (ComponentId × Transaction) :=
  bc.txsWithUpdate.reverse.flatMap fun tx =>
    (tx.stateUpdates.keys ++ tx.balanceChanges.keys).map fun id => (id, tx.tx)

end BlockChanges

namespace DCICache

def run (c : DCICache) (i : SubCache)
    (call : Call (VersionedCache i.Key i.Value) DCICacheError Unit) : Except DciError DCICache :=
  ((call.zoom i.lens).exec c).mapError .dciCacheError

/-- A block gets its layer, and its tokens and links go there. -/
def openBlock (c : DCICache) (bc : BlockChanges) : Except DciError DCICache := do
  let c ← ((tryInsertBlockLayer bc.block).exec c).mapError .dciCacheError
  let c ← bc.componentTokens.foldlM (fun c t =>
    c.run .erc20Addresses (pendingEntry bc.block t fun o => o.getD true)) c
  bc.links.foldlM (fun c link => c.run .epIdToComponentId
    (pendingEntry bc.block link.2.externalId fun o =>
      HashSet.insert (o.getD ∅) link.1)) c

/-- The entry points of the block come before those that are known. -/
def entrypoint (c : DCICache) (new : HashMap EntryPointId EntryPoint) (id : EntryPointId) :
    Except DciError EntryPoint :=
  match (new.lookup id).or (c.epIdToEntrypoint.get id) with
  | some ep => .ok ep
  | none => .error (.storage (.notFound "Entrypoint" id))

/-- The params are retried when one of the components changes. -/
def recordParams (c : DCICache) (b : Block) (componentIds : List ComponentId)
    (e : EntryPointWithTracingParams) : Except DciError DCICache :=
  componentIds.foldlM (fun c id => c.run .componentIdToEntrypointParams
    (pendingEntry b id fun o => HashSet.insert (o.getD ∅) e)) c

end DCICache

/-- The entry points to trace, each with the first transaction that asks for it. -/
abbrev Selection := HashMap EntryPointWithTracingParams Transaction

/-- Of two transactions the one with the lower index stays. -/
def keepEarlier {K : Type} [DecidableEq K] (m : HashMap K Transaction) (k : K) (tx : Transaction) :
    HashMap K Transaction :=
  m.insert k (match m.lookup k with
    | some entryTx => if entryTx.index > tx.index then tx else entryTx
    | none => tx)

namespace DynamicContractIndexer
variable (s : DynamicContractIndexer)

def paramsToRetry (id : ComponentId) (tx : Transaction) :
    List (EntryPointId × Transaction × TracingParams) :=
  ((s.cache.componentIdToEntrypointParams.getAll id).getD []).flatMap fun set =>
    set.keys.filterMap fun e =>
      match s.cache.entrypointResults.get e.key with
      | some none =>
        if (s.cache.tracingRetryCounts.get e.key).getD 0 < s.maxRetryCount then
          some (e.entryPoint.externalId, tx, e.params)
        else none
      | _ => none

/-- Each updated component counts once, with its latest transaction. -/
def extractParamsToRetry (bc : BlockChanges) :
    HashMap EntryPointId (List (Transaction × TracingParams)) :=
  group (flatMapFirst s.paramsToRetry bc.updatedComponents)

/-- New params that were not traced successfully before are recorded and selected. -/
def selectNew (bc : BlockChanges) (acc : DCICache × Selection)
    (p : EntryPointId × Transaction × TracingParams) : Except DciError (DCICache × Selection) := do
  let ep ← acc.1.entrypoint bc.newEntrypoints p.1
  let e : EntryPointWithTracingParams := ⟨ep, p.2.2⟩
  match acc.1.entrypointResults.get (p.1, p.2.2) with
  | some (some _) => return acc
  | _ =>
    let c ← match acc.1.epIdToComponentId.get p.1 with
      | some componentIds => acc.1.recordParams bc.block componentIds.keys e
      | none => .ok acc.1
    return (c, keepEarlier acc.2 e p.2.1)

/-- Params to retry are in the cache already. -/
def selectRetry (bc : BlockChanges) (c : DCICache) (m : Selection)
    (p : EntryPointId × Transaction × TracingParams) : Except DciError Selection := do
  let ep ← c.entrypoint bc.newEntrypoints p.1
  match c.entrypointResults.get (p.1, p.2.2) with
  | some (some _) => return m
  | _ => return keepEarlier m ⟨ep, p.2.2⟩ p.2.1

/-- Whether the address in a storage change is another one than before. -/
def retriggerAddressChanged (change : ContractStorageChange) (offset : Nat) :
    Except DciError Bool :=
  let minLength := offset + s.addressByteLen
  let valueLen := change.value.data.length
  let previousLen := change.previous.data.length
  let address (b : Bytes) := (b.data.drop offset).take s.addressByteLen
  if valueLen < minLength then
    .error (.substreamsError ("Received bad storage value! Offset implies minimum length: " ++
      minLength.repr ++ " but value was: " ++ valueLen.repr))
  else if previousLen < minLength then
    .error (.substreamsError
      ("Received bad storage previous value! Offset implies minimum length: " ++
        minLength.repr ++ " but value was: " ++ previousLen.repr))
  else .ok (address change.previous != address change.value)

/-- The entry points of a storage location. The offset is assumed to be the same in all layers. -/
def retriggersAt (location : Address × StoreKey) :
    Option (HashSet EntryPointWithTracingParams × UInt8) :=
  (s.cache.retriggers.getAll location).map fun values =>
    values.foldl (fun acc e => (HashMap.extend acc.1 e.1.toList, e.2)) (∅, 0)

def detectRetriggers (txsWithChanges : List TxWithContractChanges) : Except DciError Selection :=
  let changes := txsWithChanges.flatMap fun t => t.contractChanges.toList.flatMap fun account =>
    account.2.slots.toList.map fun slot => (t.tx, account.1, slot.1, slot.2)
  changes.foldlM (fun m (tx, account, key, change) =>
    match s.retriggersAt (account, key) with
    | none => .ok m
    | some (entrypoints, offset) => do
      let changed ← (s.retriggerAddressChanged change offset.toNat).mapError fun e =>
        .unknown (e.toString ++ " at address: " ++ account.toString)
      if changed then return entrypoints.keys.foldl (fun m e => keepEarlier m e tx) m
      else return m) ∅

def selectEntrypoints (order : VisitOrder) (bc : BlockChanges) :
    Except DciError (DCICache × Selection) := do
  let cache ← s.cache.openBlock bc
  let retry := extractParamsToRetry { s with cache := cache } bc
  let (cache, m) ← (ungroup order bc.newEntrypointParams).foldlM (selectNew bc) (cache, ∅)
  let m ← (ungroup order retry).foldlM (selectRetry bc cache) m
  let retriggered ← detectRetriggers { s with cache := cache } bc.blockContractChanges
  return (cache, HashMap.extend m (order.visit retriggered.toList))

end DynamicContractIndexer

def Bytes.isZero (b : Bytes) : Bool := b.data.all (· == 0)

def TracedEntryPoint.entryPointWithParams (t : TracedEntryPoint) : EntryPointWithTracingParams :=
  ⟨t.entryPoint, t.params⟩

structure StorageSnapshotRequest where
  address : Address
  /-- The entire account if there is none. -/
  slots : Option (List StoreKey)
deriving DecidableEq

/-- What the indexer asks for while it processes a block. -/
structure DciSources where
  order : VisitOrder
  trace : BlockHash → List EntryPointWithTracingParams → List (Except String TracedEntryPoint)
  /-- The first argument counts the attempts. -/
  accountsAtBlock : Nat → Block → List StorageSnapshotRequest →
    Except String (HashMap Address AccountDelta)
  /-- The `Debug` text. -/
  debugTraced : TracedEntryPoint → String

structure Traces where
  traced : List TracedEntryPoint
  failed : List (EntryPointWithTracingParams × Transaction)

/-- The results come in the order of the entry points. -/
def Selection.trace (m : Selection) (src : DciSources) (b : Block) : Traces :=
  let entries := src.order.visit m.toList
  let results := entries.zip (src.trace b.hash (entries.map Prod.fst))
  { traced := results.filterMap fun r => r.2.toOption
    failed := results.filterMap fun r => match r.2 with
      | .ok _ => none
      | .error _ => some r.1 }

/-- The accounts whose state is needed, with the slots and the transaction. -/
structure NewAccounts where
  slots : HashMap Address (HashSet StoreKey)
  txs : HashMap Address Transaction

/-- Change the first transaction with the hash of the given one, or add it. -/
def withTx (tx : Transaction) (f : TxWithChanges → Except MergeError TxWithChanges) :
    List TxWithChanges → Except MergeError (List TxWithChanges)
  | [] => (f (.empty tx)).map fun t => [t]
  | t :: ts =>
    if t.tx.hash = tx.hash then (f t).map fun t' => t' :: ts
    else (withTx tx f ts).map fun ts' => t :: ts'

def insertStateAttributeUpdate (txs : List TxWithChanges) (componentId : ComponentId)
    (tx : Transaction) (attr : AttrStoreKey) (val : StoreVal) :
    Except MergeError (List TxWithChanges) :=
  let delta := ProtocolComponentStateDelta.new componentId (ofList [(attr, val)]) ∅
  withTx tx (fun t =>
    match t.stateUpdates.lookup componentId with
    | none => .ok { t with stateUpdates := t.stateUpdates.insert componentId delta }
    | some existing => (existing.merge delta).map fun merged =>
      { t with stateUpdates := t.stateUpdates.insert componentId merged }) txs

def insertAccountDelta (txs : List TxWithChanges) (account : Address) (tx : Transaction)
    (delta : AccountDelta) : Except MergeError (List TxWithChanges) :=
  withTx tx (fun t =>
    match t.accountDeltas.lookup account with
    | some existing => (existing.merge delta).map fun merged =>
      { t with accountDeltas := t.accountDeltas.insert account merged }
    | none => .ok { t with accountDeltas := t.accountDeltas.insert account delta }) txs

def mergeLast (u : TxWithChanges) : List TxWithChanges → Except MergeError (List TxWithChanges)
  | [] => .ok []
  | t :: ts =>
    if t.tx.hash = u.tx.hash ∧ ∀ t' ∈ ts, t'.tx.hash ≠ u.tx.hash then
      (t.merge u).map fun t' => t' :: ts
    else (mergeLast u ts).map fun ts' => t :: ts'

def mergeUpdate (acc : List TxWithChanges × List TxWithChanges) (u : TxWithChanges) :
    Except MergeError (List TxWithChanges × List TxWithChanges) :=
  if acc.1.any fun t => t.tx.hash = u.tx.hash then (mergeLast u acc.1).map fun txs => (txs, acc.2)
  else .ok (acc.1, acc.2 ++ [u])

/-- Updates of unknown transactions come after the known ones. -/
def mergeUpdates (txs updates : List TxWithChanges) : Except MergeError (List TxWithChanges) := do
  let (merged, new) ← updates.foldlM mergeUpdate (txs, [])
  return merged ++ new

/-- Ask again until there is an answer or no attempt is left. -/
def attempt {A : Type} (ask : Nat → Except String A) : Nat → Nat → Except DciError A
  | retryCount, 0 => (ask retryCount).mapError .accountExtractionError
  | retryCount, left + 1 =>
    match ask retryCount with
    | .ok a => .ok a
    | .error _ => attempt ask (retryCount + 1) left

namespace DCICache

/-- The components of failed entry points, in all layers. -/
def componentIdsToPause (c : DCICache) (failed : List (EntryPointWithTracingParams × Transaction)) :
    List (ComponentId × Transaction) :=
  failed.flatMap fun f =>
    ((c.epIdToComponentId.getAll f.1.entryPoint.externalId).getD []).flatMap fun componentIds =>
      componentIds.keys.map fun id => (id, f.2)

/-- The result of an entry point, what it accessed and what triggers it again. -/
def addTraced (b : Block) (c : DCICache) (t : TracedEntryPoint) : Except DciError DCICache := do
  let c ← t.tracingResult.retriggers.keys.foldlM (fun c location =>
    c.run .retriggers (pendingEntry b (location.1, location.2.key) fun o =>
      let entry := o.getD (∅, location.2.offset)
      (HashSet.insert entry.1 t.entryPointWithParams, entry.2))) c
  let c ← t.tracingResult.accessedSlots.toList.foldlM (fun c access =>
    c.run .trackedContracts (pendingEntry b access.1 fun o => match o with
      | some existing => HashSet.extend existing access.2.keys
      | none => HashSet.ofList access.2.keys)) c
  c.run .entrypointResults (insertPending b t.entryPointWithParams.key (some t.tracingResult))

/-- A failed trace has no result, and is counted. -/
def addFailed (b : Block) (c : DCICache) (f : EntryPointWithTracingParams × Transaction) :
    Except DciError DCICache := do
  let c ← c.run .entrypointResults (insertPending b f.1.key none)
  let currentCount := (c.tracingRetryCounts.get f.1.key).getD 0
  c.run .tracingRetryCounts (insertPending b f.1.key (currentCount + 1))

def updateCache (c : DCICache) (b : Block) (t : Traces) : Except DciError DCICache := do
  let c ← t.traced.foldlM (addTraced b) c
  t.failed.foldlM (addFailed b) c

/-- The cache changes only if something was traced. -/
def recordTraces (c : DCICache) (b : Block) (t : Traces) : Except DciError DCICache :=
  if t.traced.isEmpty && t.failed.isEmpty then .ok c else c.updateCache b t

def trackedKeys (c : DCICache) (account : Address) : HashSet StoreKey :=
  ((c.trackedContracts.getAll account).getD []).foldl (fun merged set => extend merged set.toList) ∅

/-- Tokens and blacklisted contracts are indexed only where they are accessed. -/
def shouldSkipFullIndexing (c : DCICache) (address : Address) : Bool :=
  (c.erc20Addresses.get address).getD false || (c.blacklistedAddresses.get address).getD false

def addAccessed (c : DCICache) (tx : Transaction) (acc : NewAccounts)
    (access : Address × HashSet StoreKey) : NewAccounts :=
  let isNewAccount := !c.trackedContracts.containsKey access.1
  let newSlots := match c.trackedContracts.get access.1 with
    | some tracked => access.2.keys.filter fun slot => slot ∉ tracked
    | none => access.2.keys
  if isNewAccount || (!newSlots.isEmpty && c.shouldSkipFullIndexing access.1) then
    { slots := acc.slots.upsert access.1 ∅ fun set => HashSet.extend set newSlots
      txs := keepEarlier acc.txs access.1 tx }
  else acc

def newAccounts (c : DCICache) (order : VisitOrder)
    (traced : HashMap Transaction (List TracedEntryPoint)) : NewAccounts :=
  (ungroup order traced).foldl (fun acc t =>
    t.2.tracingResult.accessedSlots.toList.foldl (c.addAccessed t.1) acc) ⟨∅, ∅⟩

/-- All slots of an account, or those that are accessed. -/
def storageRequest (c : DCICache) (new : NewAccounts) (address : Address) :
    Except DciError StorageSnapshotRequest :=
  if !c.shouldSkipFullIndexing address then .ok ⟨address, none⟩
  else match new.slots.lookup address with
    | some slots => .ok ⟨address, some slots.keys⟩
    | none => .error (.unknown ("Account " ++ address.toString ++
      " not found in the address to slots map"))

end DCICache

def injectAccount (acc : HashMap Address AccountDelta × List TxWithChanges)
    (entry : Address × Transaction) :
    Except DciError (HashMap Address AccountDelta × List TxWithChanges) :=
  match acc.1.lookup entry.1 with
  | some delta =>
    ((insertAccountDelta acc.2 entry.1 entry.2 delta).mapError .mergeError).map fun txs =>
      (acc.1.erase entry.1, txs)
  | none => .error (.unknown ("Account " ++ entry.1.toString ++
    " not found in the result. All accounts in request should have a result"))

def Selection.withTx (m : Selection) (src : DciSources) (t : TracedEntryPoint) :
    Except DciError (Transaction × TracedEntryPoint) :=
  match m.lookup t.entryPointWithParams with
  | some tx => .ok (tx, t)
  | none => .error (.unknown ("Traced entrypoint " ++ src.debugTraced t ++
    " not found in the entrypoints_to_analyze map. " ++
    "Every traced entrypoint should be in the entrypoints_to_analyze map"))

def Selection.byTx (m : Selection) (src : DciSources) (traced : List TracedEntryPoint) :
    Except DciError (HashMap Transaction (List TracedEntryPoint)) :=
  (traced.mapM (m.withTx src)).map group

namespace DynamicContractIndexer
variable (s : DynamicContractIndexer)

/-- The state of the accounts that the traced entry points newly access. -/
def requestAccounts (src : DciSources) (b : Block) (new : NewAccounts) :
    Except DciError (HashMap Address AccountDelta) := do
  let requests ← (src.order.visit new.txs.toList).mapM fun e => s.cache.storageRequest new e.1
  if requests.isEmpty then return ∅
  else attempt (fun n => src.accountsAtBlock n b requests) 0 5

def applyTraces (src : DciSources) (bc : BlockChanges) (m : Selection) :
    Except DciError (DynamicContractIndexer × BlockChanges) := do
  let t := m.trace src bc.block
  let componentIdsToPause := ofList (s.cache.componentIdsToPause t.failed)
  let new := s.cache.newAccounts src.order (← m.byTx src t.traced)
  let accounts ← s.requestAccounts src bc.block new
  let (_, txs) ← (src.order.visit new.txs.toList).foldlM injectAccount (accounts, bc.txsWithUpdate)
  let txs ← (src.order.visit componentIdsToPause.toList).foldlM (fun txs e =>
    (insertStateAttributeUpdate txs e.1 e.2 "paused" ⟨[2]⟩).mapError .mergeError) txs
  let cache ← s.cache.recordTraces bc.block t
  return ({ s with cache := cache }, { bc with txsWithUpdate := txs, traceResults := t.traced })

/-- The tracer is asked only if something is selected. -/
def traceSelected (src : DciSources) (bc : BlockChanges) (m : Selection) :
    Except DciError (DynamicContractIndexer × BlockChanges) :=
  if m.entries.isEmpty then .ok (s, bc) else s.applyTraces src bc m

/-- Zero values are deletions. -/
def slotValue (value : StoreVal) : Option StoreVal := if value.isZero then none else some value

/-- The changed slots of a contract that are indexed. The smaller of two maps is visited. -/
def slotUpdates (account : Address) (changes : ContractChanges) : ContractStoreDeltas :=
  if s.cache.shouldSkipFullIndexing account then
    let trackedKeys := s.cache.trackedKeys account
    if changes.slots.entries.length < trackedKeys.entries.length then
      ofList (changes.slots.toList.filterMap fun e =>
        if e.1 ∈ trackedKeys then some (e.1, slotValue e.2.value) else none)
    else ofList (trackedKeys.keys.filterMap fun slot =>
      (changes.slots.lookup slot).map fun change => (slot, slotValue change.value))
  else ofList (changes.slots.toList.map fun e => (e.1, slotValue e.2.value))

def trackedDeltas (tx : TxWithContractChanges) : HashMap Address AccountDelta :=
  tx.contractChanges.toList.foldl (fun deltas e =>
    if !s.cache.trackedContracts.containsKey e.1 then deltas
    else
      let slots := s.slotUpdates e.1 e.2
      if !slots.entries.isEmpty || e.2.nativeBalance.isSome then
        deltas.insert e.1 ⟨s.chain, e.1, slots, e.2.nativeBalance, none, .update⟩
      else deltas) ∅

/-- The deltas of transactions with the same hash are merged. -/
def addTrackedDeltas (updates : HashMap TxHash TxWithChanges) (tx : TxWithContractChanges) :
    Except MergeError (HashMap TxHash TxWithChanges) :=
  let deltas := s.trackedDeltas tx
  if deltas.entries.isEmpty then .ok updates
  else
    let update : TxWithChanges := { TxWithChanges.empty tx.tx with accountDeltas := deltas }
    match updates.lookup tx.tx.hash with
    | some existing => (existing.merge update).map fun merged =>
      updates.insert tx.tx.hash merged
    | none => .ok (updates.insert tx.tx.hash update)

def extractTrackedUpdates (bc : BlockChanges) : Except MergeError (HashMap TxHash TxWithChanges) :=
  bc.blockContractChanges.foldlM s.addTrackedDeltas ∅

/-- Add the changes of the tracked contracts and sort the transactions. -/
def addTrackedUpdates (order : VisitOrder) (bc : BlockChanges) : Except MergeError
    BlockChanges := do
  let updates ← s.extractTrackedUpdates bc
  let txs ← mergeUpdates bc.txsWithUpdate ((order.visit updates.toList).map Prod.snd)
  return { bc with txsWithUpdate := txs.insertionSort fun t u => t.tx.index ≤ u.tx.index }

def processBlockUpdate (src : DciSources) (bc : BlockChanges) :
    Except DciError (DynamicContractIndexer × BlockChanges) := do
  let newEntrypoints := bc.newEntrypoints
  let (cache, m) ← s.selectEntrypoints src.order bc
  let (s, bc) ← traceSelected { s with cache := cache } src bc m
  let cache ← s.cache.run .epIdToEntrypoint (extendPending bc.block
    (newEntrypoints.values.map fun ep => (ep.externalId, ep)))
  let s := { s with cache := cache }
  let bc ← (s.addTrackedUpdates src.order bc).mapError .mergeError
  let cache ← ((DCICache.handleFinality bc.finalizedBlockHeight).exec s.cache).mapError
    .dciCacheError
  return ({ s with cache := cache }, bc)

def processRevert (targetBlock : BlockHash) : Except DciError DynamicContractIndexer :=
  (((DCICache.revertTo targetBlock).exec s.cache).mapError .dciCacheError).map fun cache =>
    { s with cache := cache }

end DynamicContractIndexer

structure StoredEntryPoints where
  entrypointsWithParams : HashMap ComponentId (HashSet EntryPointWithTracingParams)
  entrypoints : HashMap ComponentId (HashSet EntryPoint)
  results : HashMap EntryPointId (HashMap TracingParams TracingResult)
  /-- There are none if they cannot be loaded. -/
  tokens : List Address
  blacklist : List Address

namespace DCICache

def writePermanent (c : DCICache) (i : SubCache)
    (f : HashMap i.Key i.Value → HashMap i.Key i.Value) : DCICache :=
  i.lens.set ⟨f (i.lens.get c).permanent, (i.lens.get c).pending⟩ c

def loadResult (c : DCICache) (r : EntryPointId × TracingParams × TracingResult) :
    Except DciError DCICache := do
  let c ← r.2.2.retriggers.keys.foldlM (fun c location =>
    match c.epIdToEntrypoint.get r.1 with
    | some ep => .ok (c.writePermanent .retriggers fun m =>
      upsert m (location.1, location.2.key) (∅, location.2.offset) fun entry =>
        (HashSet.insert entry.1 ⟨ep, r.2.1⟩, entry.2))
    | none => .error (.setup ("Got a tracing result for a unknown entrypoint: " ++ r.1))) c
  let c := r.2.2.accessedSlots.toList.foldl (fun c access =>
    c.writePermanent .trackedContracts fun m => m.insert access.1 (match m.lookup access.1 with
      | some existing => HashSet.extend existing access.2.keys
      | none => HashSet.ofList access.2.keys)) c
  return c.writePermanent .entrypointResults fun m => m.insert (r.1, r.2.1) (some r.2.2)

/-- The stored entry points, without results. -/
def loadEntrypoints (c : DCICache) (stored : StoredEntryPoints) : DCICache :=
  let withParams := stored.entrypointsWithParams.values.flatMap fun set => set.keys
  let c := c.writePermanent .epIdToComponentId fun m => extend m (groupSets
    (stored.entrypoints.toList.flatMap fun e => e.2.keys.map fun ep => (ep.externalId, e.1))).toList
  let c := c.writePermanent .epIdToEntrypoint fun m =>
    extend m (withParams.map fun e => (e.entryPoint.externalId, e.entryPoint))
  c.writePermanent .entrypointResults fun m =>
    extend m (withParams.map fun e => (e.key, none))

end DCICache

def DynamicContractIndexer.initialize (s : DynamicContractIndexer) (stored : StoredEntryPoints) :
    Except DciError DynamicContractIndexer := do
  let results := stored.results.toList.flatMap fun e => e.2.toList.map fun r => (e.1, r.1, r.2)
  let c ← results.foldlM DCICache.loadResult (s.cache.loadEntrypoints stored)
  let c := c.writePermanent .blacklistedAddresses fun m =>
    extend m (stored.blacklist.map fun address => (address, true))
  let c := c.writePermanent .componentIdToEntrypointParams fun m =>
    extend m stored.entrypointsWithParams.toList
  let c := c.writePermanent .erc20Addresses fun m =>
    extend m (stored.tokens.map fun address => (address, true))
  return { s with cache := c }

end Tycho
