import Mathlib.Data.List.Sort
import Tycho.Collections.Group
import Tycho.Common.Contract
import Tycho.Common.Protocol

/-! The changes of a transaction and of a block, and their aggregation into the message that
subscribers receive. -/
namespace Tycho
open Collections HashMap

structure EntryPoint where
  externalId : EntryPointId
  target : Address
  signature : String
deriving DecidableEq

/-- A `BTreeMap` of slots, in key order. -/
inductive StorageOverride where
  | diff (slots : List (StoreKey × StoreVal))
  | replace (slots : List (StoreKey × StoreVal))
deriving DecidableEq

structure AccountOverrides where
  slots : Option StorageOverride
  nativeBalance : Option Balance
  code : Option Code
deriving DecidableEq

structure RPCTracerParams where
  caller : Option Address
  calldata : Bytes
  stateOverrides : Option (List (Address × AccountOverrides))
  pruneAddresses : Option (List Address)
deriving DecidableEq

inductive TracingParams where
  | rpcTracer (params : RPCTracerParams)
deriving DecidableEq

structure EntryPointWithTracingParams where
  entryPoint : EntryPoint
  params : TracingParams
deriving DecidableEq

structure AddressStorageLocation where
  key : StoreKey
  offset : UInt8
deriving DecidableEq

structure TracingResult where
  retriggers : HashSet (Address × AddressStorageLocation)
  accessedSlots : HashMap Address (HashSet StoreKey)
deriving DecidableEq

def TracingResult.merge (s other : TracingResult) : TracingResult where
  retriggers := extend s.retriggers other.retriggers.toList
  accessedSlots := s.accessedSlots.mergeNested other.accessedSlots

structure TracedEntryPoint where
  entryPoint : EntryPoint
  params : TracingParams
  detectionBlockHash : BlockHash
  tracingResult : TracingResult
deriving DecidableEq

def TracedEntryPoint.entryPointId (t : TracedEntryPoint) : EntryPointId := t.entryPoint.externalId

structure DCIUpdate where
  newEntrypoints : HashMap ComponentId (HashSet EntryPoint)
  newEntrypointParams : HashMap EntryPointId (HashSet (TracingParams × ComponentId))
  traceResults : HashMap EntryPointId TracingResult
deriving DecidableEq

def DCIUpdate.empty : DCIUpdate := ⟨∅, ∅, ∅⟩

structure TxWithChanges where
  tx : Transaction
  protocolComponents : HashMap ComponentId ProtocolComponent
  accountDeltas : HashMap Address AccountDelta
  stateUpdates : HashMap ComponentId ProtocolComponentStateDelta
  balanceChanges : HashMap ComponentId (HashMap Address ComponentBalance)
  accountBalanceChanges : HashMap Address (HashMap Address AccountBalance)
  entrypoints : HashMap ComponentId (HashSet EntryPoint)
  entrypointParams : HashMap EntryPointId (HashSet (TracingParams × ComponentId))
deriving DecidableEq

/-- A transaction that changes nothing; at the default transaction, `TxWithChanges::default()`. -/
def TxWithChanges.empty (tx : Transaction) : TxWithChanges := ⟨tx, ∅, ∅, ∅, ∅, ∅, ∅, ∅⟩

/-- `other` is the more recent transaction. -/
def TxWithChanges.merge (s other : TxWithChanges) : Except MergeError TxWithChanges := do
  if s.tx.blockHash ≠ other.tx.blockHash then
    throw (.blockMismatch "TxWithChanges" s.tx.blockHash other.tx.blockHash)
  if s.tx.index > other.tx.index then
    throw (.transactionOrderError "TxWithChanges" s.tx.index other.tx.index)
  let accountDeltas ← mergeEntries AccountDelta.merge s.accountDeltas other.accountDeltas.toList
  let stateUpdates ← mergeEntries ProtocolComponentStateDelta.merge s.stateUpdates
    other.stateUpdates.toList
  return {
    tx := other.tx
    protocolComponents := extend s.protocolComponents other.protocolComponents.toList
    accountDeltas := accountDeltas
    stateUpdates := stateUpdates
    balanceChanges := s.balanceChanges.mergeNested other.balanceChanges
    accountBalanceChanges := s.accountBalanceChanges.mergeNested other.accountBalanceChanges
    entrypoints := s.entrypoints.mergeNested other.entrypoints
    entrypointParams := s.entrypointParams.mergeNested other.entrypointParams }

structure ContractStorageChange where
  value : Bytes
  previous : Bytes
deriving DecidableEq

structure ContractChanges where
  account : Address
  slots : HashMap StoreKey ContractStorageChange
  nativeBalance : Option Balance
deriving DecidableEq

structure TxWithContractChanges where
  tx : Transaction
  contractChanges : HashMap Address ContractChanges
deriving DecidableEq

structure BlockChanges where
  extractor : String
  chain : Chain
  block : Block
  finalizedBlockHeight : Nat
  revert : Bool
  newTokens : HashMap Address Token
  txsWithUpdate : List TxWithChanges
  blockContractChanges : List TxWithContractChanges
  traceResults : List TracedEntryPoint
  partialBlockIndex : Option Nat
deriving DecidableEq

structure BlockAggregatedChanges where
  extractor : String
  chain : Chain
  block : Block
  finalizedBlockHeight : Nat
  dbCommittedBlockHeight : Option Nat
  revert : Bool
  stateDeltas : HashMap ComponentId ProtocolComponentStateDelta
  accountDeltas : HashMap Address AccountDelta
  newTokens : HashMap Address Token
  newProtocolComponents : HashMap ComponentId ProtocolComponent
  deletedProtocolComponents : HashMap ComponentId ProtocolComponent
  componentBalances : HashMap ComponentId (HashMap Address ComponentBalance)
  accountBalances : HashMap Address (HashMap Address AccountBalance)
  componentTvl : HashMap ComponentId F64
  dciUpdate : DCIUpdate
  partialBlockIndex : Option Nat
deriving DecidableEq

instance : Inhabited BlockAggregatedChanges :=
  ⟨⟨"", default, default, 0, none, false, ∅, ∅, ∅, ∅, ∅, ∅, ∅, ∅, .empty, none⟩⟩

namespace BlockChanges

def insertTrace (m : HashMap EntryPointId TracingResult) (r : TracedEntryPoint) :
    HashMap EntryPointId TracingResult :=
  match m.lookup r.entryPointId with
  | some existing => m.insert r.entryPointId (existing.merge r.tracingResult)
  | none => m.insert r.entryPointId r.tracingResult

def aggregateTraces (results : List TracedEntryPoint) : HashMap EntryPointId TracingResult :=
  results.foldl insertTrace ∅

def aggregateTxs : List TxWithChanges → Except MergeError TxWithChanges
  | [] => .ok (.empty default)
  | first :: rest => rest.foldlM TxWithChanges.merge first

def debugHeight : Option Nat → String
  | none => "None"
  | some h => "Some(" ++ h.repr ++ ")"

/-- The message of a block, given the merged changes of its transactions. -/
def aggregatedMessage (b : BlockChanges) (dbCommittedBlockHeight : Option Nat)
    (aggregated : TxWithChanges) : BlockAggregatedChanges where
  extractor := b.extractor
  chain := b.chain
  block := b.block
  finalizedBlockHeight := b.finalizedBlockHeight
  dbCommittedBlockHeight := dbCommittedBlockHeight
  revert := b.revert
  stateDeltas := aggregated.stateUpdates
  accountDeltas := aggregated.accountDeltas
  newTokens := b.newTokens
  newProtocolComponents := aggregated.protocolComponents
  deletedProtocolComponents := ∅
  componentBalances := aggregated.balanceChanges
  accountBalances := aggregated.accountBalanceChanges
  componentTvl := ∅
  dciUpdate := {
    newEntrypoints := aggregated.entrypoints
    newEntrypointParams := aggregated.entrypointParams
    traceResults := aggregateTraces b.traceResults }
  partialBlockIndex := b.partialBlockIndex

def intoAggregated (b : BlockChanges) (dbCommittedBlockHeight : Option Nat) :
    Except MergeError BlockAggregatedChanges := do
  if dbCommittedBlockHeight.any fun h => h > b.finalizedBlockHeight then
    throw (.invalidState ("Database committed block height " ++
      debugHeight dbCommittedBlockHeight ++ " is greater than finalized_block_height " ++
      b.finalizedBlockHeight.repr))
  let aggregated ← aggregateTxs b.txsWithUpdate
  return b.aggregatedMessage dbCommittedBlockHeight aggregated

/-- Point every transaction to the hash of this block. -/
def normalizeBlockHash (b : BlockChanges) : BlockChanges :=
  { b with
    txsWithUpdate := b.txsWithUpdate.map fun t => { t with
      tx := { t.tx with blockHash := b.block.hash } }
    blockContractChanges := b.blockContractChanges.map fun t => { t with
      tx := { t.tx with blockHash := b.block.hash } } }

/-- The changes of an earlier partial block added to those of a later one. The sort is stable
and the later partial block's transactions come first in its input. -/
def absorbPartial (current previous : BlockChanges) : BlockChanges :=
  let merged : BlockChanges := { current with
    newTokens := previous.newTokens.toList.foldl (fun m e => m.orInsert e.1 e.2) current.newTokens
    txsWithUpdate := (current.txsWithUpdate ++ previous.txsWithUpdate).insertionSort
      fun t u => t.tx.index ≤ u.tx.index
    blockContractChanges := current.blockContractChanges ++ previous.blockContractChanges
    traceResults := current.traceResults ++ previous.traceResults }
  merged.normalizeBlockHash

def mergePartial (s other : BlockChanges) : Except MergeError BlockChanges :=
  match s.partialBlockIndex, other.partialBlockIndex with
  | none, _ => .error (.invalidState "self is not a partial block")
  | some _, none => .error (.invalidState "other is not a partial block")
  | some selfIndex, some otherIndex =>
    if s.extractor ≠ other.extractor then
      .error (.idMismatch "partial blocks (extractor)" s.extractor other.extractor)
    else if s.chain ≠ other.chain then
      .error (.idMismatch "partial blocks (chain)" s.chain.debug other.chain.debug)
    else if s.block.number ≠ other.block.number then
      .error (.blockMismatch "partial blocks" s.block.hash other.block.hash)
    else if s.revert ≠ other.revert then
      .error (.invalidState ("different revert status: " ++ toString s.revert ++ " vs " ++
        toString other.revert))
    else if selfIndex > otherIndex then .ok (s.absorbPartial other)
    else if selfIndex < otherIndex then .ok (other.absorbPartial s)
    else .error (.invalidState ("same partial block index: " ++ selfIndex.repr))

end BlockChanges

/-- Merge, or keep the older value if that is an error. -/
def bestEffort {V : Type} (merge : V → V → Except MergeError V) (older newer : V) : V :=
  (merge older newer).toOption.getD older

namespace BlockAggregatedChanges

/-- `other` is the more recent update. Tokens, entrypoints and the heights are not merged. -/
def merge (s other : BlockAggregatedChanges) : BlockAggregatedChanges :=
  { s with
    accountDeltas := mergeWith (bestEffort AccountDelta.merge) s.accountDeltas
      other.accountDeltas.toList
    stateDeltas := mergeWith (bestEffort ProtocolComponentStateDelta.merge) s.stateDeltas
      other.stateDeltas.toList
    componentBalances := s.componentBalances.mergeNested other.componentBalances
    accountBalances := s.accountBalances.mergeNested other.accountBalances
    componentTvl := extend s.componentTvl other.componentTvl.toList
    newProtocolComponents :=
      extend s.newProtocolComponents other.newProtocolComponents.toList
    deletedProtocolComponents :=
      extend s.deletedProtocolComponents other.deletedProtocolComponents.toList
    revert := other.revert
    block := other.block }

def filterByComponent (s : BlockAggregatedChanges) (keep : ComponentId → Bool) :
    BlockAggregatedChanges :=
  { s with
    stateDeltas := s.stateDeltas.retain fun k _ => keep k
    componentBalances := s.componentBalances.retain fun k _ => keep k
    componentTvl := s.componentTvl.retain fun k _ => keep k }

def filterByContract (s : BlockAggregatedChanges) (keep : Address → Bool) :
    BlockAggregatedChanges :=
  { s with
    accountDeltas := s.accountDeltas.retain fun k _ => keep k
    accountBalances := s.accountBalances.retain fun k _ => keep k }

end BlockAggregatedChanges
end Tycho
