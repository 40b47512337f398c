import Tycho.Client.BlockHistory
import Tycho.Client.ComponentTracker
import Tycho.Client.StateSyncMessage

/-! The state synchronizer of the client: it follows the deltas of an extractor, fetches snapshots
of new components in the background and brings them up to date when they arrive. -/
namespace Tycho
open Collections HashMap

inductive SynchronizerError where
  | rpcError (error : RPCError)
  | channelError (reason : String)
  | timeout (reason : String)
  | closeError (reason : String)
  | connectionError (reason : String)
  | connectionClosed
  | internal (reason : String)
deriving DecidableEq

def SynchronizerError.isTransient : SynchronizerError → Bool
  | .rpcError (.httpClient _) => true
  | .rpcError (.rateLimited _) => true
  | .rpcError (.serverUnreachable _) => true
  | .rpcError (.staleBlock _) => true
  | .timeout _ => true
  | .connectionError _ => true
  | .connectionClosed => true
  | _ => false

inductive SnapshotStatus where
  /-- Waiting for the next block, with partial blocks only. -/
  | deferred
  | inFlight
  | retryNext
  | blacklisted
deriving DecidableEq

structure SnapshotFetchResult where
  components : HashMap ComponentId ProtocolComponent
  contractIds : HashSet Address
  dciUpdate : DCIUpdate
  snapshot : Snapshot
  snapshotBlock : Nat
deriving DecidableEq

/-- The receiver is known by a number. -/
structure SnapshotTask where
  componentIds : List ComponentId
  snapshotBlock : Nat
  receiver : Nat
deriving DecidableEq

inductive TryRecv where
  | value (result : Except SynchronizerError SnapshotFetchResult)
  | empty
  | closed
deriving DecidableEq

def BlockAggregatedChanges.header (d : BlockAggregatedChanges) : BlockHeader where
  hash := d.block.hash
  number := d.block.number
  parentHash := d.block.parentHash
  revert := d.revert
  timestamp := (Int.fdiv d.block.ts 1000000 % 2 ^ 64).toNat
  partialBlockIndex := d.partialBlockIndex

structure Synchronizer where
  includeSnapshots : Bool
  partialBlocks : Bool
  componentTracker : ComponentTracker
  lastSyncedBlock : Option BlockHeader
  snapshotTasks : List SnapshotTask
  /-- The unfiltered deltas since the oldest task was started. -/
  bufferedDeltas : List BlockAggregatedChanges
  snapshotQueue : HashMap ComponentId SnapshotStatus
deriving DecidableEq

namespace Snapshot

def applyStateDelta (_ : ComponentId) (delta : ProtocolComponentStateDelta)
    (cws : ComponentWithState) : ComponentWithState :=
  let updated := HashMap.extend cws.state.attributes delta.updatedAttributes.toList
  { cws with state := { cws.state with
    attributes := HashMap.eraseAll updated delta.deletedAttributes.keys } }

def applyBalances (_ : ComponentId) (balances : HashMap Address ComponentBalance)
    (cws : ComponentWithState) : ComponentWithState :=
  { cws with state := { cws.state with
    balances := HashMap.extend cws.state.balances
      (balances.toList.map fun e => (e.1, e.2.balance)) } }

/-- Deleted slots are left as they are. -/
def applyAccountDelta (contractIds : HashSet Address) (address : Address) (delta : AccountDelta)
    (account : Account) : Account :=
  if address ∈ contractIds then
    { account with
      slots := HashMap.extend account.slots
        (delta.slots.toList.filterMap fun e => e.2.map fun v => (e.1, v))
      nativeBalance := delta.balance.getD account.nativeBalance
      code := delta.code.getD account.code }
  else account

def applyDelta (contractIds : HashSet Address) (s : Snapshot) (d : BlockAggregatedChanges) :
    Snapshot where
  states := d.componentBalances.toList.foldl (fun m e => modify m e.1 (applyBalances e.1 e.2))
    (d.stateDeltas.toList.foldl (fun m e => modify m e.1 (applyStateDelta e.1 e.2)) s.states)
  vmStorage := d.accountDeltas.toList.foldl
    (fun m e => modify m e.1 (applyAccountDelta contractIds e.1 e.2)) s.vmStorage

end Snapshot

namespace Synchronizer

def new (includeSnapshots partialBlocks : Bool) (filter : ComponentFilter) : Synchronizer :=
  ⟨includeSnapshots, partialBlocks, .new filter, none, [], [], ∅⟩

/-- Only deltas above the block of the snapshot are applied to it. -/
def applyDeltasToSnapshot (bufferedDeltas : List BlockAggregatedChanges) (snapshot : Snapshot)
    (snapshotBlock : Nat) (contractIds : HashSet Address) : Snapshot :=
  bufferedDeltas.foldl (fun snapshot d =>
    if d.block.number ≤ snapshotBlock then snapshot else snapshot.applyDelta contractIds d) snapshot

def setStatus (s : Synchronizer) (ids : List ComponentId) (status : SnapshotStatus) :
    Synchronizer :=
  { s with snapshotQueue := ids.foldl (fun queue id => queue.insert id status) s.snapshotQueue }

def drainTask (poll : Nat → TryRecv) (acc : Snapshot × Synchronizer) (task : SnapshotTask) :
    Snapshot × Synchronizer :=
  let (result, s) := acc
  match poll task.receiver with
  | .value (.ok fetched) =>
    (result.extend (applyDeltasToSnapshot s.bufferedDeltas fetched.snapshot fetched.snapshotBlock
      fetched.contractIds), { s with
      snapshotQueue := eraseAll s.snapshotQueue task.componentIds
      componentTracker := s.componentTracker.drainSnapshot fetched.components fetched.dciUpdate })
  | .value (.error e) =>
    (result, s.setStatus task.componentIds (if e.isTransient then .retryNext else .blacklisted))
  | .empty => (result, { s with snapshotTasks := s.snapshotTasks ++ [task] })
  | .closed =>
    (result, { s with snapshotQueue := eraseAll s.snapshotQueue task.componentIds })

def drainCompletedSnapshots (poll : Nat → TryRecv) (s : Synchronizer) : Snapshot × Synchronizer :=
  s.snapshotTasks.foldl (drainTask poll) (default, { s with snapshotTasks := [] })

def trimBufferedDeltas (s : Synchronizer) : Synchronizer :=
  match (s.snapshotTasks.map (·.snapshotBlock)).min? with
  | none => { s with bufferedDeltas := [] }
  | some oldest => { s with
    bufferedDeltas := s.bufferedDeltas.filter fun d => oldest < d.block.number }

def spawnSnapshotTask (s : Synchronizer) (fresh : Nat) (componentIds : List ComponentId)
    (snapshotBlock : Nat) (currentDelta : BlockAggregatedChanges) : Synchronizer :=
  let s := if s.snapshotTasks = [] then
    { s with bufferedDeltas := s.bufferedDeltas ++ [currentDelta] } else s
  let s := s.setStatus componentIds .inFlight
  { s with snapshotTasks := s.snapshotTasks ++ [⟨componentIds, snapshotBlock, fresh⟩] }

def isNextExpected (s : Synchronizer) (incoming : BlockHeader) : Bool :=
  s.lastSyncedBlock.any fun block => incoming.parentHash = block.hash

def filterDeltas (s : Synchronizer) (deltas : BlockAggregatedChanges) : BlockAggregatedChanges :=
  (deltas.filterByComponent (· ∈ s.componentTracker.components)).filterByContract
    (· ∈ s.componentTracker.contracts)

def withStatus (s : Synchronizer) (status : SnapshotStatus) : List ComponentId :=
  (s.snapshotQueue.toList.filter fun e => e.2 = status).map Prod.fst

/-- The start of an iteration: buffer the delta, collect what has arrived, trim the buffer. -/
def harvest (poll : Nat → TryRecv) (s : Synchronizer) (deltas : BlockAggregatedChanges) :
    Snapshot × Synchronizer :=
  let s := if s.snapshotTasks = [] then s else
    { s with bufferedDeltas := s.bufferedDeltas ++ [deltas] }
  let (snapshots, s) := s.drainCompletedSnapshots poll
  (snapshots, s.trimBufferedDeltas)

/-- The components to start with this delta: those that crossed the threshold and the retries,
as far as they are neither tracked nor staged. The retries are no longer staged. -/
def trulyNew (s : Synchronizer) (toAdd : List ComponentId) : List ComponentId × Synchronizer :=
  let retryIds := s.withStatus .retryNext
  let s := { s with snapshotQueue := eraseAll s.snapshotQueue retryIds }
  (((toAdd ++ retryIds).filter fun id =>
    id ∉ s.componentTracker.components ∧ id ∉ s.snapshotQueue).eraseDups, s)

def isNewBlock (s : Synchronizer) (header : BlockHeader) : Bool :=
  s.lastSyncedBlock.all fun b => b.number < header.number

/-- Start the tasks of this delta. With partial blocks, deferred components are fired at the
block before, once it is complete, and the new ones are deferred. -/
def startTasks (fresh : Nat) (s : Synchronizer) (trulyNew : List ComponentId)
    (deltas : BlockAggregatedChanges) : Synchronizer :=
  let header := deltas.header
  if s.partialBlocks then
    let toFire := s.withStatus .deferred
    let s := if s.isNewBlock header ∧ toFire ≠ [] ∧ 0 < header.number then
      spawnSnapshotTask { s with snapshotQueue := eraseAll s.snapshotQueue toFire } fresh
        toFire (header.number - 1) deltas
      else s
    s.setStatus trulyNew .deferred
  else if trulyNew ≠ [] then s.spawnSnapshotTask fresh trulyNew header.number deltas
  else s

/-- The end of an iteration: drop components, take over the entrypoints and build the message. -/
def emit (s : Synchronizer) (snapshots : Snapshot) (toRemove : List ComponentId)
    (deltas : BlockAggregatedChanges) : StateSyncMessage BlockHeader × Synchronizer :=
  let (removedComponents, tracker) := if toRemove ≠ [] then s.componentTracker.stopTracking toRemove
    else (∅, s.componentTracker)
  let s := { s with componentTracker := tracker.processEntrypoints deltas.dciUpdate }
  ({ header := deltas.header
     snapshots := snapshots
     deltas := some (s.filterDeltas deltas)
     removedComponents := removedComponents },
    { s with lastSyncedBlock := some deltas.header })

def handleDelta (toLowercase : String → String) (fresh : Nat) (poll : Nat → TryRecv)
    (s : Synchronizer) (deltas : BlockAggregatedChanges) :
    StateSyncMessage BlockHeader × Synchronizer :=
  let (snapshots, s) := s.harvest poll deltas
  let (toAdd, toRemove) := s.componentTracker.filterUpdatedComponents toLowercase deltas
  let (trulyNew, s) := s.trulyNew toAdd
  (s.startTasks fresh trulyNew deltas).emit snapshots toRemove deltas

/-- Waiting for the first delta of a subscription: the last block number seen and the number of
snapshots that were refused as too old. -/
structure Waiting where
  lastBlockNumber : Option Nat
  staleRetries : Nat
deriving DecidableEq

def MAX_STALE_RETRIES : Nat := 5

/-- The message may start the synchronization: with partial blocks only a full block or the first
part of a new block. -/
def isNewBlockCandidate (s : Synchronizer) (w : Waiting) (msg : BlockAggregatedChanges) : Bool :=
  if s.partialBlocks then
    match msg.partialBlockIndex with
    | none => true
    | some _ => w.lastBlockNumber.any fun prev => prev < msg.block.number
  else true

def alreadySynced (s : Synchronizer) (incoming : BlockHeader) : Bool :=
  s.lastSyncedBlock.any fun current => incoming.number ≤ current.number ∧ !s.isNextExpected incoming

inductive FirstDelta where
  /-- The message is passed over. -/
  | skipped (w : Waiting)
  | failed (error : SynchronizerError)
  | started (msg : StateSyncMessage BlockHeader) (s : Synchronizer)

/-- The message that starts the synchronization. `answer` is what the server returns for the
tracked components; it is not asked if the block follows the last one, or if there are none. -/
def startWith (s : Synchronizer) (w : Waiting)
    (answer : Except SynchronizerError (Snapshot × DCIUpdate))
    (firstMsg : BlockAggregatedChanges) : FirstDelta :=
  let header := firstMsg.header
  let deltasMsg : StateSyncMessage BlockHeader := {
    header := header
    snapshots := default
    deltas := some (s.filterDeltas firstMsg)
    removedComponents := ∅ }
  let synced := { s with lastSyncedBlock := some header }
  if s.isNextExpected header then .started deltasMsg synced
  else
    let snapshotHeader : BlockHeader := if s.partialBlocks ∧ 0 < header.number then
      { (default : BlockHeader) with number := header.number - 1, hash := header.parentHash }
      else { header with revert := false }
    let snapshotMsg (snapshots : Snapshot) : StateSyncMessage BlockHeader := {
      header := snapshotHeader
      snapshots := snapshots
      deltas := none
      removedComponents := ∅ }
    if !s.includeSnapshots ∨ s.componentTracker.components.keys = [] then
      .started ((snapshotMsg default).merge deltasMsg) synced
    else match answer with
      | .ok (snapshot, dciUpdate) =>
        .started ((snapshotMsg snapshot).merge deltasMsg) { synced with
          componentTracker := s.componentTracker.processEntrypoints dciUpdate }
      | .error (.rpcError (.staleBlock reason)) =>
        if MAX_STALE_RETRIES < w.staleRetries + 1 then .failed (.rpcError (.staleBlock reason))
        else .skipped { w with staleRetries := w.staleRetries + 1 }
      | .error e => .failed e

def firstDelta (s : Synchronizer) (w : Waiting)
    (answer : Except SynchronizerError (Snapshot × DCIUpdate))
    (msg : BlockAggregatedChanges) : FirstDelta :=
  let seen : Waiting := if s.partialBlocks then { w with lastBlockNumber := some msg.block.number }
    else w
  if !s.isNewBlockCandidate w msg then .skipped seen
  else if s.alreadySynced msg.header then .skipped seen
  else s.startWith seen answer msg

end Synchronizer
end Tycho
