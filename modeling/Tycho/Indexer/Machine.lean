import Tycho.Common.WellKeyed
import Tycho.Indexer.ReorgBuffer
import Tycho.Indexer.Revert
import Tycho.Replay.Run
import Tycho.Storage.CachedGateway

/-! Writing a block to the database, and the running extractor: the block loop, the task that
commits drained blocks, and reverts. -/
namespace Tycho
open Collections Replay List HashMap CachedGateway

/-- The constants of the extractor's gateway. The state that it writes to is a
`CachedGateway`. -/
structure ExtractorPgGateway where
  name : String
  chain : Chain
  dbTxBatchSize : Nat
  keccak256 : Bytes → Bytes

/-- The change of an account as it is written. A deletion is only logged. -/
def AccountDelta.stored (delta : AccountDelta) : Option AccountDelta :=
  match delta.change with
  | .creation => some { delta with
      balance := some (delta.balance.getD .new)
      code := some (delta.code.getD .new) }
  | .update => some delta
  | .deletion => none

variable {K A : Type} {P : WriteOp → Prop}

namespace ExtractorPgGateway

/-- There is no operation without rows. -/
def writeRows {A : Type} (op : List A → WriteOp) (rows : List A) : List WriteOp :=
  if rows.isEmpty then [] else [op rows]

def writeSets {K A : Type} [DecidableEq K] [DecidableEq A]
    (op : HashMap K (HashSet A) → WriteOp) (sets : List (HashMap K (HashSet A))) : List WriteOp :=
  let all := sets.foldl (fun m n => (extendSets m n).1) ∅
  if all.keys.isEmpty then [] else [op all]

variable (pg : ExtractorPgGateway)

def accountRows (t : TxWithChanges) : List (TxHash × AccountDelta) :=
  t.accountDeltas.values.filterMap fun delta => delta.stored.map fun delta => (t.tx.hash, delta)

def txOperations (t : TxWithChanges) : List WriteOp :=
  .upsertTx [t.tx] :: (t.accountDeltas.values.filter fun delta => delta.change = .creation).map
    fun delta => .insertContract [delta.refIntoAccount pg.keccak256 t.tx]

def operations (m : BlockUpdateWithCursor) : List WriteOp :=
  let txs := m.blockUpdate.txsWithUpdate
  writeRows .insertTokens m.blockUpdate.newTokens.values ++
  [.upsertBlock [m.blockUpdate.block]] ++
  txs.flatMap pg.txOperations ++
  writeRows .insertProtocolComponents (txs.flatMap fun t => t.protocolComponents.values) ++
  writeRows .updateContracts (txs.flatMap accountRows) ++
  writeRows .upsertProtocolState
    (txs.flatMap fun t => t.stateUpdates.values.map fun delta => (t.tx.hash, delta)) ++
  writeRows .insertComponentBalances
    (txs.flatMap fun t => t.balanceChanges.values.flatMap values) ++
  writeRows .insertAccountBalances
    (txs.flatMap fun t => t.accountBalanceChanges.values.flatMap values) ++
  writeSets .insertEntryPoints (txs.map TxWithChanges.entrypoints) ++
  writeSets .insertEntryPointTracingParams (txs.map TxWithChanges.entrypointParams) ++
  writeRows .upsertTracedEntryPoints m.blockUpdate.traceResults ++
  [.saveExtractionState ⟨pg.name, pg.chain, m.cursor, m.blockUpdate.block.hash⟩]

/-- `answer` is the database's answer to a submitted transaction. -/
def advance (g : CachedGateway) (m : BlockUpdateWithCursor) (forceCommit : Bool)
    (answer : Except StorageError Unit) : Except StorageError Unit × CachedGateway :=
  match (pg.operations m).foldlM addOp (g.startTransaction m.blockUpdate.block) with
  | .error e => (.error e, g)
  | .ok g => g.commitTransaction (if forceCommit then 0 else pg.dbTxBatchSize) answer

def staged (g : CachedGateway) (m : BlockUpdateWithCursor) : DBTransaction :=
  (g.transactionFor m.blockUpdate.block).addOperations (pg.operations m)

/-- The size above which a transaction is submitted. -/
def Submits (g : CachedGateway) (m : BlockUpdateWithCursor) (forceCommit : Bool) : Prop :=
  forceCommit = true ∨ pg.dbTxBatchSize < (pg.staged g m).size

section
open WriteOp
variable {pg} {m : BlockUpdateWithCursor} {R A : Type} (p : Rows R)

lemma all_writeRows (op : List A → WriteOp) (h : p.rows (op []) = []) (rows : List A) :
    p.all (writeRows op rows) = p.rows (op rows) := by
  unfold writeRows
  cases rows with
  | nil => exact h.symm
  | cons => exact append_nil _

lemma all_writeSets [DecidableEq K] [DecidableEq A] (op : HashMap K (HashSet A) → WriteOp)
    (h : ∀ m, p.rows (op m) = []) (sets : List (HashMap K (HashSet A))) :
    p.all (writeSets op sets) = [] := by
  unfold writeSets
  dsimp only
  split_ifs
  · rfl
  · exact (append_nil _).trans (h _)

lemma forall_mem_txOperations {q : WriteOp → Prop} (htx : ∀ txs, q (.upsertTx txs))
    (hcontract : ∀ contracts, q (.insertContract contracts)) (txs : List TxWithChanges) :
    ∀ op ∈ txs.flatMap pg.txOperations, q op := by
  intro op hop
  obtain ⟨t, -, hop⟩ := mem_flatMap.mp hop
  rcases mem_cons.mp hop with rfl | hop
  · exact htx _
  · obtain ⟨delta, -, rfl⟩ := mem_map.mp hop
    exact hcontract _

lemma all_txOperations (htx : ∀ txs, p.rows (.upsertTx txs) = [])
    (hcontract : ∀ contracts, p.rows (.insertContract contracts) = []) (txs : List TxWithChanges) :
    p.all (txs.flatMap pg.txOperations) = [] :=
  flatMap_eq_nil_iff.mpr (forall_mem_txOperations htx hcontract txs)

/-- The rows of a block, one part for each kind of operation that is read back. -/
lemma all_operations (hkey : p.key ∉ [1, 2, 4, 7, 10, 11, 12, 13])
    (hupdate : p.rows (.updateContracts []) = []) (hstate : p.rows (.upsertProtocolState []) = [])
    (hbal : p.rows (.insertComponentBalances []) = [])
    (haccount : p.rows (.insertAccountBalances []) = []) :
    p.all (pg.operations m) = p.rows (.upsertBlock [m.blockUpdate.block]) ++
      p.rows (.updateContracts (m.blockUpdate.txsWithUpdate.flatMap accountRows)) ++
      p.rows (.upsertProtocolState (m.blockUpdate.txsWithUpdate.flatMap fun t =>
        t.stateUpdates.values.map fun delta => (t.tx.hash, delta))) ++
      p.rows (.insertComponentBalances (m.blockUpdate.txsWithUpdate.flatMap fun t =>
        t.balanceChanges.values.flatMap values)) ++
      p.rows (.insertAccountBalances (m.blockUpdate.txsWithUpdate.flatMap fun t =>
        t.accountBalanceChanges.values.flatMap values)) := by
  have hsingle : ∀ op, p.all [op] = p.rows op := fun op => append_nil _
  have hother : ∀ op : WriteOp, op.orderKey ∈ [1, 2, 4, 7, 10, 11, 12, 13] → p.rows op = [] :=
    fun op hop => p.rows_eq_nil op fun heq => hkey (heq ▸ hop)
  have htoken : ∀ l, p.rows (.insertTokens l) = [] := fun l => hother _ (by simp [orderKey])
  have hcomp : ∀ l, p.rows (.insertProtocolComponents l) = [] :=
    fun l => hother _ (by simp [orderKey])
  have hpoint : ∀ l, p.rows (.insertEntryPoints l) = [] := fun l => hother _ (by simp [orderKey])
  have hparam : ∀ l, p.rows (.insertEntryPointTracingParams l) = [] :=
    fun l => hother _ (by simp [orderKey])
  have htrace : ∀ l, p.rows (.upsertTracedEntryPoints l) = [] :=
    fun l => hother _ (by simp [orderKey])
  have hstates : ∀ l, p.rows (.saveExtractionState l) = [] :=
    fun l => hother _ (by simp [orderKey])
  have htxs : p.all (m.blockUpdate.txsWithUpdate.flatMap pg.txOperations) = [] :=
    all_txOperations p (fun l => hother _ (by simp [orderKey]))
      (fun l => hother _ (by simp [orderKey])) _
  simp only [operations, Rows.all_append, all_writeRows p _ (htoken _),
    all_writeRows p _ (hcomp _), all_writeRows p _ hupdate, all_writeRows p _ hstate,
    all_writeRows p _ hbal, all_writeRows p _ haccount, all_writeRows p _ (htrace _),
    all_writeSets p _ hpoint, all_writeSets p _ hparam, htxs, hsingle, htoken, hcomp, htrace,
    hstates, nil_append, append_nil]

lemma blockRows_operations : blockRows.all (pg.operations m) = [m.blockUpdate.block] :=
  all_operations blockRows (by decide) rfl rfl rfl rfl

lemma contractRows_operations : contractRows.all (pg.operations m) =
    m.blockUpdate.txsWithUpdate.flatMap accountRows := by
  rw [all_operations contractRows (by decide) rfl rfl rfl rfl]
  simp [contractRows]

lemma stateRows_operations : stateRows.all (pg.operations m) =
    m.blockUpdate.txsWithUpdate.flatMap fun t =>
      t.stateUpdates.values.map fun delta => (t.tx.hash, delta) := by
  rw [all_operations stateRows (by decide) rfl rfl rfl rfl]
  simp [stateRows]

lemma componentBalanceRows_operations : componentBalanceRows.all (pg.operations m) =
    m.blockUpdate.txsWithUpdate.flatMap fun t =>
      t.balanceChanges.values.flatMap values := by
  rw [all_operations componentBalanceRows (by decide) rfl rfl rfl rfl]
  simp [componentBalanceRows]

lemma accountBalanceRows_operations : accountBalanceRows.all (pg.operations m) =
    m.blockUpdate.txsWithUpdate.flatMap fun t =>
      t.accountBalanceChanges.values.flatMap values := by
  rw [all_operations accountBalanceRows (by decide) rfl rfl rfl rfl]
  simp [accountBalanceRows]

end

section
variable {pg} {g : CachedGateway} {m : BlockUpdateWithCursor} {force : Bool}

lemma forall_mem_writeRows {f : List A → WriteOp} (h : ∀ rows, P (f rows)) (rows : List A) :
    ∀ op ∈ writeRows f rows, P op := by
  intro op hop
  unfold writeRows at hop
  split_ifs at hop
  · cases hop
  · rw [mem_singleton.mp hop]
    exact h rows

lemma forall_mem_writeSets [DecidableEq K] [DecidableEq A] {f : HashMap K (HashSet A) → WriteOp}
    (h : ∀ all, P (f all)) (sets : List (HashMap K (HashSet A))) :
    ∀ op ∈ writeSets f sets, P op := by
  intro op hop
  unfold writeSets at hop
  dsimp only at hop
  split_ifs at hop
  · cases hop
  · rw [mem_singleton.mp hop]
    exact h _

/-- Tokens are never updated. -/
lemma orderKey_ne_of_mem : ∀ op ∈ pg.operations m, op.orderKey ≠ 5 := by
  simp only [operations, forall_mem_append, forall_mem_singleton, and_assoc]
  refine ⟨forall_mem_writeRows ?_ _, ?_, forall_mem_txOperations ?_ ?_ _, forall_mem_writeRows ?_ _,
    forall_mem_writeRows ?_ _, forall_mem_writeRows ?_ _, forall_mem_writeRows ?_ _,
    forall_mem_writeRows ?_ _, forall_mem_writeSets ?_ _, forall_mem_writeSets ?_ _,
    forall_mem_writeRows ?_ _, ?_⟩ <;> simp [WriteOp.orderKey]

lemma upsertBlock_mem_operations : WriteOp.upsertBlock [m.blockUpdate.block] ∈ pg.operations m := by
  simp [operations]

lemma submits_iff : pg.Submits g m force ↔
    (if force then 0 else pg.dbTxBatchSize) < (pg.staged g m).size := by
  have hpos : 0 < (pg.staged g m).size :=
    DBTransaction.size_addOperations_pos upsertBlock_mem_operations
  unfold Submits
  cases force with
  | true => simpa using hpos
  | false => simp

lemma advance_eq (answer : Except StorageError Unit) : pg.advance g m force answer =
    commitTransaction { g with openTx := some (pg.staged g m) }
      (if force then 0 else pg.dbTxBatchSize) answer := by
  unfold advance
  rw [foldlM_addOp rfl]
  rfl

lemma advance_ok (h : pg.Submits g m force) : pg.advance g m force (.ok ()) = (.ok (), { g with
      openTx := none
      submitted := g.submitted ++ [(pg.staged g m).sorted] }) := by
  rw [advance_eq]
  unfold commitTransaction
  exact if_pos (submits_iff.mp h)

lemma advance_error (h : pg.Submits g m force) (e : StorageError) :
    pg.advance g m force (.error e) = (.error e, { g with openTx := none }) := by
  rw [advance_eq]
  unfold commitTransaction
  exact if_pos (submits_iff.mp h)

lemma advance_of_not_submits (h : ¬ pg.Submits g m force) (answer : Except StorageError Unit) :
    pg.advance g m force answer = (.ok (), { g with openTx := some (pg.staged g m) }) := by
  rw [advance_eq]
  unfold commitTransaction
  exact if_neg fun hsize => h (submits_iff.mpr hsize)

/-- Only the transactions of the gateway change. -/
lemma advance_stored (answer : Except StorageError Unit) :
    (pg.advance g m force answer).2.stored = g.stored ∧
      (pg.advance g m force answer).2.nativeToken = g.nativeToken := by
  by_cases h : pg.Submits g m force
  · cases answer with
    | ok =>
      rw [advance_ok h]
      exact ⟨rfl, rfl⟩
    | error =>
      rw [advance_error h]
      exact ⟨rfl, rfl⟩
  · rw [advance_of_not_submits h]
    exact ⟨rfl, rfl⟩

end
end ExtractorPgGateway

open ProtocolExtractor ReorgBuffer

abbrev Answer := Except StorageError Unit

inductive CommitTask where
  | running (blocks : List BlockUpdateWithCursor) (lastBlockHeight : Nat) (isSyncing : Bool)
  | finished (result : Except ExtractionError Unit)

structure Indexer where
  extractor : ProtocolExtractor
  stateGateway : CachedGateway
  commitHandle : Option CommitTask
  committedBlockHeight : Option Nat

/-- What the extractor is told. Where it waits for something else, the commit task takes a step
for each of the answers. -/
inductive Event where
  /-- A step of the commit task. -/
  | commit (answer : Answer)
  /-- A full block, or a part of one. -/
  | tick (msg : BlockChanges) (cursor : String) (answers : List Answer)
  /-- The last part of a block has come. -/
  | collect (cursor : String) (finalBlockHeight : Nat) (clock : Nat) (answers : List Answer)
  /-- A block without output. -/
  | empty (cursor : String)
  /-- An undo signal, and what the plugin says to it. There are steps before each read of the
  database. -/
  | undo (signal : BlockUndoSignal) (plugin : Except ExtractionError Unit)
      (contracts states componentBalances accountBalances : List Answer)

namespace ProtocolExtractor
variable (e : ProtocolExtractor)

def bufferBlock (m : BlockUpdateWithCursor) (finalBlockHeight : Nat) :
    Except ExtractionError (List BlockUpdateWithCursor × ReorgBuffer BlockUpdateWithCursor) := do
  if finalBlockHeight > (block m).number then
    throw (.reorgBufferError ("Final block height (" ++ finalBlockHeight.repr ++
      ") greater than block number (" ++ (block m).number.repr ++
      ") are unsupported by the reorg buffer"))
  let buffer ← (e.reorgBuffer.insertBlock m).mapError .storage
  if buffer.countBlocksBefore finalBlockHeight ≥ e.commitBatchSize then
    (buffer.drainBlocksUntil finalBlockHeight).mapError .storage
  else return ([], buffer)

/-- The result of `buffer_partial_block` and the buffer that it leaves: what is buffered is taken
out before it is merged. -/
def mergeIntoBuffer (buffer : Option BlockChanges) (msg : BlockChanges) :
    Except ExtractionError Unit × Option BlockChanges :=
  match buffer with
  | some existing => match existing.mergePartial msg with
    | .ok updated => (.ok (), some updated)
    | .error err => (.error (.partialBlockBufferError err.toString), none)
  | none => (.ok (), some msg)

def bufferPartialBlock (msg : BlockChanges) : Except ExtractionError ProtocolExtractor := do
  let (result, buffer) := mergeIntoBuffer e.partialBlockBuffer msg
  result
  return { e with partialBlockBuffer := buffer }

end ProtocolExtractor

variable {final : Nat} {ix' : Indexer} {cursor : String} {msg : BlockChanges}

variable {batch : List BlockUpdateWithCursor} {e : ProtocolExtractor}
  {changes : BlockAggregatedChanges}

namespace Indexer
variable (pg : ExtractorPgGateway) (ix : Indexer)

/-- The task writes its next block, or reports its height after the last one. Only the last block
of a batch is forced into the database, and only if the extractor is not syncing. -/
def commitStep (answer : Answer) : Indexer :=
  match ix.commitHandle with
  | some (.running (m :: rest) height isSyncing) =>
    match pg.advance ix.stateGateway m (!isSyncing && rest.isEmpty) answer with
    | (.ok (), g) => { ix with
        stateGateway := g
        commitHandle := some (.running rest height isSyncing) }
    | (.error e, g) => { ix with
        stateGateway := g
        commitHandle := some (.finished (.error (.storage e))) }
  | some (.running [] height _) => { ix with
      committedBlockHeight := some height
      commitHandle := some (.finished (.ok ())) }
  | _ => ix

def commitSteps (answers : List Answer) : Indexer :=
  answers.foldl (fun ix answer => ix.commitStep pg answer) ix

/-- Start to commit a batch. This waits for the previous batch, so there is no step while that
one is running, and its error is passed on. -/
def spawnCommit (batch : List BlockUpdateWithCursor) (isSyncing : Bool) :
    Option (Except ExtractionError Indexer) :=
  match batch.getLast? with
  | none => some (.ok ix)
  | some last =>
    match ix.commitHandle with
    | some (.running _ _ _) => none
    | some (.finished (.error e)) => some (.error e)
    | _ => some (.ok { ix with
        commitHandle := some (.running batch (block last).number isSyncing) })

/-- A full block goes into the buffer, and a batch of drained blocks to the commit task. -/
def receiveFullBlock (msg : BlockChanges) (cursor : String) (finalBlockHeight : Nat) :
    Option (Except ExtractionError Indexer) :=
  match ix.extractor.bufferBlock ⟨msg, cursor⟩ finalBlockHeight with
  | .error e => some (.error e)
  | .ok (batch, buffer) =>
    (ix.spawnCommit batch (finalBlockHeight == msg.block.number)).map fun spawned =>
      spawned.map fun ix =>
        let e : ProtocolExtractor := { ix.extractor with
          reorgBuffer := buffer
          lastProcessedBlock := some msg.block }
        { ix with extractor := e.updateCursor cursor }

def processFullBlockMessage (msg : BlockChanges) (cursor : String) (finalBlockHeight : Nat)
    (answers : List Answer) : Option (Except ExtractionError (BlockAggregatedChanges × Indexer)) :=
  (ix.receiveFullBlock msg cursor finalBlockHeight).map fun received => do
    let ix ← received
    let ix := ix.commitSteps pg answers
    let changes ← (msg.intoAggregated ix.committedBlockHeight).mapError .mergeError
    return (changes, ix)

/-- Parts of blocks are neither inserted nor committed. -/
def processPartialBlockMessage (msg : BlockChanges) (cursor : String) :
    Except ExtractionError (BlockAggregatedChanges × Indexer) := do
  let e ← ix.extractor.bufferPartialBlock msg
  let changes ← (msg.intoAggregated ix.committedBlockHeight).mapError .mergeError
  return (changes, { ix with extractor := e.updateCursor cursor })

def collectAndProcessFullBlock (cursor : String) (finalBlockHeight clock : Nat)
    (answers : List Answer) : Option (Except ExtractionError (BlockAggregatedChanges × Indexer)) :=
  match ix.extractor.partialBlockBuffer with
  | none => some (.error (.partialBlockBufferError
      ("Could not fetch full block data: partial block buffer is empty at block " ++ clock.repr)))
  | some msg =>
    let ix := { ix with extractor := { ix.extractor with partialBlockBuffer := none } }
    (ix.processFullBlockMessage pg msg cursor finalBlockHeight answers).map fun r =>
      r.map fun (changes, ix) => ({ changes with partialBlockIndex := none }, ix)

/-- The reads of an undo signal, each after some steps of the commit task. -/
def handleRevert (signal : BlockUndoSignal) (plugin : Except ExtractionError Unit)
    (contracts states componentBalances accountBalances : List Answer) :
    Except ExtractionError (Option BlockAggregatedChanges × Indexer) := do
  let ix₁ := ix.commitSteps pg contracts
  let ix₂ := ix₁.commitSteps pg states
  let ix₃ := ix₂.commitSteps pg componentBalances
  let ix₄ := ix₃.commitSteps pg accountBalances
  let g : ExtractorGateway := {
    getContracts := ix₁.stateGateway.store.gateway.getContracts
    getProtocolStates := ix₂.stateGateway.store.gateway.getProtocolStates
    getComponentsBalances := ix₃.stateGateway.store.gateway.getComponentsBalances
    getAccountBalances := ix₄.stateGateway.store.gateway.getAccountBalances }
  let (changes, e) ← ix.extractor.handleRevert g (fun _ => plugin) signal
  return (changes, { ix₄ with extractor := e })

/-- What happens at an event, or `none` if it has to wait. -/
def step : Event → Option (Except ExtractionError (Option BlockAggregatedChanges × Indexer))
  | .commit answer => some (.ok (none, ix.commitStep pg answer))
  | .tick msg cursor answers =>
    if msg.partialBlockIndex.isSome then
      some ((ix.processPartialBlockMessage msg cursor).map fun r => (some r.1, r.2))
    else
      (ix.processFullBlockMessage pg msg cursor msg.finalizedBlockHeight answers).map fun r =>
        r.map fun r => (some r.1, r.2)
  | .collect cursor finalBlockHeight clock answers =>
    (ix.collectAndProcessFullBlock pg cursor finalBlockHeight clock answers).map fun r =>
      r.map fun r => (some r.1, r.2)
  | .empty cursor => some (.ok (none, { ix with extractor := ix.extractor.updateCursor cursor }))
  | .undo signal plugin contracts states componentBalances accountBalances =>
    some (ix.handleRevert pg signal plugin contracts states componentBalances accountBalances)

section
variable {pg ix}

lemma bufferBlock_ok {m : BlockUpdateWithCursor} {buffer : ReorgBuffer BlockUpdateWithCursor}
    (h : e.bufferBlock m final = .ok (batch, buffer)) :
    final ≤ (block m).number ∧ (∀ last, e.reorgBuffer.blockMessages.getLast? = some last →
        (block last).hash = (block m).parentHash) ∧
      e.reorgBuffer.blockMessages ++ [m] = batch ++ buffer.blockMessages ∧
      (batch ≠ [] → ∃ first, buffer.blockMessages.head? = some first ∧
        (block first).number = final) := by
  unfold bufferBlock at h
  split_ifs at h with hfinal
  · cases h
  obtain ⟨inserted, hinsert, h⟩ := ok_of_bind_ok h
  obtain ⟨rfl, hlink⟩ := insertBlock_eq_ok (ok_of_mapError_ok hinsert)
  refine ⟨not_lt.mp hfinal, hlink, ?_⟩
  split_ifs at h
  · have hdrain := ok_of_mapError_ok h
    exact drainBlocksUntil_ok hdrain
  · cases h
    exact ⟨rfl, fun hne => absurd rfl hne⟩

lemma spawnCommit_ok {isSyncing : Bool} (h : ix.spawnCommit batch isSyncing = some (.ok ix')) :
    (batch = [] ∧ ix' = ix) ∨ ∃ last, batch.getLast? = some last ∧
      (ix.commitHandle = none ∨ ix.commitHandle = some (.finished (.ok ()))) ∧
      ix' = { ix with
        commitHandle := some (.running batch (block last).number isSyncing) } := by
  unfold spawnCommit at h
  cases hlast : batch.getLast? with
  | none =>
    simp only [hlast] at h
    cases h
    exact .inl ⟨List.getLast?_eq_none_iff.mp hlast, rfl⟩
  | some last =>
    simp only [hlast] at h
    refine .inr ⟨last, rfl, ?_⟩
    cases hhandle : ix.commitHandle with
    | none =>
      simp only [hhandle] at h
      cases h
      exact ⟨.inl rfl, rfl⟩
    | some task =>
      cases task with
      | running =>
        simp only [hhandle] at h
        cases h
      | finished result =>
        cases result with
        | error =>
          simp only [hhandle] at h
          cases h
        | ok =>
          simp only [hhandle] at h
          cases h
          exact ⟨.inr rfl, rfl⟩

lemma commitStep_setExtractor (e : ProtocolExtractor) (answer : Answer) :
    commitStep pg { ix with extractor := e } answer =
      { ix.commitStep pg answer with extractor := e } := by
  obtain ⟨extractor, gateway, handle, committed⟩ := ix
  unfold commitStep
  cases handle with
  | none => rfl
  | some task =>
    cases task with
    | finished => rfl
    | running blocks _ isSyncing =>
      cases blocks with
      | nil => rfl
      | cons m rest =>
        dsimp only
        obtain ⟨result, g⟩ := pg.advance gateway m (!isSyncing && rest.isEmpty) answer
        cases result <;> rfl

/-- The commit task and the block loop do not share the extractor's own state. -/
lemma commitSteps_setExtractor (e : ProtocolExtractor) (answers : List Answer) :
    commitSteps pg { ix with extractor := e } answers =
      { ix.commitSteps pg answers with extractor := e } := by
  induction answers generalizing ix with
  | nil => rfl
  | cons _ _ ih =>
    simp only [commitSteps, List.foldl_cons, commitStep_setExtractor] at ih ⊢
    exact ih

lemma commitSteps_extractor (answers : List Answer) :
    (ix.commitSteps pg answers).extractor = ix.extractor := by
  have h : ix.commitSteps pg answers = _ := @commitSteps_setExtractor pg ix ix.extractor answers
  rw [h]

lemma commitSteps_stored (answers : List Answer) :
    (ix.commitSteps pg answers).stateGateway.stored = ix.stateGateway.stored ∧
      (ix.commitSteps pg answers).stateGateway.nativeToken = ix.stateGateway.nativeToken := by
  have hstep : ∀ (ix : Indexer) (answer : Answer),
      (ix.commitStep pg answer).stateGateway.stored = ix.stateGateway.stored ∧
        (ix.commitStep pg answer).stateGateway.nativeToken = ix.stateGateway.nativeToken := by
    intro ix answer
    unfold commitStep
    split
    · rename_i m rest height isSyncing hhandle
      have hstored := @ExtractorPgGateway.advance_stored pg ix.stateGateway m
        (!isSyncing && rest.isEmpty) answer
      split <;> rename_i hadvance <;> rw [hadvance] at hstored <;> exact hstored
    · exact ⟨rfl, rfl⟩
    · exact ⟨rfl, rfl⟩
  induction answers generalizing ix with
  | nil => exact ⟨rfl, rfl⟩
  | cons answer _ ih =>
    obtain ⟨hstored, hnative⟩ := @ih (ix.commitStep pg answer)
    exact ⟨hstored.trans (hstep ix answer).1, hnative.trans (hstep ix answer).2⟩

lemma handleRevert_ok {signal : BlockUndoSignal} {plugin : Except ExtractionError Unit}
    {contracts states componentBalances accountBalances : List Answer}
    {out : Option BlockAggregatedChanges}
    (h : ix.handleRevert pg signal plugin contracts states componentBalances accountBalances =
      .ok (out, ix')) :
    ∃ (g : ExtractorGateway) (e : ProtocolExtractor),
      ix.extractor.handleRevert g (fun _ => plugin) signal = .ok (out, e) ∧
      ix' = { ix.commitSteps pg (contracts ++ states ++ componentBalances ++ accountBalances) with
        extractor := e } ∧
      g.getContracts = (ix.commitSteps pg contracts).stateGateway.store.gateway.getContracts ∧
      g.getProtocolStates =
        (ix.commitSteps pg (contracts ++ states)).stateGateway.store.gateway.getProtocolStates ∧
      g.getComponentsBalances = (ix.commitSteps pg
        (contracts ++ states ++ componentBalances)).stateGateway.store.gateway.getComponentsBalances
          ∧
      g.getAccountBalances = (ix.commitSteps pg (contracts ++ states ++ componentBalances ++
        accountBalances)).stateGateway.store.gateway.getAccountBalances := by
  obtain ⟨⟨changes, e⟩, hr, h⟩ := ok_of_bind_ok h
  cases h
  refine ⟨_, e, hr, ?_⟩
  simp [commitSteps]

/-- A block that is received goes into the buffer. The batch that is drained, if there is one, is
given to a new commit task. -/
lemma receiveFullBlock_ok (h : ix.receiveFullBlock msg cursor final = some (.ok ix')) :
    ∃ batch buffer, ix.extractor.bufferBlock ⟨msg, cursor⟩ final = .ok (batch, buffer) ∧
      ∃ e : ProtocolExtractor, e.reorgBuffer = buffer ∧ e.name = ix.extractor.name ∧
        e.partialBlockBuffer = ix.extractor.partialBlockBuffer ∧
        ((batch = [] ∧ ix' = { ix with extractor := e }) ∨ ∃ last, batch.getLast? = some last ∧
          (ix.commitHandle = none ∨ ix.commitHandle = some (.finished (.ok ()))) ∧
          ix' = { ix with
            extractor := e
            commitHandle := some (.running batch (block last).number
              (final == msg.block.number)) }) := by
  unfold receiveFullBlock at h
  cases hb : ix.extractor.bufferBlock ⟨msg, cursor⟩ final with
  | error =>
    simp only [hb] at h
    cases h
  | ok r =>
    obtain ⟨batch, buffer⟩ := r
    simp only [hb] at h
    obtain ⟨spawned, hspawn, hmap⟩ := Option.map_eq_some_iff.mp h
    obtain ⟨ix₀, rfl, rfl⟩ := ok_of_map_ok hmap
    refine ⟨batch, buffer, rfl, updateCursor { ix₀.extractor with
      reorgBuffer := buffer
      lastProcessedBlock := some msg.block } cursor, rfl, ?_, ?_, ?_⟩
    all_goals rcases spawnCommit_ok hspawn with ⟨hnil, rfl⟩ | ⟨last, hlast, hidle, rfl⟩
    · rfl
    · rfl
    · rfl
    · rfl
    · exact .inl ⟨hnil, rfl⟩
    · exact .inr ⟨last, hlast, hidle, rfl⟩

lemma processFullBlockMessage_ok {answers : List Answer}
    (h : ix.processFullBlockMessage pg msg cursor final answers = some (.ok (changes, ix'))) :
    ∃ ix₁, ix.receiveFullBlock msg cursor final = some (.ok ix₁) ∧
      ix' = ix₁.commitSteps pg answers ∧
      msg.intoAggregated ix'.committedBlockHeight = .ok changes := by
  obtain ⟨received, hgot, hmap⟩ := Option.map_eq_some_iff.mp h
  obtain ⟨ix₁, rfl, hrest⟩ := ok_of_bind_ok hmap
  obtain ⟨changes', hchanges, heq⟩ := ok_of_bind_ok hrest
  cases heq
  exact ⟨ix₁, hgot, rfl, ok_of_mapError_ok hchanges⟩

lemma processPartialBlockMessage_ok
    (h : ix.processPartialBlockMessage msg cursor = .ok (changes, ix')) :
    msg.intoAggregated ix.committedBlockHeight = .ok changes ∧
      ∃ e, ix.extractor.bufferPartialBlock msg = .ok e ∧
        ix' = { ix with extractor := e.updateCursor cursor } := by
  obtain ⟨e, he, h⟩ := ok_of_bind_ok h
  obtain ⟨changes', hchanges, h⟩ := ok_of_bind_ok h
  cases h
  exact ⟨ok_of_mapError_ok hchanges, e, he, rfl⟩

lemma mergeIntoBuffer_ok {buffer buffer' : Option BlockChanges} {u : Unit}
    (h : mergeIntoBuffer buffer msg = (.ok u, buffer')) :
    ∃ p, buffer' = some p ∧ p.extractor = msg.extractor ∧ p.revert = msg.revert := by
  unfold mergeIntoBuffer at h
  cases buffer with
  | none =>
    cases h
    exact ⟨msg, rfl, rfl, rfl⟩
  | some existing =>
    cases hmerged : existing.mergePartial msg with
    | error =>
      simp only [hmerged] at h
      cases h
    | ok merged =>
      simp only [hmerged] at h
      cases h
      refine ⟨merged, rfl, ?_⟩
      unfold BlockChanges.mergePartial at hmerged
      split at hmerged
      · cases hmerged
      · cases hmerged
      · split_ifs at hmerged with hname hchain hnumber hrevert hlt hgt
        · cases hmerged
          exact ⟨not_not.mp hname, not_not.mp hrevert⟩
        · cases hmerged
          exact ⟨rfl, rfl⟩

lemma bufferPartialBlock_ok {e' : ProtocolExtractor} (h : e.bufferPartialBlock msg = .ok e') :
    ∃ p, e' = { e with partialBlockBuffer := some p } ∧ p.extractor = msg.extractor ∧
      p.revert = msg.revert := by
  unfold bufferPartialBlock at h
  rcases hmerged : mergeIntoBuffer e.partialBlockBuffer msg with ⟨result, buffer⟩
  rw [hmerged] at h
  obtain ⟨_, rfl, h⟩ := ok_of_bind_ok h
  cases h
  obtain ⟨p, rfl, hp⟩ := mergeIntoBuffer_ok hmerged
  exact ⟨p, rfl, hp⟩

end
end Indexer

/-- Parts of one block, with different indices. -/
def BlockChanges.MergesWith (s other : BlockChanges) : Prop :=
  (∃ i j, s.partialBlockIndex = some i ∧ other.partialBlockIndex = some j ∧ i ≠ j) ∧
    s.extractor = other.extractor ∧ s.chain = other.chain ∧
    s.block.number = other.block.number ∧ s.revert = other.revert

lemma BlockChanges.mergePartial_isOk_iff (s other : BlockChanges) :
    (s.mergePartial other).isOk ↔ s.MergesWith other := by
  unfold mergePartial MergesWith
  split
  · rename_i hs
    simp [hs, Except.isOk, Except.toBool]
  · rename_i hs
    simp [hs, Except.isOk, Except.toBool]
  · rename_i i j hi hj
    rw [hi, hj]
    split_ifs <;> simp_all [Except.isOk, Except.toBool] <;> omega

namespace ProtocolExtractor

/-- A rejected part leaves the buffer as it was just when no part is rejected. -/
theorem keepsBuffer_iff (buffer : Option BlockChanges) (msg : BlockChanges) :
    (∀ err buffer', mergeIntoBuffer buffer msg = (.error err, buffer') → buffer' = buffer) ↔
      ∀ existing ∈ buffer, existing.MergesWith msg := by
  cases buffer with
  | none => simp [mergeIntoBuffer]
  | some existing =>
    simp only [Option.mem_some_iff, forall_eq', ← BlockChanges.mergePartial_isOk_iff]
    cases hmerge : existing.mergePartial msg <;>
      simp [mergeIntoBuffer, hmerge, Except.isOk, Except.toBool]

/-- A part arrives twice. -/
theorem not_keepsBuffer_repeated : ∃ part err,
    mergeIntoBuffer (some part) part = (.error err, none) :=
  ⟨⟨"vm:pools", default, default, 0, false, ∅, [], [], [], some 0⟩, _, rfl⟩

end ProtocolExtractor

end Tycho
