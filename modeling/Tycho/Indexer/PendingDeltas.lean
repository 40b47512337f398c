import Tycho.Common.Aggregation
import Tycho.Indexer.ReorgBuffer

/-! The service's buffer of messages that the database may not hold yet, and the states it
serves by applying them. -/
namespace Tycho
open Collections Replay HashMap Overwrites ProtocolComponentState Account

inductive PendingDeltasError where
  | lockError (name reason : String)
  | reorgBufferError (e : StorageError)
  | unknownExtractor (name : String)
  | deltaApplicationFailure (e : MergeError)
deriving DecidableEq

structure PendingDeltas where
  buffers : HashMap String (ReorgBuffer BlockAggregatedChanges)

/-- What `PendingDeltas::insert` does to the buffer of the message's extractor. -/
def ReorgBuffer.accept (buffer : ReorgBuffer BlockAggregatedChanges)
    (message : BlockAggregatedChanges) :
    Except StorageError (ReorgBuffer BlockAggregatedChanges) := do
  if message.revert then
    if message.partialBlockIndex.isNone then
      let (_, buffer) ← buffer.purge message.block.hash
      return buffer
    return buffer
  let buffer ← buffer.insertBlock message
  match message.dbCommittedBlockHeight with
  | some height =>
    let (_, buffer) ← buffer.drainBlocksUntil (height + 1)
    return buffer
  | none => return buffer

/-- The part of a native state's update that one buffered message makes. The flag tells whether
any message made a change. -/
def nativeStep (entry : BlockAggregatedChanges) (st : ProtocolComponentState × Bool) :
    Except MergeError (ProtocolComponentState × Bool) := do
  let st ← (entry.stateDeltas.lookup st.1.componentId).elim (.ok st) fun delta =>
    (st.1.applyStateDelta delta).map (·, true)
  (entry.componentBalances.lookup st.1.componentId).elim (.ok st) fun delta =>
    (st.1.applyBalanceDelta delta).map (·, true)

/-- Buffered token balances, keyed by contract address. -/
def Account.insertTokenBalances (s : Account) (balances : HashMap Address AccountBalance) :
    Account :=
  { s with tokenBalances := extend s.tokenBalances balances.toList }

/-- The part of an account's update that one buffered message makes. -/
def vmStep (entry : BlockAggregatedChanges) (st : Account × Bool) :
    Except MergeError (Account × Bool) := do
  let st ← (entry.accountDeltas.lookup st.1.address).elim (.ok st) fun delta =>
    (st.1.applyDelta delta).map (·, true)
  (entry.accountBalances.lookup st.1.address).elim (.ok st) fun balances =>
    .ok (st.1.insertTokenBalances balances, true)

section
variable (entry : BlockAggregatedChanges)

def balanceWriteAt (m : HashMap ComponentId (HashMap Address ComponentBalance)) (c : ComponentId)
    (k : ProtocolComponentState.Cell) : Option (Option Bytes) :=
  (m.lookup c).bind fun delta => balanceWrite delta k

def tokenBalanceWrite (balances : HashMap Address AccountBalance) :
    Account.Cell → Option (Option Account.CellVal)
  | .tokenBalance t => (balances.lookup t).map fun b => some (.balance b)
  | _ => none

def tokenBalanceWriteAt (m : HashMap Address (HashMap Address AccountBalance)) (a : Address)
    (k : Account.Cell) : Option (Option Account.CellVal) :=
  (m.lookup a).bind fun balances => tokenBalanceWrite balances k

def nativeWrite (c : ComponentId) (k : ProtocolComponentState.Cell) : Option (Option Bytes) :=
  (balanceWriteAt entry.componentBalances c k).or (stateWriteAt entry.stateDeltas c k)

def vmWrite (a : Address) (k : Account.Cell) : Option (Option Account.CellVal) :=
  (tokenBalanceWriteAt entry.accountBalances a k).or (accountWriteAt entry.accountDeltas a k)

lemma nativeStep_overwrites :
    Overwrites (fun st : ProtocolComponentState × Bool => st.1.componentId) (fun st => st.1.cell)
      (nativeStep entry) (fun c => stateCheckAt entry.stateDeltas c c) (nativeWrite entry) := by
  have hstate := select fun c =>
    option (fun delta => (applyStateDelta_overwrites delta).tagged true)
    (entry.stateDeltas.lookup c)
  have hbal := select fun c => option
    (fun delta => (applyBalanceDelta_overwrites delta).tagged true)
    (entry.componentBalances.lookup c)
  refine (hstate.comp hbal).congr ?_ fun c k => rfl
  intro c
  cases entry.componentBalances.lookup c <;> exact Option.or_none

lemma Account.insertTokenBalances_overwrites (balances : HashMap Address AccountBalance) :
    Overwrites frame cell
      (fun s => (.ok (s.insertTokenBalances balances) : Except MergeError Account))
      (fun _ => none) fun _ => tokenBalanceWrite balances := by
  constructor
  · intro s e he
    cases he
  · intro s _
    refine ⟨_, rfl, rfl, ?_⟩
    intro k
    cases k with
    | tokenBalance t =>
      simp only [cell, insertTokenBalances, tokenBalanceWrite, lookup_extend_toList]
      cases balances.lookup t <;> rfl
    | slot => rfl
    | nativeBalance => rfl
    | code => rfl

lemma vmStep_overwrites : Overwrites (fun st : Account × Bool => st.1.frame) (fun st => st.1.cell)
      (vmStep entry) (fun s => accountCheckAt entry.accountDeltas s.address s)
      fun s => vmWrite entry s.address := by
  have hdelta := select fun s : Account => option
    (fun delta => (applyDelta_overwrites delta).tagged true)
    (entry.accountDeltas.lookup s.address)
  have hbal := select fun s : Account => option
    (fun balances => (insertTokenBalances_overwrites balances).tagged true)
    (entry.accountBalances.lookup s.address)
  refine (hdelta.comp hbal).congr ?_ fun s k => rfl
  intro s
  cases entry.accountBalances.lookup s.address <;> exact Option.or_none

end

/-- The delta of an account is filed under its address. -/
def BlockAggregatedChanges.Filed (m : BlockAggregatedChanges) (s : Account) : Prop :=
  ∀ delta, m.accountDeltas.lookup s.address = some delta →
    (s.chain, s.address) = (delta.chain, delta.address)

lemma BlockAggregatedChanges.filed_iff {m : BlockAggregatedChanges} {s : Account} :
    m.Filed s ↔ accountCheckAt m.accountDeltas s.address s = none := by
  rw [accountCheckAt, Option.bind_eq_none_iff]
  refine forall₂_congr fun delta _ => ?_
  rw [deltaCheck, ite_eq_right_iff]
  simp

/-- The service applies the deltas of an account if and only if they are its own. -/
lemma exists_foldlM_vmStep_ok_iff {messages : List BlockAggregatedChanges} {s : Account}
    {changed : Bool} :
    (∃ r, messages.foldlM (fun st m => vmStep m st) (s, changed) = .ok r) ↔
      ∀ m ∈ messages, m.Filed s := by
  have hreplay := replay (l := messages) fun m _ => vmStep_overwrites m
  have hcheck : (messages.findSome? fun m =>
      accountCheckAt m.accountDeltas s.frame.address s.frame) = none ↔ ∀ m ∈ messages, m.Filed s :=
        by
    rw [List.findSome?_eq_none_iff]
    exact forall₂_congr fun m _ => BlockAggregatedChanges.filed_iff.symm
  rw [← hcheck]
  constructor
  · rintro ⟨r, hr⟩
    exact hreplay.check_of_ok hr
  · intro hnone
    obtain ⟨r, hr, -⟩ := hreplay.writes (s, changed) hnone
    exact ⟨r, hr⟩

variable {messages : List BlockAggregatedChanges} {name : String} {p : PendingDeltas}

namespace PendingDeltas

def insert (p : PendingDeltas) (message : BlockAggregatedChanges) :
    Except PendingDeltasError PendingDeltas :=
  match p.buffers.lookup message.extractor with
  | some buffer =>
    ((buffer.accept message).mapError .reorgBufferError).map fun buffer =>
      ⟨p.buffers.insert message.extractor buffer⟩
  | none => .error (.unknownExtractor message.extractor)

def buffer (p : PendingDeltas) (protocolSystem : String) :
    Except PendingDeltasError (ReorgBuffer BlockAggregatedChanges) :=
  match p.buffers.lookup protocolSystem with
  | some buffer => .ok buffer
  | none => .error (.unknownExtractor protocolSystem)

def entries (p : PendingDeltas) (version : Option BlockNumberOrTimestamp)
    (protocolSystem : String) : Except PendingDeltasError (List BlockAggregatedChanges) := do
  let buffer ← p.buffer protocolSystem
  (buffer.getBlockRange none version).mapError .reorgBufferError

def updateNativeState (p : PendingDeltas) (dbState : ProtocolComponentState)
    (version : Option BlockNumberOrTimestamp) (protocolSystem : String) :
    Except PendingDeltasError (ProtocolComponentState × Bool) := do
  let entries ← p.entries version protocolSystem
  (entries.foldlM (fun st entry => nativeStep entry st) (dbState, false)).mapError
    .deltaApplicationFailure

def updateVmState (p : PendingDeltas) (dbState : Account)
    (version : Option BlockNumberOrTimestamp) (protocolSystem : String) :
    Except PendingDeltasError (Account × Bool) := do
  let entries ← p.entries version protocolSystem
  (entries.foldlM (fun st entry => vmStep entry st) (dbState, false)).mapError
    .deltaApplicationFailure

def searchBlock (p : PendingDeltas) (f : BlockAggregatedChanges → Bool) (protocolSystem : String) :
    Except PendingDeltasError (Option BlockAggregatedChanges) :=
  (p.entries none protocolSystem).map fun entries => entries.find? f

def getBlockCommitStatus (p : PendingDeltas) (version : BlockNumberOrTimestamp)
    (protocolSystem : String) : Except PendingDeltasError (Option CommitStatus) :=
  (p.buffer protocolSystem).map fun buffer => buffer.getCommitStatus version

/-- States of the database with the buffered changes applied, followed by states built from the
buffered changes alone for the requested components that the database does not know. -/
def mergeNativeStates (p : PendingDeltas) (protocolIds : List ComponentId)
    (dbStates : List ProtocolComponentState) (version : Option BlockNumberOrTimestamp)
    (protocolSystem : String) : Except PendingDeltasError (List ProtocolComponentState) :=
  completeWith componentId
    (fun state => (p.updateNativeState state version protocolSystem).map Prod.fst)
    (fun id => (p.updateNativeState ⟨id, ∅, ∅⟩ version protocolSystem).map Prod.fst)
    protocolIds dbStates

section
variable (keccak256 : Bytes → Bytes)

/-- The part of `getAccount` that one buffered message makes. Token balances count only once a
delta has created the account. -/
def accountStep (address : Address) (account : Option Account) (entry : BlockAggregatedChanges) :
    Except MergeError (Option Account) := do
  let account ← (entry.accountDeltas.lookup address).elim (.ok account) fun delta =>
    ((account.getD (delta.intoAccountWithoutTx keccak256)).applyDelta delta).map some
  return account.map fun s =>
    (entry.accountBalances.lookup address).elim s s.insertTokenBalances

/-- An account built from the buffered messages of all extractors. -/
def getAccount (p : PendingDeltas) (address : Address) (version : Option BlockNumberOrTimestamp) :
    Except PendingDeltasError Account := do
  let account ← p.buffers.values.foldlM (fun account buffer => do
    let entries ← (buffer.getBlockRange none version).mapError .reorgBufferError
    (entries.foldlM (accountStep keccak256 address) account).mapError .deltaApplicationFailure) none
  match account with
  | some account => return account
  | none => throw (.reorgBufferError (.notFound "Contract" address.toString))

def updateVmStates (p : PendingDeltas) (addresses : List Address) (dbStates : List Account)
    (version : Option BlockNumberOrTimestamp) (protocolSystem : String) :
    Except PendingDeltasError (List Account) :=
  completeWith address (fun state => (p.updateVmState state version protocolSystem).map Prod.fst)
    (fun address => p.getAccount keccak256 address version) addresses dbStates

end

/-- The buffer of an extractor holds exactly these messages. -/
def Holds (p : PendingDeltas) (name : String) (messages : List BlockAggregatedChanges) : Prop :=
  ∃ b, p.buffers.lookup name = some b ∧ b.blockMessages = messages

section
variable (h : p.Holds name messages)
include h

lemma Holds.entries : p.entries none name = .ok messages := by
  obtain ⟨b, hb, rfl⟩ := h
  unfold entries buffer
  rw [hb]
  rfl

lemma Holds.updateNativeState (s : ProtocolComponentState) : p.updateNativeState s none name =
      (messages.foldlM (fun st entry => nativeStep entry st) (s, false)).mapError
        .deltaApplicationFailure := by
  unfold PendingDeltas.updateNativeState
  rw [h.entries]
  rfl

lemma Holds.updateVmState (s : Account) : p.updateVmState s none name =
      (messages.foldlM (fun st entry => vmStep entry st) (s, false)).mapError
        .deltaApplicationFailure := by
  unfold PendingDeltas.updateVmState
  rw [h.entries]
  rfl

end

/-- A database that has already committed messages still in the buffer never yields a wrong
latest state: applying the messages `mid ++ post` on top of the state after `pre ++ mid` gives
the state after all of them. -/
theorem update_overlap (pre mid post : List BlockAggregatedChanges) {name : String}
    {committed pending whole : PendingDeltas} (hc : committed.Holds name (pre ++ mid))
    (hp : pending.Holds name (mid ++ post)) (hw : whole.Holds name (pre ++ mid ++ post)) :
    (∀ s r, committed.updateNativeState s none name = .ok r →
      Agree (fun r => r.1.componentId) (fun r => r.1.cell)
        (pending.updateNativeState r.1 none name) (whole.updateNativeState s none name)) ∧
    ∀ s r, committed.updateVmState s none name = .ok r →
      Agree (fun r => r.1.frame) (fun r => r.1.cell)
        (pending.updateVmState r.1 none name) (whole.updateVmState s none name) := by
  constructor
  · intro s r hr
    rw [hc.updateNativeState] at hr
    rw [hp.updateNativeState, hw.updateNativeState]
    refine Agree.mapError _ ?_
    exact agree_overlap (fun entry _ => nativeStep_overwrites entry)
      (ok_of_mapError_ok hr) rfl fun _ => rfl
  · intro s r hr
    rw [hc.updateVmState] at hr
    rw [hp.updateVmState, hw.updateVmState]
    refine Agree.mapError _ ?_
    exact agree_overlap (fun entry _ => vmStep_overwrites entry)
      (ok_of_mapError_ok hr) rfl fun _ => rfl

def feeMessage (number : Nat) (fee : UInt8) : BlockAggregatedChanges where
  extractor := "vm:pool"
  chain := .ethereum
  block := ⟨number, .ethereum, ⟨[fee]⟩, ⟨[fee - 1]⟩, number⟩
  finalizedBlockHeight := 0
  dbCommittedBlockHeight := none
  revert := false
  stateDeltas := ofList [("pool", .new "pool" (ofList [("fee", ⟨[fee]⟩)]) ∅)]
  accountDeltas := ofList [(⟨[9]⟩, ⟨.ethereum, ⟨[9]⟩,
    ofList [(⟨[fee]⟩, some ⟨[fee]⟩)], none, none, .update⟩)]
  newTokens := ∅
  newProtocolComponents := ∅
  deletedProtocolComponents := ∅
  componentBalances := ∅
  accountBalances := ∅
  componentTvl := ∅
  dciUpdate := ⟨∅, ∅, ∅⟩
  partialBlockIndex := none

def ofMessages (name : String) (messages : List BlockAggregatedChanges) : PendingDeltas :=
  ⟨ofList [(name, ⟨messages, false⟩)]⟩

lemma lookup_ofMessages (name : String) (messages : List BlockAggregatedChanges) :
    (ofMessages name messages).buffers.lookup name = some ⟨messages, false⟩ := by
  rw [ofMessages, lookup_ofList]
  simp [lastOf]

lemma holds_ofMessages (name : String) (messages : List BlockAggregatedChanges) :
    (ofMessages name messages).Holds name messages :=
  ⟨_, lookup_ofMessages name messages, rfl⟩

theorem update_overlap_feeMessage :
    ∃ r, (ofMessages "vm:pool" [feeMessage 1 1, feeMessage 2 2]).updateNativeState
        ⟨"pool", ∅, ∅⟩ none "vm:pool" = .ok r ∧
      Agree (fun r => r.1.componentId) (fun r => r.1.cell)
        ((ofMessages "vm:pool" [feeMessage 2 2, feeMessage 3 3]).updateNativeState r.1 none
          "vm:pool")
        ((ofMessages "vm:pool" [feeMessage 1 1, feeMessage 2 2, feeMessage 3 3]).updateNativeState
          ⟨"pool", ∅, ∅⟩ none "vm:pool") := by
  obtain ⟨r, hr⟩ : ∃ r, (ofMessages "vm:pool" [feeMessage 1 1, feeMessage 2 2]).updateNativeState
    ⟨"pool", ∅, ∅⟩ none "vm:pool" = .ok r := ⟨_, rfl⟩
  refine ⟨r, hr, ?_⟩
  exact (update_overlap [feeMessage 1 1] [feeMessage 2 2] [feeMessage 3 3]
    (holds_ofMessages _ _) (holds_ofMessages _ _) (holds_ofMessages _ _)).1 _ r hr

end PendingDeltas
end Tycho
