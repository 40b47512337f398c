import Tycho.Client.Synchronizer

/-! The block synchronizer of the client: the streams of several extractors are aligned, round by
round, along one block history. -/
namespace Tycho
open Collections

def BLOCK_HISTORY_SIZE : Nat := 15

inductive BlockSynchronizerError where
  | blockHistoryError (error : BlockHistoryError)
  | noReadySynchronizers
  | noSynchronizers
deriving DecidableEq

inductive SynchronizerState where
  | started
  | ready (header : BlockHeader)
  | delayed (header : BlockHeader)
  | stale (header : BlockHeader)
  | advanced (header : BlockHeader)
  | ended (reason : String)
deriving DecidableEq

/-- What can be received: a message, the synchronizer's error, or that its channel is closed. -/
inductive Received where
  | msg (m : StateSyncMessage BlockHeader)
  | error (e : SynchronizerError)
  | closed
deriving DecidableEq

/-- The stream of an extractor. `rx` is what is still to be received. -/
structure SynchronizerStream where
  extractorId : String
  state : SynchronizerState
  error : Option SynchronizerError
  rx : List Received
deriving DecidableEq

/-- The part of the clock in a round: how much can be received within the time limit, and whether
the last change of the stream is longer ago than the threshold. -/
structure Timing where
  arriving : Nat
  overdue : Bool

/-- The messages of a catch-up, or why the stream has ended. -/
inductive CaughtUp where
  | messages (results : List (StateSyncMessage BlockHeader))
  | errored (e : SynchronizerError)
  | closed

/-- Messages of a stream that has ended are dropped. -/
def CaughtUp.push (msg : StateSyncMessage BlockHeader) : CaughtUp → CaughtUp
  | .messages results => .messages (msg :: results)
  | r => r

def mergeAll : List (StateSyncMessage BlockHeader) → Option (StateSyncMessage BlockHeader)
  | [] => none
  | msg :: rest => some (rest.foldl StateSyncMessage.merge msg)

namespace SynchronizerStream

def new (extractorId : String) (rx : List Received) : SynchronizerStream :=
  ⟨extractorId, .started, none, rx⟩

def markClosed (s : SynchronizerStream) : SynchronizerStream :=
  match s.state with
  | .ended _ => s
  | _ => { s with state := .ended "Closed" }

def markStale (s : SynchronizerStream) (header : BlockHeader) : SynchronizerStream :=
  { s with state := .stale header }

def markReady (s : SynchronizerStream) (header : BlockHeader) : SynchronizerStream :=
  { s with state := .ready header }

def hasEnded (s : SynchronizerStream) : Bool :=
  match s.state with
  | .ended _ => true
  | _ => false

def isStale (s : SynchronizerStream) : Bool :=
  match s.state with
  | .stale _ => true
  | _ => false

def isAdvanced (s : SynchronizerStream) : Bool :=
  match s.state with
  | .advanced _ => true
  | _ => false

def getCurrentHeader (s : SynchronizerStream) : Option BlockHeader :=
  match s.state with
  | .ready b | .delayed b | .advanced b => some b
  | _ => none

/-- Whether the stream has become stale, and the stream. -/
def checkAndTransitionToStaleIfNeeded (s : SynchronizerStream) (overdue : Bool)
    (fallbackHeader : Option BlockHeader) : Bool × SynchronizerStream :=
  if overdue then
    let headerToUse := match s.state, fallbackHeader with
      | .ready h, _ | .delayed h, _ | .stale h, _ => h
      | _, some h => h
      | _, none => default
    (true, { s with state := .stale headerToUse })
  else (false, s)

def transition (s : SynchronizerStream) (latestRetrieved : BlockHeader)
    (blockHistory : BlockHistory)
    (overdue : Bool) : Except BlockHistoryError SynchronizerStream :=
  match blockHistory.determineBlockPosition latestRetrieved with
  | .error e => .error e
  | .ok .nextExpected | .ok .nextPartial => .ok { s with state := .ready latestRetrieved }
  | .ok .latest | .ok .delayed =>
    match s.checkAndTransitionToStaleIfNeeded overdue (some latestRetrieved) with
    | (true, s) => .ok s
    | (false, s) => .ok { s with state := .delayed latestRetrieved }
  | .ok .advanced => .ok { s with state := .advanced latestRetrieved }

/-- The loop of `try_catch_up`, which ends at the next expected block. -/
def receive (blockHistory : BlockHistory) :
    Nat → List Received → Except BlockHistoryError (CaughtUp × List Received)
  | 0, rx => .ok (.messages [], rx)
  | _, [] => .ok (.messages [], [])
  | n + 1, .msg m :: rx =>
    match blockHistory.determineBlockPosition m.header with
    | .error e => .error e
    | .ok .nextExpected | .ok .nextPartial => .ok (.messages [m], rx)
    | .ok _ => do
      let (results, rx) ← receive blockHistory n rx
      .ok (results.push m, rx)
  | _, .error e :: rx => .ok (.errored e, rx)
  | _, .closed :: rx => .ok (.closed, rx)

/-- What is received within the time limit, if anything is, and the stream after that. -/
def recv (s : SynchronizerStream) (timing : Timing) : Option Received × SynchronizerStream :=
  if timing.arriving = 0 then (none, s) else (s.rx.head?, { s with rx := s.rx.tail })

variable (errorText : SynchronizerError → String)

def markErrored (s : SynchronizerStream) (error : SynchronizerError) : SynchronizerStream :=
  { s with state := .ended (errorText error), error := some error }

def tryRecvNextExpected (s : SynchronizerStream) (blockHistory : BlockHistory)
    (previousBlock : BlockHeader) (timing : Timing) :
    Except BlockHistoryError (Option (StateSyncMessage BlockHeader) × SynchronizerStream) :=
  match s.recv timing with
  | (some (.msg m), s) => do
    let s ← s.transition m.header blockHistory timing.overdue
    .ok (some m, s)
  | (some (.error e), s) => .ok (none, s.markErrored errorText e)
  | (some .closed, s) => .ok (none, s.markClosed)
  | (none, s) => .ok (none, { s with state := .delayed previousBlock })

def tryCatchUp (s : SynchronizerStream) (blockHistory : BlockHistory) (timing : Timing) :
    Except BlockHistoryError (Option (StateSyncMessage BlockHeader) × SynchronizerStream) := do
  let (results, rx) ← receive blockHistory timing.arriving s.rx
  let s := { s with rx }
  match results with
  | .errored e => .ok (none, s.markErrored errorText e)
  | .closed => .ok (none, s.markClosed)
  | .messages results =>
    match mergeAll results with
    | some msg => do
      let s ← s.transition msg.header blockHistory timing.overdue
      .ok (some msg, s)
    | none => .ok (none, (s.checkAndTransitionToStaleIfNeeded timing.overdue none).2)

/-- One step of a stream. A stream that is behind does not wait if `skipWait` is set, and then it
receives nothing. -/
def tryAdvance (s : SynchronizerStream) (blockHistory : BlockHistory) (skipWait : Bool)
    (timing : Timing) :
    Except BlockHistoryError (Option (StateSyncMessage BlockHeader) × SynchronizerStream) :=
  match s.state with
  | .started | .ended _ => .ok (none, s)
  | .advanced b => do
    let s ← s.transition b blockHistory timing.overdue
    .ok (none, s)
  | .ready previousBlock => s.tryRecvNextExpected errorText blockHistory previousBlock timing
  | .delayed _ | .stale _ => s.tryCatchUp errorText blockHistory
    (if skipWait then { timing with arriving := 0 } else timing)

def recvFirst (s : SynchronizerStream) (timing : Timing) :
    Option (StateSyncMessage BlockHeader) × SynchronizerStream :=
  match s.recv timing with
  | (some (.msg m), s) => (some m, s.markReady m.header)
  | (some (.error e), s) => (none, s.markErrored errorText e)
  | (some .closed, s) => (none, s.markClosed)
  | (none, s) => (none, s.markStale default)

end SynchronizerStream

structure FeedMessage where
  stateMsgs : HashMap String (StateSyncMessage BlockHeader)
  syncStates : HashMap String SynchronizerState
deriving DecidableEq

/-- The main loop of the block synchronizer. It has ended if there is an error. -/
structure BlockSynchronizer where
  syncStreams : List SynchronizerStream
  blockHistory : BlockHistory
  error : Option BlockSynchronizerError
deriving DecidableEq

namespace BlockSynchronizer

def requireActiveStream (syncStreams : List SynchronizerStream) :
    Except BlockSynchronizerError Unit :=
  if syncStreams.any fun s => !s.hasEnded && !s.isStale then .ok ()
  else .error .noReadySynchronizers

/-- Some stream is active, or all of them are stale. -/
def checkStreams (syncStreams : List SynchronizerStream) : Except BlockSynchronizerError Unit :=
  if syncStreams.any fun s => !s.hasEnded && !s.isStale then .ok ()
  else if syncStreams.any SynchronizerStream.hasEnded then .error .noReadySynchronizers
  else .ok ()

/-- The last one of those with the highest number. -/
def maxByNumber : List BlockHeader → Option BlockHeader
  | [] => none
  | b :: rest => some (rest.foldl (fun best b => if best.number ≤ b.number then b else best) b)

def currentHeaders (syncStreams : List SynchronizerStream) : List BlockHeader :=
  syncStreams.filterMap SynchronizerStream.getCurrentHeader

def reclassify (latest : BlockHeader) (s : SynchronizerStream) : SynchronizerStream :=
  match s.getCurrentHeader with
  | some header =>
    if header.number < latest.number then { s with state := .delayed header }
    else if header.number = latest.number then { s with state := .ready header }
    else s
  | none => s

def reinitBlockHistory (syncStreams : List SynchronizerStream) (blockHistory : BlockHistory) :
    Except BlockHistoryError (List SynchronizerStream × BlockHistory) :=
  match blockHistory.latest with
  | none => .error .emptyHistory
  | some _ => do
    let blocks := blockHistory.history ++ currentHeaders syncStreams
    let newBlockHistory ← BlockHistory.new blocks BLOCK_HISTORY_SIZE
    match newBlockHistory.latest with
    | none => .error .emptyHistory
    | some latest => .ok (syncStreams.map (reclassify latest), newBlockHistory)

def updateBlockHistory (syncStreams : List SynchronizerStream) (blockHistory : BlockHistory) :
    Except BlockHistoryError (List SynchronizerStream × BlockHistory) :=
  if syncStreams.any SynchronizerStream.isAdvanced then
    reinitBlockHistory syncStreams blockHistory
  else match maxByNumber (currentHeaders syncStreams) with
    | none => .ok (syncStreams, blockHistory)
    | some header =>
      match blockHistory.push header with
      | (.error e, _) => .error e
      | (.ok (), blockHistory) => .ok (syncStreams, blockHistory)

def feedMessage (msgs : List (String × StateSyncMessage BlockHeader))
    (syncStreams : List SynchronizerStream) : FeedMessage where
  stateMsgs := HashMap.ofList msgs
  syncStates := HashMap.ofList (syncStreams.map fun s => (s.extractorId, s.state))

variable (errorText : SynchronizerError → String)

def advanceStream (blockHistory : BlockHistory) (anyAdvanced : Bool) (timing : String → Timing)
    (s : SynchronizerStream) : Except BlockHistoryError
      (Option (String × StateSyncMessage BlockHeader) × SynchronizerStream) :=
  if s.hasEnded then .ok (none, s)
  else do
    let (msg, s') ← s.tryAdvance errorText blockHistory anyAdvanced (timing s.extractorId)
    .ok (msg.map fun msg => (s.extractorId, msg), s')

/-- A round. The streams are advanced concurrently, all of them against the same history. -/
def handleNextMessage (syncStreams : List SynchronizerStream) (blockHistory : BlockHistory)
    (timing : String → Timing) : Except BlockSynchronizerError
      (List (String × StateSyncMessage BlockHeader) × List SynchronizerStream × BlockHistory) := do
  let anyAdvanced := syncStreams.any SynchronizerStream.isAdvanced
  let results
    ← (syncStreams.mapM (advanceStream errorText blockHistory anyAdvanced timing)).mapError
    .blockHistoryError
  let syncStreams := results.map Prod.snd
  checkStreams syncStreams
  let (syncStreams, blockHistory) ←
    (updateBlockHistory syncStreams blockHistory).mapError .blockHistoryError
  return (results.filterMap Prod.fst, syncStreams, blockHistory)

def classifyFirst (startHeader : BlockHeader) (s : SynchronizerStream) : SynchronizerStream :=
  match s.state with
  | .ready header =>
    if header.number < startHeader.number then { s with state := .delayed header } else s
  | _ => s

/-- The startup, until the main loop begins. -/
def run (syncStreams : List SynchronizerStream) (timing : String → Timing) :
    Except BlockSynchronizerError (FeedMessage × BlockSynchronizer) := do
  let results := syncStreams.map fun s => s.recvFirst errorText (timing s.extractorId)
  let syncStreams := results.map Prod.snd
  let initialHeaders := HashSet.ofList (results.filterMap fun r => r.1.map (·.header))
  requireActiveStream syncStreams
  let blockHistory ← (BlockHistory.new initialHeaders.keys BLOCK_HISTORY_SIZE).mapError
    .blockHistoryError
  match blockHistory.latest with
  | none => .error (.blockHistoryError .emptyHistory)
  | some startHeader =>
    let classified := syncStreams.map (classifyFirst startHeader)
    let msgs := results.filterMap fun r => r.1.map fun msg => (r.2.extractorId, msg)
    return (feedMessage msgs classified, ⟨classified, blockHistory, none⟩)

/-- A round of the main loop, which ends with the first error. -/
def step (b : BlockSynchronizer) (timing : String → Timing) :
    Option (Except BlockSynchronizerError FeedMessage × BlockSynchronizer) :=
  if b.error.isSome then none
  else match handleNextMessage errorText b.syncStreams b.blockHistory timing with
    | .error e => some (.error e, { b with error := some e })
    | .ok (msgs, syncStreams, blockHistory) =>
      some (.ok (feedMessage msgs syncStreams), ⟨syncStreams, blockHistory, none⟩)

end BlockSynchronizer
end Tycho
