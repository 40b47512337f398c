import Mathlib
import Tycho.Indexer.PendingDeltas

/-! Serving the state at a version: which part comes from the database and which from the
service's buffer. -/
namespace Tycho

inductive BlockIdentifier where
  | number (chain : Chain) (no : Int)
  | hash (hash : BlockHash)
  | latest (chain : Chain)
deriving DecidableEq

inductive BlockOrTimestamp where
  | block (id : BlockIdentifier)
  | timestamp (ts : NaiveDateTime)
deriving DecidableEq

inductive VersionKind where
  | last | first
  | index (i : Int)
deriving DecidableEq

structure Version where
  version : BlockOrTimestamp
  kind : VersionKind
deriving DecidableEq

def BlockIdentifier.debug : BlockIdentifier → String
  | .number chain no => "Number((" ++ chain.debug ++ ", " ++ toString no ++ "))"
  | .hash h => "Hash(" ++ h.debug ++ ")"
  | .latest chain => "Latest(" ++ chain.debug ++ ")"

def BlockOrTimestamp.debug : BlockOrTimestamp → String
  | .block id => "Block(" ++ id.debug ++ ")"
  | .timestamp ts => "Timestamp(" ++ NaiveDateTime.debug ts ++ ")"

inductive RpcError where
  | storage (e : StorageError)
  | deltasError (e : PendingDeltasError)
deriving DecidableEq

def asU64 (no : Int) : Nat := (no % 2 ^ 64).toNat

/-- The reads of the database that the handlers make. -/
structure DbGateway where
  getBlock : BlockIdentifier → Except StorageError Block
  getProtocolStates : Chain → Version → String → List ComponentId → Bool →
    Except StorageError (List ProtocolComponentState)
  getContracts : Chain → List Address → Version → Bool → Except StorageError (List Account)

structure RpcHandler where
  dbGateway : DbGateway
  pendingDeltas : Option PendingDeltas

namespace RpcHandler

/-- The version as a number or a timestamp. A hash is searched in the buffer first. -/
def orderedVersion (r : RpcHandler) (requestVersion : BlockOrTimestamp) (protocolSystem : String) :
    Except RpcError BlockNumberOrTimestamp :=
  match requestVersion with
  | .block (.number _ no) => .ok (.number (asU64 no))
  | .block (.hash hash) =>
    let pending := r.pendingDeltas.bind fun pending =>
      ((pending.searchBlock (fun b => b.block.hash == hash) protocolSystem).toOption).bind fun b =>
        b.map fun b => b.block.number
    let found := pending.or ((r.dbGateway.getBlock (.hash hash)).toOption.map fun b => b.number)
    match found with
    | some n => .ok (.number n)
    | none => .error (.storage (.notFound "Version" requestVersion.debug))
  | .timestamp ts => .ok (.timestamp ts)
  | .block id => ((r.dbGateway.getBlock id).mapError .storage).map fun b => .number b.number

/-- The commit status of a version; a version without one counts as committed. -/
def commitStatus (r : RpcHandler) (version : BlockNumberOrTimestamp) (protocolSystem : String) :
    CommitStatus :=
  match r.pendingDeltas with
  | none => .committed
  | some pending =>
    ((pending.getBlockCommitStatus version protocolSystem).toOption.bind id).getD .committed

/-- The version to read from the database, and the version to read from the buffer on top. -/
def calculateVersions (r : RpcHandler) (requestVersion : BlockOrTimestamp)
    (protocolSystem : String) (chain : Chain) :
    Except RpcError (Version × Option BlockNumberOrTimestamp) := do
  let ordered ← r.orderedVersion requestVersion protocolSystem
  match r.commitStatus ordered protocolSystem with
  | .committed => return (⟨requestVersion, .last⟩, none)
  | .uncommitted => return (⟨.block (.latest chain), .last⟩, some ordered)
  | .unseen =>
    match requestVersion with
    | .timestamp _ => return (⟨.block (.latest chain), .last⟩, some ordered)
    | .block _ => throw (.storage (.notFound "Version" requestVersion.debug))

/-- Read from the database at the version for it, and merge the buffered changes on top when
there is a version for them. -/
def readMerged {A : Type} (r : RpcHandler) (version : BlockOrTimestamp) (chain : Chain)
    (protocolSystem : String) (read : Version → Except StorageError A)
    (merge : PendingDeltas → A → Option BlockNumberOrTimestamp → Except PendingDeltasError A) :
    Except RpcError A := do
  let (dbVersion, deltasVersion) ← r.calculateVersions version protocolSystem chain
  let found ← (read dbVersion).mapError .storage
  match deltasVersion, r.pendingDeltas with
  | some v, some pending => (merge pending found (some v)).mapError .deltasError
  | _, _ => return found

/-- The states of some components at a version, for a page of ids. -/
def getProtocolStateInner (r : RpcHandler) (version : BlockOrTimestamp) (chain : Chain)
    (protocolSystem : String) (ids : List ComponentId) (includeBalances : Bool) :
    Except RpcError (List ProtocolComponentState) :=
  r.readMerged version chain protocolSystem
    (fun v => r.dbGateway.getProtocolStates chain v protocolSystem ids includeBalances)
    fun pending states v => pending.mergeNativeStates ids states v protocolSystem

/-- The accounts at a version, for a page of addresses. -/
def getContractStateInner (keccak256 : Bytes → Bytes) (r : RpcHandler)
    (version : BlockOrTimestamp) (chain : Chain) (protocolSystem : String)
    (addresses : List Address) : Except RpcError (List Account) :=
  r.readMerged version chain protocolSystem
    (fun v => r.dbGateway.getContracts chain addresses v true)
    fun pending accounts v => pending.updateVmStates keccak256 addresses accounts v protocolSystem

section
variable {A : Type} {r : RpcHandler} {chain : Chain} {system : String} {v : Nat}
  {read : Version → Except StorageError A}
variable {merge : PendingDeltas → A → Option BlockNumberOrTimestamp → Except PendingDeltasError A}

section
variable (hv : v < 2 ^ 63)
include hv

lemma asU64_natCast : asU64 v = v := by
  unfold asU64
  omega

lemma orderedVersion_number :
    r.orderedVersion (.block (.number chain v)) system = .ok (.number v) := by
  rw [orderedVersion, asU64_natCast hv]

lemma readMerged_committed (hs : r.commitStatus (.number v) system = .committed) :
    r.readMerged (.block (.number chain v)) chain system read merge =
      (read ⟨.block (.number chain v), .last⟩).mapError .storage := by
  simp only [readMerged, calculateVersions, orderedVersion_number hv, hs, bind, Except.bind, pure,
    Except.pure]
  cases read ⟨.block (.number chain v), .last⟩ <;> rfl

lemma readMerged_uncommitted {pending : PendingDeltas} (hp : r.pendingDeltas = some pending)
    (hs : r.commitStatus (.number v) system = .uncommitted) {found : A}
    (hr : read ⟨.block (.latest chain), .last⟩ = .ok found) :
    r.readMerged (.block (.number chain v)) chain system read merge =
      (merge pending found (some (.number v))).mapError .deltasError := by
  simp only [readMerged, calculateVersions, orderedVersion_number hv, hs, hp, hr, bind,
    Except.bind, pure, Except.pure, Except.mapError]

lemma readMerged_unseen (hs : r.commitStatus (.number v) system = .unseen) :
    ∃ e, r.readMerged (.block (.number chain v)) chain system read merge = .error e := by
  refine ⟨.storage (.notFound "Version" (BlockOrTimestamp.block (.number chain v)).debug), ?_⟩
  simp only [readMerged, calculateVersions, orderedVersion_number hv, hs, bind, Except.bind,
    throw, throwThe, MonadExceptOf.throw]

end

end
end RpcHandler
end Tycho
