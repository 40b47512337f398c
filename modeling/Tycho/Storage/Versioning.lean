import Mathlib.Order.WithBot
import Tycho.Collections.Fallible
import Tycho.Common.Basic

/-! Application side versioning of rows: new versions end the versions before them. -/
namespace Tycho
open Collections

/-- The order of the ends of versions, computable whatever else is imported. -/
instance : Preorder (WithTop NaiveDateTime) :=
  @WithTop.instPreorder Int Int.instLinearOrder.toPreorder

/-- `NaiveDateTime::MAX`: the version has no end. -/
def MAX_TS : WithTop NaiveDateTime := ⊤

/-- Rows of tables that are partitioned by the end of the version. -/
class PartitionedVersionedRow (N : Type) (Id : outParam Type) where
  getId : N → Id
  /-- The `Debug` text of an id. -/
  debugId : Id → String
  getValidTo : N → WithTop NaiveDateTime
  getValidFrom : N → NaiveDateTime
  /-- The row as it is archived, and the next version that replaces it. -/
  archive : N → N → N × N
  delete : N → NaiveDateTime → N
  /-- The row of the table of latest versions. -/
  toLatest : N → N

inductive VersioningEntry (N Id : Type) where
  | update (row : N)
  | deletion (id : Id) (deleteVersion : NaiveDateTime)
deriving DecidableEq

section
open PartitionedVersionedRow
variable {N Id : Type} [PartitionedVersionedRow N Id]

def VersioningEntry.getId : VersioningEntry N Id → Id
  | .update row => PartitionedVersionedRow.getId row
  | .deletion id _ => id

/-- The time of an entry. -/
def VersioningEntry.version : VersioningEntry N Id → NaiveDateTime
  | .update row => getValidFrom row
  | .deletion _ deleteVersion => deleteVersion

variable [DecidableEq Id]

/-- The local variables of the loop over the new entries. -/
structure VersioningPass (N Id : Type) where
  latest : HashMap Id N
  archived : List N
  deleted : HashSet Id
  toSkip : HashSet Id

/-- Entries that are not newer than the stored row of their key are skipped. -/
def isStale (dbLatest : HashMap Id N) (e : VersioningEntry N Id) : Bool :=
  (dbLatest.lookup e.getId).any fun row => getValidFrom row ≥ e.version

/-- The entry ends the version before it. -/
def VersioningPass.apply (s : VersioningPass N Id) :
    VersioningEntry N Id → Except StorageError (VersioningPass N Id)
  | .update row =>
    let id := PartitionedVersionedRow.getId row
    match s.latest.lookup id with
    | some prev =>
      let (prev, row) := archive prev row
      .ok { s with
        latest := (s.latest.erase id).insert id row
        archived := s.archived ++ [prev]
        -- updated after being deleted
        deleted := s.deleted.erase id }
    | none => .ok { s with latest := s.latest.insert id row, deleted := s.deleted.erase id }
  | .deletion id deleteVersion =>
    match s.latest.lookup id with
    | some row =>
      .ok { s with
        latest := s.latest.erase id
        archived := s.archived ++ [delete row deleteVersion]
        deleted := s.deleted.insert id }
    | none => .error (.unexpected ("Missing deleted row with id " ++ debugId N id))

def VersioningPass.step (dbLatest : HashMap Id N) (s : VersioningPass N Id)
    (e : VersioningEntry N Id) : Except StorageError (VersioningPass N Id) :=
  if isStale dbLatest e then .ok { s with toSkip := s.toSkip.insert e.getId } else s.apply e

structure RowsChanges (N Id : Type) where
  latest : List N
  archived : List N
  deleted : List Id
deriving DecidableEq

/-- The stored rows, by key. -/
def latestById (currentLatestData : List N) : HashMap Id N :=
  HashMap.ofList (currentLatestData.map fun row => (getId row, row))

def setPartitionedVersioningAttributes (currentLatestData : List N)
    (newData : List (VersioningEntry N Id)) : Except StorageError (RowsChanges N Id) := do
  let dbLatest := latestById currentLatestData
  let s ← newData.foldlM (VersioningPass.step dbLatest) ⟨dbLatest, [], ∅, ∅⟩
  return ⟨(s.latest.retain fun id _ => id ∉ s.toSkip).values, s.archived, s.deleted.keys⟩

/-- The rows of the latest versions are read by `latestVersionsByIds`. Outdated versions up to the
horizon are not archived. -/
def applyPartitionedVersioning (latestVersionsByIds : List Id → Except StorageError (List N))
    (newData : List (VersioningEntry N Id)) (retentionHorizon : NaiveDateTime) :
    Except StorageError (RowsChanges N Id) := do
  if newData = [] then return ⟨[], [], []⟩
  let currentLatestDbRows ← latestVersionsByIds (newData.map VersioningEntry.getId)
  let changes ← setPartitionedVersioningAttributes currentLatestDbRows newData
  let horizon : WithTop NaiveDateTime := retentionHorizon
  return { changes with
    archived := changes.archived.filter fun row => getValidTo row > horizon }

end

/-- An attribute of a component. -/
structure NewProtocolState where
  protocolComponentId : Int
  attributeName : AttrStoreKey
  attributeValue : StoreVal
  previousValue : Option StoreVal
  modifyTx : Int
  validFrom : NaiveDateTime
  validTo : WithTop NaiveDateTime
deriving DecidableEq

def NewProtocolState.new (protocolComponentId : Int) (attributeName : AttrStoreKey)
    (attributeValue : StoreVal) (modifyTx : Int) (validFrom : NaiveDateTime) : NewProtocolState :=
  ⟨protocolComponentId, attributeName, attributeValue, none, modifyTx, validFrom, MAX_TS⟩

instance : PartitionedVersionedRow NewProtocolState (Int × AttrStoreKey) where
  getId row := (row.protocolComponentId, row.attributeName)
  debugId id := "(" ++ toString id.1 ++ ", " ++ id.2.quote ++ ")"
  getValidTo row := row.validTo
  getValidFrom row := row.validFrom
  archive row next :=
    ({ row with validTo := next.validFrom }, { next with previousValue := some row.attributeValue })
  delete row deleteVersion := { row with validTo := deleteVersion }
  toLatest row := { row with validTo := MAX_TS }

/-- A slot of an account. Deleted slots have no value. -/
structure NewSlot where
  slot : StoreKey
  value : Option StoreVal
  previousValue : Option StoreVal
  accountId : Int
  modifyTx : Int
  ordinal : Int
  validFrom : NaiveDateTime
  validTo : WithTop NaiveDateTime
deriving DecidableEq

instance : PartitionedVersionedRow NewSlot (Int × StoreKey) where
  getId row := (row.accountId, row.slot)
  debugId id := "(" ++ toString id.1 ++ ", " ++ id.2.debug ++ ")"
  getValidTo row := row.validTo
  getValidFrom row := row.validFrom
  archive row next :=
    ({ row with validTo := next.validFrom }, { next with previousValue := row.value })
  delete row deleteVersion := { row with validTo := deleteVersion }
  toLatest row := { row with validTo := MAX_TS }

/-- Rows of plain tables, in which the open version of an entity has no end. -/
class VersionedRow (N : Type) (Id : outParam Type) where
  getEntityId : N → Id
  setValidTo : N → NaiveDateTime → N
  getValidFrom : N → NaiveDateTime
  getValidTo : N → Option NaiveDateTime

/-- A row with its primary key. -/
structure StoredRow (N : Type) where
  pk : Nat
  row : N
deriving DecidableEq

/-- A table whose primary keys are a sequence. -/
structure VersionedTable (N : Type) where
  rows : List (StoredRow N)
  nextPk : Nat
deriving DecidableEq

section
open VersionedRow
variable {N Id : Type} [VersionedRow N Id] [DecidableEq Id]

/-- The loop over neighbours: a row ends where the next one of the same entity begins. The map
holds where the first new row of each entity begins. -/
def closeVersions : List N → HashMap Id NaiveDateTime → List N × HashMap Id NaiveDateTime
  | current :: next :: rest, dbUpdates =>
    if getEntityId current = getEntityId next then
      let (rest, dbUpdates) := closeVersions (next :: rest) dbUpdates
      (setValidTo current (getValidFrom next) :: rest, dbUpdates)
    else
      let (rest, dbUpdates) :=
        closeVersions (next :: rest) (dbUpdates.insert (getEntityId next) (getValidFrom next))
      (current :: rest, dbUpdates)
  | objects, dbUpdates => (objects, dbUpdates)

def setVersioningAttributes (objects : List N) : List N × HashMap Id NaiveDateTime :=
  match objects with
  | [] => ([], ∅)
  | first :: rest =>
    closeVersions (first :: rest)
      ((∅ : HashMap Id NaiveDateTime).insert (getEntityId first) (getValidFrom first))

namespace VersionedTable

def empty : VersionedTable N := ⟨[], 0⟩

variable (t : VersionedTable N)

def latestVersionsByIds (ids : List Id) : List (StoredRow N) :=
  t.rows.filter fun r => getEntityId r.row ∈ ids ∧ getValidTo r.row = none

/-- The query of `build_batch_update_query`, which joins on the primary key. -/
def batchUpdate (objects : List (StoredRow N)) (endVersions : HashMap Id NaiveDateTime) :
    VersionedTable N :=
  let values := objects.filterMap fun o =>
    (endVersions.lookup (getEntityId o.row)).map fun validTo => (o.pk, validTo)
  { t with rows := t.rows.map fun r =>
      match values.find? fun m => m.1 = r.pk with
      | some m => { r with row := setValidTo r.row m.2 }
      | none => r }

/-- The rows to insert, and the table without its outdated versions. -/
def applyVersioning (newData : List N) : List N × VersionedTable N :=
  if newData = [] then (newData, t)
  else
    let latestDbVersions : HashMap Id NaiveDateTime := HashMap.ofList
      ((t.latestVersionsByIds (newData.map getEntityId)).map fun r =>
        (getEntityId r.row, getValidFrom r.row))
    let newData := newData.filter fun entry =>
      !(latestDbVersions.lookup (getEntityId entry)).any fun latest => getValidFrom entry ≤ latest
    if newData = [] then (newData, t)
    else
      let (newData, endVersions) := setVersioningAttributes newData
      let dbRows := t.latestVersionsByIds endVersions.keys
      (newData, if dbRows = [] then t else t.batchUpdate dbRows endVersions)

/-- The insert statement after the versioning. -/
def insert (rows : List N) : VersionedTable N :=
  ⟨t.rows ++ rows.zipIdx.map fun r => ⟨t.nextPk + r.2, r.1⟩, t.nextPk + rows.length⟩

def write (sorted : List N) : VersionedTable N :=
  let (rows, t) := t.applyVersioning sorted
  t.insert rows

end VersionedTable
end

/-- The balance of an account in a token. -/
structure NewAccountBalance where
  balance : Balance
  accountId : Int
  tokenId : Int
  modifyTx : Int
  validFrom : NaiveDateTime
  validTo : Option NaiveDateTime
deriving DecidableEq

instance : VersionedRow NewAccountBalance (Int × Int) where
  getEntityId row := (row.accountId, row.tokenId)
  setValidTo row endVersion := { row with validTo := some endVersion }
  getValidFrom row := row.validFrom
  getValidTo row := row.validTo

/-- The code of an account. -/
structure NewContractCode where
  code : Code
  hash : CodeHash
  accountId : Int
  modifyTx : Int
  validFrom : NaiveDateTime
  validTo : Option NaiveDateTime
deriving DecidableEq

instance : VersionedRow NewContractCode Int where
  getEntityId row := row.accountId
  setValidTo row endVersion := { row with validTo := some endVersion }
  getValidFrom row := row.validFrom
  getValidTo row := row.validTo

end Tycho
