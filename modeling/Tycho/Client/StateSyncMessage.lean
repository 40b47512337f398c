import Tycho.Common.Aggregation
import Tycho.Replay.Change

/-! The messages of the state synchronizer, their merge, and the state that a consumer keeps. -/
namespace Tycho
open Collections HashMap

structure ComponentWithState where
  state : ProtocolComponentState
  component : ProtocolComponent
  componentTvl : Option F64
  entrypoints : List (EntryPointWithTracingParams × TracingResult)
deriving DecidableEq

structure Snapshot where
  states : HashMap ComponentId ComponentWithState
  vmStorage : HashMap Address Account
deriving DecidableEq

instance : Inhabited Snapshot := ⟨⟨∅, ∅⟩⟩

def Snapshot.extend (s other : Snapshot) : Snapshot where
  states := HashMap.extend s.states other.states.toList
  vmStorage := HashMap.extend s.vmStorage other.vmStorage.toList

structure StateSyncMessage (H : Type) where
  header : H
  snapshots : Snapshot
  deltas : Option BlockAggregatedChanges
  /-- Components that are no longer tracked. -/
  removedComponents : HashMap ComponentId ProtocolComponent
deriving DecidableEq

namespace StateSyncMessage
variable {H : Type}

def mergeDeltas : Option BlockAggregatedChanges → Option BlockAggregatedChanges →
    Option BlockAggregatedChanges
  | some l, some r => some (l.merge r)
  | none, some r => some r
  | some l, none => some l
  | none, none => none

/-- `other` is the more recent message. -/
def merge (s other : StateSyncMessage H) : StateSyncMessage H :=
  let removed := s.removedComponents.retain fun k _ => k ∉ other.snapshots.states
  let states := s.snapshots.states.retain fun k _ => k ∉ other.removedComponents
  { header := other.header
    snapshots := Snapshot.extend { s.snapshots with states } other.snapshots
    deltas := mergeDeltas s.deltas other.deltas
    removedComponents := extend removed other.removedComponents.toList }

end StateSyncMessage

structure ConsumerState where
  states : HashMap ComponentId ComponentWithState
  accounts : HashMap Address Account
deriving DecidableEq

namespace BlockAggregatedChanges

def updateComponent (d : BlockAggregatedChanges) (id : ComponentId) (s : ProtocolComponentState) :
    ProtocolComponentState :=
  let attributes := match d.stateDeltas.lookup id with
    | some delta => (extend s.attributes delta.updatedAttributes.toList).retain
      fun attr _ => attr ∉ delta.deletedAttributes
    | none => s.attributes
  let changed := ((d.componentBalances.lookup id).getD ∅).toList
  { s with
    attributes := attributes
    balances := extend s.balances (changed.map fun e => (e.1, e.2.balance)) }

/-- An account after the changes; a deleted slot is left with the default value. -/
def updateAccount (d : BlockAggregatedChanges) (address : Address) (s : Account) : Account :=
  let updated := match d.accountDeltas.lookup address with
    | some delta => { s with
      nativeBalance := delta.balance.getD s.nativeBalance
      code := delta.code.getD s.code
      slots := extend s.slots delta.slotValues }
    | none => s
  { updated with tokenBalances := overwriteAt d.accountBalances address s.tokenBalances }

end BlockAggregatedChanges

namespace ConsumerState
variable {H : Type}

def applyDeltas (c : ConsumerState) (d : BlockAggregatedChanges) : ConsumerState where
  states := c.states.mapValues fun id s => { s with state := d.updateComponent id s.state }
  accounts := c.accounts.mapValues fun address s => d.updateAccount address s

/-- Removals first, then snapshots, then the changes of what is known. -/
def process (c : ConsumerState) (m : StateSyncMessage H) : ConsumerState :=
  let removed := eraseAll c.states m.removedComponents.keys
  let inserted : ConsumerState := {
    states := extend removed m.snapshots.states.toList
    accounts := extend c.accounts m.snapshots.vmStorage.toList }
  match m.deltas with
  | some d => inserted.applyDeltas d
  | none => inserted

end ConsumerState
end Tycho
