import Mathlib
import Tycho.Common.Blockchain

/-! The component tracker of the client: which components and which contracts it follows. -/
namespace Tycho
open Collections HashMap

namespace F64

def magnitude (x : F64) : Nat := x.bits.toNat % 2 ^ 63

def isNan (x : F64) : Bool := 0x7FF0000000000000 < x.magnitude

/-- The position among all doubles; both zeros are at 0. -/
def order (x : F64) : Int := if x.bits.toNat < 2 ^ 63 then x.magnitude else -x.magnitude

/-- The comparison of doubles, false if one of them is no number. -/
instance : LT F64 := ⟨fun x y => ¬x.isNan ∧ ¬y.isNan ∧ x.order < y.order⟩

instance (x y : F64) : Decidable (x < y) :=
  inferInstanceAs (Decidable (¬x.isNan ∧ ¬y.isNan ∧ x.order < y.order))

end F64

inductive RPCError where
  | urlParsing (url error : String)
  | formatRequest (reason : String)
  | httpClient (reason : String)
  | parseResponse (reason : String)
  | staleBlock (reason : String)
  | unknownExtractor (name : String)
  | fatal (reason : String)
  | rateLimited (until_ : Option Nat)
  | serverUnreachable (reason : String)
deriving DecidableEq

inductive ComponentFilterVariant where
  | ids (ids : List ComponentId)
  /-- The thresholds below which a component is removed and above which it is added. -/
  | minimumTVLRange (range : F64 × F64) (blocklistedIds : HashSet ComponentId)
deriving DecidableEq

structure ComponentFilter where
  variant : ComponentFilterVariant
deriving DecidableEq

/-- The components that have an entrypoint, and the contracts that its traces accessed. -/
structure EntrypointRelations where
  components : HashSet ComponentId
  contracts : HashSet Address
deriving DecidableEq

instance : Inhabited EntrypointRelations := ⟨⟨∅, ∅⟩⟩

/-- The entrypoint is linked to one of the components: the sets are not disjoint. -/
def EntrypointRelations.isLinked (e : EntrypointRelations) (ids : HashSet ComponentId) : Bool :=
  e.components.keys.any (· ∈ ids)

structure ComponentTracker where
  filter : ComponentFilter
  components : HashMap ComponentId ProtocolComponent
  entrypoints : HashMap EntryPointId EntrypointRelations
  contracts : HashSet Address
deriving DecidableEq

def componentsById (components : List ProtocolComponent) : HashMap ComponentId ProtocolComponent :=
  ofList (components.map fun comp => (comp.id, comp))

section
variable (toLowercase : String → String)

namespace ComponentFilter

def withTvlRange (removeTvlThreshold addTvlThreshold : F64) : ComponentFilter :=
  ⟨.minimumTVLRange (removeTvlThreshold, addTvlThreshold) ∅⟩

def isBlocklisted (filter : ComponentFilter) (id : ComponentId) : Bool :=
  match filter.variant with
  | .ids _ => false
  | .minimumTVLRange _ blocklisted => toLowercase id ∈ blocklisted

end ComponentFilter
end

namespace ComponentTracker

def new (filter : ComponentFilter) : ComponentTracker := ⟨filter, ∅, ∅, ∅⟩

/-- Add the contracts of the entrypoints that are linked to one of the components. -/
def addLinked (entrypoints : HashMap EntryPointId EntrypointRelations)
    (ids : HashSet ComponentId) (contracts : HashSet Address) : HashSet Address :=
  entrypoints.values.foldl (fun contracts e =>
    if e.isLinked ids then HashSet.extend contracts e.contracts.keys else contracts) contracts

def reinitializeContracts (t : ComponentTracker) : ComponentTracker :=
  let contracts := HashSet.ofList (t.components.values.flatMap (·.contractAddresses))
  { t with contracts := addLinked t.entrypoints (HashSet.ofList t.components.keys) contracts }

def addComponent (t : ComponentTracker) (acc : HashSet Address × HashSet ComponentId)
    (comp : ComponentId) : HashSet Address × HashSet ComponentId :=
  match t.components.lookup comp with
  | some component => (HashSet.extend acc.1 component.contractAddresses, acc.2.insert comp)
  | none => acc

/-- Components that are not tracked are ignored. -/
def updateContracts (t : ComponentTracker) (components : List ComponentId) : ComponentTracker :=
  let (contracts, tracked) := components.foldl t.addComponent (t.contracts, ∅)
  { t with contracts := addLinked t.entrypoints tracked contracts }

def removeComponent
    (acc : HashMap ComponentId ProtocolComponent × HashMap ComponentId ProtocolComponent)
    (id : ComponentId) :
    HashMap ComponentId ProtocolComponent × HashMap ComponentId ProtocolComponent :=
  match acc.1.lookup id with
  | some component => (acc.1.erase id, acc.2.insert id component)
  | none => acc

def stopTracking (t : ComponentTracker) (toRemove : List ComponentId) :
    HashMap ComponentId ProtocolComponent × ComponentTracker :=
  let (components, removed) := toRemove.foldl removeComponent (t.components, ∅)
  (removed, reinitializeContracts { t with components })

def recordTrace (entrypoints : HashMap EntryPointId EntrypointRelations)
    (e : EntryPointId × TracingResult) : HashMap EntryPointId EntrypointRelations :=
  entrypoints.upsert e.1 default fun info =>
    { info with contracts := HashSet.extend info.contracts e.2.accessedSlots.keys }

def linkEntrypoint (component : ComponentId) (t : ComponentTracker) (entrypoint : EntryPoint) :
    ComponentTracker :=
  let info := (t.entrypoints.lookup entrypoint.externalId).getD default
  { t with
    entrypoints := t.entrypoints.insert entrypoint.externalId
      { info with components := info.components.insert component }
    contracts := if component ∈ t.components then HashSet.extend t.contracts info.contracts.keys
      else t.contracts }

/-- The traces first: a new link then adds all contracts of its entrypoint. -/
def processEntrypoints (t : ComponentTracker) (dciUpdate : DCIUpdate) : ComponentTracker :=
  let traced : ComponentTracker := { t with
    entrypoints := dciUpdate.traceResults.toList.foldl recordTrace t.entrypoints }
  dciUpdate.newEntrypoints.toList.foldl (fun t e => e.2.keys.foldl (linkEntrypoint e.1) t) traced

def drainSnapshot (t : ComponentTracker) (components : HashMap ComponentId ProtocolComponent)
    (dciUpdate : DCIUpdate) : ComponentTracker :=
  let extended : ComponentTracker := { t with
    components := extend t.components components.toList }
  (extended.processEntrypoints dciUpdate).updateContracts components.keys

section
variable (toLowercase : String → String)

/-- `answer` is what the server returns for the components of the filter. -/
def initialiseComponents (t : ComponentTracker) (answer : Except RPCError (List ProtocolComponent))
    :
    Except RPCError ComponentTracker := do
  let components ← answer
  let components := ofList ((components.map fun comp => (comp.id, comp)).filter
    fun e => !t.filter.isBlocklisted toLowercase e.1)
  return reinitializeContracts { t with components }

/-- `answer` is what the server returns for the components that are not blocklisted; it is not
asked if there are none. -/
def startTracking (t : ComponentTracker) (newComponents : List ComponentId)
    (answer : Except RPCError (List ProtocolComponent)) : Except RPCError ComponentTracker := do
  if newComponents.all (t.filter.isBlocklisted toLowercase) then
    return t
  let components := componentsById (← answer)
  let extended : ComponentTracker := { t with
    components := extend t.components components.toList }
  return extended.updateContracts components.keys

def filterUpdatedComponents (t : ComponentTracker) (deltas : BlockAggregatedChanges) :
    List ComponentId × List ComponentId :=
  match t.filter.variant with
  | .ids _ => ([], [])
  | .minimumTVLRange (removeTvl, addTvl) _ =>
    let crossed := (deltas.componentTvl.toList.filter fun e => e.2 < removeTvl ∨ addTvl < e.2).map
      Prod.fst
    let (toAdd, toRemove) := crossed.partition fun id =>
      (deltas.componentTvl.lookup id).any fun tvl => addTvl < tvl
    let toRemove := t.components.keys.foldl (fun toRemove id =>
      if t.filter.isBlocklisted toLowercase id ∧ id ∉ toRemove then toRemove ++ [id]
      else toRemove) toRemove
    (toAdd.filter fun id => !t.filter.isBlocklisted toLowercase id, toRemove)

end
end ComponentTracker
end Tycho
