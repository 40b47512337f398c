import Tycho.Client.ComponentTracker

/-! The contracts that the tracker follows are those of its components and of the traces of
their entrypoints, exactly when no call brings a trace or replaces a component behind its back. -/
namespace Tycho
open Collections HashMap List AList HashSet

def DCIUpdate.Links (d : DCIUpdate) (c : ComponentId) (ep : EntryPointId) : Prop :=
  ∃ e, (∃ eps, d.newEntrypoints.lookup c = some eps ∧ e ∈ eps) ∧ e.externalId = ep

def DCIUpdate.Accesses (d : DCIUpdate) (ep : EntryPointId) (a : Address) : Prop :=
  ∃ trace, d.traceResults.lookup ep = some trace ∧ a ∈ trace.accessedSlots

variable {a : Address} {ids : List ComponentId} {c : ComponentId} {ep : EntryPointId}

variable {acc : HashSet Address × HashSet ComponentId} {d : DCIUpdate} {e : EntryPoint}

namespace ComponentTracker

def infoAt (entrypoints : HashMap EntryPointId EntrypointRelations) (ep : EntryPointId) :
    EntrypointRelations :=
  (entrypoints.lookup ep).getD default

def Linked (t : ComponentTracker) (c : ComponentId) (ep : EntryPointId) : Prop :=
  c ∈ (infoAt t.entrypoints ep).components

def Accessed (t : ComponentTracker) (ep : EntryPointId) (a : Address) : Prop :=
  a ∈ (infoAt t.entrypoints ep).contracts

/-- A contract of a tracked component or of a trace of an entrypoint linked to one. -/
def Needs (components : HashMap ComponentId ProtocolComponent)
    (linked : ComponentId → EntryPointId → Prop) (accessed : EntryPointId → Address → Prop)
    (a : Address) : Prop :=
  (∃ c comp, components.lookup c = some comp ∧ a ∈ comp.contractAddresses) ∨
    ∃ c ep, c ∈ components ∧ linked c ep ∧ accessed ep a

section
variable {t : ComponentTracker} {entrypoints : HashMap EntryPointId EntrypointRelations}

lemma mem_addLinked {ids : HashSet ComponentId} {contracts : HashSet Address} :
    a ∈ addLinked entrypoints ids contracts ↔ a ∈ contracts ∨
      ∃ c ep, c ∈ ids ∧ c ∈ (infoAt entrypoints ep).components ∧
        a ∈ (infoAt entrypoints ep).contracts := by
  have hloop := foldl_iff_of_adds (I := fun _ => True) (P := fun s : HashSet Address => a ∈ s)
    (f := fun contracts e => if EntrypointRelations.isLinked e ids then
      extend contracts e.contracts.keys else contracts)
    (Q := fun e => EntrypointRelations.isLinked e ids ∧ a ∈ e.contracts) (fun _ _ _ => trivial)
    (fun s e _ => by
      split_ifs with hlinked <;> simp [hlinked, ← AList.mem_keys, or_comm]) entrypoints.values
    (s := contracts) trivial
  rw [addLinked, hloop]
  apply or_congr_right
  constructor
  · rintro ⟨e, he, hlinked, ha⟩
    obtain ⟨ep, hep⟩ := HashMap.mem_values.mp he
    obtain ⟨c, hc, hids⟩ := any_eq_true.mp hlinked
    have hinfo : infoAt entrypoints ep = e := by rw [infoAt, hep, Option.getD_some]
    refine ⟨c, ep, of_decide_eq_true hids, ?_, ?_⟩
    · rw [hinfo]
      exact mem_keys.mpr hc
    · rwa [hinfo]
  · rintro ⟨c, ep, hids, hc, ha⟩
    cases hep : entrypoints.lookup ep with
    | none =>
      rw [infoAt, hep] at hc
      exact absurd hc (notMem_empty c)
    | some e =>
      rw [infoAt, hep] at hc ha
      have hany : e.isLinked ids :=
        any_eq_true.mpr ⟨c, mem_keys.mp hc, decide_eq_true hids⟩
      exact ⟨e, HashMap.mem_values.mpr ⟨ep, hep⟩, hany, ha⟩

lemma mem_reinitializeContracts :
    a ∈ t.reinitializeContracts.contracts ↔ Needs t.components t.Linked t.Accessed a := by
  change a ∈ addLinked _ _ _ ↔ _
  rw [mem_addLinked]
  apply or_congr
  · simp only [mem_ofList, mem_flatMap, mem_values]
    constructor
    · rintro ⟨comp, ⟨c, hc⟩, ha⟩
      exact ⟨c, comp, hc, ha⟩
    · rintro ⟨c, comp, hc, ha⟩
      exact ⟨comp, ⟨c, hc⟩, ha⟩
  · simp only [mem_ofList, ← AList.mem_keys]
    rfl

lemma foldl_addComponent_contracts : a ∈ (ids.foldl t.addComponent acc).1 ↔ a ∈ acc.1 ∨
      ∃ c ∈ ids, ∃ comp, t.components.lookup c = some comp ∧ a ∈ comp.contractAddresses := by
  refine foldl_iff_of_adds (I := fun _ => True)
    (P := fun acc : HashSet Address × HashSet ComponentId => a ∈ acc.1) (fun _ _ _ => trivial)
    (fun acc c _ => ?_) ids trivial
  unfold addComponent
  cases t.components.lookup c <;> simp [or_comm]

lemma foldl_addComponent_tracked :
    c ∈ (ids.foldl t.addComponent acc).2 ↔ c ∈ acc.2 ∨ c ∈ ids ∧ c ∈ t.components := by
  have hloop := foldl_iff_of_adds (I := fun _ => True) (f := t.addComponent)
    (P := fun acc : HashSet Address × HashSet ComponentId => c ∈ acc.2)
    (Q := fun c' => c = c' ∧ c ∈ t.components) (fun _ _ _ => trivial)
    (fun acc c' _ => by
      unfold addComponent
      cases hc' : t.components.lookup c' with
      | none =>
        have habsent := lookup_eq_none.mp hc'
        constructor
        · exact .inl
        · rintro (hmem | ⟨rfl, hmem⟩)
          · exact hmem
          · exact absurd hmem habsent
      | some comp =>
        have hpresent : c' ∈ t.components := HashMap.mem_iff_lookup.mpr ⟨comp, hc'⟩
        rw [HashSet.mem_insert, or_comm]
        apply or_congr_right
        constructor
        · rintro rfl
          exact ⟨rfl, hpresent⟩
        · exact And.left) ids (s := acc) trivial
  rw [hloop]
  apply or_congr_right
  constructor
  · rintro ⟨c', hids, rfl, hmem⟩
    exact ⟨hids, hmem⟩
  · rintro ⟨hids, hmem⟩
    exact ⟨c, hids, rfl, hmem⟩

lemma mem_updateContracts : a ∈ (t.updateContracts ids).contracts ↔ a ∈ t.contracts ∨
      ∃ c ∈ ids, (∃ comp, t.components.lookup c = some comp ∧ a ∈ comp.contractAddresses) ∨
        c ∈ t.components ∧ ∃ ep, t.Linked c ep ∧ t.Accessed ep a := by
  change a ∈ addLinked _ _ _ ↔ _
  rw [mem_addLinked, foldl_addComponent_contracts, or_assoc]
  apply or_congr_right
  constructor
  · rintro (⟨c, hc, hcomp⟩ | ⟨c, ep, hc, hlinked, ha⟩)
    · exact ⟨c, hc, .inl hcomp⟩
    · rcases foldl_addComponent_tracked.mp hc with hc | ⟨hids, hmem⟩
      · exact absurd hc (notMem_empty c)
      · exact ⟨c, hids, .inr ⟨hmem, ep, hlinked, ha⟩⟩
  · rintro ⟨c, hc, hcomp | ⟨hmem, ep, hlinked, ha⟩⟩
    · exact .inl ⟨c, hc, hcomp⟩
    · exact .inr ⟨c, ep, foldl_addComponent_tracked.mpr (.inr ⟨hc, hmem⟩), hlinked, ha⟩

lemma infoAt_upsert (ep ep' : EntryPointId) (f : EntrypointRelations → EntrypointRelations) :
    infoAt (entrypoints.upsert ep default f) ep' =
      if ep' = ep then f (infoAt entrypoints ep) else infoAt entrypoints ep' := by
  unfold infoAt
  rw [lookup_upsert]
  split_ifs <;> rfl

lemma infoAt_recordTrace_components (e : EntryPointId × TracingResult) (ep : EntryPointId) :
    (infoAt (recordTrace entrypoints e) ep).components = (infoAt entrypoints ep).components := by
  rw [recordTrace, infoAt_upsert]
  split_ifs with hep
  · rw [hep]
  · rfl

lemma mem_infoAt_recordTrace {e : EntryPointId × TracingResult} :
    a ∈ (infoAt (recordTrace entrypoints e) ep).contracts ↔
      a ∈ (infoAt entrypoints ep).contracts ∨ e.1 = ep ∧ a ∈ e.2.accessedSlots := by
  rw [recordTrace, infoAt_upsert]
  split_ifs with hep
  · subst hep
    simp [← AList.mem_keys, or_comm]
  · simp [Ne.symm hep]

lemma mem_infoAt_traces :
    a ∈ (infoAt (d.traceResults.toList.foldl recordTrace entrypoints) ep).contracts ↔
      a ∈ (infoAt entrypoints ep).contracts ∨ d.Accesses ep a := by
  rw [foldl_iff_of_adds (f := recordTrace) (I := fun _ => True)
    (P := fun entrypoints => a ∈ (infoAt entrypoints ep).contracts)
    (Q := fun e => e.1 = ep ∧ a ∈ e.2.accessedSlots) (fun _ _ _ => trivial)
    (fun _ _ _ => mem_infoAt_recordTrace) d.traceResults.toList trivial]
  apply or_congr_right
  constructor
  · rintro ⟨⟨ep', trace⟩, he, rfl, ha⟩
    exact ⟨trace, HashMap.mem_toList.mp he, ha⟩
  · rintro ⟨trace, htrace, ha⟩
    exact ⟨(ep, trace), HashMap.mem_toList.mpr htrace, rfl, ha⟩

lemma linked_linkEntrypoint {c' : ComponentId} :
    (linkEntrypoint c t e).Linked c' ep ↔ t.Linked c' ep ∨ c' = c ∧ e.externalId = ep := by
  change c' ∈ (infoAt (HashMap.upsert t.entrypoints e.externalId default fun info =>
    { info with components := info.components.insert c }) ep).components ↔ _
  rw [infoAt_upsert]
  split_ifs with hep
  · subst hep
    simp [Linked, or_comm]
  · simp [Linked, Ne.symm hep]

lemma accessed_linkEntrypoint (c : ComponentId) (e : EntryPoint) :
    (linkEntrypoint c t e).Accessed = t.Accessed := by
  funext ep a
  change (a ∈ (infoAt (HashMap.upsert t.entrypoints e.externalId default fun info =>
    { info with components := info.components.insert c }) ep).contracts) = _
  rw [infoAt_upsert]
  split_ifs with hep
  · rw [hep]
    rfl
  · rfl

lemma mem_linkEntrypoint : a ∈ (linkEntrypoint c t e).contracts ↔
      a ∈ t.contracts ∨ c ∈ t.components ∧ t.Accessed e.externalId a := by
  change (a ∈ if c ∈ t.components then _ else _) ↔ _
  split_ifs with hc
  · rw [HashSet.mem_extend, ← AList.mem_keys]
    simp [hc, Accessed, infoAt, or_comm]
  · simp [hc]

def newLinks (d : DCIUpdate) : List (ComponentId × EntryPoint) :=
  d.newEntrypoints.toList.flatMap fun e => e.2.keys.map fun ep => (e.1, ep)

lemma exists_mem_newLinks {P : ComponentId → EntryPointId → Prop} :
    (∃ e ∈ newLinks d, P e.1 e.2.externalId) ↔ ∃ c ep, d.Links c ep ∧ P c ep := by
  constructor
  · rintro ⟨e, he, hP⟩
    obtain ⟨⟨c, eps⟩, hc, hmap⟩ := mem_flatMap.mp he
    obtain ⟨e', he', rfl⟩ := mem_map.mp hmap
    exact ⟨c, e'.externalId, ⟨e', ⟨eps, HashMap.mem_toList.mp hc, mem_keys.mpr he'⟩, rfl⟩, hP⟩
  · rintro ⟨c, ep, ⟨e, ⟨eps, heps, he⟩, rfl⟩, hP⟩
    refine ⟨(c, e), mem_flatMap.mpr ⟨(c, eps), HashMap.mem_toList.mpr heps, ?_⟩, hP⟩
    exact mem_map_of_mem (mem_keys.mp he)

def addLink (t : ComponentTracker) (e : ComponentId × EntryPoint) : ComponentTracker :=
  linkEntrypoint e.1 t e.2

lemma processEntrypoints_eq (d : DCIUpdate) : t.processEntrypoints d = (newLinks d).foldl addLink
      { t with entrypoints := d.traceResults.toList.foldl recordTrace t.entrypoints } := by
  rw [newLinks, foldl_flatMap]
  simp only [foldl_map]
  rfl

end

structure Processed (t t' : ComponentTracker) (d : DCIUpdate) : Prop where
  components : t'.components = t.components
  linked : ∀ c ep, t'.Linked c ep ↔ t.Linked c ep ∨ d.Links c ep
  accessed : ∀ ep a, t'.Accessed ep a ↔ t.Accessed ep a ∨ d.Accesses ep a
  contracts : ∀ a, a ∈ t'.contracts ↔ a ∈ t.contracts ∨
    ∃ c ep, d.Links c ep ∧ c ∈ t.components ∧ t'.Accessed ep a

lemma processEntrypoints_processed (t : ComponentTracker) (d : DCIUpdate) :
    Processed t (t.processEntrypoints d) d := by
  rw [processEntrypoints_eq]
  generalize htraced : ({ t with
    entrypoints := d.traceResults.toList.foldl recordTrace t.entrypoints } :
      ComponentTracker) = traced
  have hcomponents : traced.components = t.components := by rw [← htraced]
  have hcontracts : traced.contracts = t.contracts := by rw [← htraced]
  have hlinked : ∀ c ep, traced.Linked c ep ↔ t.Linked c ep := fun c ep => by
    rw [← htraced, Linked, Linked, Replay.foldl_keeps (fun m => (infoAt m ep).components)
      recordTrace
      (fun m e => infoAt_recordTrace_components e ep)]
  have haccessed : ∀ ep a, traced.Accessed ep a ↔ t.Accessed ep a ∨ d.Accesses ep a :=
    fun ep a => by
      rw [← htraced]
      exact mem_infoAt_traces
  -- Linking changes neither the components nor what the traces accessed.
  have hcomps' : ((newLinks d).foldl addLink traced).components = t.components :=
    (Replay.foldl_keeps components addLink (fun _ _ => rfl) _ traced).trans hcomponents
  have haccessed' : ((newLinks d).foldl addLink traced).Accessed = traced.Accessed :=
    Replay.foldl_keeps Accessed addLink (fun _ e => accessed_linkEntrypoint e.1 e.2) _ traced
  refine ⟨hcomps', fun c ep => ?_, fun ep a => ?_, fun a => ?_⟩
  · rw [foldl_iff_of_adds (f := addLink) (I := fun _ => True) (P := fun t => Linked t c ep)
      (Q := fun e => c = e.1 ∧ e.2.externalId = ep) (fun _ _ _ => trivial)
      (fun _ _ _ => linked_linkEntrypoint) (newLinks d) trivial, hlinked,
      exists_mem_newLinks (P := fun c' ep' => c = c' ∧ ep' = ep)]
    apply or_congr_right
    constructor
    · rintro ⟨c', ep', hlinks, rfl, rfl⟩
      exact hlinks
    · intro hlinks
      exact ⟨c, ep, hlinks, rfl, rfl⟩
  · rw [haccessed', haccessed]
  · rw [foldl_iff_of_adds (f := addLink)
      (I := fun s => s.components = t.components ∧ s.Accessed = traced.Accessed)
      (P := fun s => a ∈ s.contracts)
      (Q := fun e => e.1 ∈ t.components ∧ traced.Accessed e.2.externalId a)
      (fun s e hs => ⟨hs.1, (accessed_linkEntrypoint e.1 e.2).trans hs.2⟩)
      (fun s e hs => by rw [addLink, mem_linkEntrypoint, hs.1, hs.2]) (newLinks d)
      ⟨hcomponents, rfl⟩, hcontracts, haccessed']
    exact or_congr_right (exists_mem_newLinks
      (P := fun c ep => c ∈ t.components ∧ traced.Accessed ep a))

end ComponentTracker

lemma DCIUpdate.not_links_empty (c : ComponentId) (ep : EntryPointId) : ¬empty.Links c ep := by
  rintro ⟨e, ⟨eps, heps, he⟩, hep⟩
  cases heps

lemma DCIUpdate.not_accesses_empty (ep : EntryPointId) (a : Address) : ¬empty.Accesses ep a := by
  rintro ⟨trace, htrace, ha⟩
  cases htrace

/-- A call to the tracker, with what the server answers to it. -/
inductive TrackerCall where
  | initialiseComponents (answer : Except RPCError (List ProtocolComponent))
  | startTracking (newComponents : List ComponentId)
      (answer : Except RPCError (List ProtocolComponent))
  | stopTracking (toRemove : List ComponentId)
  | processEntrypoints (dciUpdate : DCIUpdate)
  | updateContracts (components : List ComponentId)
  | drainSnapshot (components : HashMap ComponentId ProtocolComponent) (dciUpdate : DCIUpdate)

namespace TrackerCall
variable (toLowercase : String → String)

/-- The tracker after a call. A failed request leaves it as it was. -/
def run (t : ComponentTracker) : TrackerCall → ComponentTracker
  | .initialiseComponents answer => (t.initialiseComponents toLowercase answer).toOption.getD t
  | .startTracking newComponents answer =>
    (t.startTracking toLowercase newComponents answer).toOption.getD t
  | .stopTracking toRemove => (t.stopTracking toRemove).2
  | .processEntrypoints dciUpdate => t.processEntrypoints dciUpdate
  | .updateContracts components => t.updateContracts components
  | .drainSnapshot components dciUpdate => t.drainSnapshot components dciUpdate

def dciUpdate : TrackerCall → DCIUpdate
  | .processEntrypoints d => d
  | .drainSnapshot _ d => d
  | _ => .empty

def added (t : ComponentTracker) : TrackerCall → HashMap ComponentId ProtocolComponent
  | .startTracking newComponents (.ok components) =>
    if newComponents.all (t.filter.isBlocklisted toLowercase) then ∅
    else componentsById components
  | .drainSnapshot components _ => components
  | _ => ∅

end TrackerCall

namespace ComponentTracker
variable (toLowercase : String → String)

def afterCalls (filter : ComponentFilter) (calls : List TrackerCall) : ComponentTracker :=
  calls.foldl (TrackerCall.run toLowercase) (new filter)

/-- The contracts are those of the tracked components and of all traces that the calls recorded
for entrypoints which they linked to tracked components. -/
def Exact (calls : List TrackerCall) (t : ComponentTracker) : Prop :=
  ∀ a, a ∈ t.contracts ↔ Needs t.components (fun c ep => ∃ call ∈ calls, call.dciUpdate.Links c ep)
    (fun ep a => ∃ call ∈ calls, call.dciUpdate.Accesses ep a) a

/-- A contract that comes with added components, or with an entrypoint that an update links to a
tracked component or that is linked to an added one. -/
def Brought (t : ComponentTracker) (added : HashMap ComponentId ProtocolComponent) (d : DCIUpdate)
    (a : Address) : Prop :=
  (∃ c comp, added.lookup c = some comp ∧ a ∈ comp.contractAddresses) ∨
    ∃ c ep, (d.Links c ep ∧ (c ∈ t.components ∨ c ∈ added) ∨ c ∈ added ∧ t.Linked c ep) ∧
      (t.Accessed ep a ∨ d.Accesses ep a)

/-- What a call must respect. A tracked component that it replaces must not have been the last
reason to follow a contract. A trace of an entrypoint that is already linked to a tracked
component must not access new contracts, unless the call brings them. -/
structure Covers (t : ComponentTracker) (added : HashMap ComponentId ProtocolComponent)
    (d : DCIUpdate) : Prop where
  replaced : ∀ c old, c ∈ added → t.components.lookup c = some old → ∀ a ∈ old.contractAddresses,
    Needs (HashMap.extend t.components added.toList) (fun c ep => t.Linked c ep ∨ d.Links c ep)
      (fun ep a => t.Accessed ep a ∨ d.Accesses ep a) a
  traced : ∀ c ep a, c ∈ t.components → t.Linked c ep → d.Accesses ep a →
    a ∈ t.contracts ∨ Brought t added d a

section
variable {toLowercase} {t t' : ComponentTracker} {added : HashMap ComponentId ProtocolComponent}
  {d : DCIUpdate}

structure Extends (t t' : ComponentTracker) (added : HashMap ComponentId ProtocolComponent)
    (d : DCIUpdate) : Prop where
  components : t'.components = HashMap.extend t.components added.toList
  linked : ∀ c ep, t'.Linked c ep ↔ t.Linked c ep ∨ d.Links c ep
  accessed : ∀ ep a, t'.Accessed ep a ↔ t.Accessed ep a ∨ d.Accesses ep a
  contracts : ∀ a, a ∈ t'.contracts ↔ a ∈ t.contracts ∨ Brought t added d a

lemma processEntrypoints_extends (t : ComponentTracker) (d : DCIUpdate) :
    Extends t (t.processEntrypoints d) ∅ d := by
  have hprocess := processEntrypoints_processed t d
  refine ⟨hprocess.components, hprocess.linked, hprocess.accessed, fun a => ?_⟩
  rw [hprocess.contracts]
  apply or_congr_right
  constructor
  · rintro ⟨c, ep, hlinks, hc, ha⟩
    exact .inr ⟨c, ep, .inl ⟨hlinks, .inl hc⟩, (hprocess.accessed ep a).mp ha⟩
  · rintro (⟨c, comp, hlookup, -⟩ | ⟨c, ep, ⟨hlinks, hc | hc⟩ | ⟨hc, -⟩, ha⟩)
    · cases hlookup
    · exact ⟨c, ep, hlinks, hc, (hprocess.accessed ep a).mpr ha⟩
    · exact absurd hc (notMem_empty c)
    · exact absurd hc (notMem_empty c)

lemma drainSnapshot_extends (t : ComponentTracker)
    (added : HashMap ComponentId ProtocolComponent) (d : DCIUpdate) :
    Extends t (t.drainSnapshot added d) added d := by
  have hprocess := processEntrypoints_processed
    { t with components := HashMap.extend t.components added.toList } d
  change Extends t (updateContracts (processEntrypoints _ d) added.keys) added d
  generalize processEntrypoints _ d = processed at hprocess ⊢
  refine ⟨hprocess.components, hprocess.linked, hprocess.accessed, fun a => ?_⟩
  rw [mem_updateContracts, hprocess.contracts, or_assoc]
  apply or_congr_right
  constructor
  · rintro (⟨c, ep, hlinks, hc, ha⟩ | ⟨c, hc, ⟨comp, hcomp, ha⟩ | ⟨-, ep, hlinked, ha⟩⟩)
    · have hmem := (HashMap.mem_extend_toList.mp hc).symm
      exact .inr ⟨c, ep, .inl ⟨hlinks, hmem⟩, (hprocess.accessed ep a).mp ha⟩
    · obtain ⟨new, hnew⟩ := HashMap.mem_keys_iff.mp hc
      rw [hprocess.components, lookup_extend_toList, hnew, Option.some_or] at hcomp
      cases hcomp
      exact .inl ⟨c, comp, hnew, ha⟩
    · have hadd : c ∈ added := mem_keys.mpr hc
      have hlink : d.Links c ep ∧ (c ∈ t.components ∨ c ∈ added) ∨ c ∈ added ∧ t.Linked c ep :=
        ((hprocess.linked c ep).mp hlinked).symm.imp (fun h => ⟨h, .inr hadd⟩) fun h => ⟨hadd, h⟩
      exact .inr ⟨c, ep, hlink, (hprocess.accessed ep a).mp ha⟩
  · have htracked : ∀ c, c ∈ added → c ∈ processed.components := fun c hc => by
      rw [hprocess.components]
      exact HashMap.mem_extend_toList.mpr (.inl hc)
    rintro (⟨c, comp, hcomp, ha⟩ | ⟨c, ep, ⟨hlinks, hc⟩ | ⟨hc, hlinked⟩, ha⟩)
    · have hmem : c ∈ added.keys := HashMap.mem_keys_iff.mpr ⟨comp, hcomp⟩
      refine .inr ⟨c, hmem, .inl ⟨comp, ?_, ha⟩⟩
      rw [hprocess.components, lookup_extend_toList, hcomp, Option.some_or]
    · exact .inl ⟨c, ep, hlinks, HashMap.mem_extend_toList.mpr hc.symm,
        (hprocess.accessed ep a).mpr ha⟩
    · exact .inr ⟨c, mem_keys.mp hc, .inr ⟨htracked c hc, ep,
        (hprocess.linked c ep).mpr (.inl hlinked), (hprocess.accessed ep a).mpr ha⟩⟩

inductive Effect (t t' : ComponentTracker) : HashMap ComponentId ProtocolComponent → DCIUpdate →
  Prop
  /-- The contracts are computed again. -/
  | rebuilt (hentrypoints : t'.entrypoints = t.entrypoints)
      (hcontracts : ∀ a, a ∈ t'.contracts ↔ Needs t'.components t'.Linked t'.Accessed a) :
      Effect t t' ∅ .empty
  /-- Contracts are added again. -/
  | refreshed (hentrypoints : t'.entrypoints = t.entrypoints)
      (hcomponents : t'.components = t.components)
      (hkept : ∀ a, a ∈ t.contracts → a ∈ t'.contracts)
      (hneeded : ∀ a, a ∈ t'.contracts → a ∈ t.contracts ∨ Needs t.components t.Linked t.Accessed a)
        :
      Effect t t' ∅ .empty
  | extended {added : HashMap ComponentId ProtocolComponent} {d : DCIUpdate}
      (hextends : Extends t t' added d) : Effect t t' added d

lemma Effect.refl (t : ComponentTracker) : Effect t t ∅ .empty :=
  .refreshed rfl rfl (fun _ => id) fun _ => .inl

lemma run_effect (toLowercase : String → String) (t : ComponentTracker) (call : TrackerCall) :
    Effect t (call.run toLowercase t) (call.added toLowercase t) call.dciUpdate := by
  cases call with
  | initialiseComponents answer =>
    cases answer with
    | error => exact .refl t
    | ok => exact .rebuilt rfl fun a => mem_reinitializeContracts
  | startTracking newComponents answer =>
    cases answer with
    | error e =>
      change Effect t ((t.startTracking toLowercase newComponents (.error e)).toOption.getD t) ∅
        .empty
      unfold startTracking
      split_ifs <;> exact .refl t
    | ok components =>
      change Effect t ((t.startTracking toLowercase newComponents (.ok components)).toOption.getD t)
        (if newComponents.all (t.filter.isBlocklisted toLowercase) then ∅
          else componentsById components) .empty
      unfold startTracking
      split_ifs
      · exact .refl t
      · exact .extended (drainSnapshot_extends t (componentsById components) .empty)
  | stopTracking => exact .rebuilt rfl fun a => mem_reinitializeContracts
  | processEntrypoints d => exact .extended (processEntrypoints_extends t d)
  | updateContracts =>
    refine .refreshed rfl rfl (fun a ha => mem_updateContracts.mpr (.inl ha)) fun a ha => ?_
    refine (mem_updateContracts.mp ha).imp_right ?_
    rintro ⟨c, -, ⟨comp, hcomp, ha⟩ | ⟨hc, ep, hlinked, ha⟩⟩
    · exact .inl ⟨c, comp, hcomp, ha⟩
    · exact .inr ⟨c, ep, hc, hlinked, ha⟩
  | drainSnapshot components d => exact .extended (drainSnapshot_extends t components d)

lemma covers_empty (t : ComponentTracker) : Covers t ∅ .empty :=
  ⟨fun c _ hc => absurd hc (notMem_empty c),
    fun _ ep a _ _ haccesses => absurd haccesses (DCIUpdate.not_accesses_empty ep a)⟩

lemma Effect.linked_iff (h : Effect t t' added d) (c : ComponentId) (ep : EntryPointId) :
    t'.Linked c ep ↔ t.Linked c ep ∨ d.Links c ep := by
  cases h with
  | rebuilt hentrypoints _ | refreshed hentrypoints _ _ _ =>
    rw [Linked, hentrypoints, or_iff_left (DCIUpdate.not_links_empty c ep)]
    rfl
  | extended hextends => exact hextends.linked c ep

lemma Effect.accessed_iff (h : Effect t t' added d) (ep : EntryPointId) (a : Address) :
    t'.Accessed ep a ↔ t.Accessed ep a ∨ d.Accesses ep a := by
  cases h with
  | rebuilt hentrypoints _ | refreshed hentrypoints _ _ _ =>
    rw [Accessed, hentrypoints, or_iff_left (DCIUpdate.not_accesses_empty ep a)]
    rfl
  | extended hextends => exact hextends.accessed ep a

section
variable (h : Extends t t' added d)
include h

lemma Extends.needs_iff (a : Address) : Needs t'.components t'.Linked t'.Accessed a ↔
      Needs (HashMap.extend t.components added.toList) (fun c ep => t.Linked c ep ∨ d.Links c ep)
        (fun ep a => t.Accessed ep a ∨ d.Accesses ep a) a := by
  simp only [Needs, h.components, h.linked, h.accessed]

lemma Extends.needs_of_brought (ha : Brought t added d a) :
    Needs t'.components t'.Linked t'.Accessed a := by
  rw [h.needs_iff]
  rcases ha with ⟨c, comp, hcomp, ha⟩ | ⟨c, ep, ⟨hlinks, hc⟩ | ⟨hc, hlinked⟩, ha⟩
  · refine .inl ⟨c, comp, ?_, ha⟩
    rw [lookup_extend_toList, hcomp, Option.some_or]
  · exact .inr ⟨c, ep, HashMap.mem_extend_toList.mpr hc.symm, .inr hlinks, ha⟩
  · exact .inr ⟨c, ep, HashMap.mem_extend_toList.mpr (.inl hc), .inl hlinked, ha⟩

/-- What was needed is needed after the call, unless it was needed by a replaced component. -/
lemma Extends.needs_of_needs (hcovers : Covers t added d)
    (ha : Needs t.components t.Linked t.Accessed a) :
    Needs t'.components t'.Linked t'.Accessed a := by
  rw [h.needs_iff]
  rcases ha with ⟨c, comp, hcomp, ha⟩ | ⟨c, ep, hc, hlinked, ha⟩
  · by_cases hadd : c ∈ added
    · exact hcovers.replaced c comp hadd hcomp a ha
    · refine .inl ⟨c, comp, ?_, ha⟩
      rw [lookup_extend_toList, lookup_eq_none.mpr hadd, Option.none_or, hcomp]
  · exact .inr ⟨c, ep, HashMap.mem_extend_toList.mpr (.inr hc), .inl hlinked, .inl ha⟩

/-- What is needed after the call was needed before it, is brought by it, or is accessed by a new
trace of an entrypoint that was linked before. -/
lemma Extends.of_needs (ha : Needs t'.components t'.Linked t'.Accessed a) :
    Needs t.components t.Linked t.Accessed a ∨ Brought t added d a ∨
      ∃ c ep, c ∈ t.components ∧ t.Linked c ep ∧ d.Accesses ep a := by
  rw [h.needs_iff] at ha
  rcases ha with ⟨c, comp, hcomp, ha⟩ | ⟨c, ep, hc, hlinked, ha⟩
  · rw [lookup_extend_toList, Option.or_eq_some_iff] at hcomp
    rcases hcomp with hnew | ⟨-, hold⟩
    · exact .inr (.inl (.inl ⟨c, comp, hnew, ha⟩))
    · exact .inl (.inl ⟨c, comp, hold, ha⟩)
  · rcases HashMap.mem_extend_toList.mp hc with hadd | hc
    · refine .inr (.inl (.inr ⟨c, ep, ?_, ha⟩))
      exact hlinked.symm.imp (fun hlinks => ⟨hlinks, .inr hadd⟩) fun hlinked => ⟨hadd, hlinked⟩
    · rcases hlinked with hlinked | hlinks
      · rcases ha with ha | ha
        · exact .inl (.inr ⟨c, ep, hc, hlinked, ha⟩)
        · exact .inr (.inr ⟨c, ep, hc, hlinked, ha⟩)
      · exact .inr (.inl (.inr ⟨c, ep, .inl ⟨hlinks, .inl hc⟩, ha⟩))

end

/-- Exact contracts stay exact just when the call respects them. -/
lemma Effect.keeps_exact_iff (h : Effect t t' added d)
    (hexact : ∀ a, a ∈ t.contracts ↔ Needs t.components t.Linked t.Accessed a) :
    (∀ a, a ∈ t'.contracts ↔ Needs t'.components t'.Linked t'.Accessed a) ↔ Covers t added d := by
  cases h with
  | rebuilt _ hcontracts => exact iff_of_true hcontracts (covers_empty t)
  | refreshed hentrypoints hcomponents hkept hneeded =>
    refine iff_of_true (fun a => ?_) (covers_empty t)
    unfold Linked Accessed
    rw [hcomponents, hentrypoints]
    change _ ↔ Needs t.components t.Linked t.Accessed a
    rw [← hexact]
    constructor
    · intro ha
      exact (hneeded a ha).elim id (hexact a).mpr
    · exact hkept a
  | extended hextends =>
    constructor
    · intro hexact'
      refine ⟨fun c old hc hold a ha => ?_, fun c ep a hc hlinked ha => ?_⟩
      · have hmem : a ∈ t.contracts := (hexact a).mpr (.inl ⟨c, old, hold, ha⟩)
        have hmem' : a ∈ t'.contracts := (hextends.contracts a).mpr (.inl hmem)
        exact (hextends.needs_iff a).mp ((hexact' a).mp hmem')
      · have hneeds : Needs t'.components t'.Linked t'.Accessed a := by
          rw [hextends.needs_iff]
          exact .inr ⟨c, ep, HashMap.mem_extend_toList.mpr (.inr hc), .inl hlinked, .inr ha⟩
        exact (hextends.contracts a).mp ((hexact' a).mpr hneeds)
    · intro hcovers a
      rw [hextends.contracts]
      constructor
      · rintro (ha | ha)
        · exact hextends.needs_of_needs hcovers ((hexact a).mp ha)
        · exact hextends.needs_of_brought ha
      · intro ha
        rcases hextends.of_needs ha with ha | ha | ⟨c, ep, hc, hlinked, ha⟩
        · exact .inl ((hexact a).mpr ha)
        · exact .inr ha
        · exact hcovers.traced c ep a hc hlinked ha

end

section
variable (filter : ComponentFilter)

section
variable (calls : List TrackerCall)
include calls

lemma afterCalls_concat (call : TrackerCall) : afterCalls toLowercase filter (calls ++ [call]) =
      call.run toLowercase (afterCalls toLowercase filter calls) := by
  rw [afterCalls, foldl_append]
  rfl

lemma recorded_afterCalls : (∀ c ep, (afterCalls toLowercase filter calls).Linked c ep ↔
      ∃ call ∈ calls, call.dciUpdate.Links c ep) ∧
    ∀ ep a, (afterCalls toLowercase filter calls).Accessed ep a ↔
      ∃ call ∈ calls, call.dciUpdate.Accesses ep a := by
  induction calls using List.reverseRecOn with
  | nil =>
    refine ⟨fun c ep => ?_, fun ep a => ?_⟩
    · exact iff_of_false (notMem_empty c) (by simp)
    · exact iff_of_false (notMem_empty a) (by simp)
  | append_singleton calls call ih =>
    have heffect := run_effect toLowercase (afterCalls toLowercase filter calls) call
    rw [afterCalls_concat]
    refine ⟨fun c ep => ?_, fun ep a => ?_⟩
    · rw [heffect.linked_iff, ih.1]
      simp only [mem_append, mem_singleton, or_and_right, exists_or, exists_eq_left]
    · rw [heffect.accessed_iff, ih.2]
      simp only [mem_append, mem_singleton, or_and_right, exists_or, exists_eq_left]

lemma exact_afterCalls_iff : Exact calls (afterCalls toLowercase filter calls) ↔
      ∀ a, a ∈ (afterCalls toLowercase filter calls).contracts ↔
        Needs (afterCalls toLowercase filter calls).components
          (afterCalls toLowercase filter calls).Linked
          (afterCalls toLowercase filter calls).Accessed a := by
  obtain ⟨hlinked, haccessed⟩ := recorded_afterCalls toLowercase filter calls
  simp only [Exact, Needs, hlinked, haccessed]

end

/-- The contracts are exact after every call just when each call respects the state before it. -/
theorem exact_iff_covers (calls : List TrackerCall) :
    (∀ done, done <+: calls → Exact done (afterCalls toLowercase filter done)) ↔
      ∀ done call, done ++ [call] <+: calls → Covers (afterCalls toLowercase filter done)
        (call.added toLowercase (afterCalls toLowercase filter done)) call.dciUpdate := by
  induction calls using List.reverseRecOn with
  | nil =>
    refine iff_of_true (fun done hdone => ?_) fun done call hdone => ?_
    · rw [prefix_nil.mp hdone, exact_afterCalls_iff]
      intro a
      refine iff_of_false (notMem_empty a) ?_
      rintro (⟨c, comp, hcomp, -⟩ | ⟨c, ep, hc, -⟩)
      · cases hcomp
      · exact notMem_empty c hc
    · cases done <;> cases prefix_nil.mp hdone
  | append_singleton calls call ih =>
    have heffect := run_effect toLowercase (afterCalls toLowercase filter calls) call
    have hstep : Exact calls (afterCalls toLowercase filter calls) →
        (Exact (calls ++ [call]) (afterCalls toLowercase filter (calls ++ [call])) ↔
          Covers (afterCalls toLowercase filter calls)
            (call.added toLowercase (afterCalls toLowercase filter calls)) call.dciUpdate) := by
      intro hexact
      rw [exact_afterCalls_iff] at hexact ⊢
      rw [afterCalls_concat]
      exact heffect.keeps_exact_iff hexact
    constructor
    · intro hall done next hdone
      have hearlier : ∀ done, done <+: calls → Exact done (afterCalls toLowercase filter done) :=
        fun done hdone => hall done (hdone.trans (prefix_append calls [call]))
      rcases prefix_concat_iff.mp hdone with heq | hdone
      · obtain ⟨rfl, hlast⟩ := append_inj' heq rfl
        cases hlast
        exact (hstep (hearlier done prefix_rfl)).mp (hall _ prefix_rfl)
      · exact ih.mp hearlier done next hdone
    · intro hall done hdone
      have hearlier := ih.mpr fun done next hdone =>
        hall done next (hdone.trans (prefix_append calls [call]))
      rcases prefix_concat_iff.mp hdone with rfl | hdone
      · exact (hstep (hearlier calls prefix_rfl)).mpr (hall calls call prefix_rfl)
      · exact hearlier done hdone

end

section

def pool : ProtocolComponent := { (default : ProtocolComponent) with id := "pool" }

def traceOf (contract : Address) : HashMap EntryPointId TracingResult :=
  HashMap.ofList [("ep", ⟨∅, HashMap.ofList [(contract, ∅)]⟩)]

/-- A component comes with its entrypoint and a first trace; the next block traces it again. -/
def retraced : List TrackerCall :=
  [.drainSnapshot (HashMap.ofList [("pool", pool)]) {
      newEntrypoints := HashMap.ofList [("pool", ofList [⟨"ep", ⟨[1]⟩, "swap()"⟩])]
      newEntrypointParams := ∅
      traceResults := traceOf ⟨[1]⟩ },
    .processEntrypoints {
      newEntrypoints := ∅
      newEntrypointParams := ∅
      traceResults := traceOf ⟨[2]⟩ }]

/-- The second trace finds a contract that the tracker does not follow. -/
theorem not_exact_retraced :
    ¬Exact retraced (afterCalls String.toLower (.withTvlRange .zero .zero) retraced) := by
  intro hexact
  have hlinks : (retraced.head (by decide)).dciUpdate.Links "pool" "ep" :=
    ⟨⟨"ep", ⟨[1]⟩, "swap()"⟩, ⟨_, rfl, by decide +kernel⟩, rfl⟩
  have haccesses : (retraced.getLast (by decide)).dciUpdate.Accesses "ep" ⟨[2]⟩ :=
    ⟨_, rfl, by decide +kernel⟩
  have hneeds := (hexact ⟨[2]⟩).mpr (.inr ⟨"pool", "ep", by decide +kernel,
    ⟨_, head_mem (by decide), hlinks⟩, ⟨_, getLast_mem (by decide), haccesses⟩⟩)
  exact absurd hneeds (by decide +kernel)

end
end ComponentTracker
end Tycho
