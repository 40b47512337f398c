import Tycho.Client.CatchUp
import Tycho.Client.Staging

/-! Once no snapshot is awaited, what is tracked agrees with the TVL that was reported last, as long
as no component falls below the threshold while it waits for its snapshot. -/
namespace Tycho
open Collections Replay HashMap Option AList Synchronizer ComponentTracker

/-- A session with its consumer. The TVL that was reported last for each component, and the
components whose last task that has ended gave a snapshot, are recorded beside it. -/
structure Monitored where
  session : Session
  consumer : ConsumerState
  reported : HashMap ComponentId F64
  succeeded : HashSet ComponentId
deriving DecidableEq

namespace Synchronizer

def Staged (s : Synchronizer) (id : ComponentId) : Prop :=
  (s.snapshotQueue.lookup id).any (· ≠ .blacklisted)

instance (s : Synchronizer) (id : ComponentId) : Decidable (s.Staged id) :=
  inferInstanceAs (Decidable ((s.snapshotQueue.lookup id).any (· ≠ .blacklisted)))

end Synchronizer

namespace Monitored

def start (includeSnapshots partialBlocks : Bool) (tracker : ComponentTracker) : Monitored where
  session := .start { new includeSnapshots partialBlocks tracker.filter with
    componentTracker := tracker }
  consumer := ⟨∅, ∅⟩
  reported := ∅
  succeeded := ∅

def recordTask (poll : Nat → TryRecv) (succeeded : HashSet ComponentId) (t : SnapshotTask) :
    HashSet ComponentId :=
  match poll t.receiver with
  | .value (.ok fetched) =>
    HashSet.extend (HashMap.eraseAll succeeded t.componentIds) fetched.components.keys
  | .empty => succeeded
  | _ => HashMap.eraseAll succeeded t.componentIds

def step (toLowercase : String → String) (s : Monitored) (e : SessionEvent) :
    Option (Option (StateSyncMessage BlockHeader) × Monitored) :=
  (s.session.step toLowercase e).map fun (out, session) => (out, {
    session := session
    consumer := out.elim s.consumer s.consumer.process
    reported := match e with
      | .delta m _ => HashMap.extend s.reported m.componentTvl.toList
      | _ => s.reported
    succeeded := match e with
      | .delta _ _ => if s.session.waiting = none then
          s.session.sync.snapshotTasks.foldl (recordTask s.session.poll) s.succeeded
        else s.succeeded
      | _ => s.succeeded })

/-- The last task of the component has ended with its snapshot, and no other one is due. -/
def SnapshotSucceeded (s : Monitored) (id : ComponentId) : Prop :=
  id ∈ s.succeeded ∧ s.session.sync.snapshotQueue.lookup id ≠ some .deferred

section
variable (removeTvl addTvl : F64)

/-- What is tracked and what the consumer has agree with the TVL that was reported last. -/
def Settled (s : Monitored) : Prop :=
  ∀ id tvl, s.reported.lookup id = some tvl → (tvl < removeTvl →
      id ∉ s.session.sync.componentTracker.components ∧ id ∉ s.consumer.states) ∧
    (addTvl < tvl → s.SnapshotSucceeded id → id ∈ s.session.sync.componentTracker.components)

/-- A delta reports a TVL below the threshold only for components that do not wait for a snapshot,
and none that is above the other threshold as well. Until a subscription has delivered its first
message such a component is not tracked either, and one above the threshold is tracked or staged,
unless it had no snapshot. -/
def Calm (s : Monitored) : SessionEvent → Prop
  | .delta m _ => ∀ e ∈ m.componentTvl.toList,
    (e.2 < removeTvl → ¬addTvl < e.2 ∧ ¬s.session.sync.Staged e.1 ∧
      (s.session.waiting ≠ none → e.1 ∉ s.session.sync.componentTracker.components)) ∧
    (addTvl < e.2 → s.session.waiting ≠ none →
      e.1 ∈ s.session.sync.componentTracker.components ∨ s.session.sync.Staged e.1 ∨
        e.1 ∉ s.succeeded)
  | _ => True

instance (s : Monitored) : (e : SessionEvent) → Decidable (s.Calm removeTvl addTvl e)
  | .delta m _ => inferInstanceAs (Decidable (∀ e ∈ m.componentTvl.toList,
      (_ → ¬_ ∧ ¬s.session.sync.Staged e.1 ∧ (_ ≠ _ → e.1 ∉ _)) ∧ (_ → _ ≠ _ → _ ∨ _ ∨ e.1 ∉ _)))
  | .taskEnds _ _ => .isTrue trivial
  | .resubscribe => .isTrue trivial

end
end Monitored

lemma ConsumerState.mem_process {H : Type} {c : ConsumerState} {m : StateSyncMessage H}
    {id : ComponentId} : id ∈ (c.process m).states ↔
      id ∈ m.snapshots.states ∨ id ∈ c.states ∧ id ∉ m.removedComponents := by
  have hinsert : id ∈ HashMap.extend (HashMap.eraseAll c.states m.removedComponents.keys)
      m.snapshots.states.toList ↔
        id ∈ m.snapshots.states ∨ id ∈ c.states ∧ id ∉ m.removedComponents := by
    rw [mem_extend_toList, mem_eraseAll, ← mem_keys, and_comm]
  unfold process
  cases m.deltas with
  | none => exact hinsert
  | some =>
    rw [← hinsert, mem_iff_lookup, mem_iff_lookup]
    simp [applyDeltas, lookup_mapValues]

variable {t : SnapshotTask} {tasks : List SnapshotTask} {tvl : F64} {s' : Monitored}

namespace Synchronizer
variable {s : Synchronizer} {poll : Nat → TryRecv} {m : BlockAggregatedChanges} {id : ComponentId}

def Fetched (poll : Nat → TryRecv) (s : Synchronizer) (id : ComponentId) : Prop :=
  ∃ t ∈ s.snapshotTasks, ∃ fetched, poll t.receiver = .value (.ok fetched) ∧ id ∈ fetched.components

lemma Tidy.staged_of_task (h : s.Tidy) (ht : t ∈ s.snapshotTasks) (hid : id ∈ t.componentIds) :
    s.Staged id := by
  unfold Staged
  rw [h.staged t ht id hid]
  rfl

/-- Draining stages nothing new. -/
lemma Tidy.mem_queue_of_harvest (h : s.Tidy) {status : SnapshotStatus}
    (hq : (s.harvest poll m).2.snapshotQueue.lookup id = some status) : id ∈ s.snapshotQueue := by
  have hdrain := h.drained poll m id
  generalize (s.harvest poll m).2.snapshotQueue.lookup id = q at hdrain hq
  rw [mem_iff_lookup]
  cases hdrain with
  | untouched => exact ⟨status, hq⟩
  | ended t ht hid => exact ⟨_, h.staged t ht id hid⟩
  | waiting t ht hid => exact ⟨_, h.staged t ht id hid⟩

section
variable {toLowercase : String → String} {fresh : Nat}

/-- A component that neither waits nor crosses the threshold does not wait after the delta. -/
lemma Tidy.not_staged_handleDelta (h : s.Tidy) (hstaged : ¬s.Staged id)
    (hadd : id ∉ (s.crossings toLowercase poll m).1) :
    ¬(s.handleDelta toLowercase fresh poll m).2.Staged id := by
  have hq : (s.harvest poll m).2.snapshotQueue.lookup id = s.snapshotQueue.lookup id :=
    lookup_harvest_other s poll m fun t ht hid => hstaged (h.staged_of_task ht hid)
  have hret : (s.harvest poll m).2.snapshotQueue.lookup id ≠ some .retryNext :=
    hq ▸ h.noRetry id
  have hnew : id ∉ (s.staging toLowercase poll m).1 := by
    rw [mem_staging]
    rintro ⟨hcrossed | hcrossed, -⟩
    · exact hadd hcrossed
    · exact hret hcrossed
  have hrestaged := restaged s poll m toLowercase fresh id
  unfold Staged
  generalize (s.handleDelta toLowercase fresh poll m).2.snapshotQueue.lookup id = q' at hrestaged
  cases hrestaged with
  | deferred hnew' => exact absurd hnew' hnew
  | started _ _ _ hstarted =>
    rcases hstarted with hnew' | hdeferred
    · exact absurd hnew' hnew
    · refine absurd ?_ hstaged
      unfold Staged
      rw [← hq, hdeferred]
      rfl
  | dropped hq' => exact absurd hq' hret
  | kept => rwa [hq]

/-- A component that is new waits, and one that waits with no end of its task goes on waiting. -/
lemma staged_handleDelta (h : id ∈ (s.staging toLowercase poll m).1 ∨
      (s.harvest poll m).2.snapshotQueue.lookup id = some .deferred ∨
      (s.harvest poll m).2.snapshotQueue.lookup id = some .inFlight) :
    (s.handleDelta toLowercase fresh poll m).2.Staged id := by
  have hrestaged := restaged s poll m toLowercase fresh id
  unfold Staged
  generalize (s.handleDelta toLowercase fresh poll m).2.snapshotQueue.lookup id = q' at hrestaged
  cases hrestaged with
  | deferred => rfl
  | started => rfl
  | dropped hq hold =>
    rcases h with hnew | hq' | hq'
    · exact absurd hnew hold
    all_goals
      rw [hq] at hq'
      cases hq'
  | kept _ hold =>
    rcases h with hnew | hq' | hq'
    · exact absurd hnew hold
    all_goals
      rw [hq']
      rfl

end

lemma Apart.eq (h : Apart tasks) {u : SnapshotTask} (ht : t ∈ tasks) (hu : u ∈ tasks)
    (hid : id ∈ t.componentIds) (hid' : id ∈ u.componentIds) :
    t = u := by
  by_contra hne
  have : Std.Symm fun t u : SnapshotTask => ∀ id ∈ t.componentIds, id ∉ u.componentIds :=
    ⟨fun t u htu id hu ht => htu id ht hu⟩
  exact h.forall ht hu hne id hid hid'

end Synchronizer

namespace Monitored

section
variable {poll : Nat → TryRecv} {id : ComponentId}

lemma mem_recordTask {succeeded : HashSet ComponentId} : id ∈ recordTask poll succeeded t ↔
      (∃ fetched, poll t.receiver = .value (.ok fetched) ∧ id ∈ fetched.components) ∨
        id ∈ succeeded ∧ (poll t.receiver = .empty ∨ id ∉ t.componentIds) := by
  unfold recordTask
  cases poll t.receiver with
  | value result =>
    cases result with
    | ok => simp [mem_eraseAll, and_comm, ← mem_keys]
    | error => simp [mem_eraseAll, and_comm]
  | empty => simp
  | closed => simp [mem_eraseAll, and_comm]

lemma mem_foldl_recordTask (hapart : Synchronizer.Apart tasks)
    (hfetched : ∀ t ∈ tasks, ∀ fetched, poll t.receiver = .value (.ok fetched) →
      Session.FetchedFor t fetched) (succeeded : HashSet ComponentId) :
    id ∈ tasks.foldl (recordTask poll) succeeded ↔
      (∃ t ∈ tasks, ∃ fetched, poll t.receiver = .value (.ok fetched) ∧ id ∈ fetched.components) ∨
        id ∈ succeeded ∧ ∀ t ∈ tasks, poll t.receiver = .empty ∨ id ∉ t.componentIds := by
  induction tasks generalizing succeeded with
  | nil => simp
  | cons u tasks ih =>
    obtain ⟨hu, hrest⟩ := List.pairwise_cons.mp hapart
    rw [List.foldl_cons, ih hrest fun t ht => hfetched t (List.mem_cons_of_mem u ht),
      mem_recordTask]
    -- What the first task brings belongs to no later one.
    have hlater : (∃ fetched, poll u.receiver = .value (.ok fetched) ∧ id ∈ fetched.components) →
        ∀ t ∈ tasks, poll t.receiver = .empty ∨ id ∉ t.componentIds := by
      rintro ⟨fetched, hpoll, hid⟩ t ht
      have hids := (hfetched u List.mem_cons_self fetched hpoll).components id (mem_keys.mp hid)
      exact .inr (hu t ht id hids)
    simp only [List.mem_cons, exists_eq_or_imp, forall_eq_or_imp]
    constructor
    · rintro (hlater | ⟨hfirst | ⟨hold, hkept⟩, hall⟩)
      · exact .inl (.inr hlater)
      · exact .inl (.inl hfirst)
      · exact .inr ⟨hold, hkept, hall⟩
    · rintro ((hfirst | hlater) | ⟨hold, hkept, hall⟩)
      · exact .inr ⟨.inl hfirst, hlater hfirst⟩
      · exact .inl hlater
      · exact .inr ⟨.inr ⟨hold, hkept⟩, hall⟩

section
variable (toLowercase : String → String) (removeTvl addTvl : F64)

structure Inv (s : Monitored) : Prop where
  sound : s.session.Sound
  variant : ∃ blocklisted, s.session.sync.componentTracker.filter.variant =
    .minimumTVLRange (removeTvl, addTvl) blocklisted
  queued : ∀ id ∈ s.session.sync.snapshotQueue,
    ¬s.session.sync.componentTracker.filter.isBlocklisted toLowercase id
  allowed : ∀ id ∈ s.succeeded,
    ¬s.session.sync.componentTracker.filter.isBlocklisted toLowercase id
  failed : ∀ id, s.session.sync.snapshotQueue.lookup id = some .blacklisted → id ∉ s.succeeded
  below : ∀ id tvl, s.reported.lookup id = some tvl → tvl < removeTvl →
    id ∉ s.session.sync.componentTracker.components ∧ ¬s.session.sync.Staged id
  above : ∀ id tvl, s.reported.lookup id = some tvl → addTvl < tvl → id ∈ s.succeeded →
    id ∈ s.session.sync.componentTracker.components ∨ s.session.sync.Staged id
  shown : ∀ id ∈ s.consumer.states, id ∈ s.session.sync.componentTracker.components

variable {toLowercase removeTvl addTvl} {s : Monitored} {m : BlockAggregatedChanges}
  {answer : Except SynchronizerError (Snapshot × DCIUpdate)}

lemma Inv.start {includeSnapshots partialBlocks : Bool} {tracker : ComponentTracker}
    {blocklisted : HashSet ComponentId}
    (h : tracker.filter.variant = .minimumTVLRange (removeTvl, addTvl) blocklisted) :
    Inv toLowercase removeTvl addTvl (start includeSnapshots partialBlocks tracker) where
  sound := Session.sound_start includeSnapshots partialBlocks tracker
  variant := ⟨blocklisted, h⟩
  queued := fun id hid => absurd hid (notMem_empty id)
  allowed := fun id hid => absurd hid (notMem_empty id)
  failed := fun _ hlookup => by cases hlookup
  below := fun _ _ hlookup => by cases hlookup
  above := fun _ _ hlookup => by cases hlookup
  shown := fun id hid => absurd hid (notMem_empty id)

lemma Inv.settled (h : Inv toLowercase removeTvl addTvl s)
    (htasks : s.session.sync.snapshotTasks = []) : s.Settled removeTvl addTvl := by
  intro id tvl hreport
  constructor
  · intro htvl
    have hbelow := (h.below id tvl hreport htvl).1
    exact ⟨hbelow, fun hid => hbelow (h.shown id hid)⟩
  · rintro htvl ⟨hsuccess, hdeferred⟩
    apply (h.above id tvl hreport htvl hsuccess).resolve_right
    intro hstaged
    obtain ⟨status, hlookup, hstatus⟩ := (any_eq_true _ _).mp hstaged
    cases status with
    | deferred => exact hdeferred hlookup
    | inFlight =>
      obtain ⟨t, ht, -⟩ := h.sound.tidy.inFlight id hlookup
      rw [htasks] at ht
      cases ht
    | retryNext => exact h.sound.tidy.noRetry id hlookup
    | blacklisted => exact absurd hstatus (by decide)

def handled (toLowercase : String → String) (s : Monitored) (m : BlockAggregatedChanges) :
    Monitored where
  session := { s.session with
    sync := (s.session.sync.handleDelta toLowercase s.session.received s.session.poll m).2
    received := s.session.received + 1 }
  consumer := s.consumer.process
    (s.session.sync.handleDelta toLowercase s.session.received s.session.poll m).1
  reported := HashMap.extend s.reported m.componentTvl.toList
  succeeded := s.session.sync.snapshotTasks.foldl (recordTask s.session.poll) s.succeeded

section
variable (h : Inv toLowercase removeTvl addTvl s)
include h

lemma Inv.mem_succeeded_handled :
    id ∈ (s.handled toLowercase m).succeeded ↔ s.session.sync.Fetched s.session.poll id ∨
      id ∈ s.succeeded ∧ ∀ t ∈ s.session.sync.snapshotTasks,
        s.session.poll t.receiver = .empty ∨ id ∉ t.componentIds :=
  mem_foldl_recordTask h.sound.tidy.apart h.sound.fetched s.succeeded

section
variable (hfetched : s.session.sync.Fetched s.session.poll id)
include hfetched

/-- What a task brings was asked for by one of the tasks. -/
lemma Inv.exists_task : ∃ t ∈ s.session.sync.snapshotTasks, id ∈ t.componentIds ∧
      ∃ fetched, s.session.poll t.receiver = .value (.ok fetched) := by
  obtain ⟨t, ht, fetched, hpoll, hid⟩ := hfetched
  exact ⟨t, ht, (h.sound.fetched t ht fetched hpoll).components id (mem_keys.mp hid),
    fetched, hpoll⟩

lemma Inv.staged_of_fetched : s.session.sync.Staged id := by
  obtain ⟨t, ht, hid, -⟩ := h.exists_task hfetched
  exact h.sound.tidy.staged_of_task ht hid

lemma Inv.allowed_of_fetched :
    ¬s.session.sync.componentTracker.filter.isBlocklisted toLowercase id := by
  obtain ⟨t, ht, hid, -⟩ := h.exists_task hfetched
  exact h.queued id (HashMap.mem_iff_lookup.mpr ⟨_, h.sound.tidy.staged t ht id hid⟩)

end

lemma Inv.mem_toAdd : id ∈ (s.session.sync.crossings toLowercase s.session.poll m).1 ↔
      (∃ tvl, m.componentTvl.lookup id = some tvl ∧ addTvl < tvl) ∧
        ¬s.session.sync.componentTracker.filter.isBlocklisted toLowercase id := by
  obtain ⟨blocklisted, hvariant⟩ := h.variant
  have hfilter := (harvest_keeps s.session.sync s.session.poll m).2.2
  rw [← hfilter] at hvariant ⊢
  exact ComponentTracker.mem_toAdd hvariant

lemma Inv.mem_toRemove : id ∈ (s.session.sync.crossings toLowercase s.session.poll m).2 ↔
      (∃ tvl, m.componentTvl.lookup id = some tvl ∧ tvl < removeTvl ∧ ¬addTvl < tvl) ∨
        (id ∈ s.session.sync.componentTracker.components ∨
          s.session.sync.Fetched s.session.poll id) ∧
        s.session.sync.componentTracker.filter.isBlocklisted toLowercase id := by
  obtain ⟨blocklisted, hvariant⟩ := h.variant
  have hfilter := (harvest_keeps s.session.sync s.session.poll m).2.2
  rw [← hfilter] at hvariant ⊢
  refine (ComponentTracker.mem_toRemove hvariant).trans (or_congr_right (and_congr_left' ?_))
  exact Synchronizer.mem_tracked_harvest s.session.sync s.session.poll m id

end

lemma mem_tracked_handled : id ∈ (s.handled toLowercase m).session.sync.componentTracker.components
    ↔
    (id ∈ s.session.sync.componentTracker.components ∨ s.session.sync.Fetched s.session.poll id) ∧
    id ∉ (s.session.sync.crossings toLowercase s.session.poll m).2 := by
  refine (tracked_handleDelta s.session.sync s.session.poll toLowercase
    s.session.received m id).1.trans (and_congr_left' ?_)
  exact mem_tracked_harvest s.session.sync s.session.poll m id

lemma filter_handled : (s.handled toLowercase m).session.sync.componentTracker.filter =
    s.session.sync.componentTracker.filter :=
  (handleDelta_keeps s.session.sync s.session.poll toLowercase s.session.received m).2.2

/-- A TVL after a delta was reported by it, or it says nothing of the component. -/
lemma reported_handled (h : (s.handled toLowercase m).reported.lookup id = some tvl) :
    m.componentTvl.lookup id = some tvl ∨
      m.componentTvl.lookup id = none ∧ s.reported.lookup id = some tvl := by
  have hextend : (HashMap.extend s.reported m.componentTvl.toList).lookup id = some tvl := h
  rwa [lookup_extend_toList, or_eq_some_iff] at hextend

lemma Inv.mem_consumer_handled (h : Inv toLowercase removeTvl addTvl s)
    (hid : id ∈ (s.handled toLowercase m).consumer.states) :
    s.session.sync.Fetched s.session.poll id ∨ id ∈ s.session.sync.componentTracker.components ∧
      id ∉ (s.session.sync.crossings toLowercase s.session.poll m).2 := by
  rcases ConsumerState.mem_process.mp hid with hid | ⟨hid, hremoved⟩
  · change id ∈ (s.session.sync.harvest s.session.poll m).1.states at hid
    obtain ⟨cws, hlookup⟩ := HashMap.mem_iff_lookup.mp hid
    obtain ⟨t, ht, fetched, hpoll, hstate⟩ := (exists_of_harvested s.session.sync
      s.session.poll m).1 id cws hlookup
    have hmem := (mem_applyDeltasToSnapshot _ _ _ _ id default).1.mp
      (HashMap.mem_iff_lookup.mpr ⟨cws, hstate⟩)
    have hcomps := (h.sound.fetched t ht fetched hpoll).states id (mem_keys.mp hmem)
    exact .inl ⟨t, ht, fetched, hpoll, hcomps⟩
  · have htracked := h.shown id hid
    refine .inr ⟨htracked, fun hremove => hremoved ?_⟩
    refine (tracked_handleDelta s.session.sync s.session.poll toLowercase
      s.session.received m id).2.mpr ⟨?_, hremove⟩
    exact (mem_tracked_harvest s.session.sync s.session.poll m id).mpr (.inl htracked)

/-- What was drained is not dropped with the same delta. -/
lemma Inv.not_toRemove_of_fetched (h : Inv toLowercase removeTvl addTvl s)
    (hcalm : s.Calm removeTvl addTvl (.delta m answer))
    (hfetched : s.session.sync.Fetched s.session.poll id) :
    id ∉ (s.session.sync.crossings toLowercase s.session.poll m).2 := by
  rw [h.mem_toRemove]
  rintro (⟨tvl, hlookup, htvl, -⟩ | ⟨-, hblocked⟩)
  · have hstaged := ((hcalm (id, tvl) (HashMap.mem_toList.mpr hlookup)).1 htvl).2.1
    exact hstaged (h.staged_of_fetched hfetched)
  · exact h.allowed_of_fetched hfetched hblocked

section
variable (h : Inv toLowercase removeTvl addTvl s)
include h

lemma Inv.queued_handled (hid : id ∈ (s.handled toLowercase m).session.sync.snapshotQueue) :
    ¬s.session.sync.componentTracker.filter.isBlocklisted toLowercase id := by
  have hold : ∀ {status}, (s.session.sync.harvest s.session.poll m).2.snapshotQueue.lookup id =
      some status → ¬s.session.sync.componentTracker.filter.isBlocklisted toLowercase id :=
    fun hq => h.queued id (h.sound.tidy.mem_queue_of_harvest hq)
  have hnew : id ∈ (s.session.sync.staging toLowercase s.session.poll m).1 →
      ¬s.session.sync.componentTracker.filter.isBlocklisted toLowercase id := by
    intro hnew
    rcases ((mem_staging ..).mp hnew).1 with hadd | hret
    · exact (h.mem_toAdd.mp hadd).2
    · exact hold hret
  obtain ⟨status, hlookup⟩ := HashMap.mem_iff_lookup.mp hid
  have hrestaged := restaged s.session.sync s.session.poll m toLowercase s.session.received id
  change (handleDelta ..).2.snapshotQueue.lookup id = _ at hlookup
  generalize (handleDelta ..).2.snapshotQueue.lookup id = q at hrestaged hlookup
  cases hrestaged with
  | deferred hnew' => exact hnew hnew'
  | started _ _ _ hstarted => exact hstarted.elim hnew hold
  | dropped => cases hlookup
  | kept => exact hold hlookup

lemma Inv.allowed_handled (hid : id ∈ (s.handled toLowercase m).succeeded) :
    ¬s.session.sync.componentTracker.filter.isBlocklisted toLowercase id := by
  rcases h.mem_succeeded_handled.mp hid with hfetched | ⟨hold, -⟩
  · exact h.allowed_of_fetched hfetched
  · exact h.allowed id hold

lemma Inv.failed_handled
    (hq : (s.handled toLowercase m).session.sync.snapshotQueue.lookup id = some .blacklisted) :
    id ∉ (s.handled toLowercase m).succeeded := by
  have hharvest : (s.session.sync.harvest s.session.poll m).2.snapshotQueue.lookup id =
      some .blacklisted := by
    have hrestaged := restaged s.session.sync s.session.poll m toLowercase s.session.received id
    change (handleDelta ..).2.snapshotQueue.lookup id = _ at hq
    generalize (handleDelta ..).2.snapshotQueue.lookup id = q at hrestaged hq
    cases hrestaged with
    | deferred => cases hq
    | started => cases hq
    | dropped => cases hq
    | kept => exact hq
  have hdrain := h.sound.tidy.drained s.session.poll m id
  rw [h.mem_succeeded_handled]
  generalize (harvest ..).2.snapshotQueue.lookup id = q at hdrain hharvest
  rintro (hfetched | ⟨hold, hkept⟩)
  · obtain ⟨u, hu, hidu, fetched, hpoll'⟩ := h.exists_task hfetched
    cases hdrain with
    | untouched hother => exact hother u hu hidu
    | ended _ ht hid =>
      rw [h.sound.tidy.apart.eq ht hu hid hidu, hpoll'] at hharvest
      cases hharvest
    | waiting => cases hharvest
  · cases hdrain with
    | untouched => exact h.failed id hharvest hold
    | ended t ht hid hpoll => exact (hkept t ht).elim hpoll fun hother => hother hid
    | waiting => cases hharvest

lemma Inv.below_handled (hcalm : s.Calm removeTvl addTvl (.delta m answer))
    (hreport : (s.handled toLowercase m).reported.lookup id = some tvl) (htvl : tvl < removeTvl) :
    id ∉ (s.handled toLowercase m).session.sync.componentTracker.components ∧
      ¬(s.handled toLowercase m).session.sync.Staged id := by
  rcases reported_handled hreport with hnew | ⟨hsilent, hold⟩
  · obtain ⟨hnot, hstaged, -⟩ := (hcalm (id, tvl) (HashMap.mem_toList.mpr hnew)).1 htvl
    constructor
    · rw [mem_tracked_handled, h.mem_toRemove]
      exact fun hid => hid.2 (.inl ⟨tvl, hnew, htvl, hnot⟩)
    · apply h.sound.tidy.not_staged_handleDelta hstaged
      rw [h.mem_toAdd, hnew]
      rintro ⟨⟨tvl', heq, habove⟩, -⟩
      cases heq
      exact hnot habove
  · obtain ⟨htracked, hstaged⟩ := h.below id tvl hold htvl
    constructor
    · rw [mem_tracked_handled]
      rintro ⟨hid | hid, -⟩
      · exact htracked hid
      · exact hstaged (h.staged_of_fetched hid)
    · apply h.sound.tidy.not_staged_handleDelta hstaged
      rw [h.mem_toAdd, hsilent]
      rintro ⟨⟨_, heq, -⟩, -⟩
      cases heq

/-- A component that is tracked or waits still does after a delta that does not remove it. -/
lemma Inv.tracked_or_staged_handled (hid : id ∈ (s.handled toLowercase m).succeeded)
    (hkept : id ∉ (s.session.sync.crossings toLowercase s.session.poll m).2)
    (hold : id ∈ (s.session.sync.crossings toLowercase s.session.poll m).1 ∨
      (id ∈ s.succeeded → id ∈ s.session.sync.componentTracker.components ∨
        s.session.sync.Staged id)) :
    id ∈ (s.handled toLowercase m).session.sync.componentTracker.components ∨
      (s.handled toLowercase m).session.sync.Staged id := by
  rw [mem_tracked_handled]
  by_cases htracked : id ∈ s.session.sync.componentTracker.components ∨
    s.session.sync.Fetched s.session.poll id
  · exact .inl ⟨htracked, hkept⟩
  rw [not_or] at htracked
  have hsuccess := (h.mem_succeeded_handled.mp hid).resolve_left htracked.2
  have hnotTracked : id ∉ (s.session.sync.harvest s.session.poll m).2.componentTracker.components :=
    by
    rw [mem_tracked_harvest]
    exact not_or.mpr htracked
  refine .inr (staged_handleDelta ?_)
  have hdrain := h.sound.tidy.drained s.session.poll m id
  have hfailed := h.failed id
  rw [mem_staging]
  generalize (harvest ..).2.snapshotQueue.lookup id = q at hdrain ⊢
  cases hdrain with
  | ended t ht hidt hpoll => exact ((hsuccess.2 t ht).elim hpoll fun hother => hother hidt).elim
  | waiting => exact .inr (.inr rfl)
  | untouched =>
    cases hq : s.session.sync.snapshotQueue.lookup id with
    | none =>
      rcases hold with hadd | hold
      · exact .inl ⟨.inl hadd, hnotTracked, .inl rfl⟩
      · rcases hold hsuccess.1 with hid | hstaged
        · exact absurd hid htracked.1
        · unfold Synchronizer.Staged at hstaged
          rw [hq] at hstaged
          cases hstaged
    | some status =>
      cases status with
      | deferred => exact .inr (.inl rfl)
      | inFlight => exact .inr (.inr rfl)
      | retryNext => exact absurd hq (h.sound.tidy.noRetry id)
      | blacklisted => exact absurd hsuccess.1 (hfailed hq)

lemma Inv.above_handled (hreport : (s.handled toLowercase m).reported.lookup id = some tvl)
    (htvl : addTvl < tvl) (hid : id ∈ (s.handled toLowercase m).succeeded) :
    id ∈ (s.handled toLowercase m).session.sync.componentTracker.components ∨
      (s.handled toLowercase m).session.sync.Staged id := by
  have hallowed := h.allowed_handled hid
  rcases reported_handled hreport with hnew | ⟨hsilent, hold⟩
  · apply h.tracked_or_staged_handled hid
    · rw [h.mem_toRemove, hnew]
      rintro (⟨tvl', heq, -, hnot⟩ | ⟨-, hblocked⟩)
      · cases heq
        exact hnot htvl
      · exact hallowed hblocked
    · exact .inl (h.mem_toAdd.mpr ⟨⟨tvl, hnew, htvl⟩, hallowed⟩)
  · apply h.tracked_or_staged_handled hid
    · rw [h.mem_toRemove, hsilent]
      rintro (⟨_, heq, -⟩ | ⟨-, hblocked⟩)
      · cases heq
      · exact hallowed hblocked
    · exact .inr (h.above id tvl hold htvl)

lemma Inv.handled (hcalm : s.Calm removeTvl addTvl (.delta m answer)) :
    Inv toLowercase removeTvl addTvl (s.handled toLowercase m) where
  sound := h.sound.handled m
  variant := by
    rw [filter_handled]
    exact h.variant
  queued := fun id hid => by
    rw [filter_handled]
    exact h.queued_handled hid
  allowed := fun id hid => by
    rw [filter_handled]
    exact h.allowed_handled hid
  failed := fun _ hq => h.failed_handled hq
  below := fun _ _ hreport htvl => h.below_handled hcalm hreport htvl
  above := fun _ _ hreport htvl hid => h.above_handled hreport htvl hid
  shown := fun id hid => by
    rw [mem_tracked_handled]
    rcases h.mem_consumer_handled hid with hfetched | ⟨htracked, hkept⟩
    · exact ⟨.inr hfetched, h.not_toRemove_of_fetched hcalm hfetched⟩
    · exact ⟨.inl htracked, hkept⟩

/-- A step that leaves the queue, the tracked components and the successes as they are. -/
lemma Inv.quiet (hsound : s'.session.Sound)
    (hqueue : s'.session.sync.snapshotQueue = s.session.sync.snapshotQueue)
    (htracker : s'.session.sync.componentTracker.components =
      s.session.sync.componentTracker.components)
    (hfilter : s'.session.sync.componentTracker.filter = s.session.sync.componentTracker.filter)
    (hsuccess : s'.succeeded = s.succeeded)
    (hbelow : ∀ id tvl, s'.reported.lookup id = some tvl → tvl < removeTvl →
      id ∉ s.session.sync.componentTracker.components ∧ ¬s.session.sync.Staged id)
    (habove : ∀ id tvl, s'.reported.lookup id = some tvl → addTvl < tvl → id ∈ s.succeeded →
      id ∈ s.session.sync.componentTracker.components ∨ s.session.sync.Staged id)
    (hshown : ∀ id ∈ s'.consumer.states, id ∈ s.session.sync.componentTracker.components) :
    Inv toLowercase removeTvl addTvl s' where
  sound := hsound
  variant := hfilter ▸ h.variant
  queued := by
    rw [hqueue, hfilter]
    exact h.queued
  allowed := by
    rw [hsuccess, hfilter]
    exact h.allowed
  failed := by
    rw [hqueue, hsuccess]
    exact h.failed
  below := by
    unfold Synchronizer.Staged at hbelow ⊢
    rwa [htracker, hqueue]
  above := by
    unfold Synchronizer.Staged at habove ⊢
    rwa [htracker, hqueue, hsuccess]
  shown := by rwa [htracker]

end

/-- Until the first message of a subscription the TVL of a delta changes nothing. -/
lemma Inv.waiting (h : Inv toLowercase removeTvl addTvl s)
    (hcalm : s.Calm removeTvl addTvl (.delta m answer)) (hwaiting : s.session.waiting ≠ none) :
    (∀ id tvl, (HashMap.extend s.reported m.componentTvl.toList).lookup id = some tvl →
      tvl < removeTvl → id ∉ s.session.sync.componentTracker.components ∧
        ¬s.session.sync.Staged id) ∧
    ∀ id tvl, (HashMap.extend s.reported m.componentTvl.toList).lookup id = some tvl →
      addTvl < tvl → id ∈ s.succeeded → id ∈ s.session.sync.componentTracker.components ∨
        s.session.sync.Staged id := by
  refine ⟨fun id tvl hreport htvl => ?_, fun id tvl hreport htvl hid => ?_⟩
  · rw [lookup_extend_toList, or_eq_some_iff] at hreport
    rcases hreport with hnew | ⟨-, hold⟩
    · obtain ⟨-, hstaged, htracked⟩ := (hcalm (id, tvl) (HashMap.mem_toList.mpr hnew)).1 htvl
      exact ⟨htracked hwaiting, hstaged⟩
    · exact h.below id tvl hold htvl
  · rw [lookup_extend_toList, or_eq_some_iff] at hreport
    rcases hreport with hnew | ⟨-, hold⟩
    · rcases (hcalm (id, tvl) (HashMap.mem_toList.mpr hnew)).2 htvl hwaiting with
        htracked | hstaged | hnot
      · exact .inl htracked
      · exact .inr hstaged
      · exact absurd hid hnot
    · exact h.above id tvl hold htvl hid

lemma Inv.step {e : SessionEvent} {out : Option (StateSyncMessage BlockHeader)}
    (h : Inv toLowercase removeTvl addTvl s) (hhonest : s.session.Honest e)
    (hcalm : s.Calm removeTvl addTvl e) (hstep : s.step toLowercase e = some (out, s')) :
    Inv toLowercase removeTvl addTvl s' := by
  obtain ⟨⟨out', session⟩, hsession, heq⟩ := map_eq_some_iff.mp hstep
  cases heq
  have hstepped := Session.stepped_of_step hsession
  have hsound := h.sound.step hhonest hstepped
  cases hstepped with
  | @handled _ _ hwaiting =>
    rw [if_pos hwaiting]
    exact h.handled hcalm
  | @passed _ _ hwaiting _ =>
    rw [if_neg hwaiting]
    obtain ⟨hbelow, habove⟩ := h.waiting hcalm hwaiting
    exact h.quiet hsound rfl rfl rfl rfl hbelow habove h.shown
  | @started _ _ _ sync _ hwaiting hstart =>
    have hwaiting' : s.session.waiting ≠ none := by simp [hwaiting]
    rw [if_neg hwaiting']
    obtain ⟨hbelow, habove⟩ := h.waiting hcalm hwaiting'
    obtain ⟨htracker, hrest, hstates⟩ := started_of_firstDelta hstart
    have hcomps : sync.componentTracker.components =
        s.session.sync.componentTracker.components := by
      rcases htracker with heq | ⟨d, heq⟩ <;> rw [heq]
      exact components_processEntrypoints _ d
    have hfilter : sync.componentTracker.filter = s.session.sync.componentTracker.filter := by
      rcases htracker with heq | ⟨d, heq⟩ <;> rw [heq]
      exact filter_processEntrypoints _ d
    have hqueue : sync.snapshotQueue = s.session.sync.snapshotQueue := by rw [hrest]
    refine h.quiet hsound hqueue hcomps hfilter rfl hbelow habove fun id hid => ?_
    rcases ConsumerState.mem_process.mp hid with hid | ⟨hid, -⟩
    · obtain ⟨snapshot, d, rfl, hmem⟩ := hstates id hid
      exact hhonest id (mem_keys.mp hmem)
    · exact h.shown id hid
  | ended => exact h.quiet hsound rfl rfl rfl rfl h.below h.above h.shown
  | resubscribed => exact h.quiet hsound rfl rfl rfl rfl h.below h.above h.shown

end
end

/-- Once the tasks are drained, the tracked components and the consumer agree with the TVL that was
reported last, in every run in which no component falls below the threshold while it waits. -/
theorem settled_of_calm_run {toLowercase : String → String} {filter : ComponentFilter}
    {removeTvl addTvl : F64} {blocklisted : HashSet ComponentId}
    {answer : Except RPCError (List ProtocolComponent)} {tracker : ComponentTracker}
    {includeSnapshots partialBlocks : Bool}
    {trace : List (SessionEvent × Option (StateSyncMessage BlockHeader))} {s : Monitored}
    (hvariant : filter.variant = .minimumTVLRange (removeTvl, addTvl) blocklisted)
    (htracker : (new filter).initialiseComponents toLowercase answer = .ok tracker)
    (hrun : Run (step toLowercase) (fun s e => s.session.Honest e ∧ s.Calm removeTvl addTvl e)
      (start includeSnapshots partialBlocks tracker) trace s)
    (htasks : s.session.sync.snapshotTasks = []) : s.Settled removeTvl addTvl := by
  have hfilter : tracker.filter = filter := by
    cases answer with
    | error => cases htracker
    | ok =>
      cases htracker
      rfl
  have hinv : Inv toLowercase removeTvl addTvl s :=
    hrun.invariant (P := fun _ s => Inv toLowercase removeTvl addTvl s)
      (Inv.start (hfilter ▸ hvariant))
      fun _ _ _ _ _ h hguard hstep => h.step hguard.1 hguard.2 hstep
  exact hinv.settled htasks

section

def thresholds : F64 × F64 := (⟨0x3FF0000000000000⟩, ⟨0x4000000000000000⟩)

def tvlBelow : F64 := ⟨0x3FE0000000000000⟩
def tvlAbove : F64 := ⟨0x4008000000000000⟩

def tvlBlock (number : Nat) (tvls : List (ComponentId × F64)) : SessionEvent :=
  .delta { (default : BlockAggregatedChanges) with
    block := { (default : Block) with number := number }
    componentTvl := HashMap.ofList tvls } (.error .connectionClosed)

def taskSucceeds (receiver : Nat) (ids : List ComponentId) (snapshotBlock : Nat) : SessionEvent :=
  .taskEnds receiver (.value (.ok {
    components := HashMap.ofList (ids.map fun id => (id, default))
    contractIds := ∅
    dciUpdate := .empty
    snapshot := ⟨HashMap.ofList (ids.map fun id => (id, ⟨⟨id, ∅, ∅⟩, default, none, []⟩)), ∅⟩
    snapshotBlock := snapshotBlock }))

def emptyTracker : ComponentTracker :=
  .reinitializeContracts (.new (.withTvlRange thresholds.1 thresholds.2))

/-- Two pools rise above the threshold and get their snapshots, and one of them falls again. -/
theorem settled_of_calm_run_falling : ∃ trace s,
    Run (step id) (fun s e => s.session.Honest e ∧ s.Calm thresholds.1 thresholds.2 e)
      (start true false emptyTracker) trace s ∧
    s.session.sync.snapshotTasks = [] ∧ s.Settled thresholds.1 thresholds.2 ∧
    s.reported.lookup "a" = some tvlBelow ∧ s.reported.lookup "b" = some tvlAbove ∧
    s.SnapshotSucceeded "b" := by
  have hcheck : (play (step id) (fun s e => s.session.Honest e ∧ s.Calm thresholds.1 thresholds.2 e)
      (start true false emptyTracker) [tvlBlock 1 [],
        tvlBlock 2 [("a", tvlAbove), ("b", tvlAbove)], taskSucceeds 1 ["a", "b"] 2, tvlBlock 3 [],
        tvlBlock 4 [("a", tvlBelow)]]).any (fun r =>
      r.2.session.sync.snapshotTasks = [] ∧ r.2.reported.lookup "a" = some tvlBelow ∧
        r.2.reported.lookup "b" = some tvlAbove ∧ "b" ∈ r.2.succeeded ∧
        r.2.session.sync.snapshotQueue.lookup "b" ≠ some .deferred) := by
    decide +kernel
  obtain ⟨trace, s, hrun, htasks, ha, hb, hsuccess⟩ := exists_run_of_any hcheck
  have htracker : (new (.withTvlRange thresholds.1 thresholds.2)).initialiseComponents
      id (.ok []) = .ok emptyTracker := rfl
  exact ⟨trace, s, hrun, htasks, settled_of_calm_run rfl htracker hrun htasks, ha, hb, hsuccess⟩

/-- A pool that falls below the threshold while its snapshot is fetched is tracked and shown to the
consumer once the snapshot is drained. -/
theorem not_settled_fallen_in_flight : ∃ trace s,
    (new (.withTvlRange thresholds.1 thresholds.2)).initialiseComponents id
      (.ok []) = .ok emptyTracker ∧
    Run (step id) (fun s e => s.session.Honest e) (start true false emptyTracker) trace s ∧
    s.session.sync.snapshotTasks = [] ∧ s.reported.lookup "a" = some tvlBelow ∧
    tvlBelow < thresholds.1 ∧ "a" ∈ s.session.sync.componentTracker.components ∧
    "a" ∈ s.consumer.states ∧ ¬s.Settled thresholds.1 thresholds.2 := by
  have hcheck : (play (step id) (fun s e => s.session.Honest e) (start true false emptyTracker)
      [tvlBlock 1 [], tvlBlock 2 [("a", tvlAbove)], tvlBlock 3 [("a", tvlBelow)],
        taskSucceeds 1 ["a"] 2, tvlBlock 4 []]).any (fun r =>
      r.2.session.sync.snapshotTasks = [] ∧ r.2.reported.lookup "a" = some tvlBelow ∧
        tvlBelow < thresholds.1 ∧ "a" ∈ r.2.session.sync.componentTracker.components ∧
        "a" ∈ r.2.consumer.states) := by
    decide +kernel
  obtain ⟨trace, s, hrun, htasks, hreport, hbelow, htracked, hshown⟩ := exists_run_of_any hcheck
  refine ⟨trace, s, rfl, hrun, htasks, hreport, hbelow, htracked, hshown, ?_⟩
  intro hset
  exact ((hset "a" tvlBelow hreport).1 hbelow).1 htracked

/-- In every run the components in flight are those of the tasks, which share none. -/
theorem sound_of_run {toLowercase : String → String} {includeSnapshots partialBlocks : Bool}
    {tracker : ComponentTracker} {s : Session}
    {trace : List (SessionEvent × Option (StateSyncMessage BlockHeader))}
    (hrun : Run (Session.step toLowercase) Session.Honest
      (start includeSnapshots partialBlocks tracker).session trace s) : s.Sound :=
  hrun.invariant (P := fun _ s => s.Sound) (Session.sound_start _ _ _)
    fun _ _ _ _ _ h hhonest hstep => h.step hhonest (Session.stepped_of_step hstep)

theorem sound_of_run_inFlight : ∃ trace s, Run (Session.step id) Session.Honest
      (start true false emptyTracker).session trace s ∧
    s.sync.snapshotQueue.lookup "a" = some .inFlight ∧ s.Sound := by
  have hcheck : (play (Session.step id) Session.Honest (start true false emptyTracker).session
      [tvlBlock 1 [], tvlBlock 2 [("a", tvlAbove)]]).any fun r =>
        r.2.sync.snapshotQueue.lookup "a" = some .inFlight := by
    decide +kernel
  obtain ⟨trace, s, hrun, hlookup⟩ := exists_run_of_any hcheck
  exact ⟨trace, s, hrun, hlookup, sound_of_run hrun⟩

end
end Monitored
end Tycho
