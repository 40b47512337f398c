import Tycho.Client.Drain
import Tycho.Client.Synchronizer
import Tycho.Replay.Run

/-! A synchronizer at work: deltas arrive from subscriptions that may end and be renewed, and
snapshot tasks end at any time in between. Its queue and its tasks agree: a component is in flight
just when one task asks for it. -/
namespace Tycho
open Collections HashMap

/-- The synchronizer, the wait for the first delta of a subscription if there was none yet, what
the tasks have sent, and how many deltas were received. -/
structure Session where
  sync : Synchronizer
  waiting : Option Synchronizer.Waiting
  sent : HashMap Nat TryRecv
  received : Nat
deriving DecidableEq

/-- `answer` is what the server returns if the delta is the first one of a subscription and a
snapshot of the tracked components is needed. -/
inductive SessionEvent where
  | delta (m : BlockAggregatedChanges)
      (answer : Except SynchronizerError (Snapshot × DCIUpdate))
  /-- A task ends: its channel holds a value or is closed. -/
  | taskEnds (receiver : Nat) (outcome : TryRecv)
  /-- The subscription ends with an error, and `state_sync` is called again. -/
  | resubscribe

namespace Session

def start (sync : Synchronizer) : Session := ⟨sync, some ⟨none, 0⟩, ∅, 0⟩

def poll (s : Session) (receiver : Nat) : TryRecv := (s.sent.lookup receiver).getD .empty

variable (toLowercase : String → String)

/-- A delta, with the message that it leads to. The channel of a new task is known by the number
of the delta. -/
def receive (s : Session) (m : BlockAggregatedChanges)
    (answer : Except SynchronizerError (Snapshot × DCIUpdate)) :
    Option (StateSyncMessage BlockHeader) × Session :=
  let s' := { s with received := s.received + 1 }
  match s.waiting with
  | none =>
    let (msg, sync) := s.sync.handleDelta toLowercase s.received s.poll m
    (some msg, { s' with sync := sync })
  | some w =>
    match s.sync.firstDelta w answer m with
    | .skipped w => (none, { s' with waiting := some w })
    | .failed _ => (none, { s' with waiting := some ⟨none, 0⟩ })
    | .started msg sync => (some msg, { s' with sync := sync, waiting := none })

/-- Only a task that is waited for can end, and only once. -/
def step (s : Session) : SessionEvent → Option (Option (StateSyncMessage BlockHeader) × Session)
  | .delta m answer => some (s.receive toLowercase m answer)
  | .taskEnds receiver outcome =>
    if s.sync.snapshotTasks.any (·.receiver = receiver) ∧ receiver ∉ s.sent ∧ outcome ≠ .empty then
      some (none, { s with sent := s.sent.insert receiver outcome })
    else none
  | .resubscribe => some (none, { s with waiting := some ⟨none, 0⟩ })

inductive Stepped (s : Session) :
    SessionEvent → Option (StateSyncMessage BlockHeader) → Session → Prop
  | handled {m : BlockAggregatedChanges} {answer : Except SynchronizerError (Snapshot × DCIUpdate)}
      (hwaiting : s.waiting = none) :
      Stepped s (.delta m answer) (some (s.sync.handleDelta toLowercase s.received s.poll m).1)
        { s with
          sync := (s.sync.handleDelta toLowercase s.received s.poll m).2
          received := s.received + 1 }
  | passed {m : BlockAggregatedChanges} {answer : Except SynchronizerError (Snapshot × DCIUpdate)}
      (hwaiting : s.waiting ≠ none) (w : Synchronizer.Waiting) :
      Stepped s (.delta m answer) none { s with waiting := some w, received := s.received + 1 }
  | started {m : BlockAggregatedChanges} {answer : Except SynchronizerError (Snapshot × DCIUpdate)}
      {msg : StateSyncMessage BlockHeader} {sync : Synchronizer} {w : Synchronizer.Waiting}
      (hwaiting : s.waiting = some w) (hstart : s.sync.firstDelta w answer m = .started msg sync) :
      Stepped s (.delta m answer) (some msg)
        { s with sync := sync, waiting := none, received := s.received + 1 }
  | ended {receiver : Nat} {outcome : TryRecv} {t : SnapshotTask} (ht : t ∈ s.sync.snapshotTasks)
      (hreceiver : t.receiver = receiver) (hsent : receiver ∉ s.sent)
      (houtcome : outcome ≠ .empty) :
      Stepped s (.taskEnds receiver outcome) none { s with sent := s.sent.insert receiver outcome }
  | resubscribed : Stepped s .resubscribe none { s with waiting := some ⟨none, 0⟩ }

lemma stepped_of_step {toLowercase : String → String} {s s' : Session} {e : SessionEvent}
    {out : Option (StateSyncMessage BlockHeader)} (h : s.step toLowercase e = some (out, s')) :
    Stepped toLowercase s e out s' := by
  cases e with
  | delta m answer =>
    have hreceive : s.receive toLowercase m answer = (out, s') := Option.some.inj h
    unfold receive at hreceive
    cases hwaiting : s.waiting with
    | none =>
      rw [hwaiting] at hreceive
      cases hreceive
      rw [hwaiting.symm]
      exact .handled hwaiting
    | some w =>
      rw [hwaiting] at hreceive
      dsimp only at hreceive
      cases hfirst : s.sync.firstDelta w answer m with
      | skipped w' =>
        rw [hfirst] at hreceive
        cases hreceive
        exact .passed (by simp [hwaiting]) w'
      | failed =>
        rw [hfirst] at hreceive
        cases hreceive
        exact .passed (by simp [hwaiting]) ⟨none, 0⟩
      | started =>
        rw [hfirst] at hreceive
        cases hreceive
        exact .started hwaiting hfirst
  | taskEnds =>
    change (if _ ∧ _ ∧ _ then _ else _) = _ at h
    split_ifs at h with hends
    cases h
    obtain ⟨t, ht, hreceiver⟩ := List.any_eq_true.mp hends.1
    exact .ended ht (of_decide_eq_true hreceiver) hends.2.1 hends.2.2
  | resubscribe =>
    cases h
    exact .resubscribed

end Session

namespace Synchronizer
variable {s s' : Synchronizer} {w : Waiting} {m : BlockAggregatedChanges}
  {answer : Except SynchronizerError (Snapshot × DCIUpdate)}
variable {msg : StateSyncMessage BlockHeader}

/-- The message that starts the synchronization moves the tracker on by an update at most, and has
a snapshot only of what the server answered. -/
structure Started (s : Synchronizer) (m : BlockAggregatedChanges)
    (answer : Except SynchronizerError (Snapshot × DCIUpdate)) (msg : StateSyncMessage BlockHeader)
    (s' : Synchronizer) : Prop where
  tracker : s'.componentTracker = s.componentTracker ∨
    ∃ d, s'.componentTracker = s.componentTracker.processEntrypoints d
  rest : s' = { s with
    lastSyncedBlock := some m.header, componentTracker := s'.componentTracker }
  states : ∀ id ∈ msg.snapshots.states,
    ∃ snapshot d, answer = .ok (snapshot, d) ∧ id ∈ snapshot.states

lemma mem_states_firstMessage {header : BlockHeader} {snapshot : Snapshot}
    {d : BlockAggregatedChanges} {id : ComponentId}
    (h : id ∈ (StateSyncMessage.merge ⟨header, snapshot, none, ∅⟩
      ⟨m.header, default, some d, ∅⟩).snapshots.states) : id ∈ snapshot.states := by
  rcases mem_extend_toList.mp h with h | h
  · exact absurd h (AList.notMem_empty id)
  · obtain ⟨v, hv⟩ := mem_iff_lookup.mp h
    rw [lookup_retain, Option.filter_eq_some_iff] at hv
    exact mem_iff_lookup.mpr ⟨v, hv.1⟩

lemma started_of_startWith (h : s.startWith w answer m = .started msg s') :
    Started s m answer msg s' := by
  unfold startWith at h
  extract_lets header deltasMsg synced snapshotHeader snapshotMsg at h
  by_cases hnext : s.isNextExpected header
  · rw [if_pos hnext] at h
    obtain ⟨rfl, rfl⟩ := FirstDelta.started.inj h
    exact ⟨.inl rfl, rfl, fun id hid => absurd hid (AList.notMem_empty id)⟩
  rw [if_neg hnext] at h
  by_cases hplain : !s.includeSnapshots ∨ s.componentTracker.components.keys = []
  · rw [if_pos hplain] at h
    obtain ⟨rfl, rfl⟩ := FirstDelta.started.inj h
    exact ⟨.inl rfl, rfl,
      fun id hid => absurd (mem_states_firstMessage hid) (AList.notMem_empty id)⟩
  rw [if_neg hplain] at h
  split at h
  · cases h
    exact ⟨.inr ⟨_, rfl⟩, rfl, fun id hid => ⟨_, _, rfl, mem_states_firstMessage hid⟩⟩
  · split_ifs at h
  · cases h

lemma started_of_firstDelta (h : s.firstDelta w answer m = .started msg s') :
    Started s m answer msg s' := by
  unfold firstDelta at h
  extract_lets seen at h
  by_cases hcandidate : !s.isNewBlockCandidate w m
  · rw [if_pos hcandidate] at h
    cases h
  rw [if_neg hcandidate] at h
  by_cases hsynced : s.alreadySynced m.header
  · rw [if_pos hsynced] at h
    cases h
  rw [if_neg hsynced] at h
  exact started_of_startWith h

end Synchronizer

open List Option Synchronizer SnapshotStatus
variable {t : SnapshotTask}

namespace Synchronizer
variable {s : Synchronizer} {poll : Nat → TryRecv} {m : BlockAggregatedChanges} {id : ComponentId}

/-- The queue and the tasks between two deltas. -/
structure Tidy (s : Synchronizer) : Prop where
  staged : ∀ t ∈ s.snapshotTasks, ∀ id ∈ t.componentIds,
    s.snapshotQueue.lookup id = some .inFlight
  inFlight : ∀ id, s.snapshotQueue.lookup id = some .inFlight →
    ∃ t ∈ s.snapshotTasks, id ∈ t.componentIds
  noRetry : ∀ id, s.snapshotQueue.lookup id ≠ some .retryNext
  apart : Apart s.snapshotTasks

inductive Drained (poll : Nat → TryRecv) (s : Synchronizer) (id : ComponentId) :
    Option SnapshotStatus → Prop
  | untouched (hother : ∀ t ∈ s.snapshotTasks, id ∉ t.componentIds) :
      Drained poll s id (s.snapshotQueue.lookup id)
  | ended (t : SnapshotTask) (ht : t ∈ s.snapshotTasks) (hid : id ∈ t.componentIds)
      (hpoll : poll t.receiver ≠ .empty) :
      Drained poll s id (statusAfter none (poll t.receiver))
  | waiting (t : SnapshotTask) (ht : t ∈ s.snapshotTasks) (hid : id ∈ t.componentIds)
      (hpoll : poll t.receiver = .empty) : Drained poll s id (some .inFlight)

/-- A task that has ended leaves its components in none of the states of a wait. -/
lemma statusAfter_none (outcome : TryRecv) : statusAfter none outcome = none ∨
    statusAfter none outcome = some .retryNext ∨ statusAfter none outcome = some .blacklisted := by
  cases outcome with
  | value result =>
    cases result with
    | ok => exact .inl rfl
    | error e => cases htransient : e.isTransient <;> simp [statusAfter, htransient]
  | empty => exact .inl rfl
  | closed => exact .inl rfl

lemma Tidy.drained (h : s.Tidy) (poll : Nat → TryRecv) (m : BlockAggregatedChanges)
    (id : ComponentId) : Drained poll s id ((s.harvest poll m).2.snapshotQueue.lookup id) := by
  by_cases hother : ∀ t ∈ s.snapshotTasks, id ∉ t.componentIds
  · rw [lookup_harvest_other s poll m hother]
    exact .untouched hother
  · push Not at hother
    obtain ⟨t, ht, hid⟩ := hother
    rw [lookup_harvest s poll m h.apart ht hid, h.staged t ht id hid]
    by_cases hpoll : poll t.receiver = .empty
    · rw [hpoll]
      exact .waiting t ht hid hpoll
    · have hstatus : statusAfter (some .inFlight) (poll t.receiver) =
          statusAfter none (poll t.receiver) := by
        cases hvalue : poll t.receiver with
        | value result => cases result <;> rfl
        | empty => exact absurd hvalue hpoll
        | closed => rfl
      rw [hstatus]
      exact .ended t ht hid hpoll

section
variable (toLowercase : String → String) (fresh : Nat) (poll) (s) (m)

lemma lookup_staging (id : ComponentId) : (s.staging toLowercase poll m).2.snapshotQueue.lookup id =
      if (s.harvest poll m).2.snapshotQueue.lookup id = some .retryNext then none
      else (s.harvest poll m).2.snapshotQueue.lookup id :=
  lookup_trulyNew _ _ id

lemma mem_staging : id ∈ (s.staging toLowercase poll m).1 ↔
    (id ∈ (s.crossings toLowercase poll m).1 ∨
      (s.harvest poll m).2.snapshotQueue.lookup id = some .retryNext) ∧
    id ∉ (s.harvest poll m).2.componentTracker.components ∧
    ((s.harvest poll m).2.snapshotQueue.lookup id = none ∨
      (s.harvest poll m).2.snapshotQueue.lookup id = some .retryNext) :=
  mem_trulyNew _

lemma partialBlocks_staging : (s.staging toLowercase poll m).2.partialBlocks = s.partialBlocks :=
  (harvest_keeps s poll m).2.1

lemma nextTask_starting : Starting (s.staging toLowercase poll m).2 fresh
    (s.staging toLowercase poll m).1 m (s.nextTask toLowercase fresh poll m)
    ((s.staging toLowercase poll m).2.startTasks fresh (s.staging toLowercase poll m).1 m) :=
  starting _ fresh _ m

variable {toLowercase fresh poll s m}

section
variable (h : s.nextTask toLowercase fresh poll m = some t)
include h

/-- The new task. With partial blocks it is for the deferred components, at the last complete block;
without, it is for the new ones, at the block of the delta. -/
lemma nextTask_spec : t.receiver = fresh ∧ (∀ id, id ∈ t.componentIds ↔ if s.partialBlocks then
      (s.staging toLowercase poll m).2.snapshotQueue.lookup id = some .deferred
      else id ∈ (s.staging toLowercase poll m).1) ∧
    if s.partialBlocks then t.snapshotBlock + 1 = m.block.number ∧ s.isNewBlock m.header
      else t.snapshotBlock = m.block.number := by
  have hstart := nextTask_starting s poll m toLowercase fresh
  rw [h] at hstart
  generalize startTasks fresh _ _ m = s' at hstart
  cases hstart with
  | firing hpart hblock hpos =>
    rw [partialBlocks_staging] at hpart
    unfold isNewBlock at hblock
    rw [(staging_keeps s poll toLowercase m).2.2.2.1, (harvest_keeps s poll m).1] at hblock
    refine ⟨rfl, fun id => ?_, ?_⟩
    · rw [if_pos hpart]
      exact mem_withStatus
    · rw [if_pos hpart]
      exact ⟨Nat.sub_add_cancel hpos, hblock⟩
  | spawning hpart =>
    rw [partialBlocks_staging] at hpart
    refine ⟨rfl, fun id => ?_, ?_⟩
    · rw [if_neg hpart]
    · rw [if_neg hpart]
      rfl

end

lemma exists_nextTask (fresh : Nat) (hpart : ¬s.partialBlocks)
    (hid : id ∈ (s.staging toLowercase poll m).1) :
    ∃ t, s.nextTask toLowercase fresh poll m = some t := by
  have hstart := nextTask_starting s poll m toLowercase fresh
  rw [← partialBlocks_staging s poll m toLowercase] at hpart
  generalize s.nextTask toLowercase fresh poll m = started at hstart ⊢
  generalize startTasks fresh _ _ m = s' at hstart
  cases hstart with
  | deferring hpart' => exact absurd hpart' hpart
  | firing hpart' => exact absurd hpart' hpart
  | spawning => exact ⟨_, rfl⟩
  | idle _ hnew =>
    rw [hnew] at hid
    cases hid

end

section
variable (toLowercase : String → String) (fresh : Nat)

inductive Restaged (poll : Nat → TryRecv) (s : Synchronizer) (m : BlockAggregatedChanges)
    (id : ComponentId) : Option SnapshotStatus → Prop
  | deferred (hnew : id ∈ (s.staging toLowercase poll m).1) (hpart : s.partialBlocks) :
      Restaged poll s m id (some .deferred)
  | started (t : SnapshotTask) (ht : s.nextTask toLowercase fresh poll m = some t)
      (hid : id ∈ t.componentIds) (hnew : id ∈ (s.staging toLowercase poll m).1 ∨
        (s.harvest poll m).2.snapshotQueue.lookup id = some .deferred) :
      Restaged poll s m id (some .inFlight)
  | dropped (hq : (s.harvest poll m).2.snapshotQueue.lookup id = some .retryNext)
      (hold : id ∉ (s.staging toLowercase poll m).1) : Restaged poll s m id none
  | kept (hq : (s.harvest poll m).2.snapshotQueue.lookup id ≠ some .retryNext)
      (hold : id ∉ (s.staging toLowercase poll m).1) :
      Restaged poll s m id ((s.harvest poll m).2.snapshotQueue.lookup id)

variable (poll) (s) (m)

lemma restaged (id : ComponentId) : Restaged toLowercase fresh poll s m id
    ((s.handleDelta toLowercase fresh poll m).2.snapshotQueue.lookup id) := by
  rw [lookup_handleDelta]
  split_ifs with hnew hpart hfired
  · exact .deferred hnew hpart
  · obtain ⟨t, ht⟩ := exists_nextTask fresh hpart hnew
    refine .started t ht ?_ (.inl hnew)
    rw [(nextTask_spec ht).2.1, if_neg hpart]
    exact hnew
  · obtain ⟨hpart, hsome, hdeferred⟩ := hfired
    obtain ⟨t, ht⟩ := isSome_iff_exists.mp hsome
    refine .started t ht ?_ (.inr ?_)
    · rw [(nextTask_spec ht).2.1, if_pos hpart]
      exact hdeferred
    · rw [lookup_staging] at hdeferred
      split_ifs at hdeferred with hret
      exact hdeferred
  · rw [lookup_staging]
    split_ifs with hret
    · exact .dropped hret hnew
    · exact .kept hret hnew

variable {toLowercase fresh poll s m}

/-- Nothing new is started for a component that waits for its task. -/
lemma notMem_staging_of_inFlight (toLowercase : String → String)
    (hq : (s.harvest poll m).2.snapshotQueue.lookup id = some .inFlight) :
    id ∉ (s.staging toLowercase poll m).1 := by
  rw [mem_staging, hq]
  rintro ⟨-, -, hlookup | hlookup⟩ <;> cases hlookup

lemma mem_pending : t ∈ s.pending poll ↔ t ∈ s.snapshotTasks ∧ poll t.receiver = .empty := by
  rw [pending, mem_filter, decide_eq_true_eq]

lemma Tidy.inFlight_of_pending (h : s.Tidy) (ht : t ∈ s.pending poll) (hid : id ∈ t.componentIds) :
    (s.harvest poll m).2.snapshotQueue.lookup id = some .inFlight := by
  obtain ⟨htasks, hpoll⟩ := mem_pending.mp ht
  rw [lookup_harvest s poll m h.apart htasks hid, h.staged t htasks id hid, hpoll]
  rfl

section
variable (ht : s.nextTask toLowercase fresh poll m = some t) (hid : id ∈ t.componentIds)
include ht hid

lemma not_inFlight_of_nextTask : (s.harvest poll m).2.snapshotQueue.lookup id ≠ some .inFlight := by
  intro hq
  have hids := ((nextTask_spec ht).2.1 id).mp hid
  split_ifs at hids with hpart
  · rw [lookup_staging, hq] at hids
    cases hids
  · exact notMem_staging_of_inFlight _ hq hids

lemma lookup_nextTask :
    (s.handleDelta toLowercase fresh poll m).2.snapshotQueue.lookup id = some .inFlight := by
  have hids := ((nextTask_spec ht).2.1 id).mp hid
  rw [lookup_handleDelta, ht]
  split_ifs at hids with hpart
  · have hnew : id ∉ (s.staging toLowercase poll m).1 := by
      rw [lookup_staging] at hids
      split_ifs at hids
      rw [mem_staging, hids]
      rintro ⟨-, -, hlookup | hlookup⟩ <;> cases hlookup
    rw [if_neg hnew, if_pos ⟨hpart, rfl, hids⟩]
  · rw [if_pos hids, if_neg hpart]

end

/-- A component in flight after draining had its task before, and the task goes on. -/
lemma Tidy.exists_pending (h : s.Tidy)
    (hq : (s.harvest poll m).2.snapshotQueue.lookup id = some .inFlight) :
    ∃ t ∈ s.pending poll, id ∈ t.componentIds := by
  have hdrain := h.drained poll m id
  rw [hq] at hdrain
  generalize hstatus : some SnapshotStatus.inFlight = status at hdrain
  cases hdrain with
  | untouched hother =>
    obtain ⟨t, ht, hid⟩ := h.inFlight id hstatus.symm
    exact absurd hid (hother t ht)
  | ended t =>
    rcases statusAfter_none (poll t.receiver) with hnone | hnone | hnone <;> rw
      [hnone] at hstatus <;>
      cases hstatus
  | waiting t ht hid hpoll => exact ⟨t, mem_pending.mpr ⟨ht, hpoll⟩, hid⟩

lemma Tidy.handleDelta (h : s.Tidy) : (s.handleDelta toLowercase fresh poll m).2.Tidy := by
  have htasks := tasks_handleDelta s poll toLowercase fresh m
  constructor
  · intro t ht id hid
    rw [htasks, mem_append, mem_toList] at ht
    rcases ht with ht | ht
    · have hq := h.inFlight_of_pending (m := m) ht hid
      have hnew := notMem_staging_of_inFlight toLowercase hq
      rw [lookup_handleDelta, if_neg hnew, lookup_staging, hq]
      simp
    · exact lookup_nextTask ht hid
  · intro id hflight
    rw [htasks]
    have hrestaged := restaged s poll m toLowercase fresh id
    rw [hflight] at hrestaged
    generalize hstatus : some SnapshotStatus.inFlight = status at hrestaged
    cases hrestaged with
    | deferred => cases hstatus
    | started t ht hid => exact ⟨t, mem_append_right _ (mem_toList.mpr ht), hid⟩
    | dropped => cases hstatus
    | kept =>
      obtain ⟨t, ht, hid⟩ := h.exists_pending hstatus.symm
      exact ⟨t, mem_append_left _ ht, hid⟩
  · intro id hret
    have hrestaged := restaged s poll m toLowercase fresh id
    rw [hret] at hrestaged
    generalize hstatus : some retryNext = status at hrestaged
    cases hrestaged with
    | deferred => cases hstatus
    | started => cases hstatus
    | dropped => cases hstatus
    | kept hq => exact hq hstatus.symm
  · rw [htasks]
    apply pairwise_append.mpr
    refine ⟨h.apart.sublist filter_sublist, ?_, ?_⟩
    · cases s.nextTask toLowercase fresh poll m with
      | none => exact .nil
      | some t => exact pairwise_singleton _ t
    · intro t ht u hu id hid hid'
      rw [mem_toList] at hu
      exact not_inFlight_of_nextTask hu hid' (h.inFlight_of_pending ht hid)

end
end Synchronizer

namespace Session

@[mk_iff]
structure FetchedFor (t : SnapshotTask) (fetched : SnapshotFetchResult) : Prop where
  components : ∀ id ∈ fetched.components.keys, id ∈ t.componentIds
  states : ∀ id ∈ fetched.snapshot.states.keys, id ∈ fetched.components

instance (t : SnapshotTask) (fetched : SnapshotFetchResult) : Decidable (FetchedFor t fetched) :=
  decidable_of_iff' _ (fetchedFor_iff t fetched)

def Honest (s : Session) : SessionEvent → Prop
  | .delta _ (.ok (snapshot, _)) =>
    ∀ id ∈ snapshot.states.keys, id ∈ s.sync.componentTracker.components
  | .taskEnds receiver (.value (.ok fetched)) =>
    ∀ t ∈ s.sync.snapshotTasks, t.receiver = receiver → FetchedFor t fetched
  | _ => True

instance (s : Session) : (e : SessionEvent) → Decidable (s.Honest e)
  | .delta _ (.ok (snapshot, _)) => inferInstanceAs (Decidable
      (∀ id ∈ snapshot.states.keys, id ∈ s.sync.componentTracker.components))
  | .taskEnds receiver (.value (.ok fetched)) => inferInstanceAs (Decidable
      (∀ t ∈ s.sync.snapshotTasks, t.receiver = receiver → FetchedFor t fetched))
  | .delta _ (.error _) => .isTrue trivial
  | .taskEnds _ (.value (.error _)) => .isTrue trivial
  | .taskEnds _ .empty => .isTrue trivial
  | .taskEnds _ .closed => .isTrue trivial
  | .resubscribe => .isTrue trivial

/-- The tasks agree with the queue and have channels of their own, which hold what they were asked
for once they have ended. -/
structure Sound (s : Session) : Prop where
  tidy : s.sync.Tidy
  receivers : ∀ t ∈ s.sync.snapshotTasks, t.receiver < s.received
  sent : ∀ r ∈ s.sent, r < s.received
  fetched : ∀ t ∈ s.sync.snapshotTasks, ∀ fetched,
    s.poll t.receiver = .value (.ok fetched) → FetchedFor t fetched

variable {s s' : Session} {toLowercase : String → String}

lemma sound_start (includeSnapshots partialBlocks : Bool) (tracker : ComponentTracker) :
    (start { new includeSnapshots partialBlocks tracker.filter with
      componentTracker := tracker }).Sound where
  tidy := {
    staged := fun _ ht => absurd ht not_mem_nil
    inFlight := fun _ hlookup => by cases hlookup
    noRetry := fun _ hlookup => by cases hlookup
    apart := List.Pairwise.nil }
  receivers := fun _ ht => absurd ht not_mem_nil
  sent := fun r hr => absurd hr (AList.notMem_empty r)
  fetched := fun _ ht => absurd ht not_mem_nil

lemma poll_eq_empty (h : ∀ r ∈ s.sent, r < s.received) : s.poll s.received = .empty := by
  have hfresh : s.received ∉ s.sent := fun hmem => lt_irrefl _ (h _ hmem)
  rw [poll, AList.lookup_eq_none.mpr hfresh]
  rfl

lemma poll_insert (s : Session) (receiver : Nat) (outcome : TryRecv) (r : Nat) :
    ({ s with sent := s.sent.insert receiver outcome } : Session).poll r =
      if r = receiver then outcome else s.poll r := by
  unfold poll
  rw [HashMap.lookup_insert_ite]
  split_ifs <;> rfl

/-- The tasks after a delta was handled are old ones or the one that was started. -/
lemma Sound.handled (h : s.Sound) (m : BlockAggregatedChanges) : Sound { s with
    sync := (s.sync.handleDelta toLowercase s.received s.poll m).2
    received := s.received + 1 } := by
  have htasks : ∀ t ∈ (s.sync.handleDelta toLowercase s.received s.poll m).2.snapshotTasks,
      t ∈ s.sync.snapshotTasks ∨ t.receiver = s.received := by
    intro t ht
    rw [tasks_handleDelta, mem_append, mem_toList] at ht
    rcases ht with ht | ht
    · exact .inl (mem_pending.mp ht).1
    · exact .inr (nextTask_spec ht).1
  constructor
  · exact h.tidy.handleDelta
  · intro t ht
    rcases htasks t ht with ht | ht
    · exact Nat.lt_succ_of_lt (h.receivers t ht)
    · exact ht ▸ Nat.lt_succ_self _
  · intro r hr
    exact Nat.lt_succ_of_lt (h.sent r hr)
  · intro t ht fetched hpoll
    rcases htasks t ht with ht | ht
    · exact h.fetched t ht fetched hpoll
    · change s.poll t.receiver = _ at hpoll
      rw [ht, poll_eq_empty h.sent] at hpoll
      cases hpoll

lemma Sound.step {e : SessionEvent} {out : Option (StateSyncMessage BlockHeader)} (h : s.Sound)
    (hhonest : s.Honest e) (hstep : Stepped toLowercase s e out s') : s'.Sound := by
  cases hstep with
  | handled => exact h.handled _
  | passed =>
    exact ⟨h.tidy, fun t ht => Nat.lt_succ_of_lt (h.receivers t ht),
      fun r hr => Nat.lt_succ_of_lt (h.sent r hr), h.fetched⟩
  | started _ hstart =>
    have hsync := (started_of_firstDelta hstart).rest
    rw [hsync]
    exact ⟨⟨h.tidy.staged, h.tidy.inFlight, h.tidy.noRetry, h.tidy.apart⟩,
      fun t ht => Nat.lt_succ_of_lt (h.receivers t ht),
      fun r hr => Nat.lt_succ_of_lt (h.sent r hr), h.fetched⟩
  | @ended _ _ u hu hreceiver _ _ =>
    refine ⟨h.tidy, h.receivers, ?_, ?_⟩
    · intro r hr
      rcases (AList.mem_insert _).mp hr with rfl | hr
      · exact hreceiver ▸ h.receivers u hu
      · exact h.sent r hr
    · intro t ht fetched hpoll
      rw [poll_insert] at hpoll
      split_ifs at hpoll with ht'
      · subst hpoll
        exact hhonest t ht ht'
      · exact h.fetched t ht fetched hpoll
  | resubscribed => exact ⟨h.tidy, h.receivers, h.sent, h.fetched⟩

end Session

end Tycho
