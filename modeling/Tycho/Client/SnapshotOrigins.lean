import Tycho.Client.MessageMerge
import Tycho.Client.Staging
import Tycho.Replay.Chain

/-! A synchronizer and the server that it follows. The server sends blocks and reverts, which reach
the client later or, while there is no subscription, not at all, and answers the snapshot tasks
with the state of its own chain. The snapshots in flight stand where their blocks and the buffer
say. -/
namespace Tycho
open Collections Replay List Option Synchronizer

def servedChain (served : List BlockAggregatedChanges) : List BlockAggregatedChanges :=
  chainOf (·.block.number) (·.revert) served

namespace ConsumerState

def after (base : ConsumerState) (chain : List BlockAggregatedChanges) : ConsumerState :=
  chain.foldl applyDeltas base

def atBlock (base : ConsumerState) (served : List BlockAggregatedChanges) (block : Nat) :
    ConsumerState :=
  base.after ((servedChain served).filter fun x => x.block.number ≤ block)

/-- The messages of a server that describe its chain. A new block is not below the chain, and the
changes of a revert bring back the state of the block that it reverts to. -/
structure Describes (base : ConsumerState) (served : List BlockAggregatedChanges) : Prop where
  ascending : Ascending (·.block.number) (·.revert) served
  restoring : ∀ l m r, served = l ++ m :: r → m.revert = true →
    Same ((base.after (servedChain l)).applyDeltas m) (base.after (servedChain (l ++ [m])))

end ConsumerState

/-- A message that has passed, and whether the main loop has handled it. -/
structure Arrival where
  message : BlockAggregatedChanges
  handled : Bool
deriving DecidableEq

/-- What comes of a snapshot task. The server has sent `served` messages when it answers. -/
inductive TaskOutcome where
  | fetched (served : Nat) (components : HashMap ComponentId ProtocolComponent)
      (contractIds : HashSet Address) (dciUpdate : DCIUpdate)
  | failed (error : SynchronizerError)
  | closed

inductive FollowerEvent where
  | serve (m : BlockAggregatedChanges)
  /-- The next message reaches the client. -/
  | deliver (answer : Except SynchronizerError (Snapshot × DCIUpdate))
  /-- The next message is lost, as there is no subscription. -/
  | miss
  | taskEnds (receiver : Nat) (outcome : TaskOutcome)
  | resubscribe

/-- The session, the messages that have passed it, and those that have been sent but have not
reached it. -/
structure Follower where
  session : Session
  past : List Arrival
  coming : List BlockAggregatedChanges
deriving DecidableEq

namespace Follower

def start (includeSnapshots partialBlocks : Bool) (tracker : ComponentTracker) : Follower where
  session := .start { Synchronizer.new includeSnapshots partialBlocks tracker.filter with
    componentTracker := tracker }
  past := []
  coming := []

def passed (s : Follower) : List BlockAggregatedChanges := s.past.map (·.message)

def served (s : Follower) : List BlockAggregatedChanges := s.passed ++ s.coming

/-- The state of the chain as far as the client could know it. -/
def current (base : ConsumerState) (s : Follower) : ConsumerState :=
  base.after (servedChain s.passed)

/-- The server's answer to a task: the state at the block of the task on the chain as it is. -/
def answer (base : ConsumerState) (s : Follower) (t : SnapshotTask) : TaskOutcome → TryRecv
  | .fetched served components contractIds dciUpdate =>
    let state := base.atBlock (s.served.take served) t.snapshotBlock
    .value (.ok {
      components := components
      contractIds := contractIds
      dciUpdate := dciUpdate
      snapshot := {
        states := state.states.retain fun id _ => id ∈ components
        vmStorage := state.accounts.retain fun a _ => a ∈ contractIds }
      snapshotBlock := t.snapshotBlock })
  | .failed e => .value (.error e)
  | .closed => .closed

/-- The server answers after the message that started the task was sent. The receivers number the
messages that have passed. -/
def Answers (s : Follower) (receiver : Nat) : TaskOutcome → Prop
  | .fetched served _ _ _ => receiver < served ∧ served ≤ s.served.length
  | _ => True

instance (s : Follower) (receiver : Nat) : (outcome : TaskOutcome) →
    Decidable (s.Answers receiver outcome)
  | .fetched served _ _ _ =>
    inferInstanceAs (Decidable (receiver < served ∧ served ≤ s.served.length))
  | .failed _ => .isTrue trivial
  | .closed => .isTrue trivial

variable (toLowercase : String → String) (base : ConsumerState)

def step (s : Follower) : FollowerEvent → Option (Option (StateSyncMessage BlockHeader) × Follower)
  | .serve m => some (none, { s with coming := s.coming ++ [m] })
  | .deliver answer =>
    match s.coming with
    | [] => none
    | m :: rest =>
      let (out, session) := s.session.receive toLowercase m answer
      some (out, ⟨session, s.past ++ [⟨m, s.session.waiting = none⟩], rest⟩)
  | .miss =>
    match s.coming with
    | [] => none
    | m :: rest =>
      if s.session.waiting = none then none
      else some (none, ⟨{ s.session with received := s.session.received + 1 },
        s.past ++ [⟨m, false⟩], rest⟩)
  | .taskEnds receiver outcome =>
    match s.session.sync.snapshotTasks.find? (·.receiver = receiver) with
    | none => none
    | some t =>
      if s.Answers receiver outcome then
        (s.session.step toLowercase (.taskEnds receiver (answer base s t outcome))).map
          fun (out, session) => (out, { s with session := session })
      else none
  | .resubscribe => (s.session.step toLowercase .resubscribe).map
      fun (out, session) => (out, { s with session := session })

inductive Stepped (s : Follower) :
    FollowerEvent → Option (StateSyncMessage BlockHeader) → Follower → Prop
  | served (m : BlockAggregatedChanges) :
      Stepped s (.serve m) none { s with coming := s.coming ++ [m] }
  | delivered {m : BlockAggregatedChanges} {rest : List BlockAggregatedChanges}
      {answer : Except SynchronizerError (Snapshot × DCIUpdate)}
      {out : Option (StateSyncMessage BlockHeader)} {session : Session}
      (hcoming : s.coming = m :: rest)
      (hreceive : Session.Stepped toLowercase s.session (.delta m answer) out session) :
      Stepped s (.deliver answer) out ⟨session, s.past ++ [⟨m, s.session.waiting = none⟩], rest⟩
  | missed {m : BlockAggregatedChanges} {rest : List BlockAggregatedChanges}
      (hcoming : s.coming = m :: rest) (hwaiting : s.session.waiting ≠ none) :
      Stepped s .miss none ⟨{ s.session with received := s.session.received + 1 },
        s.past ++ [⟨m, false⟩], rest⟩
  | ended {receiver : Nat} {outcome : TaskOutcome} {t : SnapshotTask}
      (ht : t ∈ s.session.sync.snapshotTasks) (hreceiver : t.receiver = receiver)
      (hanswers : s.Answers receiver outcome) :
      Stepped s (.taskEnds receiver outcome) none { s with session := { s.session with
        sent := s.session.sent.insert receiver (answer base s t outcome) } }
  | resubscribed : Stepped s .resubscribe none
      { s with session := { s.session with waiting := some ⟨none, 0⟩ } }

lemma stepped_of_step {toLowercase : String → String} {base : ConsumerState} {s s' : Follower}
    {e : FollowerEvent} {out : Option (StateSyncMessage BlockHeader)}
    (h : s.step toLowercase base e = some (out, s')) : Stepped toLowercase base s e out s' := by
  cases e with
  | serve m =>
    cases h
    exact .served m
  | deliver =>
    unfold step at h
    cases hcoming : s.coming with
    | nil =>
      rw [hcoming] at h
      cases h
    | cons =>
      rw [hcoming] at h
      cases h
      exact .delivered hcoming (Session.stepped_of_step rfl)
  | miss =>
    unfold step at h
    cases hcoming : s.coming with
    | nil =>
      rw [hcoming] at h
      cases h
    | cons =>
      rw [hcoming] at h
      dsimp only at h
      split_ifs at h with hwaiting
      cases h
      exact .missed hcoming hwaiting
  | taskEnds receiver =>
    unfold step at h
    dsimp only at h
    cases hfind : s.session.sync.snapshotTasks.find? (·.receiver = receiver) with
    | none =>
      rw [hfind] at h
      cases h
    | some t =>
      rw [hfind] at h
      dsimp only at h
      split_ifs at h with hanswers
      obtain ⟨⟨out', session⟩, hsession, heq⟩ := Option.map_eq_some_iff.mp h
      cases heq
      have hreceiver : t.receiver = receiver := by simpa using List.find?_some hfind
      cases Session.stepped_of_step hsession with
      | ended => exact .ended (List.mem_of_find?_eq_some hfind) hreceiver hanswers
  | resubscribe =>
    cases h
    exact .resubscribed

end Follower

variable {base : ConsumerState}

namespace ConsumerState
variable {l r : List BlockAggregatedChanges} {F K V : Type}

lemma Describes.left (h : base.Describes (l ++ r)) : base.Describes l where
  ascending := fun l₁ m l₂ heq => h.ascending l₁ m (l₂ ++ r) (by rw [heq]; simp)
  restoring := fun l₁ m l₂ heq => h.restoring l₁ m (l₂ ++ r) (by rw [heq]; simp)

/-- A part of the state that deltas overwrite, and that equal states agree on. -/
structure Seen (obs : ConsumerState → Option (F × (K → V)))
    (write : BlockAggregatedChanges → K → Option V) : Prop where
  applied : ∀ c d, obs (c.applyDeltas d) = (obs c).map (overwrite (write d))
  same : ∀ c c', Same c c' → obs c = obs c'

/-- The messages lead from the state at the end of an earlier chain to the one of the chain. -/
lemma Describes.obs_append {obs : ConsumerState → Option (F × (K → V))}
    {write : BlockAggregatedChanges → K → Option V} (h : base.Describes (l ++ r))
    (hseen : Seen obs write) :
    obs (base.after (servedChain (l ++ r))) = r.foldl (fun v d => v.map (overwrite (write d)))
      (obs (base.after (servedChain l))) := by
  have hafter : ∀ chain, obs (base.after chain) =
      chain.foldl (fun v d => v.map (overwrite (write d))) (obs base) := by
    intro chain
    exact (foldl_hom obs fun c d => (hseen.applied c d).symm).symm
  rw [hafter, hafter]
  apply foldl_chainOf_append
  intro l₁ m l₂ heq hrev
  have hrestore := hseen.same _ _ (h.restoring l₁ m l₂ heq hrev)
  rw [hseen.applied, hafter, hafter] at hrestore
  exact hrestore

end ConsumerState

variable {x : Arrival} {served : Nat} {out : Option (StateSyncMessage BlockHeader)}

variable {u : SnapshotTask} {e : FollowerEvent}

namespace Follower
variable {s s' : Follower} {t : SnapshotTask} {m : BlockAggregatedChanges}

/-- The number of messages that had passed when the snapshot of the task was due: with partial
blocks the message that started the task is not part of the snapshot's block. -/
def origin (s : Follower) (t : SnapshotTask) : Nat :=
  if s.session.sync.partialBlocks then t.receiver else t.receiver + 1

def Above (s : Follower) (m : BlockAggregatedChanges) : Prop :=
  ∀ t ∈ s.session.sync.snapshotTasks, t.snapshotBlock < m.block.number

/-- If the message starts a task, no buffered delta is above the block of its snapshot. -/
def Unmixed (toLowercase : String → String) (s : Follower) (m : BlockAggregatedChanges) : Prop :=
  ∀ t ∈ s.session.sync.nextTask toLowercase s.session.received s.session.poll m,
    ∀ d ∈ s.session.sync.bufferedDeltas, d.block.number ≤ t.snapshotBlock

/-- While a snapshot is fetched, no message at or below its block passes, and the server's answer
has seen none. -/
def Steady (toLowercase : String → String) (s : Follower) : FollowerEvent → Prop
  | .deliver _ => ∀ m ∈ s.coming.head?, s.Above m ∧
    (s.session.waiting = none → s.Unmixed toLowercase m)
  | .miss => ∀ m ∈ s.coming.head?, s.Above m
  | .taskEnds receiver (.fetched served _ _ _) =>
    ∀ t ∈ s.session.sync.snapshotTasks, t.receiver = receiver →
      ∀ m ∈ s.coming.take (served - s.past.length), t.snapshotBlock < m.block.number
  | _ => True

/-- What a task has fetched is the state of the chain at its origin. -/
structure FetchedAt (base : ConsumerState) (s : Follower) (t : SnapshotTask)
    (fetched : SnapshotFetchResult) : Prop where
  block : fetched.snapshotBlock = t.snapshotBlock
  states : ∀ id cws, fetched.snapshot.states.lookup id = some cws →
    (base.after (servedChain (s.passed.take (s.origin t)))).states.lookup id = some cws
  accounts : ∀ a account, fetched.snapshot.vmStorage.lookup a = some account →
    a ∈ fetched.contractIds ∧
      (base.after (servedChain (s.passed.take (s.origin t)))).accounts.lookup a = some account

structure Tracks (base : ConsumerState) (s : Follower) (t : SnapshotTask) : Prop where
  receiver : t.receiver < s.past.length
  above : ∀ x ∈ s.past.drop (s.origin t), t.snapshotBlock < x.message.block.number
  below : ∀ x ∈ servedChain (s.passed.take (s.origin t)), x.block.number ≤ t.snapshotBlock
  buffer : s.session.sync.bufferedDeltas.filter (fun d => t.snapshotBlock < d.block.number) =
    ((s.past.drop (s.origin t)).filter (·.handled)).map (·.message)
  fetched : ∀ fetched, s.session.poll t.receiver = .value (.ok fetched) → FetchedAt base s t fetched

structure Inv (base : ConsumerState) (s : Follower) : Prop where
  counted : s.session.received = s.past.length
  sent : ∀ r ∈ s.session.sent, r < s.session.received
  distinct : s.session.sync.snapshotTasks.Pairwise fun t u => t.receiver ≠ u.receiver
  tracks : ∀ t ∈ s.session.sync.snapshotTasks, Tracks base s t
  last : s.session.waiting = none → ∃ past x, s.past = past ++ [x] ∧
    s.session.sync.lastSyncedBlock = some x.message.header

lemma Inv.start (base : ConsumerState) (includeSnapshots partialBlocks : Bool)
    (tracker : ComponentTracker) : Inv base (start includeSnapshots partialBlocks tracker) where
  counted := rfl
  sent := fun r hr => absurd hr (AList.notMem_empty r)
  distinct := List.Pairwise.nil
  tracks := fun _ ht => absurd ht not_mem_nil
  last := fun hwaiting => by cases hwaiting

lemma origin_le (h : t.receiver < s.past.length) : s.origin t ≤ s.past.length := by
  unfold origin
  split_ifs <;> omega

structure Passes (s s' : Follower) (x : Arrival) : Prop where
  past : s'.past = s.past ++ [x]
  part : s'.session.sync.partialBlocks = s.session.sync.partialBlocks
  sent : s'.session.sent = s.session.sent

section
variable (h : Passes s s' x) (ht : t.receiver < s.past.length)
include h ht

lemma Passes.drop : s'.past.drop (s'.origin t) = s.past.drop (s.origin t) ++ [x] := by
  have horigin : s'.origin t = s.origin t := by rw [origin, origin, h.part]
  rw [h.past, horigin, drop_append_of_le_length (origin_le ht)]

lemma Passes.take : s'.passed.take (s'.origin t) = s.passed.take (s.origin t) := by
  have horigin : s'.origin t = s.origin t := by rw [origin, origin, h.part]
  have hle : s.origin t ≤ (s.past.map (·.message)).length := by
    rw [length_map]
    exact origin_le ht
  rw [passed, h.past, horigin, map_append, take_append_of_le_length hle]
  rfl

end

/-- A task stays up to date when a message passes above its block. -/
lemma Tracks.passes {base : ConsumerState} (h : Tracks base s t) (hpasses : Passes s s' x)
    (habove : t.snapshotBlock < x.message.block.number)
    (hbuffer : s'.session.sync.bufferedDeltas.filter (fun d => t.snapshotBlock < d.block.number) =
      s.session.sync.bufferedDeltas.filter (fun d => t.snapshotBlock < d.block.number) ++
        ([x].filter (·.handled)).map (·.message)) : Tracks base s' t where
  receiver := by
    have hlt := h.receiver
    rw [hpasses.past, length_append]
    omega
  above := by
    intro y hy
    rw [hpasses.drop h.receiver, mem_append] at hy
    rcases hy with hy | hy
    · exact h.above y hy
    · rw [mem_singleton.mp hy]
      exact habove
  below := by
    rw [hpasses.take h.receiver]
    exact h.below
  buffer := by
    rw [hbuffer, h.buffer, hpasses.drop h.receiver, filter_append, map_append]
  fetched := by
    intro fetched hpoll
    have hpoll' : s.session.poll t.receiver = .value (.ok fetched) := by
      unfold Session.poll at hpoll ⊢
      rwa [hpasses.sent] at hpoll
    obtain ⟨hblock, hstates, haccounts⟩ := h.fetched fetched hpoll'
    rw [← hpasses.take h.receiver] at hstates haccounts
    exact ⟨hblock, hstates, haccounts⟩

section
variable (toLowercase : String → String)

def handled (s : Follower) (m : BlockAggregatedChanges) (rest : List BlockAggregatedChanges) :
    Follower where
  session := { s.session with
    sync := (s.session.sync.handleDelta toLowercase s.session.received s.session.poll m).2
    received := s.session.received + 1 }
  past := s.past ++ [⟨m, true⟩]
  coming := rest

variable {toLowercase} {rest : List BlockAggregatedChanges}

lemma passes_handled : Passes s (s.handled toLowercase m rest) ⟨m, true⟩ where
  past := rfl
  part := (handleDelta_keeps s.session.sync s.session.poll toLowercase s.session.received m).1
  sent := rfl

/-- The deltas above a block that is not below the one of a pending task. -/
lemma buffer_handled (hu : u ∈ s.session.sync.pending s.session.poll) {block : Nat}
    (hblock : u.snapshotBlock ≤ block) :
    (s.handled toLowercase m rest).session.sync.bufferedDeltas.filter
        (fun d => block < d.block.number) =
      (s.session.sync.bufferedDeltas ++ [m]).filter fun d => block < d.block.number := by
  have hpending : s.session.sync.pending s.session.poll ≠ [] := ne_nil_of_mem hu
  have htasks : s.session.sync.snapshotTasks ≠ [] :=
    ne_nil_of_mem (mem_pending.mp hu).1
  change (handleDelta ..).2.bufferedDeltas.filter _ = _
  rw [bufferedDeltas_handleDelta, if_neg fun h => hpending h.2,
    bufferedDeltas_harvest _ _ _ hu hblock, buffered, if_neg htasks]

lemma Tracks.handled (h : Tracks base s t) (ht : t ∈ s.session.sync.pending s.session.poll)
    (habove : t.snapshotBlock < m.block.number) :
    Tracks base (s.handled toLowercase m rest) t := by
  apply h.passes passes_handled habove
  rw [buffer_handled ht (le_refl _), filter_append]
  simp [habove]

lemma buffer_started (habove : s.Above m) (hunmixed : s.Unmixed toLowercase m)
    (ht : s.session.sync.nextTask toLowercase s.session.received s.session.poll m = some t)
    (hblock : m.block.number ≤ t.snapshotBlock + 1) :
    (s.handled toLowercase m rest).session.sync.bufferedDeltas.filter
        (fun d => t.snapshotBlock < d.block.number) =
      [m].filter fun d => t.snapshotBlock < d.block.number := by
  cases hpending : s.session.sync.pending s.session.poll with
  | nil =>
    change (handleDelta ..).2.bufferedDeltas.filter _ = _
    rw [bufferedDeltas_handleDelta, ht, if_pos ⟨rfl, hpending⟩,
      bufferedDeltas_harvest_nil _ _ _ hpending, nil_append]
  | cons u =>
    have hu : u ∈ s.session.sync.pending s.session.poll := by simp [hpending]
    have hlt := habove u (mem_pending.mp hu).1
    rw [buffer_handled hu (by omega), filter_append, filter_eq_nil_iff.mpr, nil_append]
    intro d hd
    have hle := hunmixed t ht d hd
    simp only [decide_eq_true_eq, not_lt]
    exact hle

section
variable (h : Inv base s) (hascending : Ascending (·.block.number) (·.revert) (s.passed ++ [m]))
  (hwaiting : s.session.waiting = none) (habove : s.Above m) (hunmixed : s.Unmixed toLowercase m)
include h hascending hwaiting habove hunmixed

lemma Inv.tracks_started
    (ht : s.session.sync.nextTask toLowercase s.session.received s.session.poll m = some t) :
    Tracks base (s.handled toLowercase m rest) t := by
  have hreceiver : t.receiver = s.past.length := by
    rw [(nextTask_spec ht).1, h.counted]
  have hfresh : ∀ fetched, (s.handled toLowercase m rest).session.poll t.receiver ≠
      .value (.ok fetched) := by
    intro fetched hpoll
    change s.session.poll t.receiver = _ at hpoll
    rw [hreceiver, ← h.counted, Session.poll_eq_empty h.sent] at hpoll
    cases hpoll
  have hpassed : (s.handled toLowercase m rest).passed = s.passed ++ [m] := by
    change (s.past ++ [_]).map _ = _
    rw [map_append]
    rfl
  have hlen : s.passed.length = s.past.length := length_map _
  have hkeeps : (s.handled toLowercase m rest).session.sync.partialBlocks =
      s.session.sync.partialBlocks := passes_handled.part
  have hlt : t.receiver < (s.handled toLowercase m rest).past.length := by
    change _ < (s.past ++ [_]).length
    rw [hreceiver, length_append, length_singleton]
    omega
  have hblock := (nextTask_spec ht).2.2
  split_ifs at hblock with hpart
  · -- The task starts before the message: only the message is later.
    obtain ⟨hnum, hnew⟩ := hblock
    have horigin : (s.handled toLowercase m rest).origin t = s.past.length := by
      rw [origin, hkeeps, if_pos hpart, hreceiver]
    have hdrop : (s.handled toLowercase m rest).past.drop s.past.length = [⟨m, true⟩] :=
      drop_left
    obtain ⟨past, x, hpast, hlast⟩ := h.last hwaiting
    refine ⟨hlt, ?_, ?_, ?_, fun fetched hpoll => absurd hpoll (hfresh fetched)⟩
    · intro y hy
      rw [horigin, hdrop, mem_singleton] at hy
      rw [hy]
      change _ < m.block.number
      omega
    · intro y hy
      have hpassed' : s.passed = past.map (·.message) ++ [x.message] := by
        rw [passed, hpast, map_append]
        rfl
      have hearlier : Ascending (·.block.number) (·.revert) s.passed := fun l₁ m' l₂ heq =>
        hascending l₁ m' (l₂ ++ [m]) (by rw [heq]; simp)
      rw [horigin, hpassed, ← hlen, take_left] at hy
      rw [hpassed'] at hearlier hy
      have hle := hearlier.number_le hy
      have hless : x.message.block.number < m.block.number := by
        unfold isNewBlock at hnew
        rw [hlast] at hnew
        exact of_decide_eq_true hnew
      omega
    · rw [buffer_started habove hunmixed ht (by omega), horigin, hdrop]
      have hmem : t.snapshotBlock < m.block.number := by omega
      simp [hmem]
  · have horigin : (s.handled toLowercase m rest).origin t = s.past.length + 1 := by
      rw [origin, hkeeps, if_neg hpart, hreceiver]
    have hdrop : (s.handled toLowercase m rest).past.drop (s.past.length + 1) = [] := by
      apply drop_eq_nil_of_le
      change (s.past ++ [_]).length ≤ _
      simp
    refine ⟨hlt, ?_, ?_, ?_, fun fetched hpoll => absurd hpoll (hfresh fetched)⟩
    · intro y hy
      rw [horigin, hdrop] at hy
      cases hy
    · intro y hy
      rw [horigin, hpassed, take_of_length_le (by simp [hlen])] at hy
      have hle := hascending.number_le hy
      omega
    · rw [buffer_started habove hunmixed ht (by omega), horigin, hdrop]
      simp [hblock]

lemma Inv.handled : Inv base (s.handled toLowercase m rest) := by
  have htasks : (s.handled toLowercase m rest).session.sync.snapshotTasks =
      s.session.sync.pending s.session.poll ++
        (s.session.sync.nextTask toLowercase s.session.received s.session.poll m).toList :=
    tasks_handleDelta ..
  constructor
  · change s.session.received + 1 = (s.past ++ [_]).length
    rw [length_append, h.counted]
    rfl
  · intro r hr
    exact Nat.lt_succ_of_lt (h.sent r hr)
  · rw [htasks]
    apply pairwise_append.mpr
    refine ⟨h.distinct.sublist filter_sublist, ?_, ?_⟩
    · cases s.session.sync.nextTask toLowercase s.session.received s.session.poll m with
      | none => exact .nil
      | some t => exact pairwise_singleton _ t
    · intro t ht u hu
      rw [mem_toList] at hu
      have hlt := (h.tracks t (mem_pending.mp ht).1).receiver
      rw [(nextTask_spec hu).1, h.counted]
      omega
  · intro t ht
    rw [htasks, mem_append, mem_toList] at ht
    rcases ht with ht | ht
    · have htask := (mem_pending.mp ht).1
      exact (h.tracks t htask).handled ht (habove t htask)
    · exact h.tracks_started hascending hwaiting habove hunmixed ht
  · intro _
    exact ⟨s.past, ⟨m, true⟩, rfl, (handleDelta_keeps s.session.sync s.session.poll
      toLowercase s.session.received m).2.1⟩

end

end

section
variable {toLowercase : String → String}

/-- A message passes that the main loop does not handle. -/
lemma Inv.unhandled (h : Inv base s) (hpasses : Passes s s' ⟨m, false⟩) (habove : s.Above m)
    (hgot : s'.session.received = s.session.received + 1)
    (htasks : s'.session.sync.snapshotTasks = s.session.sync.snapshotTasks)
    (hbuffer : s'.session.sync.bufferedDeltas = s.session.sync.bufferedDeltas)
    (hlast : s'.session.waiting = none → s'.session.sync.lastSyncedBlock = some m.header) :
    Inv base s' where
  counted := by
    rw [hgot, hpasses.past, length_append, h.counted]
    rfl
  sent := by
    rw [hpasses.sent, hgot]
    intro r hr
    exact Nat.lt_succ_of_lt (h.sent r hr)
  distinct := by
    rw [htasks]
    exact h.distinct
  tracks := by
    rw [htasks]
    intro t ht
    apply (h.tracks t ht).passes hpasses (habove t ht)
    rw [hbuffer]
    simp
  last := fun hwaiting => ⟨s.past, _, hpasses.past, hlast hwaiting⟩

/-- The messages up to the server's answer, from the origin of a task on. -/
lemma mem_drop_take_served {x : BlockAggregatedChanges} {o : Nat}
    (hx : x ∈ (s.served.take served).drop o) :
    (∃ y ∈ s.past.drop o, y.message = x) ∨ x ∈ s.coming.take (served - s.past.length) := by
  rw [Follower.served, take_append, drop_append] at hx
  rcases mem_append.mp hx with hx | hx
  · left
    rw [drop_take] at hx
    have hmem := mem_of_mem_take hx
    rw [passed, ← map_drop] at hmem
    exact mem_map.mp hmem
  · right
    have hlen : s.passed.length = s.past.length := length_map _
    rw [hlen] at hx
    exact mem_of_mem_drop hx

section
variable (h : Tracks base s t) (hserves : t.receiver < served)
  (hcomps : ∀ m ∈ s.coming.take (served - s.past.length), t.snapshotBlock < m.block.number)
include h hserves hcomps

/-- The server's answer is the state at the origin of the task. -/
lemma Tracks.atBlock_eq : base.atBlock (s.served.take served) t.snapshotBlock =
      base.after (servedChain (s.passed.take (s.origin t))) := by
  have hlen : s.passed.length = s.past.length := length_map _
  have horigin := origin_le h.receiver
  have hle : s.origin t ≤ served := by
    unfold origin
    split_ifs <;> omega
  have hsplit : s.served.take served =
      s.passed.take (s.origin t) ++ (s.served.take served).drop (s.origin t) := by
    conv_lhs => rw [← take_append_drop (s.origin t) (s.served.take served)]
    rw [take_take, min_eq_left hle, Follower.served, take_append_of_le_length (hlen ▸ horigin)]
  have hrest : ∀ x ∈ (s.served.take served).drop (s.origin t),
      t.snapshotBlock < x.block.number := by
    intro x hx
    rcases mem_drop_take_served hx with ⟨y, hy, rfl⟩ | hx
    · exact h.above y hy
    · exact hcomps x hx
  unfold ConsumerState.atBlock servedChain
  rw [hsplit, filter_chainOf_append _ hrest, filter_eq_self.mpr]
  intro x hx
  exact decide_eq_true (h.below x hx)

lemma Tracks.fetchedAt_answer {components : HashMap ComponentId ProtocolComponent}
    {contractIds : HashSet Address} {dciUpdate : DCIUpdate} {fetched : SnapshotFetchResult}
    (hanswer : answer base s t (.fetched served components contractIds dciUpdate) =
      .value (.ok fetched)) : FetchedAt base s t fetched := by
  cases hanswer
  rw [h.atBlock_eq hserves hcomps]
  constructor
  · rfl
  · intro id cws hlookup
    rw [HashMap.lookup_retain, filter_eq_some_iff] at hlookup
    exact hlookup.1
  · intro a account hlookup
    rw [HashMap.lookup_retain, filter_eq_some_iff] at hlookup
    exact ⟨of_decide_eq_true hlookup.2, hlookup.1⟩

end

section
variable (h : Inv base s)
include h

lemma Inv.taskEnds {receiver : Nat} {outcome : TaskOutcome}
    (hu : u ∈ s.session.sync.snapshotTasks) (hreceiver : u.receiver = receiver)
    (hanswers : s.Answers receiver outcome)
    (hsteady : s.Steady toLowercase (.taskEnds receiver outcome)) :
    Inv base { s with session := { s.session with
      sent := s.session.sent.insert receiver (answer base s u outcome) } } where
  counted := h.counted
  sent := by
    intro r hr
    rcases (AList.mem_insert _).mp hr with rfl | hr
    · have hlt := (h.tracks u hu).receiver
      rw [hreceiver, ← h.counted] at hlt
      exact hlt
    · exact h.sent r hr
  distinct := h.distinct
  tracks := by
    intro t ht
    obtain ⟨hlt, habove, hbelow, hbuffer, hfetch⟩ := h.tracks t ht
    refine ⟨hlt, habove, hbelow, hbuffer, fun fetched hpoll => ?_⟩
    rw [Session.poll_insert] at hpoll
    split_ifs at hpoll with htr
    · have htu : t = u := by
        by_contra hne
        have : Std.Symm fun t u : SnapshotTask => t.receiver ≠ u.receiver := ⟨fun _ _ => Ne.symm⟩
        exact h.distinct.forall ht hu hne (htr.trans hreceiver.symm)
      subst htu
      cases outcome with
      | fetched =>
        have hfetch := (h.tracks t ht).fetchedAt_answer (hreceiver ▸ hanswers.1)
          (hsteady t ht hreceiver) hpoll
        exact ⟨hfetch.block, hfetch.states, hfetch.accounts⟩
      | failed => cases hpoll
      | closed => cases hpoll
    · have hfetch := hfetch fetched hpoll
      exact ⟨hfetch.block, hfetch.states, hfetch.accounts⟩
  last := h.last

/-- The follower after a change of the subscription or of the messages to come. -/
lemma Inv.unmoved (hpast : s'.past = s.past)
    (hsync : s'.session.sync = s.session.sync) (hsent : s'.session.sent = s.session.sent)
    (hgot : s'.session.received = s.session.received)
    (hwaiting : s'.session.waiting = none → s.session.waiting = none) : Inv base s' := by
  obtain ⟨⟨sync, waiting, sent, received⟩, past, coming⟩ := s'
  cases hpast
  cases hsync
  cases hsent
  cases hgot
  refine ⟨h.counted, h.sent, h.distinct, fun t ht => ?_, fun hnone => h.last (hwaiting hnone)⟩
  obtain ⟨hlt, habove, hbelow, hbuffer, hfetch⟩ := h.tracks t ht
  refine ⟨hlt, habove, hbelow, hbuffer, fun fetched hpoll => ?_⟩
  have hfetch := hfetch fetched hpoll
  exact ⟨hfetch.block, hfetch.states, hfetch.accounts⟩

lemma Inv.deliver {answer : Except SynchronizerError (Snapshot × DCIUpdate)} {session : Session}
    {rest : List BlockAggregatedChanges}
    (hascending : Ascending (·.block.number) (·.revert) (s.passed ++ [m])) (habove : s.Above m)
    (hunmixed : s.session.waiting = none → s.Unmixed toLowercase m)
    (hreceive : Session.Stepped toLowercase s.session (.delta m answer) out session) :
    Inv base ⟨session, s.past ++ [⟨m, s.session.waiting = none⟩], rest⟩ := by
  cases hreceive with
  | handled hwaiting =>
    rw [decide_eq_true hwaiting]
    exact h.handled hascending hwaiting habove (hunmixed hwaiting)
  | passed hwaiting =>
    rw [decide_eq_false hwaiting]
    exact h.unhandled ⟨rfl, rfl, rfl⟩ habove rfl rfl rfl fun hnone => by cases hnone
  | @started _ _ _ sync _ hwaiting hstart =>
    have hwaiting' : s.session.waiting ≠ none := by simp [hwaiting]
    rw [decide_eq_false hwaiting']
    have hrest := (started_of_firstDelta hstart).rest
    have hpart : sync.partialBlocks = s.session.sync.partialBlocks := by rw [hrest]
    have htasks : sync.snapshotTasks = s.session.sync.snapshotTasks := by rw [hrest]
    have hbuffer : sync.bufferedDeltas = s.session.sync.bufferedDeltas := by rw [hrest]
    have hlast : sync.lastSyncedBlock = some m.header := by rw [hrest]
    exact h.unhandled ⟨rfl, hpart, rfl⟩ habove rfl htasks hbuffer fun _ => hlast

lemma Inv.step (hdescribes : base.Describes s'.served)
    (hsteady : s.Steady toLowercase e) (hstep : Stepped toLowercase base s e out s') :
    Inv base s' := by
  cases hstep with
  | served => exact h.unmoved rfl rfl rfl rfl id
  | @delivered m rest _ _ _ hcomps hreceiver =>
    obtain ⟨habove, hunmixed⟩ := hsteady m (by rw [hcomps]; rfl)
    have hserves : base.Describes ((s.passed ++ [m]) ++ rest) := by
      simpa [served, passed] using hdescribes
    exact h.deliver hserves.left.ascending habove hunmixed hreceiver
  | @missed m _ hcomps hwaiting =>
    have habove := hsteady m (by rw [hcomps]; rfl)
    exact h.unhandled ⟨rfl, rfl, rfl⟩ habove rfl rfl rfl fun hnone => absurd hnone hwaiting
  | ended ht hreceived hanswers => exact h.taskEnds ht hreceived hanswers hsteady
  | resubscribed => exact h.unmoved rfl rfl rfl rfl fun hnone => by cases hnone

end

lemma served_of_stepped (hstep : Stepped toLowercase base s e out s') :
    ∃ sent, s'.served = s.served ++ sent := by
  cases hstep with
  | served m => exact ⟨[m], (append_assoc ..).symm⟩
  | delivered hcomps => exact ⟨[], by simp [served, passed, hcomps]⟩
  | missed hcomps => exact ⟨[], by simp [served, passed, hcomps]⟩
  | ended => exact ⟨[], (append_nil _).symm⟩
  | resubscribed => exact ⟨[], (append_nil _).symm⟩

end

end Follower

end Tycho
