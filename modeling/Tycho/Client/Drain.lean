import Tycho.Client.Synchronizer
import Tycho.Client.TrackedContracts

/-! What an iteration of the synchronizer does to the tracked components, to the queue of the
components that wait for a snapshot, and to the tasks. -/
namespace Tycho
open Collections HashMap List AList ComponentTracker

variable (t : ComponentTracker)

namespace ComponentTracker

@[simp] lemma components_processEntrypoints (d : DCIUpdate) :
    (t.processEntrypoints d).components = t.components :=
  (processEntrypoints_processed t d).components

lemma filter_processEntrypoints (d : DCIUpdate) : (t.processEntrypoints d).filter = t.filter := by
  rw [processEntrypoints_eq]
  exact Replay.foldl_keeps filter addLink (fun _ _ => rfl) _ _

lemma mem_drainSnapshot {t : ComponentTracker}
    {added : HashMap ComponentId ProtocolComponent} {d : DCIUpdate} {id : ComponentId} :
    id ∈ (t.drainSnapshot added d).components ↔ id ∈ t.components ∨ id ∈ added := by
  rw [(drainSnapshot_extends t added d).components, mem_extend_toList, or_comm]

lemma lookup_foldl_removeComponent (ids : List ComponentId)
    (acc : HashMap ComponentId ProtocolComponent × HashMap ComponentId ProtocolComponent)
    (id : ComponentId) :
    (id ∈ (ids.foldl removeComponent acc).1 ↔ id ∈ acc.1 ∧ id ∉ ids) ∧
      (id ∈ (ids.foldl removeComponent acc).2 ↔ id ∈ acc.2 ∨ id ∈ acc.1 ∧ id ∈ ids) := by
  induction ids generalizing acc with
  | nil => simp
  | cons c _ ih =>
    have hstep : (id ∈ (removeComponent acc c).1 ↔ id ∈ acc.1 ∧ id ≠ c) ∧
        (id ∈ (removeComponent acc c).2 ↔ id ∈ acc.2 ∨ id ∈ acc.1 ∧ id = c) := by
      unfold removeComponent
      cases hc : acc.1.lookup c with
      | none =>
        have habsent : c ∉ acc.1 := lookup_eq_none.mp hc
        by_cases hid : id = c
        · subst hid
          simp [habsent]
        · simp [hid]
      | some component =>
        have hpresent : c ∈ acc.1 := HashMap.mem_iff_lookup.mpr ⟨component, hc⟩
        by_cases hid : id = c
        · subst hid
          simp [hpresent]
        · simp [hid]
    obtain ⟨h₁, h₂⟩ := ih (removeComponent acc c)
    rw [foldl_cons, h₁, h₂, hstep.1, hstep.2, mem_cons, not_or, and_assoc]
    refine ⟨Iff.rfl, ?_⟩
    by_cases hid : id = c
    · simp [hid]
    · simp [hid]

section
variable {toLowercase : String → String} {t : ComponentTracker} {removeTvl addTvl : F64}
  {blocklisted : HashSet ComponentId} {m : BlockAggregatedChanges} {id : ComponentId}

lemma filterUpdatedComponents_eq
    (h : t.filter.variant = .minimumTVLRange (removeTvl, addTvl) blocklisted) :
    t.filterUpdatedComponents toLowercase m =
      let crossed := (m.componentTvl.toList.filter fun e => e.2 < removeTvl ∨ addTvl < e.2).map
        Prod.fst
      let above (id : ComponentId) : Bool := (m.componentTvl.lookup id).any fun tvl => addTvl < tvl
      ((crossed.filter above).filter fun id => !t.filter.isBlocklisted toLowercase id,
        t.components.keys.foldl (fun toRemove id =>
          if t.filter.isBlocklisted toLowercase id ∧ id ∉ toRemove then toRemove ++ [id]
          else toRemove) (crossed.filter (not ∘ above))) := by
  unfold filterUpdatedComponents
  rw [h]
  dsimp only
  rw [partition_eq_filter_filter]

lemma mem_crossed : id ∈ (m.componentTvl.toList.filter fun e =>
      e.2 < removeTvl ∨ addTvl < e.2).map Prod.fst ↔
    ∃ tvl, m.componentTvl.lookup id = some tvl ∧ (tvl < removeTvl ∨ addTvl < tvl) := by
  rw [mem_map]
  constructor
  · rintro ⟨⟨c, tvl⟩, he, rfl⟩
    obtain ⟨hmem, hcrossed⟩ := mem_filter.mp he
    exact ⟨tvl, HashMap.mem_toList.mp hmem, of_decide_eq_true hcrossed⟩
  · rintro ⟨tvl, hlookup, hcrossed⟩
    exact ⟨(id, tvl), mem_filter.mpr ⟨HashMap.mem_toList.mpr hlookup, decide_eq_true hcrossed⟩, rfl⟩

section
variable (h : t.filter.variant = .minimumTVLRange (removeTvl, addTvl) blocklisted)
include h

lemma mem_toAdd : id ∈ (t.filterUpdatedComponents toLowercase m).1 ↔
      (∃ tvl, m.componentTvl.lookup id = some tvl ∧ addTvl < tvl) ∧
        ¬t.filter.isBlocklisted toLowercase id := by
  rw [filterUpdatedComponents_eq h]
  rw [mem_filter, mem_filter, mem_crossed, Bool.not_eq_true', Bool.not_eq_true]
  apply and_congr_left'
  constructor
  · rintro ⟨-, habove⟩
    obtain ⟨tvl, hlookup, htvl⟩ := (Option.any_eq_true _ _).mp habove
    exact ⟨tvl, hlookup, of_decide_eq_true htvl⟩
  · rintro ⟨tvl, hlookup, htvl⟩
    refine ⟨⟨tvl, hlookup, .inr htvl⟩, ?_⟩
    rw [hlookup]
    exact decide_eq_true htvl

lemma mem_toRemove : id ∈ (t.filterUpdatedComponents toLowercase m).2 ↔
      (∃ tvl, m.componentTvl.lookup id = some tvl ∧ tvl < removeTvl ∧ ¬addTvl < tvl) ∨
        id ∈ t.components ∧ t.filter.isBlocklisted toLowercase id := by
  rw [filterUpdatedComponents_eq h]
  rw [foldl_iff_of_adds (I := fun _ => True) (P := fun ids : List ComponentId => id ∈ ids)
    (Q := fun c => c = id ∧ t.filter.isBlocklisted toLowercase id) (fun _ _ _ => trivial)
    (fun ids c _ => by
      by_cases hc : c = id
      · subst hc
        by_cases hblocked : t.filter.isBlocklisted toLowercase c <;> by_cases hmem : c ∈ ids <;>
          simp [hblocked, hmem]
      · split_ifs <;> simp [hc, Ne.symm hc]) _ trivial]
  apply or_congr
  · rw [mem_filter, mem_crossed]
    constructor
    · rintro ⟨⟨tvl, hlookup, hcrossed⟩, habove⟩
      have hnot : ¬addTvl < tvl := by
        intro hlt
        rw [Function.comp, hlookup] at habove
        simp [hlt] at habove
      exact ⟨tvl, hlookup, hcrossed.resolve_right hnot, hnot⟩
    · rintro ⟨tvl, hlookup, htvl, hnot⟩
      refine ⟨⟨tvl, hlookup, .inl htvl⟩, ?_⟩
      rw [Function.comp, hlookup]
      simp [hnot]
  · simp only [← AList.mem_keys]
    constructor
    · rintro ⟨c, hc, rfl, hblocked⟩
      exact ⟨hc, hblocked⟩
    · rintro ⟨hid, hblocked⟩
      exact ⟨id, hid, rfl, hblocked⟩

end

end

lemma mem_stopTracking (ids : List ComponentId) (id : ComponentId) :
    (id ∈ (t.stopTracking ids).2.components ↔ id ∈ t.components ∧ id ∉ ids) ∧
      (id ∈ (t.stopTracking ids).1 ↔ id ∈ t.components ∧ id ∈ ids) := by
  obtain ⟨h₁, h₂⟩ := lookup_foldl_removeComponent ids (t.components, ∅) id
  refine ⟨h₁, h₂.trans ?_⟩
  simp [notMem_empty]

end ComponentTracker

namespace Synchronizer
variable {s : Synchronizer} {poll : Nat → TryRecv} {id : ComponentId}

lemma lookup_setStatus (s : Synchronizer) (ids : List ComponentId) (status : SnapshotStatus)
    (id : ComponentId) : (s.setStatus ids status).snapshotQueue.lookup id =
      if id ∈ ids then some status else s.snapshotQueue.lookup id := by
  have hfold : ∀ queue : HashMap ComponentId SnapshotStatus,
      (ids.foldl (fun queue id => queue.insert id status) queue).lookup id =
        if id ∈ ids then some status else queue.lookup id := by
    induction ids with
    | nil => simp
    | cons c ids ih =>
      intro queue
      rw [foldl_cons, ih, lookup_insert_ite]
      by_cases hc : id = c <;> by_cases hids : id ∈ ids <;> simp [hc, hids]
  exact hfold s.snapshotQueue

lemma mem_withStatus {status : SnapshotStatus} :
    id ∈ s.withStatus status ↔ s.snapshotQueue.lookup id = some status := by
  unfold withStatus
  rw [mem_map]
  constructor
  · rintro ⟨⟨c, st⟩, he, rfl⟩
    obtain ⟨hmem, hst⟩ := mem_filter.mp he
    rw [HashMap.mem_toList.mp hmem]
    exact congrArg some (of_decide_eq_true hst)
  · intro hlookup
    exact ⟨(id, status), mem_filter.mpr ⟨HashMap.mem_toList.mpr hlookup, decide_eq_true rfl⟩, rfl⟩

/-- What the end of a task leaves in the queue for its components. -/
def statusAfter (old : Option SnapshotStatus) : TryRecv → Option SnapshotStatus
  | .value (.ok _) => none
  | .value (.error e) => some (if e.isTransient then .retryNext else .blacklisted)
  | .empty => old
  | .closed => none

section
variable (poll) (acc : Snapshot × Synchronizer) (t : SnapshotTask)

lemma lookup_drainTask (id : ComponentId) :
    (drainTask poll acc t).2.snapshotQueue.lookup id = if id ∈ t.componentIds then
      statusAfter (acc.2.snapshotQueue.lookup id) (poll t.receiver)
      else acc.2.snapshotQueue.lookup id := by
  unfold drainTask
  cases poll t.receiver with
  | value result =>
    cases result with
    | ok => exact lookup_eraseAll _ _ id
    | error => exact lookup_setStatus acc.2 t.componentIds _ id
  | empty => exact (ite_self _).symm
  | closed => exact lookup_eraseAll _ _ id

lemma mem_tracked_drainTask (id : ComponentId) :
    id ∈ (drainTask poll acc t).2.componentTracker.components ↔
      id ∈ acc.2.componentTracker.components ∨
        ∃ fetched, poll t.receiver = .value (.ok fetched) ∧ id ∈ fetched.components := by
  unfold drainTask
  cases poll t.receiver with
  | value result =>
    cases result with
    | ok fetched =>
      refine mem_drainSnapshot.trans (or_congr_right ?_)
      constructor
      · exact fun hid => ⟨fetched, rfl, hid⟩
      · rintro ⟨_, heq, hid⟩
        cases heq
        exact hid
    | error => simp [setStatus]
  | empty => simp
  | closed => simp

lemma drainTask_keeps : (drainTask poll acc t).2.bufferedDeltas = acc.2.bufferedDeltas ∧
    (drainTask poll acc t).2.lastSyncedBlock = acc.2.lastSyncedBlock ∧
    (drainTask poll acc t).2.partialBlocks = acc.2.partialBlocks ∧
    (drainTask poll acc t).2.componentTracker.filter = acc.2.componentTracker.filter := by
  unfold drainTask
  cases poll t.receiver with
  | value result =>
    cases result with
    | ok => exact ⟨rfl, rfl, rfl, filter_processEntrypoints _ _⟩
    | error => exact ⟨rfl, rfl, rfl, rfl⟩
  | empty => exact ⟨rfl, rfl, rfl, rfl⟩
  | closed => exact ⟨rfl, rfl, rfl, rfl⟩

lemma tasks_drainTask : (drainTask poll acc t).2.snapshotTasks =
    acc.2.snapshotTasks ++ [t].filter fun t => poll t.receiver = .empty := by
  unfold drainTask
  cases hpoll : poll t.receiver with
  | value result => cases result <;> simp [hpoll, setStatus]
  | empty => simp [hpoll]
  | closed => simp [hpoll]

lemma snapshot_drainTask : (drainTask poll acc t).1 = acc.1 ∨
    ∃ fetched, poll t.receiver = .value (.ok fetched) ∧ (drainTask poll acc t).1 =
      acc.1.extend (applyDeltasToSnapshot acc.2.bufferedDeltas fetched.snapshot
        fetched.snapshotBlock fetched.contractIds) := by
  unfold drainTask
  cases poll t.receiver with
  | value result =>
    cases result with
    | ok fetched => exact .inr ⟨fetched, rfl, rfl⟩
    | error => exact .inl rfl
  | empty => exact .inl rfl
  | closed => exact .inl rfl

end

section
variable (poll) (acc : Snapshot × Synchronizer) {tasks : List SnapshotTask} {t : SnapshotTask}

lemma lookup_foldl_drainTask_other (h : ∀ t ∈ tasks, id ∉ t.componentIds) :
    (tasks.foldl (drainTask poll) acc).2.snapshotQueue.lookup id =
      acc.2.snapshotQueue.lookup id := by
  induction tasks generalizing acc with
  | nil => rfl
  | cons t _ ih =>
    rw [foldl_cons, ih _ fun u hu => h u (mem_cons_of_mem t hu), lookup_drainTask,
      if_neg (h t mem_cons_self)]

def Apart (tasks : List SnapshotTask) : Prop :=
  tasks.Pairwise fun t u => ∀ id ∈ t.componentIds, id ∉ u.componentIds

lemma lookup_foldl_drainTask (hapart : Apart tasks) (ht : t ∈ tasks) (hid : id ∈ t.componentIds) :
    (tasks.foldl (drainTask poll) acc).2.snapshotQueue.lookup id =
      statusAfter (acc.2.snapshotQueue.lookup id) (poll t.receiver) := by
  induction tasks generalizing acc with
  | nil => cases ht
  | cons u _ ih =>
    obtain ⟨hu, hrest⟩ := pairwise_cons.mp hapart
    rw [foldl_cons]
    rcases mem_cons.mp ht with rfl | ht
    · rw [lookup_foldl_drainTask_other poll _ fun v hv => hu v hv id hid, lookup_drainTask,
        if_pos hid]
    · have hother : id ∉ u.componentIds := fun hmem => hu t ht id hmem hid
      rw [ih _ hrest ht, lookup_drainTask, if_neg hother]

lemma mem_tracked_foldl_drainTask (tasks : List SnapshotTask) (id : ComponentId) :
    id ∈ (tasks.foldl (drainTask poll) acc).2.componentTracker.components ↔
      id ∈ acc.2.componentTracker.components ∨ ∃ t ∈ tasks, ∃ fetched,
        poll t.receiver = .value (.ok fetched) ∧ id ∈ fetched.components :=
  foldl_iff_of_adds (I := fun _ => True)
    (P := fun acc : Snapshot × Synchronizer => id ∈ acc.2.componentTracker.components)
    (fun _ _ _ => trivial) (fun acc t _ => mem_tracked_drainTask poll acc t id) tasks trivial

lemma foldl_drainTask_keeps (tasks : List SnapshotTask) :
    (tasks.foldl (drainTask poll) acc).2.bufferedDeltas = acc.2.bufferedDeltas ∧
    (tasks.foldl (drainTask poll) acc).2.lastSyncedBlock = acc.2.lastSyncedBlock ∧
    (tasks.foldl (drainTask poll) acc).2.partialBlocks = acc.2.partialBlocks ∧
    (tasks.foldl (drainTask poll) acc).2.componentTracker.filter =
      acc.2.componentTracker.filter := by
  induction tasks generalizing acc with
  | nil => exact ⟨rfl, rfl, rfl, rfl⟩
  | cons t _ ih =>
    obtain ⟨hbuffer, hlast, hpart, hfilter⟩ := drainTask_keeps poll acc t
    obtain ⟨hbuffer', hlast', hpart', hfilter'⟩ := ih (drainTask poll acc t)
    exact ⟨hbuffer'.trans hbuffer, hlast'.trans hlast, hpart'.trans hpart, hfilter'.trans hfilter⟩

lemma tasks_foldl_drainTask (tasks : List SnapshotTask) :
    (tasks.foldl (drainTask poll) acc).2.snapshotTasks =
      acc.2.snapshotTasks ++ tasks.filter fun t => poll t.receiver = .empty := by
  induction tasks generalizing acc with
  | nil => simp
  | cons _ _ ih =>
    rw [foldl_cons, ih, tasks_drainTask, append_assoc, ← filter_append]
    rfl

/-- What is drained comes from a task that has succeeded, with the buffered deltas applied. -/
lemma exists_of_drained {K V : Type} [DecidableEq K] {f : Snapshot → HashMap K V}
    (hf : ∀ s other, f (s.extend other) = HashMap.extend (f s) (f other).toList) {k : K} {v : V}
    (tasks : List SnapshotTask) (h : (f (tasks.foldl (drainTask poll) acc).1).lookup k = some v) :
    (f acc.1).lookup k = some v ∨ ∃ t ∈ tasks, ∃ fetched,
      poll t.receiver = .value (.ok fetched) ∧ (f (applyDeltasToSnapshot acc.2.bufferedDeltas
        fetched.snapshot fetched.snapshotBlock fetched.contractIds)).lookup k = some v := by
  induction tasks generalizing acc with
  | nil => exact .inl h
  | cons t _ ih =>
    rcases ih (drainTask poll acc t) h with hlookup | ⟨u, hu, hrest⟩
    · rcases snapshot_drainTask poll acc t with hsame | ⟨fetched, hpoll, hextend⟩
      · exact .inl (hsame ▸ hlookup)
      · rw [hextend, hf, lookup_extend_toList, Option.or_eq_some_iff] at hlookup
        rcases hlookup with hnew | ⟨-, hold⟩
        · exact .inr ⟨t, mem_cons_self, fetched, hpoll, hnew⟩
        · exact .inl hold
    · rw [(drainTask_keeps poll acc t).1] at hrest
      exact .inr ⟨u, mem_cons_of_mem t hu, hrest⟩

end

section
variable (poll) (s) (m : BlockAggregatedChanges)

/-- The buffered deltas that are applied to the snapshots drained with a delta. -/
def buffered (s : Synchronizer) (m : BlockAggregatedChanges) : List BlockAggregatedChanges :=
  if s.snapshotTasks = [] then s.bufferedDeltas else s.bufferedDeltas ++ [m]

def pending (poll : Nat → TryRecv) (s : Synchronizer) : List SnapshotTask :=
  s.snapshotTasks.filter fun t => poll t.receiver = .empty

lemma trimBufferedDeltas_eq :
    s.trimBufferedDeltas = { s with bufferedDeltas := s.trimBufferedDeltas.bufferedDeltas } := by
  unfold trimBufferedDeltas
  cases (s.snapshotTasks.map (·.snapshotBlock)).min? <;> rfl

/-- `harvest` is a loop over the tasks, and trimming changes the buffer only. -/
lemma harvest_eq : s.harvest poll m =
    let drained := s.snapshotTasks.foldl (drainTask poll)
      (default, { s with snapshotTasks := [], bufferedDeltas := s.buffered m })
    (drained.1, { drained.2 with
      bufferedDeltas := drained.2.trimBufferedDeltas.bufferedDeltas }) := by
  dsimp only
  rw [← trimBufferedDeltas_eq]
  unfold harvest buffered drainCompletedSnapshots
  split_ifs <;> rfl

lemma tasks_harvest : (s.harvest poll m).2.snapshotTasks = s.pending poll := by
  rw [harvest_eq]
  exact tasks_foldl_drainTask poll _ s.snapshotTasks

/-- The deltas above a block that a pending task may need are kept. -/
lemma bufferedDeltas_harvest {t : SnapshotTask} (ht : t ∈ s.pending poll) {block : Nat}
    (hblock : t.snapshotBlock ≤ block) :
    (s.harvest poll m).2.bufferedDeltas.filter (fun d => block < d.block.number) =
      (s.buffered m).filter fun d => block < d.block.number := by
  have htasks := tasks_harvest s poll m
  rw [harvest_eq] at htasks ⊢
  dsimp only at htasks ⊢
  have hbuffer := (foldl_drainTask_keeps poll (default,
    { s with snapshotTasks := [], bufferedDeltas := s.buffered m }) s.snapshotTasks).1
  generalize (s.snapshotTasks.foldl (drainTask poll) (default,
    { s with snapshotTasks := [], bufferedDeltas := s.buffered m })).2 = drained at htasks hbuffer ⊢
  rw [← htasks] at ht
  change drained.bufferedDeltas = s.buffered m at hbuffer
  rw [← hbuffer]
  unfold trimBufferedDeltas
  cases hmin : (drained.snapshotTasks.map (·.snapshotBlock)).min? with
  | none =>
    rw [List.min?_eq_none_iff, map_eq_nil_iff] at hmin
    rw [hmin] at ht
    cases ht
  | some oldest =>
    have hle : oldest ≤ t.snapshotBlock :=
      (List.min?_eq_some_iff.mp hmin).2 _ (mem_map_of_mem ht)
    rw [filter_filter]
    apply filter_congr
    intro d _
    rw [← Bool.decide_and]
    exact decide_eq_decide.mpr ⟨And.left, fun hd => ⟨hd, by omega⟩⟩

lemma bufferedDeltas_harvest_nil (h : s.pending poll = []) :
    (s.harvest poll m).2.bufferedDeltas = [] := by
  have htasks := tasks_harvest s poll m
  rw [harvest_eq] at htasks ⊢
  dsimp only at htasks ⊢
  generalize (s.snapshotTasks.foldl (drainTask poll) _).2 = drained at htasks ⊢
  unfold trimBufferedDeltas
  rw [htasks, h]
  rfl

lemma harvest_keeps : (s.harvest poll m).2.lastSyncedBlock = s.lastSyncedBlock ∧
    (s.harvest poll m).2.partialBlocks = s.partialBlocks ∧
    (s.harvest poll m).2.componentTracker.filter = s.componentTracker.filter := by
  rw [harvest_eq]
  exact (foldl_drainTask_keeps poll _ s.snapshotTasks).2

lemma mem_tracked_harvest (id : ComponentId) :
    id ∈ (s.harvest poll m).2.componentTracker.components ↔
      id ∈ s.componentTracker.components ∨ ∃ t ∈ s.snapshotTasks, ∃ fetched,
        poll t.receiver = .value (.ok fetched) ∧ id ∈ fetched.components := by
  rw [harvest_eq]
  exact mem_tracked_foldl_drainTask poll _ s.snapshotTasks id

lemma lookup_harvest_other (h : ∀ t ∈ s.snapshotTasks, id ∉ t.componentIds) :
    (s.harvest poll m).2.snapshotQueue.lookup id = s.snapshotQueue.lookup id := by
  rw [harvest_eq]
  exact lookup_foldl_drainTask_other poll _ h

lemma lookup_harvest (hapart : Apart s.snapshotTasks) {t : SnapshotTask}
    (ht : t ∈ s.snapshotTasks) (hid : id ∈ t.componentIds) :
    (s.harvest poll m).2.snapshotQueue.lookup id =
      statusAfter (s.snapshotQueue.lookup id) (poll t.receiver) := by
  rw [harvest_eq]
  exact lookup_foldl_drainTask poll _ hapart ht hid

lemma exists_of_harvested :
    (∀ id cws, (s.harvest poll m).1.states.lookup id = some cws → ∃ t ∈ s.snapshotTasks, ∃ fetched,
      poll t.receiver = .value (.ok fetched) ∧ (applyDeltasToSnapshot (s.buffered m)
        fetched.snapshot fetched.snapshotBlock fetched.contractIds).states.lookup id = some cws) ∧
    ∀ a account, (s.harvest poll m).1.vmStorage.lookup a = some account →
      ∃ t ∈ s.snapshotTasks, ∃ fetched, poll t.receiver = .value (.ok fetched) ∧
        (applyDeltasToSnapshot (s.buffered m) fetched.snapshot fetched.snapshotBlock
          fetched.contractIds).vmStorage.lookup a = some account := by
  rw [harvest_eq]
  refine ⟨fun id cws hlookup => ?_, fun a account hlookup => ?_⟩
  · exact (exists_of_drained poll _ (f := Snapshot.states) (fun _ _ => rfl) s.snapshotTasks
      hlookup).resolve_left (by rintro ⟨⟩)
  · exact (exists_of_drained poll _ (f := Snapshot.vmStorage) (fun _ _ => rfl) s.snapshotTasks
      hlookup).resolve_left (by rintro ⟨⟩)

end

section
variable (s) (fresh : Nat) (new : List ComponentId) (m : BlockAggregatedChanges)

lemma mem_trulyNew {toAdd : List ComponentId} : id ∈ (s.trulyNew toAdd).1 ↔
    (id ∈ toAdd ∨ s.snapshotQueue.lookup id = some .retryNext) ∧
      id ∉ s.componentTracker.components ∧
      (s.snapshotQueue.lookup id = none ∨ s.snapshotQueue.lookup id = some .retryNext) := by
  change id ∈ (List.filter _ _).eraseDups ↔ _
  rw [mem_eraseDups, mem_filter, mem_append, mem_withStatus]
  simp only [decide_eq_true_eq, ← lookup_eq_none (s := HashMap.eraseAll _ _),
    lookup_eraseAll, mem_withStatus]
  by_cases hret : s.snapshotQueue.lookup id = some .retryNext <;> simp [hret]

lemma lookup_trulyNew (toAdd : List ComponentId) (id : ComponentId) :
    (s.trulyNew toAdd).2.snapshotQueue.lookup id =
      if s.snapshotQueue.lookup id = some .retryNext then none else s.snapshotQueue.lookup id := by
  change (HashMap.eraseAll _ _).lookup id = _
  simp only [lookup_eraseAll, mem_withStatus]

def startedTask : Option SnapshotTask :=
  if s.partialBlocks then
    if s.isNewBlock m.header ∧ s.withStatus .deferred ≠ [] ∧ 0 < m.header.number then
      some ⟨s.withStatus .deferred, m.header.number - 1, fresh⟩
    else none
  else if new ≠ [] then some ⟨new, m.header.number, fresh⟩ else none

section
variable (ids : List ComponentId) (block : Nat)

lemma lookup_spawnSnapshotTask (id : ComponentId) :
    (s.spawnSnapshotTask fresh ids block m).snapshotQueue.lookup id =
      if id ∈ ids then some .inFlight else s.snapshotQueue.lookup id := by
  unfold spawnSnapshotTask
  rw [lookup_setStatus]
  split_ifs <;> rfl

lemma tasks_spawnSnapshotTask : (s.spawnSnapshotTask fresh ids block m).snapshotTasks =
    s.snapshotTasks ++ [⟨ids, block, fresh⟩] := by
  unfold spawnSnapshotTask setStatus
  split_ifs <;> rfl

lemma bufferedDeltas_spawnSnapshotTask : (s.spawnSnapshotTask fresh ids block m).bufferedDeltas =
      if s.snapshotTasks = [] then s.bufferedDeltas ++ [m] else s.bufferedDeltas := by
  unfold spawnSnapshotTask setStatus
  split_ifs <;> rfl

lemma spawnSnapshotTask_keeps :
    (s.spawnSnapshotTask fresh ids block m).componentTracker = s.componentTracker ∧
    (s.spawnSnapshotTask fresh ids block m).partialBlocks = s.partialBlocks := by
  unfold spawnSnapshotTask setStatus
  split_ifs <;> exact ⟨rfl, rfl⟩

end

/-- The ways in which a delta starts a task, or none. -/
inductive Starting : Option SnapshotTask → Synchronizer → Prop
  | deferring (hpart : s.partialBlocks) : Starting none (s.setStatus new .deferred)
  | firing (hpart : s.partialBlocks) (hblock : s.isNewBlock m.header) (hpos : 0 < m.header.number) :
      Starting (some ⟨s.withStatus .deferred, m.header.number - 1, fresh⟩)
        ((spawnSnapshotTask { s with
          snapshotQueue := HashMap.eraseAll s.snapshotQueue (s.withStatus .deferred) } fresh
          (s.withStatus .deferred) (m.header.number - 1) m).setStatus new .deferred)
  | spawning (hpart : ¬s.partialBlocks) :
      Starting (some ⟨new, m.header.number, fresh⟩)
        (s.spawnSnapshotTask fresh new m.header.number m)
  | idle (hpart : ¬s.partialBlocks) (hnew : new = []) : Starting none s

lemma starting : Starting s fresh new m (s.startedTask fresh new m) (s.startTasks fresh new m) := by
  unfold startTasks startedTask
  dsimp only
  split_ifs with hpart hfire hnew
  · exact .firing hpart hfire.1 hfire.2.2
  · exact .deferring hpart
  · exact .spawning hpart
  · exact .idle hpart (not_not.mp hnew)

lemma tasks_startTasks : (s.startTasks fresh new m).snapshotTasks =
    s.snapshotTasks ++ (s.startedTask fresh new m).toList := by
  have hstart := starting s fresh new m
  generalize s.startedTask fresh new m = started, s.startTasks fresh new m = s' at hstart ⊢
  cases hstart with
  | deferring => exact (append_nil _).symm
  | firing => exact tasks_spawnSnapshotTask _ fresh m _ _
  | spawning => exact tasks_spawnSnapshotTask s fresh m _ _
  | idle => exact (append_nil _).symm

lemma startTasks_keeps : (s.startTasks fresh new m).componentTracker = s.componentTracker ∧
    (s.startTasks fresh new m).partialBlocks = s.partialBlocks := by
  have hstart := starting s fresh new m
  generalize s.startedTask fresh new m = started at hstart
  generalize s.startTasks fresh new m = s' at hstart ⊢
  cases hstart with
  | deferring => exact ⟨rfl, rfl⟩
  | firing =>
    exact spawnSnapshotTask_keeps _ fresh m (s.withStatus .deferred) (m.header.number - 1)
  | spawning => exact spawnSnapshotTask_keeps s fresh m _ _
  | idle => exact ⟨rfl, rfl⟩

lemma bufferedDeltas_startTasks : (s.startTasks fresh new m).bufferedDeltas =
    if (s.startedTask fresh new m).isSome ∧ s.snapshotTasks = [] then s.bufferedDeltas ++ [m]
    else s.bufferedDeltas := by
  have hstart := starting s fresh new m
  generalize s.startedTask fresh new m = started, s.startTasks fresh new m = s' at hstart ⊢
  cases hstart with
  | deferring => simp [setStatus]
  | firing =>
    simp only [Option.isSome_some, true_and]
    exact bufferedDeltas_spawnSnapshotTask _ fresh m (s.withStatus .deferred) (m.header.number - 1)
  | spawning =>
    simp only [Option.isSome_some, true_and]
    exact bufferedDeltas_spawnSnapshotTask s fresh m new _
  | idle => simp

/-- The new components are staged, the deferred ones of a task are in flight, and the others stay
as they are. -/
lemma lookup_startTasks (id : ComponentId) : (s.startTasks fresh new m).snapshotQueue.lookup id =
      if id ∈ new then some (if s.partialBlocks then .deferred else .inFlight)
      else if s.partialBlocks ∧ (s.startedTask fresh new m).isSome ∧
        s.snapshotQueue.lookup id = some .deferred then some .inFlight
      else s.snapshotQueue.lookup id := by
  have hstart := starting s fresh new m
  generalize s.startedTask fresh new m = started, s.startTasks fresh new m = s' at hstart ⊢
  cases hstart with
  | deferring hpart =>
    rw [lookup_setStatus]
    simp [hpart]
  | firing hpart =>
    rw [lookup_setStatus, lookup_spawnSnapshotTask, lookup_eraseAll]
    simp only [mem_withStatus, hpart, Option.isSome_some, true_and]
    split_ifs <;> simp_all
  | spawning hpart =>
    rw [lookup_spawnSnapshotTask]
    simp [hpart]
  | idle hpart hnew => simp [hpart, hnew]

end

section
variable (toLowercase : String → String) (fresh : Nat) (poll) (s) (m : BlockAggregatedChanges)

/-- The components that a delta adds and removes, once the arrived snapshots are taken over. -/
def crossings (toLowercase : String → String) (poll : Nat → TryRecv) (s : Synchronizer)
    (m : BlockAggregatedChanges) : List ComponentId × List ComponentId :=
  (s.harvest poll m).2.componentTracker.filterUpdatedComponents toLowercase m

def staging (toLowercase : String → String) (poll : Nat → TryRecv) (s : Synchronizer)
    (m : BlockAggregatedChanges) : List ComponentId × Synchronizer :=
  (s.harvest poll m).2.trulyNew (s.crossings toLowercase poll m).1

def nextTask (toLowercase : String → String) (fresh : Nat) (poll : Nat → TryRecv)
    (s : Synchronizer) (m : BlockAggregatedChanges) : Option SnapshotTask :=
  (s.staging toLowercase poll m).2.startedTask fresh (s.staging toLowercase poll m).1 m

lemma handleDelta_eq : s.handleDelta toLowercase fresh poll m =
    emit ((s.staging toLowercase poll m).2.startTasks fresh (s.staging toLowercase poll m).1 m)
      (s.harvest poll m).1 (s.crossings toLowercase poll m).2 m := rfl

lemma staging_keeps :
    (s.staging toLowercase poll m).2.snapshotTasks = (s.harvest poll m).2.snapshotTasks ∧
    (s.staging toLowercase poll m).2.partialBlocks = (s.harvest poll m).2.partialBlocks ∧
    (s.staging toLowercase poll m).2.bufferedDeltas = (s.harvest poll m).2.bufferedDeltas ∧
    (s.staging toLowercase poll m).2.lastSyncedBlock = (s.harvest poll m).2.lastSyncedBlock ∧
    (s.staging toLowercase poll m).2.componentTracker =
      (s.harvest poll m).2.componentTracker := ⟨rfl, rfl, rfl, rfl, rfl⟩

section
variable (snapshots : Snapshot) (toRemove : List ComponentId)

lemma tracked_emit (id : ComponentId) :
    (id ∈ (s.emit snapshots toRemove m).2.componentTracker.components ↔
      id ∈ s.componentTracker.components ∧ id ∉ toRemove) ∧
    (id ∈ (s.emit snapshots toRemove m).1.removedComponents ↔
      id ∈ s.componentTracker.components ∧ id ∈ toRemove) := by
  unfold emit
  rw [components_processEntrypoints]
  split_ifs with hremove
  · exact mem_stopTracking _ toRemove id
  · rw [not_not.mp hremove]
    simp [notMem_empty]

lemma emit_keeps : (s.emit snapshots toRemove m).2.snapshotTasks = s.snapshotTasks ∧
    (s.emit snapshots toRemove m).2.snapshotQueue = s.snapshotQueue ∧
    (s.emit snapshots toRemove m).2.bufferedDeltas = s.bufferedDeltas ∧
    (s.emit snapshots toRemove m).2.partialBlocks = s.partialBlocks ∧
    (s.emit snapshots toRemove m).2.componentTracker.filter = s.componentTracker.filter := by
  refine ⟨rfl, rfl, rfl, rfl, ?_⟩
  unfold emit
  rw [filter_processEntrypoints]
  split_ifs <;> rfl

end

lemma tasks_handleDelta : (s.handleDelta toLowercase fresh poll m).2.snapshotTasks =
    s.pending poll ++ (s.nextTask toLowercase fresh poll m).toList := by
  rw [handleDelta_eq, (emit_keeps _ m _ _).1, tasks_startTasks, (staging_keeps ..).1, tasks_harvest]
  rfl

lemma lookup_handleDelta (id : ComponentId) :
    (s.handleDelta toLowercase fresh poll m).2.snapshotQueue.lookup id =
      if id ∈ (s.staging toLowercase poll m).1 then
        some (if s.partialBlocks then .deferred else .inFlight)
      else if s.partialBlocks ∧ (s.nextTask toLowercase fresh poll m).isSome ∧
        (s.staging toLowercase poll m).2.snapshotQueue.lookup id = some .deferred then
          some .inFlight
      else (s.staging toLowercase poll m).2.snapshotQueue.lookup id := by
  rw [handleDelta_eq, (emit_keeps _ m _ _).2.1, lookup_startTasks, (staging_keeps ..).2.1,
    (harvest_keeps ..).2.1]
  rfl

lemma tracked_handleDelta (id : ComponentId) :
    (id ∈ (s.handleDelta toLowercase fresh poll m).2.componentTracker.components ↔
      id ∈ (s.harvest poll m).2.componentTracker.components ∧
        id ∉ (s.crossings toLowercase poll m).2) ∧
    (id ∈ (s.handleDelta toLowercase fresh poll m).1.removedComponents ↔
      id ∈ (s.harvest poll m).2.componentTracker.components ∧
        id ∈ (s.crossings toLowercase poll m).2) := by
  have hemit := tracked_emit ((s.staging toLowercase poll m).2.startTasks fresh
    (s.staging toLowercase poll m).1 m) m (s.harvest poll m).1 (s.crossings toLowercase poll m).2 id
  rwa [(startTasks_keeps ..).1, (staging_keeps ..).2.2.2.2] at hemit

lemma handleDelta_keeps :
    (s.handleDelta toLowercase fresh poll m).2.partialBlocks = s.partialBlocks ∧
    (s.handleDelta toLowercase fresh poll m).2.lastSyncedBlock = some m.header ∧
    (s.handleDelta toLowercase fresh poll m).2.componentTracker.filter =
      s.componentTracker.filter := by
  refine ⟨?_, rfl, ?_⟩
  · rw [handleDelta_eq, (emit_keeps _ m _ _).2.2.2.1, (startTasks_keeps ..).2,
      (staging_keeps ..).2.1, (harvest_keeps ..).2.1]
  · rw [handleDelta_eq, (emit_keeps _ m _ _).2.2.2.2, (startTasks_keeps ..).1,
      (staging_keeps ..).2.2.2.2, (harvest_keeps ..).2.2]

lemma bufferedDeltas_handleDelta : (s.handleDelta toLowercase fresh poll m).2.bufferedDeltas =
      if (s.nextTask toLowercase fresh poll m).isSome ∧ s.pending poll = [] then
        (s.harvest poll m).2.bufferedDeltas ++ [m]
      else (s.harvest poll m).2.bufferedDeltas := by
  rw [handleDelta_eq, (emit_keeps _ m _ _).2.2.1, bufferedDeltas_startTasks,
    (staging_keeps ..).2.2.1, (staging_keeps ..).1, tasks_harvest]
  rfl

end
end Synchronizer
end Tycho
