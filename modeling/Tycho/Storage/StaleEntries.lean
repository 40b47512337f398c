import Tycho.Storage.Versioning

/-! What entries that are not newer than the stored rows do to the rest of their batch. -/
namespace Tycho
open Collections PartitionedVersionedRow HashMap List VersioningPass

variable {N Id : Type} [PartitionedVersionedRow N Id] [DecidableEq Id]

variable {e : VersioningEntry N Id} {s s' : VersioningPass N Id} {k : Id}
  {l batch : List (VersioningEntry N Id)} {table : List N}

variable {ids : List Id} {s₁ s₂ : VersioningPass N Id} {r r' : RowsChanges N Id}

namespace VersioningPass

lemma apply_toSkip (s : VersioningPass N Id) (skip : HashSet Id) (e : VersioningEntry N Id) :
    ({ s with toSkip := skip }).apply e = (s.apply e).map fun r => { r with toSkip := skip } := by
  cases e with
  | update =>
    unfold apply
    dsimp only
    split <;> rfl
  | deletion =>
    unfold apply
    dsimp only
    split <;> rfl

lemma foldlM_apply_toSkip (l : List (VersioningEntry N Id)) (s : VersioningPass N Id)
    (skip : HashSet Id) :
    l.foldlM apply { s with toSkip := skip } =
      (l.foldlM apply s).map fun r => { r with toSkip := skip } := by
  induction l generalizing s with
  | nil => rfl
  | cons e _ ih =>
    rw [foldlM_cons, foldlM_cons, apply_toSkip]
    cases s.apply e with
    | error => rfl
    | ok s' => exact ih s'

/-- Stale entries only mark their keys. -/
lemma foldlM_step (db : HashMap Id N) (batch : List (VersioningEntry N Id))
    (s : VersioningPass N Id) :
    batch.foldlM (step db) s = ((batch.filter fun e => !isStale db e).foldlM apply s).map fun r =>
        { r with toSkip := s.toSkip.extend ((batch.filter (isStale db)).map VersioningEntry.getId)
          } := by
  induction batch generalizing s with
  | nil => rfl
  | cons e batch ih =>
    rw [foldlM_cons]
    by_cases hstale : isStale db e
    · have hstep : s.step db e = .ok { s with toSkip := s.toSkip.insert e.getId } := if_pos hstale
      have hfresh : (e :: batch).filter (fun e => !isStale db e) =
          batch.filter fun e => !isStale db e := by simp [hstale]
      have hmarked : (e :: batch).filter (isStale db) = e :: batch.filter (isStale db) :=
        filter_cons_of_pos hstale
      rw [hstep, hfresh, hmarked, ok_bind, ih, foldlM_apply_toSkip, map_cons]
      cases (batch.filter fun e => !isStale db e).foldlM apply s <;> rfl
    · have hstep : s.step db e = s.apply e := if_neg hstale
      have hfresh : (e :: batch).filter (fun e => !isStale db e) =
          e :: batch.filter fun e => !isStale db e := by simp [hstale]
      have hmarked : (e :: batch).filter (isStale db) = batch.filter (isStale db) :=
        filter_cons_of_neg hstale
      rw [hstep, hfresh, hmarked, foldlM_cons]
      cases happly : s.apply e with
      | error => rfl
      | ok s' =>
        have hskip : s'.toSkip = s.toSkip := by
          have hsame := apply_toSkip s s.toSkip e
          rw [happly] at hsame
          have heq : s' = { s' with toSkip := s.toSkip } := Except.ok.inj hsame
          have hproj := congrArg toSkip heq
          exact hproj
        rw [ok_bind, ok_bind, ih, hskip]

/-- What an entry leaves at a key. -/
lemma lookup_apply (h : s.apply e = .ok s') (k : Id) (hk : k ≠ e.getId) :
    s'.latest.lookup k = s.latest.lookup k := by
  cases e with
  | update row =>
    have hne : k ≠ PartitionedVersionedRow.getId row := hk
    unfold apply at h
    dsimp only at h
    split at h
    · cases h
      rw [lookup_insert_ite, if_neg hne, lookup_erase_ite, if_neg hne]
    · cases h
      rw [lookup_insert_ite, if_neg hne]
  | deletion id =>
    have hne : k ≠ id := hk
    unfold apply at h
    dsimp only at h
    split at h
    · cases h
      rw [lookup_erase_ite, if_neg hne]
    · cases h

/-- An updated key has a latest row and a deleted key has none. -/
lemma mem_apply (h : s.apply e = .ok s') : e.getId ∈ s'.latest ↔ ∀ t, e ≠ .deletion e.getId t := by
  cases e with
  | update =>
    unfold apply at h
    dsimp only at h
    split at h <;> cases h <;> simp [VersioningEntry.getId]
  | deletion =>
    unfold apply at h
    dsimp only at h
    split at h
    · cases h
      simp [VersioningEntry.getId]
    · cases h

lemma lookup_foldlM (h : l.foldlM apply s = .ok s') (hk : k ∉ l.map VersioningEntry.getId) :
    s'.latest.lookup k = s.latest.lookup k := by
  induction l generalizing s with
  | nil =>
    cases h
    rfl
  | cons _ _ ih =>
    obtain ⟨s₁, happly, hrest⟩ := foldlM_cons_ok h
    rw [map_cons, mem_cons, not_or] at hk
    rw [ih hrest hk.2, lookup_apply happly k hk.1]

/-- The last entry of a key decides whether it has a latest row. -/
lemma mem_foldlM (h : l.foldlM apply s = .ok s') : k ∈ s'.latest ↔
      ((l.filter fun e => e.getId = k).getLast?).elim (k ∈ s.latest) fun e =>
        ∀ t, e ≠ .deletion k t := by
  induction l generalizing s with
  | nil =>
    cases h
    rfl
  | cons e l ih =>
    obtain ⟨s₁, happly, hrest⟩ := foldlM_cons_ok h
    rw [ih hrest]
    by_cases hk : e.getId = k
    · subst hk
      rw [filter_cons_of_pos (by simp), List.getLast?_cons, mem_apply happly]
      cases (l.filter fun e' => e'.getId = e.getId).getLast? <;> rfl
    · have hsame := lookup_apply happly k (Ne.symm hk)
      rw [filter_cons_of_neg (by simpa using hk)]
      simp only [mem_iff_lookup, hsame]

/-- Passes that differ in the latest rows of other keys only. -/
structure Agree (ids : List Id) (s₁ s₂ : VersioningPass N Id) : Prop where
  latest : ∀ k ∈ ids, s₁.latest.lookup k = s₂.latest.lookup k
  archived : s₁.archived = s₂.archived
  deleted : s₁.deleted = s₂.deleted

lemma Agree.apply (h : Agree ids s₁ s₂) (he : e.getId ∈ ids) :
    (∃ err, s₁.apply e = .error err ∧ s₂.apply e = .error err) ∨
      ∃ r₁ r₂, s₁.apply e = .ok r₁ ∧ s₂.apply e = .ok r₂ ∧ Agree ids r₁ r₂ := by
  have hkey := h.latest e.getId he
  cases e with
  | update row =>
    have hrow : s₁.latest.lookup (PartitionedVersionedRow.getId row) =
      s₂.latest.lookup (PartitionedVersionedRow.getId row) := hkey
    unfold apply
    dsimp only
    rw [hrow]
    cases s₂.latest.lookup (PartitionedVersionedRow.getId row) with
    | none =>
      refine .inr ⟨_, _, rfl, rfl, ?_, h.archived, by rw [h.deleted]⟩
      intro k hk
      rw [lookup_insert_ite, lookup_insert_ite, h.latest k hk]
    | some =>
      refine .inr ⟨_, _, rfl, rfl, ?_, by rw [h.archived], by rw [h.deleted]⟩
      intro k hk
      rw [lookup_insert_ite, lookup_insert_ite, lookup_erase_ite, lookup_erase_ite, h.latest k hk]
  | deletion id =>
    have hrow : s₁.latest.lookup id = s₂.latest.lookup id := hkey
    unfold apply
    dsimp only
    rw [hrow]
    cases s₂.latest.lookup id with
    | none => exact .inl ⟨_, rfl, rfl⟩
    | some =>
      refine .inr ⟨_, _, rfl, rfl, ?_, by rw [h.archived], by rw [h.deleted]⟩
      intro k hk
      rw [lookup_erase_ite, lookup_erase_ite, h.latest k hk]

lemma Agree.foldlM (h : Agree ids s₁ s₂) (hl : ∀ e ∈ l, e.getId ∈ ids) :
    (∃ err, l.foldlM VersioningPass.apply s₁ = .error err ∧
        l.foldlM VersioningPass.apply s₂ = .error err) ∨
      ∃ r₁ r₂, l.foldlM VersioningPass.apply s₁ = .ok r₁ ∧
        l.foldlM VersioningPass.apply s₂ = .ok r₂ ∧ Agree ids r₁ r₂ := by
  induction l generalizing s₁ s₂ with
  | nil => exact .inr ⟨s₁, s₂, rfl, rfl, h⟩
  | cons e _ ih =>
    rw [foldlM_cons, foldlM_cons]
    rcases h.apply (hl e mem_cons_self) with ⟨err, h₁, h₂⟩ | ⟨r₁, r₂, h₁, h₂, hr⟩
    · rw [h₁, h₂]
      exact .inl ⟨err, rfl, rfl⟩
    · rw [h₁, h₂]
      exact ih hr fun e' he' => hl e' (mem_cons_of_mem e he')

end VersioningPass
/-- The rows that `latest_versions_by_ids` reads from a table of latest versions. -/
def readLatest (table : List N) (ids : List Id) : List N :=
  table.filter fun row => getId row ∈ ids

lemma lookup_readLatest (table : List N) (ids : List Id) (k : Id) :
    (latestById (readLatest table ids)).lookup k =
      if k ∈ ids then (latestById table).lookup k else none := by
  unfold latestById readLatest
  have hmap : (table.filter fun row => getId row ∈ ids).map (fun row => (getId row, row)) =
      (table.map fun row => (getId row, row)).filter fun e => decide (e.1 ∈ ids) := by
    rw [filter_map]
    rfl
  rw [lookup_ofList, lookup_ofList, hmap, lastOf_filter (p := fun k => decide (k ∈ ids))]
  simp

/-- The entries of a batch that are newer than the stored rows. -/
def freshEntries (table : List N) (batch : List (VersioningEntry N Id)) :
    List (VersioningEntry N Id) :=
  batch.filter fun e => !isStale (latestById table) e

abbrev staleIds (table : List N) (batch : List (VersioningEntry N Id)) : List Id :=
  (batch.filter (isStale (latestById table))).map VersioningEntry.getId

/-- The pass over the newer entries alone, and the keys that are dropped after it. -/
lemma setPartitionedVersioningAttributes_eq (rows table : List N)
    (batch : List (VersioningEntry N Id))
    (hrows : ∀ e ∈ batch, (latestById rows).lookup e.getId = (latestById table).lookup e.getId) :
    setPartitionedVersioningAttributes rows batch =
      ((freshEntries table batch).foldlM apply ⟨latestById rows, [], ∅, ∅⟩).map fun s =>
        ⟨(s.latest.retain fun id _ => id ∉ staleIds table batch).values,
          s.archived, s.deleted.keys⟩ := by
  have hstale : ∀ e ∈ batch, isStale (latestById rows) e = isStale (latestById table) e :=
    fun e he => by rw [isStale, isStale, hrows e he]
  have hmarked : batch.filter (isStale (latestById rows)) =
      batch.filter (isStale (latestById table)) := filter_congr hstale
  have hfresh : (batch.filter fun e => !isStale (latestById rows) e) = freshEntries table batch :=
    filter_congr fun e he => by rw [hstale e he]
  unfold setPartitionedVersioningAttributes
  dsimp only
  rw [foldlM_step, hmarked, hfresh]
  cases (freshEntries table batch).foldlM apply ⟨latestById rows, [], ∅, ∅⟩ with
  | error => rfl
  | ok =>
    have hmem : ∀ id : Id, id ∈ HashSet.extend ∅ (staleIds table batch) ↔
        id ∈ staleIds table batch := by
      intro id
      rw [HashSet.mem_extend]
      simp
    show Except.ok _ = Except.ok _
    simp only [hmem]

lemma freshEntries_freshEntries (table : List N) (batch : List (VersioningEntry N Id)) :
    freshEntries table (freshEntries table batch) = freshEntries table batch ∧
      (freshEntries table batch).filter (isStale (latestById table)) = [] := by
  unfold freshEntries
  constructor
  · rw [filter_filter]
    simp
  · rw [filter_filter, filter_eq_nil_iff]
    simp

omit [PartitionedVersionedRow N Id] in
lemma retain_unmarked (m : HashMap Id N) : (m.retain fun id _ => id ∉ ([] : List Id)) = m := by
  unfold HashMap.retain
  simp

/-- The same latest rows, in any order, and the same archived rows. -/
def SameRows (r r' : RowsChanges N Id) : Prop :=
  r.latest.Perm r'.latest ∧ r.archived = r'.archived

/-- The last newer entry of a key. -/
def lastFresh (table : List N) (batch : List (VersioningEntry N Id)) (k : Id) :
    Option (VersioningEntry N Id) :=
  ((freshEntries table batch).filter fun e => e.getId = k).getLast?

/-- The newer entries for a key with a stale entry, if there are any, end with a deletion. -/
def Unmixed (table : List N) (batch : List (VersioningEntry N Id)) : Prop :=
  ∀ e ∈ batch, isStale (latestById table) e →
    ∀ last ∈ lastFresh table batch e.getId, ∃ t, last = .deletion e.getId t

/-- The newer entries for a key with a stale entry end with a deletion. -/
def AllDeleted (table : List N) (batch : List (VersioningEntry N Id)) : Prop :=
  ∀ e ∈ batch, isStale (latestById table) e →
    ∃ t, lastFresh table batch e.getId = some (.deletion e.getId t)

/-- Rows `rows` are read for the batch and rows `rows'` for its newer entries. -/
lemma changes_fresh (rows rows' table : List N) (batch : List (VersioningEntry N Id))
    (hrows : ∀ e ∈ batch, (latestById rows).lookup e.getId = (latestById table).lookup e.getId)
    (hrows' : ∀ e ∈ freshEntries table batch,
      (latestById rows').lookup e.getId = (latestById table).lookup e.getId) :
    (∃ err, setPartitionedVersioningAttributes rows batch = .error err ∧
        setPartitionedVersioningAttributes rows' (freshEntries table batch) = .error err) ∨
      ∃ s s' : VersioningPass N Id,
        (freshEntries table batch).foldlM VersioningPass.apply ⟨latestById rows, [], ∅, ∅⟩ = .ok s ∧
        (freshEntries table batch).foldlM VersioningPass.apply ⟨latestById rows', [], ∅, ∅⟩ =
          .ok s' ∧
        VersioningPass.Agree ((freshEntries table batch).map VersioningEntry.getId) s s' ∧
        setPartitionedVersioningAttributes rows batch = .ok ⟨(s.latest.retain fun id _ =>
            id ∉ staleIds table batch).values,
            s.archived, s.deleted.keys⟩ ∧
        setPartitionedVersioningAttributes rows' (freshEntries table batch) =
          .ok ⟨s'.latest.values, s'.archived, s'.deleted.keys⟩ := by
  obtain ⟨hfresh, hnone⟩ := freshEntries_freshEntries table batch
  have hset := setPartitionedVersioningAttributes_eq rows table batch hrows
  have hset' := setPartitionedVersioningAttributes_eq rows' table (freshEntries table batch) hrows'
  rw [hfresh, staleIds, hnone] at hset'
  have hstart : VersioningPass.Agree ((freshEntries table batch).map VersioningEntry.getId)
      (⟨latestById rows, [], ∅, ∅⟩ : VersioningPass N Id) ⟨latestById rows', [], ∅, ∅⟩ := by
    refine ⟨forall_mem_map.mpr fun e he => ?_, rfl, rfl⟩
    exact (hrows e (mem_of_mem_filter he)).trans (hrows' e he).symm
  rcases hstart.foldlM fun e he => mem_map_of_mem he with
    ⟨err, h, h'⟩ | ⟨s, s', h, h', hagree⟩
  · rw [h] at hset
    rw [h'] at hset'
    exact .inl ⟨err, hset, hset'⟩
  · rw [h] at hset
    rw [h'] at hset'
    refine .inr ⟨s, s', h, h', hagree, hset, hset'.trans ?_⟩
    dsimp only [Except.map]
    rw [map_nil, retain_unmarked]

/-- A key has a latest row unless its entries end with a deletion. -/
lemma mem_latest_iff {rows : List N}
    (h : (freshEntries table batch).foldlM apply ⟨latestById rows, [], ∅, ∅⟩ = .ok s)
    :
    k ∈ s.latest ↔ (lastFresh table batch k).elim (k ∈ latestById rows) fun e =>
      ∀ t, e ≠ .deletion k t :=
  mem_foldlM h

lemma mem_latestById_of_isStale (h : isStale (latestById table) e) :
    e.getId ∈ latestById table := by
  obtain ⟨row, hrow, -⟩ := (Option.any_eq_true _ _).mp h
  exact HashMap.mem_iff_lookup.mpr ⟨row, hrow⟩

lemma lastFresh_eq_none_iff :
    lastFresh table batch k = none ↔ k ∉ (freshEntries table batch).map VersioningEntry.getId := by
  rw [lastFresh, List.getLast?_eq_none_iff, filter_eq_nil_iff]
  simp

/-- The keys that the pass drops. -/
lemma forall_not_marked_iff {m : HashMap Id N} : (∀ k ∈ m, decide (k ∉ staleIds table batch)) ↔
      ∀ e ∈ batch, isStale (latestById table) e → e.getId ∉ m := by
  simp only [decide_eq_true_eq]
  constructor
  · intro hall e he hstale hmem
    exact hall _ hmem (mem_map_of_mem (mem_filter.mpr ⟨he, hstale⟩))
  · intro hall k hk hmarked
    obtain ⟨e, he, rfl⟩ := mem_map.mp hmarked
    obtain ⟨hbatch, hstale⟩ := mem_filter.mp he
    exact hall e hbatch hstale hk

/-- The pass with the rows of the whole table. -/
lemma sameRows_table_iff (hr : setPartitionedVersioningAttributes table batch = .ok r)
    (hr' : setPartitionedVersioningAttributes table (freshEntries table batch) = .ok r') :
    SameRows r r' ↔ AllDeleted table batch := by
  rcases changes_fresh table table table batch (fun _ _ => rfl) (fun _ _ => rfl) with
    ⟨err, h, -⟩ | ⟨s, s', hs, hs', -, hset, hset'⟩
  · rw [h] at hr
    cases hr
  · cases hs.symm.trans hs'
    cases hset.symm.trans hr
    cases hset'.symm.trans hr'
    unfold SameRows AllDeleted
    rw [and_iff_left rfl, values_retain_perm_iff _ (fun id =>
      decide (id ∉ staleIds table batch)),
      forall_not_marked_iff]
    refine forall_congr' fun e => forall_congr' fun he => forall_congr' fun hstale => ?_
    rw [mem_latest_iff hs]
    cases hlast : lastFresh table batch e.getId with
    | none => simpa using mem_latestById_of_isStale hstale
    | some => simp

/-- The pass as it is called: with the rows of the keys in the batch. -/
def versionBatch (table : List N) (batch : List (VersioningEntry N Id)) :
    Except StorageError (RowsChanges N Id) :=
  setPartitionedVersioningAttributes (readLatest table (batch.map VersioningEntry.getId)) batch

lemma lookup_readLatest_of_mem (he : e ∈ batch) :
    (latestById (readLatest table (batch.map VersioningEntry.getId))).lookup e.getId =
      (latestById table).lookup e.getId := by
  rw [lookup_readLatest, if_pos (mem_map_of_mem he)]

lemma sameRows_versionBatch_iff (hr : versionBatch table batch = .ok r)
    (hr' : versionBatch table (freshEntries table batch) = .ok r') :
    SameRows r r' ↔ Unmixed table batch := by
  rcases changes_fresh (readLatest table (batch.map VersioningEntry.getId))
    (readLatest table ((freshEntries table batch).map VersioningEntry.getId)) table batch
    (fun _ he => lookup_readLatest_of_mem he) (fun _ he => lookup_readLatest_of_mem he) with
    ⟨err, h, -⟩ | ⟨s, s', hs, hs', hagree, hset, hset'⟩
  · rw [versionBatch, h] at hr
    cases hr
  · cases hset.symm.trans hr
    cases hset'.symm.trans hr'
    -- rows of keys without a newer entry are dropped, or were not read
    have hperm : (s.latest.retain fun id _ => id ∉ staleIds table batch).values.Perm
        (s'.latest.retain fun id _ => id ∉ staleIds table batch).values := by
      apply values_perm
      intro k
      rw [lookup_retain, lookup_retain]
      by_cases hfresh : k ∈ (freshEntries table batch).map VersioningEntry.getId
      · rw [hagree.latest k hfresh]
      · by_cases hmarked : k ∈ staleIds table batch
        · simp only [hmarked, not_true_eq_false, decide_false]
          cases s.latest.lookup k <;> cases s'.latest.lookup k <;> rfl
        · have hbatch : k ∉ batch.map VersioningEntry.getId := by
            intro hk
            obtain ⟨e, he, rfl⟩ := mem_map.mp hk
            by_cases hstale : isStale (latestById table) e
            · exact hmarked (mem_map_of_mem (mem_filter.mpr ⟨he, hstale⟩))
            · exact hfresh (mem_map_of_mem (mem_filter.mpr ⟨he, by simpa using hstale⟩))
          rw [lookup_foldlM hs hfresh, lookup_foldlM hs' hfresh,
            lookup_readLatest, if_neg hbatch, lookup_readLatest, if_neg hfresh]
    unfold SameRows Unmixed
    rw [and_iff_left hagree.archived, hperm.congr_left, values_retain_perm_iff _ (fun id =>
      decide (id ∉ staleIds table batch)),
      forall_not_marked_iff]
    refine forall_congr' fun e => forall_congr' fun he => forall_congr' fun hstale => ?_
    rw [mem_latest_iff hs']
    cases hlast : lastFresh table batch e.getId with
    | none =>
      have hread := lookup_readLatest table ((freshEntries table batch).map VersioningEntry.getId)
        e.getId
      rw [if_neg (lastFresh_eq_none_iff.mp hlast)] at hread
      simp [mem_iff_lookup, hread]
    | some => simp

/-- Stale entries are dropped without a trace exactly in batches that are not mixed. -/
theorem sameRows_freshEntries_iff (table : List N) (batch : List (VersioningEntry N Id)) :
    (∀ err, versionBatch table batch = .error err ↔
      versionBatch table (freshEntries table batch) = .error err) ∧
    (∀ r r', versionBatch table batch = .ok r →
      versionBatch table (freshEntries table batch) = .ok r' →
        (SameRows r r' ↔ Unmixed table batch)) ∧
    ∀ r r', setPartitionedVersioningAttributes table batch = .ok r →
      setPartitionedVersioningAttributes table (freshEntries table batch) = .ok r' →
        (SameRows r r' ↔ AllDeleted table batch) := by
  refine ⟨fun err => ?_, fun r r' => sameRows_versionBatch_iff, fun r r' => sameRows_table_iff⟩
  unfold versionBatch
  rcases changes_fresh (readLatest table (batch.map VersioningEntry.getId))
    (readLatest table ((freshEntries table batch).map VersioningEntry.getId)) table batch
    (fun _ he => lookup_readLatest_of_mem he) (fun _ he => lookup_readLatest_of_mem he) with
    ⟨err', h, h'⟩ | ⟨s, s', -, -, -, h, h'⟩
  · rw [h, h']
  · rw [h, h']
    simp

/-- A slot of account 1 that was written at a time. -/
def slotRow (slot : UInt8) (time : NaiveDateTime) (value : UInt8) : NewSlot :=
  ⟨⟨[slot]⟩, some ⟨[value]⟩, none, 1, time, 0, time, MAX_TS⟩

/-- Slot 1 has a stale entry only, and slot 2 has a newer one only. -/
def apartEntries : List (VersioningEntry NewSlot (Int × StoreKey)) :=
  [.update (slotRow 1 5 11), .update (slotRow 2 6 12)]

theorem sameRows_freshEntries_iff_apart : ∃ r r' : RowsChanges NewSlot (Int × StoreKey),
      versionBatch [slotRow 1 5 1, slotRow 2 5 2] apartEntries = .ok r ∧
      versionBatch [slotRow 1 5 1, slotRow 2 5 2] [.update (slotRow 2 6 12)] = .ok r' ∧
      SameRows r r' := by
  have hfresh : freshEntries [slotRow 1 5 1, slotRow 2 5 2] apartEntries =
      [.update (slotRow 2 6 12)] := by decide +kernel
  have hok : (versionBatch [slotRow 1 5 1, slotRow 2 5 2] apartEntries).toOption.isSome ∧
      (versionBatch [slotRow 1 5 1, slotRow 2 5 2]
        [.update (slotRow 2 6 12)]).toOption.isSome := by decide +kernel
  have hnone : ∀ e ∈ apartEntries, isStale (latestById [slotRow 1 5 1, slotRow 2 5 2]) e →
      lastFresh [slotRow 1 5 1, slotRow 2 5 2] apartEntries e.getId = none := by decide +kernel
  cases hr : versionBatch [slotRow 1 5 1, slotRow 2 5 2] apartEntries with
  | error =>
    rw [hr] at hok
    cases hok.1
  | ok r =>
    cases hr' : versionBatch [slotRow 1 5 1, slotRow 2 5 2] [.update (slotRow 2 6 12)] with
    | error =>
      rw [hr'] at hok
      cases hok.2
    | ok r' =>
      refine ⟨r, r', rfl, rfl, ?_⟩
      apply ((sameRows_freshEntries_iff [slotRow 1 5 1, slotRow 2 5 2] apartEntries).2.1 r r' hr
        (by rw [hfresh]; exact hr')).mpr
      intro e he hstale last hlast
      rw [hnone e he hstale] at hlast
      cases hlast

/-- The row of the newer entry gets lost: the stored row is archived and stays the latest one. -/
theorem not_sameRows_mixed : ∃ r r' : RowsChanges NewSlot (Int × StoreKey),
      versionBatch [slotRow 1 5 1] [.update (slotRow 1 5 11), .update (slotRow 1 6 12)] = .ok r ∧
      freshEntries [slotRow 1 5 1] [.update (slotRow 1 5 11), .update (slotRow 1 6 12)] =
        [.update (slotRow 1 6 12)] ∧
      versionBatch [slotRow 1 5 1] [.update (slotRow 1 6 12)] = .ok r' ∧
      r.latest = [] ∧ r'.latest = [{ slotRow 1 6 12 with previousValue := some ⟨[1]⟩ }] ∧
      r.archived = [{ slotRow 1 5 1 with validTo := (6 : Int) }] ∧ ¬ SameRows r r' := by
  have hcheck : (versionBatch [slotRow 1 5 1]
      [.update (slotRow 1 5 11), .update (slotRow 1 6 12)]).toOption.any (fun r =>
        (versionBatch [slotRow 1 5 1] [.update (slotRow 1 6 12)]).toOption.any fun r' =>
          r.latest = [] ∧ r'.latest = [{ slotRow 1 6 12 with previousValue := some ⟨[1]⟩ }] ∧
            r.archived = [{ slotRow 1 5 1 with validTo := (6 : Int) }]) := by decide +kernel
  obtain ⟨r, hr, hcheck⟩ := exists_ok_of_any hcheck
  obtain ⟨r', hr', hcheck⟩ := exists_ok_of_any hcheck
  obtain ⟨hlatest, hlatest', harchived⟩ := of_decide_eq_true hcheck
  refine ⟨r, r', hr, by decide +kernel, hr', hlatest, hlatest', harchived, ?_⟩
  intro hsame
  have hlen := hsame.1.length_eq
  rw [hlatest, hlatest'] at hlen
  cases hlen

end Tycho
