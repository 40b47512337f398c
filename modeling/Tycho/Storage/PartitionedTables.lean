import Mathlib.Data.List.Sort
import Mathlib.Data.Prod.Lex
import Tycho.Storage.StaleEntries
import Tycho.Storage.Timeline

/-! The table of latest versions and the archive: together they are a replay at every block. -/
namespace Tycho
open Collections PartitionedVersionedRow LawfulVersionedRow HashMap List

section
variable {N Id : Type} [PartitionedVersionedRow N Id]

/-- The entries for a key. -/
def entriesOf [DecidableEq Id] (k : Id) (l : List (VersioningEntry N Id)) :
    List (VersioningEntry N Id) :=
  l.filter fun e => e.getId = k

@[simp] lemma entriesOf_append [DecidableEq Id] (k : Id) (l l' : List (VersioningEntry N Id)) :
    entriesOf k (l ++ l') = entriesOf k l ++ entriesOf k l' :=
  filter_append _ _

lemma entriesOf_concat [DecidableEq Id] (k : Id) (l : List (VersioningEntry N Id))
    (e : VersioningEntry N Id) :
    entriesOf k (l ++ [e]) = if e.getId = k then entriesOf k l ++ [e] else entriesOf k l := by
  rw [entriesOf_append]
  split_ifs with hk
  · rw [entriesOf, entriesOf, filter_singleton, decide_eq_true hk]
    rfl
  · rw [entriesOf, entriesOf, filter_singleton, decide_eq_false hk, cond_false, append_nil]

lemma entriesOf_eq_nil [DecidableEq Id] {k : Id} {l : List (VersioningEntry N Id)}
    (hk : k ∉ l.map VersioningEntry.getId) : entriesOf k l = [] := by
  rw [entriesOf, filter_eq_nil_iff]
  intro e he heq
  exact hk (mem_map.mpr ⟨e, he, of_decide_eq_true heq⟩)

lemma split_of_entriesOf [DecidableEq Id] {l pre post : List (VersioningEntry N Id)}
    {e : VersioningEntry N Id}
    {k : Id} (h : entriesOf k l = pre ++ e :: post) :
    ∃ pre' post', l = pre' ++ e :: post' ∧ entriesOf k pre' = pre := by
  obtain ⟨l₁, l₂, rfl, hpre, hrest⟩ := filter_eq_append_iff.mp h
  obtain ⟨l₃, l₄, rfl, hnone, -, -⟩ := filter_eq_cons_iff.mp hrest
  refine ⟨l₁ ++ l₃, l₄, by rw [append_assoc], ?_⟩
  rw [entriesOf_append, entriesOf, hpre, entriesOf, filter_eq_nil_iff.mpr (by simpa using hnone),
    append_nil]

def replayEntry [DecidableEq Id] (m : HashMap Id N) : VersioningEntry N Id → HashMap Id N
  | .update row => m.insert (getId row) row
  | .deletion id _ => m.erase id

/-- The state that the entries build up, one after the other. -/
def replay [DecidableEq Id] (l : List (VersioningEntry N Id)) : HashMap Id N :=
  l.foldl replayEntry ∅

lemma lookup_replay [DecidableEq Id] (l : List (VersioningEntry N Id)) (k : Id) :
    (replay l).lookup k = lastRow (entriesOf k l) := by
  induction l using List.reverseRecOn with
  | nil => rfl
  | append_singleton l e ih =>
    have hstep : replay (l ++ [e]) = replayEntry (replay l) e := by
      rw [replay, foldl_append]
      rfl
    rw [entriesOf_concat, hstep]
    cases e with
    | update row =>
      have hid : VersioningEntry.getId (.update row : VersioningEntry N Id) = getId row := rfl
      rw [replayEntry, lookup_insert_ite, hid, ih]
      by_cases hk : getId row = k
      · rw [if_pos hk, if_pos hk.symm, lastRow_concat_update]
      · rw [if_neg hk, if_neg (Ne.symm hk)]
    | deletion id t =>
      have hid : VersioningEntry.getId (.deletion id t : VersioningEntry N Id) = id := rfl
      rw [replayEntry, lookup_erase_ite, hid, ih]
      by_cases hk : id = k
      · rw [if_pos hk, if_pos hk.symm, lastRow_concat_deletion]
      · rw [if_neg hk, if_neg (Ne.symm hk)]

variable {L : Type} [LinearOrder L] (ord : Id → L)

/-- The sort key of an entry of the transaction with an index. -/
def ordinal (e : VersioningEntry N Id × Nat) : L ×ₗ NaiveDateTime ×ₗ Nat :=
  toLex (ord e.1.getId, toLex (e.1.version, e.2))

/-- `sort_by_cached_key`, which is stable. -/
def sortEntries (l : List (VersioningEntry N Id × Nat)) : List (VersioningEntry N Id) :=
  (l.insertionSort fun a b => ordinal ord a ≤ ordinal ord b).map Prod.fst

lemma entriesOf_sortEntries [DecidableEq Id] {l : List (VersioningEntry N Id × Nat)}
    (hl : l.Pairwise fun a b => toLex (a.1.version, a.2) ≤ toLex (b.1.version, b.2)) (k : Id) :
    entriesOf k (sortEntries ord l) = entriesOf k (l.map Prod.fst) := by
  have hkey : ∀ l : List (VersioningEntry N Id × Nat),
      entriesOf k (l.map Prod.fst) = (l.filter fun e => e.1.getId = k).map Prod.fst := by
    intro l
    rw [entriesOf, filter_map]
    rfl
  rw [sortEntries, hkey, hkey]
  congr 1
  have hsorted : (l.filter fun e => e.1.getId = k).Pairwise fun a b =>
      ordinal ord a ≤ ordinal ord b := by
    apply (hl.filter _).imp_of_mem
    intro a b ha hb hab
    have hka := of_decide_eq_true (mem_filter.mp ha).2
    have hkb := of_decide_eq_true (mem_filter.mp hb).2
    exact Prod.Lex.toLex_le_toLex.mpr (.inr ⟨by rw [hka, hkb], hab⟩)
  have hsub := (sublist_insertionSort hsorted filter_sublist).filter fun e => decide (e.1.getId = k)
  rw [filter_filter] at hsub
  simp only [Bool.and_self] at hsub
  have hperm := (perm_insertionSort (fun a b => ordinal ord a ≤ ordinal ord b) l).filter
    fun e => decide (e.1.getId = k)
  exact (hsub.eq_of_length hperm.length_eq.symm).symm

end
section
variable {N Id : Type} [PartitionedVersionedRow N Id] [DecidableEq Id]

/-- The versions of a key after some entries. -/
def track (l : List (VersioningEntry N Id)) (k : Id) : Track N := .ofEntries (entriesOf k l)

lemma track_concat (l : List (VersioningEntry N Id)) (e : VersioningEntry N Id) (k : Id) :
    track (l ++ [e]) k = if e.getId = k then (track l k).step e else track l k := by
  unfold track
  rw [entriesOf_concat]
  split_ifs
  · rw [Track.ofEntries_concat]
  · rfl

/-- A pass over the batch `l` that has come to the end of `p`, after the entries `h`. -/
structure PassTracks (h l p : List (VersioningEntry N Id)) (s : VersioningPass N Id) : Prop where
  latest : ∀ k ∈ l.map VersioningEntry.getId, s.latest.lookup k = (track (h ++ p) k).current
  other : ∀ k, k ∉ l.map VersioningEntry.getId → s.latest.lookup k = none
  archived : ∀ k, (track h k).archived ++ s.archived.filter (fun r => getId r = k) =
    (track (h ++ p) k).archived
  deleted : ∀ k, k ∈ s.deleted ↔
    k ∈ p.map VersioningEntry.getId ∧ (track (h ++ p) k).current = none

namespace PassTracks
variable {h l p : List (VersioningEntry N Id)} {s : VersioningPass N Id}
  {e : VersioningEntry N Id}

/-- An entry closes the version `c` of its key. -/
lemma concat (hs : PassTracks h l p s) (he : e.getId ∈ l.map VersioningEntry.getId)
    {s' : VersioningPass N Id} {c : List N} (hc : ∀ r ∈ c, getId r = e.getId)
    (hlatest : ∀ k, s'.latest.lookup k =
      if k = e.getId then ((track (h ++ p) e.getId).step e).current else s.latest.lookup k)
    (harchived : s'.archived = s.archived ++ c)
    (hstep : ((track (h ++ p) e.getId).step e).archived = (track (h ++ p) e.getId).archived ++ c)
    (hdeleted : ∀ k, k ∈ s'.deleted ↔
      if k = e.getId then ((track (h ++ p) e.getId).step e).current = none else k ∈ s.deleted) :
    PassTracks h l (p ++ [e]) s' := by
  have htrack : ∀ k, track (h ++ (p ++ [e])) k =
      if e.getId = k then (track (h ++ p) k).step e else track (h ++ p) k := by
    intro k
    rw [← append_assoc, track_concat]
  refine ⟨?_, ?_, ?_, ?_⟩
  · intro k hk
    rw [hlatest, htrack]
    by_cases heq : k = e.getId
    · subst heq
      rw [if_pos rfl, if_pos rfl]
    · rw [if_neg heq, if_neg (Ne.symm heq)]
      exact hs.latest k hk
  · intro k hk
    have hne : k ≠ e.getId := fun heq => hk (heq ▸ he)
    rw [hlatest, if_neg hne]
    exact hs.other k hk
  · intro k
    rw [harchived, filter_append, ← append_assoc, hs.archived, htrack]
    by_cases heq : e.getId = k
    · subst heq
      rw [if_pos rfl, hstep, filter_eq_self.mpr fun r hr => decide_eq_true (hc r hr)]
    · have hnil : c.filter (fun r => getId r = k) = [] := by
        rw [filter_eq_nil_iff]
        intro r hr hk
        exact heq ((hc r hr).symm.trans (of_decide_eq_true hk))
      rw [if_neg heq, hnil, append_nil]
  · intro k
    rw [hdeleted, htrack, map_append, mem_append]
    by_cases heq : k = e.getId
    · subst heq
      simp
    · rw [if_neg heq, if_neg (Ne.symm heq), hs.deleted]
      simp [heq]

variable [LawfulVersionedRow N Id]

lemma getId_of_track (l : List (VersioningEntry N Id)) (k : Id) {r : N}
    (hr : r ∈ (track l k).current) : getId r = k :=
  Track.getId_of_current (fun _ he => of_decide_eq_true (mem_filter.mp he).2) hr

/-- The pass does to each key what the entries do to its versions. -/
lemma apply (hs : PassTracks h l p s) (he : e.getId ∈ l.map VersioningEntry.getId)
    (hpresent : ∀ id t, e = .deletion id t → (track (h ++ p) id).current ≠ none) :
    ∃ s', s.apply e = .ok s' ∧ PassTracks h l (p ++ [e]) s' := by
  have hlookup := hs.latest e.getId he
  have hid := fun r => getId_of_track (h ++ p) e.getId (r := r)
  cases e with
  | update row =>
    have hrow : VersioningEntry.getId (.update row : VersioningEntry N Id) = getId row := rfl
    rw [hrow] at hlookup hid
    cases hcur : (track (h ++ p) (getId row)).current with
    | none =>
      have hstep : (track (h ++ p) (getId row)).step (.update row) =
          ⟨some row, (track (h ++ p) (getId row)).archived⟩ := by rw [Track.step, hcur]
      rw [hcur] at hlookup
      unfold VersioningPass.apply
      dsimp only
      rw [hlookup]
      refine ⟨_, rfl, hs.concat he (c := []) (by simp) ?_ (by simp) (by rw [hrow, hstep]; simp) ?_⟩
      · intro k
        rw [lookup_insert_ite, hrow, hstep]
      · intro k
        rw [hrow, hstep]
        by_cases hk : k = getId row <;> simp [hk]
    | some prev =>
      have hstep : (track (h ++ p) (getId row)).step (.update row) = ⟨some (archive prev row).2,
            (track (h ++ p) (getId row)).archived ++ [(archive prev row).1]⟩ := by
        rw [Track.step, hcur]
      have hprev : getId (archive prev row).1 = getId row :=
        (getId_congr (core_archived prev row)).trans (hid prev hcur)
      rw [hcur] at hlookup
      unfold VersioningPass.apply
      dsimp only
      rw [hlookup]
      refine ⟨_, rfl, hs.concat he (c := [(archive prev row).1]) ?_ ?_ rfl (by rw [hrow, hstep]) ?_⟩
      · intro r hr
        rw [mem_singleton.mp hr]
        exact hprev
      · intro k
        rw [lookup_insert_ite, lookup_erase_ite, hrow, hstep]
        split_ifs <;> rfl
      · intro k
        rw [hrow, hstep]
        by_cases hk : k = getId row <;> simp [hk]
  | deletion id t =>
    have hdeletion : VersioningEntry.getId (.deletion id t : VersioningEntry N Id) = id := rfl
    rw [hdeletion] at hlookup hid
    cases hcur : (track (h ++ p) id).current with
    | none => exact absurd hcur (hpresent id t rfl)
    | some row =>
      have hstep : (track (h ++ p) id).step (.deletion id t) =
          ⟨none, (track (h ++ p) id).archived ++ [delete row t]⟩ := by
        rw [Track.step, hcur]
      have hgone : getId (delete row t) = id :=
        (getId_congr (core_delete row t)).trans (hid row hcur)
      rw [hcur] at hlookup
      unfold VersioningPass.apply
      dsimp only
      rw [hlookup]
      refine ⟨_, rfl, hs.concat he (c := [delete row t]) ?_ ?_ rfl (by rw [hdeletion, hstep]) ?_⟩
      · intro r hr
        rw [mem_singleton.mp hr]
        exact hgone
      · intro k
        rw [lookup_erase_ite, hdeletion, hstep]
      · intro k
        rw [hdeletion, hstep]
        by_cases hk : k = id <;> simp [hk]

/-- The pass over the rest of the batch, in which deleted keys have a version. -/
lemma foldlM {rest : List (VersioningEntry N Id)} (hs : PassTracks h l p s) (hl : l = p ++ rest)
    (hpresent : ∀ k pre t post, entriesOf k (h ++ l) = pre ++ .deletion k t :: post →
      (Track.ofEntries pre).current ≠ none) :
    ∃ s', rest.foldlM VersioningPass.apply s = .ok s' ∧ PassTracks h l l s' := by
  induction rest generalizing p s with
  | nil =>
    rw [append_nil] at hl
    exact ⟨s, rfl, hl ▸ hs⟩
  | cons e rest ih =>
    have hmem : e.getId ∈ l.map VersioningEntry.getId := by
      rw [hl]
      simp
    obtain ⟨s₁, happly, hs₁⟩ := hs.apply hmem (by
      rintro id t rfl
      apply hpresent id (entriesOf id (h ++ p)) t (entriesOf id rest)
      rw [hl, ← append_assoc, entriesOf_append, entriesOf, entriesOf, filter_cons_of_pos]
      · rfl
      · exact decide_eq_true rfl)
    obtain ⟨s', hrest, hs'⟩ := ih hs₁ (by rw [hl]; simp)
    refine ⟨s', ?_, hs'⟩
    rw [foldlM_cons, happly]
    exact hrest

end PassTracks
end
/-- The table of the latest versions, with one row for each key, and the archive. -/
structure PartitionedTables (N Id : Type) where
  latest : HashMap Id N
  archive : List N

variable {horizon : NaiveDateTime}

namespace PartitionedTables
variable {N Id : Type} [PartitionedVersionedRow N Id] [DecidableEq Id]
  {L : Type} [LinearOrder L] (ord : Id → L)

def empty : PartitionedTables N Id := ⟨∅, []⟩

def latestVersionsByIds (t : PartitionedTables N Id) (ids : List Id) : List N :=
  ids.filterMap t.latest.lookup

/-- What `update_protocol_states` and `upsert_slots` write: the archived rows are inserted, the
latest ones are inserted or replace the rows with their keys, and deleted keys are removed. -/
def write (retentionHorizon : NaiveDateTime) (t : PartitionedTables N Id)
    (batch : List (VersioningEntry N Id × Nat)) : Except StorageError (PartitionedTables N Id) := do
  let changes ← applyPartitionedVersioning (fun ids => .ok (t.latestVersionsByIds ids))
    (sortEntries ord batch) retentionHorizon
  let latest := t.latest.extend (changes.latest.map fun row => (getId row, toLatest row))
  return ⟨latest.eraseAll changes.deleted, t.archive ++ changes.archived⟩

/-- The rows of a key in both tables. -/
def rowsOf (t : PartitionedTables N Id) (k : Id) : List N :=
  (t.archive.filter fun r => getId r = k) ++ (t.latest.lookup k).toList

/-- The tables hold the versions of every key. -/
def Tracks (t : PartitionedTables N Id) (h : List (VersioningEntry N Id)) : Prop :=
  ∀ k, t.latest.lookup k = (track h k).current ∧
    (t.archive.filter fun r => getId r = k) = (track h k).archived

variable {h l l' : List (VersioningEntry N Id)} {t : PartitionedTables N Id}
  {s : VersioningPass N Id}

lemma Tracks.rowsOf (ht : t.Tracks l) (k : Id) : t.rowsOf k = (track l k).rows := by
  rw [PartitionedTables.rowsOf, Track.rows, (ht k).1, (ht k).2]

lemma lookup_latestVersionsByIds {t : PartitionedTables N Id}
    (hkeyed : ∀ k r, t.latest.lookup k = some r → getId r = k) (ids : List Id) (k : Id) :
    (latestById (t.latestVersionsByIds ids)).lookup k =
      if k ∈ ids then t.latest.lookup k else none := by
  have hrows : ∀ r ∈ t.latestVersionsByIds ids, t.latest.lookup (getId r) = some r := by
    intro r hr
    obtain ⟨id, -, hid⟩ := mem_filterMap.mp hr
    rw [hkeyed id r hid]
    exact hid
  rw [latestById, lookup_ofList_keyed (f := fun k => t.latest.lookup k) hrows]
  cases hlookup : t.latest.lookup k with
  | none => rw [ite_self, ite_self]
  | some r =>
    have hiff : k ∈ (t.latestVersionsByIds ids).map getId ↔ k ∈ ids := by
      rw [mem_map]
      constructor
      · rintro ⟨r', hr', rfl⟩
        obtain ⟨id, hid, hlookup'⟩ := mem_filterMap.mp hr'
        rw [hkeyed id r' hlookup']
        exact hid
      · intro hk
        exact ⟨r, mem_filterMap.mpr ⟨k, hk, hlookup⟩, hkeyed k r hlookup⟩
    simp only [hiff]

/-- The latest rows of a pass, by their ids. -/
lemma lastOf_values {m : HashMap Id N} (hkeyed : ∀ k r, m.lookup k = some r → getId r = k)
    (f : N → N) (k : Id) :
    HashMap.lastOf (m.values.map fun row => (getId row, f row)) k = (m.lookup k).map f := by
  have hmap : m.values.map (fun row => (getId row, f row)) =
      m.toList.map fun e => (e.1, f e.2) := by
    rw [HashMap.values, map_map]
    apply map_congr_left
    rintro ⟨k, r⟩ he
    have hid := hkeyed k r (HashMap.mem_toList.mp he)
    exact Prod.ext hid rfl
  rw [hmap, lastOf_map, lastOf_toList]

variable [LawfulVersionedRow N Id]

/-- Entries that are in the order of their times for each key. -/
structure InOrder (horizon : NaiveDateTime) (l : List (VersioningEntry N Id)) : Prop where
  sorted : ∀ k, (entriesOf k l).Pairwise fun a b => a.version ≤ b.version
  written : ∀ e ∈ l, e.IsWritten
  kept : ∀ e ∈ l, horizon < e.version

lemma InOrder.timeline (hl : InOrder horizon l) (k : Id) :
    KeyTimeline (entriesOf k l) (track l k) :=
  timeline_ofEntries (hl.sorted k) fun e he => hl.written e (mem_of_mem_filter he)

/-- The order of entries for different keys does not matter. -/
lemma InOrder.congr (hl : InOrder horizon l)
    (heq : ∀ k, entriesOf k l' = entriesOf k l) : InOrder horizon l' := by
  have hmem : ∀ e ∈ l', e ∈ l := by
    intro e he
    have hkey : e ∈ entriesOf e.getId l' := mem_filter.mpr ⟨he, decide_eq_true rfl⟩
    rw [heq] at hkey
    exact mem_of_mem_filter hkey
  refine ⟨?_, fun e he => hl.written e (hmem e he), fun e he => hl.kept e (hmem e he)⟩
  intro k
  rw [heq]
  exact hl.sorted k

/-- The version that is stored was written by one of the entries. -/
lemma InOrder.validFrom (hl : InOrder horizon l) {k : Id} {r : N} (hr : r ∈ (track l k).current) :
    ∃ e ∈ l, getValidFrom r = e.version := by
  obtain ⟨pre, e, post, hsplit, hcore, -⟩ :=
    (hl.timeline k).written r (mem_append_right _ (Option.mem_toList.mpr hr))
  have hmem : (.update e : VersioningEntry N Id) ∈ entriesOf k l := by
    rw [hsplit]
    simp
  refine ⟨.update e, mem_of_mem_filter hmem, ?_⟩
  rw [← hcore]
  exact (validFrom_core r).symm

lemma Tracks.keyed (ht : t.Tracks h) (k : Id) (r : N) (hr : t.latest.lookup k = some r) :
    getId r = k := by
  rw [(ht k).1] at hr
  exact PassTracks.getId_of_track h k hr

/-- None of the new entries is stale, and the pass follows all of them. -/
lemma Tracks.pass (ht : t.Tracks h) (hh : InOrder horizon h)
    (hnew : ∀ e ∈ h, ∀ e' ∈ l, e.version < e'.version)
    (hpresent : ∀ k pre t post, entriesOf k (h ++ l) = pre ++ .deletion k t :: post →
      (Track.ofEntries pre).current ≠ none) :
    ∃ s, setPartitionedVersioningAttributes
        (t.latestVersionsByIds (l.map VersioningEntry.getId)) l =
      .ok ⟨s.latest.values, s.archived, s.deleted.keys⟩ ∧ PassTracks h l l s := by
  have hlookup := lookup_latestVersionsByIds ht.keyed (l.map VersioningEntry.getId)
  generalize t.latestVersionsByIds (l.map VersioningEntry.getId) = rows at hlookup
  have hfresh : ∀ e ∈ l, isStale (latestById rows) e = false := by
    intro e he
    rw [isStale, hlookup, if_pos (mem_map_of_mem he), (ht _).1]
    cases hcur : (track h e.getId).current with
    | none => rfl
    | some =>
      obtain ⟨e', he', hfrom⟩ := hh.validFrom hcur
      rw [Option.any_some, hfrom]
      simpa using hnew e' he' e he
  have hkeep : freshEntries rows l = l := by
    rw [freshEntries, filter_eq_self]
    intro e he
    rw [hfresh e he]
    rfl
  have hmarked : l.filter (isStale (latestById rows)) = [] := by
    rw [filter_eq_nil_iff]
    intro e he
    rw [hfresh e he]
    exact Bool.false_ne_true
  have hstart : PassTracks h l [] (⟨latestById rows, [], ∅, ∅⟩ : VersioningPass N Id) := by
    refine ⟨?_, ?_, ?_, ?_⟩
    · intro k hk
      rw [hlookup, if_pos hk, append_nil, (ht k).1]
    · intro k hk
      rw [hlookup, if_neg hk]
    · intro k
      simp
    · intro k
      simp
  obtain ⟨s, hfold, hs⟩ := hstart.foldlM (nil_append l).symm hpresent
  refine ⟨s, ?_, hs⟩
  rw [setPartitionedVersioningAttributes_eq rows rows l (fun _ _ => rfl), hkeep, staleIds, hmarked,
    hfold]
  dsimp only [Except.map]
  rw [map_nil, retain_unmarked]

/-- What the tables hold after the rows of a pass are written. -/
lemma Tracks.rows (ht : t.Tracks h) (hs : PassTracks h l l s) (hhl : InOrder horizon (h ++ l)) :
    Tracks ⟨(t.latest.extend (s.latest.values.map fun row => (getId row, toLatest row))).eraseAll
      s.deleted.keys, t.archive ++ s.archived⟩ (h ++ l) := by
  intro k
  have hkeyed : ∀ k r, s.latest.lookup k = some r → getId r = k := by
    intro k r hr
    by_cases hk : k ∈ l.map VersioningEntry.getId
    · rw [hs.latest k hk] at hr
      exact PassTracks.getId_of_track _ k hr
    · rw [hs.other k hk] at hr
      cases hr
  constructor
  · rw [lookup_eraseAll, lookup_extend, lastOf_values hkeyed]
    by_cases hk : k ∈ l.map VersioningEntry.getId
    · rw [hs.latest k hk]
      have hdeleted := hs.deleted k
      cases hcur : (track (h ++ l) k).current with
      | none => rw [if_pos (AList.mem_keys.mp (hdeleted.mpr ⟨hk, hcur⟩))]
      | some r =>
        have hnot : k ∉ s.deleted.keys := by
          rw [← AList.mem_keys, hdeleted, hcur]
          simp
        have hopened := (hhl.timeline k).isOpen r hcur
        rw [if_neg hnot, Option.map_some, toLatest_of_open r hopened, Option.some_or]
    · have hnot : k ∉ s.deleted.keys := by
        rw [← AList.mem_keys, hs.deleted]
        exact fun hd => hk hd.1
      rw [if_neg hnot, hs.other k hk, Option.map_none, Option.none_or, (ht k).1,
        track, track, entriesOf_append, entriesOf_eq_nil hk, append_nil]
  · rw [filter_append, (ht k).2]
    exact hs.archived k

lemma filter_horizon (hs : PassTracks h l l s) (hhl : InOrder horizon (h ++ l)) :
    s.archived.filter (fun row => getValidTo row > (horizon : WithTop NaiveDateTime)) =
      s.archived := by
  rw [filter_eq_self]
  intro r hr
  have hmem : r ∈ (track (h ++ l) (getId r)).archived := by
    rw [← hs.archived]
    exact mem_append_right _ (mem_filter.mpr ⟨hr, decide_eq_true rfl⟩)
  obtain ⟨e, he, hto⟩ := (hhl.timeline (getId r)).closed r hmem
  rw [hto]
  exact decide_eq_true (WithTop.coe_lt_coe.mpr (hhl.kept e (mem_of_mem_filter he)))

/-- A batch of newer entries is written as a whole. -/
lemma Tracks.write (ht : t.Tracks h) (hh : InOrder horizon h)
    {b : List (VersioningEntry N Id × Nat)} (hhb : InOrder horizon (h ++ b.map Prod.fst))
    (hb : b.Pairwise fun a b => toLex (a.1.version, a.2) ≤ toLex (b.1.version, b.2))
    (hnew : ∀ e ∈ h, ∀ e' ∈ b.map Prod.fst, e.version < e'.version)
    (hpresent : ∀ k pre t post, entriesOf k (h ++ b.map Prod.fst) = pre ++ .deletion k t :: post →
      (Track.ofEntries pre).current ≠ none) :
    ∃ t', t.write ord horizon b = .ok t' ∧ t'.Tracks (h ++ b.map Prod.fst) := by
  have hsorted : ∀ k, entriesOf k (h ++ sortEntries ord b) = entriesOf k (h ++ b.map Prod.fst) := by
    intro k
    rw [entriesOf_append, entriesOf_sortEntries ord hb, entriesOf_append]
  have htrack : ∀ k, track (h ++ sortEntries ord b) k = track (h ++ b.map Prod.fst) k := by
    intro k
    rw [track, hsorted]
    rfl
  have hmem : ∀ e ∈ sortEntries ord b, e ∈ b.map Prod.fst :=
    forall_mem_map.mpr fun e he => mem_map_of_mem ((mem_insertionSort _).mp he)
  have hhl := hhb.congr hsorted
  suffices hdone : ∃ t', t.write ord horizon b = .ok t' ∧ t'.Tracks (h ++ sortEntries ord b) by
    obtain ⟨t', hwritten, ht'⟩ := hdone
    refine ⟨t', hwritten, fun k => ?_⟩
    rw [← htrack]
    exact ht' k
  unfold PartitionedTables.write applyPartitionedVersioning
  by_cases hempty : sortEntries ord b = []
  · rw [hempty, if_pos rfl]
    refine ⟨_, rfl, fun k => ?_⟩
    rw [append_nil]
    rw [append_nil]
    exact ht k
  · obtain ⟨s, hset, hs⟩ := ht.pass hh (fun e he e' he' => hnew e he e' (hmem e' he'))
      (fun k => by rw [hsorted]; exact hpresent k)
    rw [if_neg hempty, ok_bind, hset]
    refine ⟨_, rfl, ?_⟩
    rw [filter_horizon hs hhl]
    exact ht.rows hs hhl

end PartitionedTables
end Tycho
