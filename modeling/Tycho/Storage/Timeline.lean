import Mathlib.Data.List.Induction
import Tycho.Storage.Versioning

/-! The versions of one key: at every time at most one of them is valid, and it holds what was
written last. -/
namespace Tycho
open PartitionedVersionedRow List Option

section
variable {N Id : Type}

/-- The row that the last entry for a key leaves. -/
def lastRow (l : List (VersioningEntry N Id)) : Option N :=
  match l.getLast? with
  | some (.update row) => some row
  | _ => none

@[simp] lemma lastRow_concat_update (l : List (VersioningEntry N Id)) (row : N) :
    lastRow (l ++ [.update row]) = some row := by
  rw [lastRow, List.getLast?_concat]

@[simp] lemma lastRow_concat_deletion (l : List (VersioningEntry N Id)) (id : Id)
    (t : NaiveDateTime) : lastRow (l ++ [.deletion id t]) = none := by
  rw [lastRow, List.getLast?_concat]

variable [PartitionedVersionedRow N Id]

/-- The row is the version of its key at a time. -/
def validAt (t : NaiveDateTime) (row : N) : Bool :=
  getValidFrom row ≤ t ∧ (t : WithTop NaiveDateTime) < getValidTo row

/-- The current version of a key and the archived ones, oldest first. -/
structure Track (N : Type) where
  current : Option N
  archived : List N

namespace Track

def step (s : Track N) : VersioningEntry N Id → Track N
  | .update row =>
    match s.current with
    | some prev => ⟨some (archive prev row).2, s.archived ++ [(archive prev row).1]⟩
    | none => ⟨some row, s.archived⟩
  | .deletion _ deleteVersion =>
    match s.current with
    | some row => ⟨none, s.archived ++ [delete row deleteVersion]⟩
    | none => s

/-- The versions that the entries for one key leave. -/
def ofEntries (l : List (VersioningEntry N Id)) : Track N := l.foldl step ⟨none, []⟩

lemma ofEntries_concat (l : List (VersioningEntry N Id)) (e : VersioningEntry N Id) :
    ofEntries (l ++ [e]) = (ofEntries l).step e := by
  rw [ofEntries, foldl_append]
  rfl

def rows (s : Track N) : List N := s.archived ++ s.current.toList

end Track

/-- Before a new entry everything is as it was. -/
lemma filter_concat_of_lt {l : List (VersioningEntry N Id)} {e : VersioningEntry N Id}
    {t : NaiveDateTime} (hlt : t < e.version) :
    (l ++ [e]).filter (fun e => e.version ≤ t) = l.filter fun e => e.version ≤ t := by
  rw [filter_append, filter_cons_of_neg (by simpa using hlt), filter_nil, append_nil]

/-- From the new entry on all entries count. -/
lemma filter_concat_of_le {l : List (VersioningEntry N Id)} {e : VersioningEntry N Id}
    {t : NaiveDateTime} (hsorted : ∀ e' ∈ l, e'.version ≤ e.version) (hle : e.version ≤ t) :
    (l ++ [e]).filter (fun e => e.version ≤ t) = l ++ [e] := by
  rw [filter_eq_self, forall_mem_append, forall_mem_singleton]
  exact ⟨fun e' he' => decide_eq_true ((hsorted e' he').trans hle), decide_eq_true hle⟩

end

/-- What archiving and deleting change in a row. -/
class LawfulVersionedRow (N : Type) (Id : outParam Type) [PartitionedVersionedRow N Id] where
  value : N → Option StoreVal
  previousValue : N → Option StoreVal
  /-- The row as it was built from the update. -/
  core : N → N
  getId_core (r : N) : getId (core r) = getId r
  validFrom_core (r : N) : getValidFrom (core r) = getValidFrom r
  value_core (r : N) : value (core r) = value r
  core_archived (p r : N) : core (archive p r).1 = core p
  previousValue_archived (p r : N) : previousValue (archive p r).1 = previousValue p
  validTo_archived (p r : N) : getValidTo (archive p r).1 = getValidFrom r
  core_next (p r : N) : core (archive p r).2 = core r
  previousValue_next (p r : N) : previousValue (archive p r).2 = value p
  validTo_next (p r : N) : getValidTo (archive p r).2 = getValidTo r
  core_delete (r : N) (t : NaiveDateTime) : core (delete r t) = core r
  previousValue_delete (r : N) (t : NaiveDateTime) : previousValue (delete r t) = previousValue r
  validTo_delete (r : N) (t : NaiveDateTime) : getValidTo (delete r t) = t
  toLatest_of_open (r : N) : getValidTo r = MAX_TS → toLatest r = r

open LawfulVersionedRow

instance : LawfulVersionedRow NewProtocolState (Int × AttrStoreKey) where
  value row := some row.attributeValue
  previousValue row := row.previousValue
  core row := { row with previousValue := none, validTo := MAX_TS }
  getId_core _ := rfl
  validFrom_core _ := rfl
  value_core _ := rfl
  core_archived _ _ := rfl
  previousValue_archived _ _ := rfl
  validTo_archived _ _ := rfl
  core_next _ _ := rfl
  previousValue_next _ _ := rfl
  validTo_next _ _ := rfl
  core_delete _ _ := rfl
  previousValue_delete _ _ := rfl
  validTo_delete _ _ := rfl
  toLatest_of_open row h := by
    cases row
    cases h
    rfl

instance : LawfulVersionedRow NewSlot (Int × StoreKey) where
  value row := row.value
  previousValue row := row.previousValue
  core row := { row with previousValue := none, validTo := MAX_TS }
  getId_core _ := rfl
  validFrom_core _ := rfl
  value_core _ := rfl
  core_archived _ _ := rfl
  previousValue_archived _ _ := rfl
  validTo_archived _ _ := rfl
  core_next _ _ := rfl
  previousValue_next _ _ := rfl
  validTo_next _ _ := rfl
  core_delete _ _ := rfl
  previousValue_delete _ _ := rfl
  validTo_delete _ _ := rfl
  toLatest_of_open row h := by
    cases row
    cases h
    rfl

variable {N Id : Type} [PartitionedVersionedRow N Id] [LawfulVersionedRow N Id]

lemma getId_congr {r r' : N} (h : core r = core r') : getId r = getId r' := by
  rw [← getId_core r, h, getId_core]

lemma validFrom_congr {r r' : N} (h : core r = core r') : getValidFrom r = getValidFrom r' := by
  rw [← validFrom_core r, h, validFrom_core]

/-- A row as the gateway builds it for an update. -/
structure IsNew (row : N) : Prop where
  core : core row = row
  previousValue : previousValue row = none
  validTo : getValidTo row = MAX_TS

/-- An entry of a block with a timestamp. -/
def VersioningEntry.WrittenAt (ts : NaiveDateTime) : VersioningEntry N Id → Prop
  | .update row => IsNew row ∧ getValidFrom row = ts
  | .deletion _ deleteVersion => deleteVersion = ts

def VersioningEntry.IsWritten (e : VersioningEntry N Id) : Prop := e.WrittenAt e.version

/-- What the track of the entries for a key is. -/
structure KeyTimeline (l : List (VersioningEntry N Id)) (s : Track N) : Prop where
  current : s.current.map core = lastRow l
  isOpen : ∀ r ∈ s.current, getValidTo r = MAX_TS
  -- every version was written by an entry, over the value before it
  written : ∀ r ∈ s.rows, ∃ pre e post, l = pre ++ .update e :: post ∧ core r = e ∧
    previousValue r = (lastRow pre).bind value
  closed : ∀ r ∈ s.archived, ∃ e ∈ l, getValidTo r = e.version
  valid : ∀ t, (s.rows.filter (validAt t)).map core =
    (lastRow (l.filter fun e => e.version ≤ t)).toList

namespace KeyTimeline
variable {l : List (VersioningEntry N Id)} {s : Track N} {e : VersioningEntry N Id}

lemma nil : KeyTimeline ([] : List (VersioningEntry N Id)) (⟨none, []⟩ : Track N) where
  current := rfl
  isOpen r hr := by cases hr
  written r hr := by cases hr
  closed r hr := by cases hr
  valid t := rfl

section
variable (h : KeyTimeline l s)
include h

/-- Entries written later do not change how a version came about. -/
lemma written_concat (e : VersioningEntry N Id) {r r' : N} (hr : r ∈ s.rows)
    (hcore : core r' = core r) (hprev : previousValue r' = previousValue r) :
    ∃ pre e' post, l ++ [e] = pre ++ .update e' :: post ∧ core r' = e' ∧
      previousValue r' = (lastRow pre).bind value := by
  obtain ⟨pre, e', post, hl, hc, hp⟩ := h.written r hr
  exact ⟨pre, e', post ++ [e], by rw [hl, append_assoc, cons_append], hcore.trans hc,
    hprev.trans hp⟩

/-- Versions that are closed by now are not valid from the new entry on. -/
lemma filter_archived {t : NaiveDateTime}
    (hle : ∀ e' ∈ l, e'.version ≤ t) : s.archived.filter (validAt t) = [] := by
  rw [filter_eq_nil_iff]
  intro r hr hvalid
  obtain ⟨e', he', hto⟩ := h.closed r hr
  have hlt := (of_decide_eq_true hvalid).2
  rw [hto, WithTop.coe_lt_coe] at hlt
  exact absurd (hle e' he') (not_le.mpr hlt)

lemma closed_concat {r : N} (hr : r ∈ s.archived) : ∃ e' ∈ l ++ [e], getValidTo r = e'.version := by
  obtain ⟨e', he', hto⟩ := h.closed r hr
  exact ⟨e', mem_append_left _ he', hto⟩

/-- The entry closes the current version, if there is one, as `c`. -/
lemma concat (hsorted : ∀ e' ∈ l, e'.version ≤ e.version) {s' : Track N}
    {c : Option N} (harchived : s'.archived = s.archived ++ c.toList)
    (hc : ∀ r ∈ c, ∃ prev ∈ s.current, core r = core prev ∧
      previousValue r = previousValue prev ∧ getValidTo r = e.version)
    (hnone : c = none → s.current = none) (hcur : s'.current.map core = lastRow (l ++ [e]))
    (hnew : ∀ r ∈ s'.current, getValidTo r = MAX_TS ∧ getValidFrom r = e.version ∧
      previousValue r = (lastRow l).bind value ∧ e = .update (core r)) :
    KeyTimeline (l ++ [e]) s' := by
  refine ⟨hcur, fun r hr => (hnew r hr).1, ?_, ?_, ?_⟩
  · intro r hr
    rw [Track.rows, harchived, append_assoc, mem_append, mem_append, mem_toList, mem_toList] at hr
    rcases hr with hr | hr | hr
    · exact h.written_concat e (mem_append_left _ hr) rfl rfl
    · obtain ⟨prev, hprev, hcore, hprevious, -⟩ := hc r hr
      exact h.written_concat e (mem_append_right _ (mem_toList.mpr hprev)) hcore hprevious
    · obtain ⟨-, -, hprevious, he⟩ := hnew r hr
      exact ⟨l, core r, [], by rw [← he], rfl, hprevious⟩
  · intro r hr
    rw [harchived, mem_append, mem_toList] at hr
    rcases hr with hr | hr
    · exact h.closed_concat hr
    · obtain ⟨-, -, -, -, hto⟩ := hc r hr
      exact ⟨e, by simp, hto⟩
  · intro t
    rw [Track.rows, harchived, append_assoc, filter_append, filter_append]
    rcases lt_or_ge t e.version with hlt | hle
    · -- the closed version is still the valid one, and the new version is not yet
      have hcur' : s'.current.toList.filter (validAt t) = [] := by
        rw [filter_eq_nil_iff]
        intro r hr hvalid
        have hfrom := (of_decide_eq_true hvalid).1
        rw [(hnew r (mem_toList.mp hr)).2.1] at hfrom
        exact absurd hfrom (not_le.mpr hlt)
      have hsame : (c.toList.filter (validAt t)).map core =
          (s.current.toList.filter (validAt t)).map core := by
        cases hcase : c with
        | none => rw [hnone hcase]
        | some r =>
          obtain ⟨prev, hprev, hcore, -, hto⟩ := hc r hcase
          have hvalid : validAt t r = validAt t prev := by
            unfold validAt
            rw [validFrom_congr hcore, hto, h.isOpen prev hprev]
            simp [MAX_TS, hlt]
          rw [mem_def.mp hprev, toList_some, toList_some, filter_singleton, filter_singleton,
            hvalid]
          cases validAt t prev <;> simp [hcore]
      rw [hcur', append_nil, map_append, hsame, ← map_append,
        ← filter_append, filter_concat_of_lt hlt]
      exact h.valid t
    · have harchived := h.filter_archived fun e' he' => (hsorted e' he').trans hle
      have hdone : c.toList.filter (validAt t) = [] := by
        rw [filter_eq_nil_iff]
        intro r hr hvalid
        obtain ⟨-, -, -, -, hto⟩ := hc r (mem_toList.mp hr)
        have hlt := (of_decide_eq_true hvalid).2
        rw [hto, WithTop.coe_lt_coe] at hlt
        exact absurd hle (not_le.mpr hlt)
      have hnow : s'.current.toList.filter (validAt t) = s'.current.toList := by
        rw [filter_eq_self]
        intro r hr
        obtain ⟨hto, hfrom, -⟩ := hnew r (mem_toList.mp hr)
        unfold validAt
        rw [hto, hfrom]
        simp [MAX_TS, hle]
      rw [harchived, hdone, hnow, filter_concat_of_le hsorted hle, ← hcur]
      cases s'.current <;> rfl

lemma lastRow_of_current {prev : N} (hcur : s.current = some prev) :
    lastRow l = some (core prev) := by
  rw [← h.current, hcur]
  rfl

lemma step (hsorted : ∀ e' ∈ l, e'.version ≤ e.version)
    (hwrite : e.IsWritten) : KeyTimeline (l ++ [e]) (s.step e) := by
  cases e with
  | update row =>
    have hrow : IsNew row := hwrite.1
    cases hcur : s.current with
    | none =>
      have hlast : lastRow l = none := by
        rw [← h.current, hcur]
        rfl
      have hstep : s.step (.update row) = ⟨some row, s.archived⟩ := by
        rw [Track.step, hcur]
      rw [hstep]
      apply h.concat hsorted (c := none)
      · simp
      · intro r hr
        cases hr
      · intro _
        exact hcur
      · rw [lastRow_concat_update, map_some, hrow.core]
      · intro r hr
        cases hr
        rw [hlast, hrow.core]
        exact ⟨hrow.validTo, rfl, hrow.previousValue, rfl⟩
    | some prev =>
      have hstep : s.step (.update row) =
          ⟨some (archive prev row).2, s.archived ++ [(archive prev row).1]⟩ := by
        rw [Track.step, hcur]
      have hcore : core (archive prev row).2 = row := (core_next prev row).trans hrow.core
      rw [hstep]
      apply h.concat hsorted (c := some (archive prev row).1)
      · rfl
      · intro r hr
        cases hr
        exact ⟨prev, hcur, core_archived prev row, previousValue_archived prev row,
          validTo_archived prev row⟩
      · intro hc
        cases hc
      · rw [lastRow_concat_update, map_some, hcore]
      · intro r hr
        cases hr
        have hfrom : getValidFrom (archive prev row).2 = getValidFrom row :=
          validFrom_congr (core_next prev row)
        rw [h.lastRow_of_current hcur, bind_some, value_core, hcore]
        exact ⟨(validTo_next prev row).trans hrow.validTo, hfrom, previousValue_next prev row, rfl⟩
  | deletion id t =>
    cases hcur : s.current with
    | none =>
      have hstep : s.step (.deletion id t) = s := by
        rw [Track.step, hcur]
      rw [hstep]
      apply h.concat hsorted (c := none)
      · simp
      · intro r hr
        cases hr
      · intro _
        exact hcur
      · rw [lastRow_concat_deletion, hcur]
        rfl
      · intro r hr
        rw [hcur] at hr
        cases hr
    | some prev =>
      have hstep : s.step (.deletion id t) = ⟨none, s.archived ++ [delete prev t]⟩ := by
        rw [Track.step, hcur]
      rw [hstep]
      apply h.concat hsorted (c := some (delete prev t))
      · rfl
      · intro r hr
        cases hr
        exact ⟨prev, hcur, core_delete prev t, previousValue_delete prev t, validTo_delete prev t⟩
      · intro hc
        cases hc
      · rw [lastRow_concat_deletion]
        rfl
      · intro r hr
        cases hr

end

end KeyTimeline

lemma Track.getId_of_current {k : Id} {l : List (VersioningEntry N Id)}
    (hl : ∀ e ∈ l, e.getId = k) {r : N} (hr : r ∈ (Track.ofEntries l).current) : getId r = k := by
  induction l using List.reverseRecOn generalizing r with
  | nil => cases hr
  | append_singleton l e ih =>
    have hid := hl e (by simp)
    have hprev := fun r => @ih (fun e' he' => hl e' (mem_append_left _ he')) r
    rw [Track.ofEntries_concat] at hr
    cases e with
    | update row =>
      cases hcur : (Track.ofEntries l).current with
      | none =>
        rw [Track.step, hcur] at hr
        cases hr
        exact hid
      | some prev =>
        rw [Track.step, hcur] at hr
        cases hr
        exact (getId_congr (core_next prev row)).trans hid
    | deletion =>
      cases hcur : (Track.ofEntries l).current with
      | none =>
        rw [Track.step, hcur] at hr
        exact hprev r hr
      | some =>
        rw [Track.step, hcur] at hr
        cases hr

/-- The versions of a key at every time, for entries in the order of their times. -/
lemma timeline_ofEntries {l : List (VersioningEntry N Id)}
    (hsorted : l.Pairwise fun a b => a.version ≤ b.version) (hwritten : ∀ e ∈ l, e.IsWritten) :
    KeyTimeline l (Track.ofEntries l) := by
  induction l using List.reverseRecOn with
  | nil => exact .nil
  | append_singleton _ e ih =>
    obtain ⟨hl, -, hlast⟩ := pairwise_append.mp hsorted
    rw [Track.ofEntries_concat]
    apply (ih hl fun e' he' => hwritten e' (mem_append_left _ he')).step
    · intro e' he'
      exact hlast e' he' e (by simp)
    · exact hwritten e (by simp)
end Tycho
