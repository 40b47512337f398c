import Mathlib.Data.List.Chain
import Mathlib.Data.Prod.Lex
import Tycho.Storage.Versioning

/-! Plain versioned tables: each entity has one open version, and the others are linked to it. -/
namespace Tycho
open Collections VersionedRow HashMap List StoredRow VersionedTable

/-- What closing a version changes in a row. -/
class LawfulEndVersion (N : Type) (Id : outParam Type) [VersionedRow N Id] where
  /-- The row as it was built from the entry. -/
  reopen : N → N
  entityId_setValidTo (r : N) (v : NaiveDateTime) : getEntityId (setValidTo r v) = getEntityId r
  validFrom_setValidTo (r : N) (v : NaiveDateTime) : getValidFrom (setValidTo r v) = getValidFrom r
  validTo_setValidTo (r : N) (v : NaiveDateTime) : getValidTo (setValidTo r v) = some v
  reopen_setValidTo (r : N) (v : NaiveDateTime) : reopen (setValidTo r v) = reopen r
  reopen_of_open (r : N) : getValidTo r = none → reopen r = r

open LawfulEndVersion

instance : LawfulEndVersion NewAccountBalance (Int × Int) where
  reopen row := { row with validTo := none }
  entityId_setValidTo _ _ := rfl
  validFrom_setValidTo _ _ := rfl
  validTo_setValidTo _ _ := rfl
  reopen_setValidTo _ _ := rfl
  reopen_of_open row h := by
    cases row
    cases h
    rfl

instance : LawfulEndVersion NewContractCode Int where
  reopen row := { row with validTo := none }
  entityId_setValidTo _ _ := rfl
  validFrom_setValidTo _ _ := rfl
  validTo_setValidTo _ _ := rfl
  reopen_setValidTo _ _ := rfl
  reopen_of_open row h := by
    cases row
    cases h
    rfl

section
variable {N Id : Type} [VersionedRow N Id]

/-- Each row ends where the next one begins. -/
def closeChain : List N → List N
  | current :: next :: rest => setValidTo current (getValidFrom next) :: closeChain (next :: rest)
  | rows => rows

def closeAt (v : NaiveDateTime) (r : N) : N := if getValidTo r = none then setValidTo r v else r

variable [LawfulEndVersion N Id] {l : List N}

lemma validTo_setValidTo_ne (r : N) (v : NaiveDateTime) : getValidTo (setValidTo r v) ≠ none := by
  rw [validTo_setValidTo]
  exact Option.some_ne_none _

lemma closeChain_append {m : List N} {e : N} (hl : ∀ r ∈ l, getValidTo r = none) :
    closeChain (l ++ e :: m) =
      (closeChain l).map (closeAt (getValidFrom e)) ++ closeChain (e :: m) := by
  induction l with
  | nil => rfl
  | cons a l ih =>
    have ha := hl a mem_cons_self
    have ih := ih fun r hr => hl r (mem_cons_of_mem a hr)
    cases l with
    | nil =>
      have hclose : closeAt (getValidFrom e) a = setValidTo a (getValidFrom e) := if_pos ha
      simp [closeChain, hclose]
    | cons b =>
      have hsame : closeAt (getValidFrom e) (setValidTo a (getValidFrom b)) =
          setValidTo a (getValidFrom b) := if_neg (validTo_setValidTo_ne a _)
      rw [cons_append, cons_append, closeChain, ← cons_append, ih, closeChain,
        map_cons, hsame, cons_append]

lemma map_reopen_closeChain (hl : ∀ r ∈ l, getValidTo r = none) :
    (closeChain l).map reopen = l := by
  induction l with
  | nil => rfl
  | cons a l ih =>
    have ha := reopen_of_open a (hl a mem_cons_self)
    have ih := ih fun r hr => hl r (mem_cons_of_mem a hr)
    cases l with
    | nil => simp [closeChain, ha]
    | cons => rw [closeChain, map_cons, reopen_setValidTo, ha, ih]

omit [LawfulEndVersion N Id] in
lemma getLast?_closeChain (l : List N) : (closeChain l).getLast? = l.getLast? := by
  induction l with
  | nil => rfl
  | cons _ l ih =>
    cases l with
    | nil => rfl
    | cons b l =>
      have hne : closeChain (b :: l) ≠ [] := by
        cases l <;> simp [closeChain]
      obtain ⟨c, rest, hrest⟩ := exists_cons_of_ne_nil hne
      rw [closeChain, hrest, List.getLast?_cons_cons, ← hrest, ih, List.getLast?_cons_cons]

/-- The versions of an entity, oldest first. -/
structure VersionChain (l : List N) : Prop where
  linked : l.IsChain fun a b => getValidTo a = some (getValidFrom b)
  ordered : l.Pairwise fun a b => getValidFrom a ≤ getValidFrom b
  isOpen : l.filter (fun r => getValidTo r = none) = l.getLast?.toList

lemma validFrom_head_closeChain {b : N} :
    ∀ c ∈ (closeChain (b :: l)).head?, getValidFrom c = getValidFrom b := by
  intro c hc
  cases l with
  | nil =>
    cases hc
    rfl
  | cons =>
    cases hc
    exact validFrom_setValidTo b _

lemma versionChain_closeChain (hopened : ∀ r ∈ l, getValidTo r = none)
    (hl : l.Pairwise fun a b => getValidFrom a ≤ getValidFrom b) : VersionChain (closeChain l) := by
  refine ⟨?_, ?_, ?_⟩
  · induction l with
    | nil => exact .nil
    | cons a l ih =>
      cases l with
      | nil => exact .singleton a
      | cons =>
        rw [closeChain, isChain_cons]
        refine ⟨?_, ih (fun r hr => hopened r (mem_cons_of_mem a hr)) hl.of_cons⟩
        intro c hc
        rw [validTo_setValidTo, validFrom_head_closeChain c hc]
  · have hmap : ∀ l : List N, (closeChain l).map getValidFrom = l.map getValidFrom := by
      intro l
      induction l with
      | nil => rfl
      | cons _ l ih =>
        cases l with
        | nil => rfl
        | cons =>
          rw [closeChain, map_cons, validFrom_setValidTo, ih]
          rfl
    rw [← pairwise_map (R := fun x y => x ≤ y), hmap, pairwise_map]
    exact hl
  · rw [getLast?_closeChain]
    induction l with
    | nil => rfl
    | cons a l ih =>
      cases l with
      | nil =>
        have ha := hopened a mem_cons_self
        simp [closeChain, ha]
      | cons b =>
        rw [closeChain, filter_cons_of_neg (by simpa using validTo_setValidTo_ne a _),
          ih (fun r hr => hopened r (mem_cons_of_mem a hr)) hl.of_cons, List.getLast?_cons_cons]

end
section
variable {N Id : Type} [VersionedRow N Id] [DecidableEq Id] {L : Type} [LinearOrder L]

def rowsFor (k : Id) (l : List N) : List N := l.filter fun r => getEntityId r = k

lemma rowsFor_cons (k : Id) (r : N) (l : List N) :
    rowsFor k (r :: l) = if getEntityId r = k then r :: rowsFor k l else rowsFor k l := by
  unfold rowsFor
  rw [filter_cons]
  simp only [decide_eq_true_eq]

@[simp] lemma rowsFor_append (k : Id) (l l' : List N) :
    rowsFor k (l ++ l') = rowsFor k l ++ rowsFor k l' :=
  filter_append _ _

/-- Rows that are sorted by entity, and then by time. -/
def SortedRows (ord : Id → L) (l : List N) : Prop :=
  l.Pairwise fun a b => ord (getEntityId a) < ord (getEntityId b) ∨
    getEntityId a = getEntityId b ∧ getValidFrom a ≤ getValidFrom b

variable {ord : Id → L}

/-- The rows of an entity stand next to each other. -/
lemma SortedRows.rowsFor_eq_nil {c d : N} {l : List N} (h : SortedRows ord (c :: d :: l))
    (hne : getEntityId c ≠ getEntityId d) : rowsFor (getEntityId c) (d :: l) = [] := by
  rw [rowsFor, filter_eq_nil_iff]
  intro r hr heq
  have heq := of_decide_eq_true heq
  obtain ⟨hc, hrest⟩ := pairwise_cons.mp h
  have hlt : ord (getEntityId c) < ord (getEntityId d) := by
    rcases hc d mem_cons_self with hlt | ⟨hsame, -⟩
    · exact hlt
    · exact absurd hsame hne
  rcases mem_cons.mp hr with rfl | hr
  · exact hne heq.symm
  · rcases (pairwise_cons.mp hrest).1 r hr with hlt' | ⟨hsame, -⟩
    · rw [heq] at hlt'
      exact absurd (hlt.trans hlt') (lt_irrefl _)
    · exact hne (heq.symm.trans hsame.symm)

lemma SortedRows.rowsFor_ordered {batch : List N} (h : SortedRows ord batch) (k : Id) :
    (rowsFor k batch).Pairwise fun a b => getValidFrom a ≤ getValidFrom b := by
  apply (List.Pairwise.filter _ h).imp_of_mem
  intro a b ha hb hab
  have hka := of_decide_eq_true (mem_filter.mp ha).2
  have hkb := of_decide_eq_true (mem_filter.mp hb).2
  rcases hab with hlt | ⟨-, hle⟩
  · rw [hka, hkb] at hlt
    exact absurd hlt (lt_irrefl _)
  · exact hle

variable [LawfulEndVersion N Id]

lemma rowsFor_closeVersions {l : List N} (h : SortedRows ord l) (u : HashMap Id NaiveDateTime)
    (k : Id) : rowsFor k (closeVersions l u).1 = closeChain (rowsFor k l) := by
  induction l generalizing u with
  | nil => rfl
  | cons c l ih =>
    cases l with
    | nil =>
      show rowsFor k [c] = closeChain (rowsFor k [c])
      rw [rowsFor_cons]
      split_ifs <;> rfl
    | cons d =>
      have ih := fun u => ih h.of_cons u
      unfold closeVersions
      split_ifs with hsame
      · rw [rowsFor_cons, entityId_setValidTo, ih, rowsFor_cons k c]
        split_ifs with hk
        · rw [rowsFor_cons k d, if_pos (hsame.symm.trans hk)]
          rfl
        · rfl
      · rw [rowsFor_cons, ih, rowsFor_cons k c]
        split_ifs with hk
        · subst hk
          rw [h.rowsFor_eq_nil hsame]
          rfl
        · rfl

omit [LawfulEndVersion N Id] in
lemma lookup_closeVersions {c : N} {l : List N} (h : SortedRows ord (c :: l))
    (u : HashMap Id NaiveDateTime) (k : Id) :
    (closeVersions (c :: l) u).2.lookup k = if k = getEntityId c then u.lookup k
      else ((rowsFor k l).head?.map getValidFrom).or (u.lookup k) := by
  induction l generalizing c u with
  | nil =>
    show u.lookup k = _
    split_ifs <;> rfl
  | cons d _ ih =>
    have ih := fun u => ih h.of_cons u
    unfold closeVersions
    split_ifs with hsame hk hk
    · dsimp only
      rw [ih, if_pos (hk.trans hsame)]
    · dsimp only
      have hkd : k ≠ getEntityId d := fun heq => hk (heq.trans hsame.symm)
      rw [ih, if_neg hkd, rowsFor_cons, if_neg (Ne.symm hkd)]
    · have hkd : k ≠ getEntityId d := fun heq => hsame (hk.symm.trans heq)
      have hnil := h.rowsFor_eq_nil hsame
      rw [rowsFor_cons, if_neg (fun heq => hsame heq.symm)] at hnil
      rw [ih, if_neg hkd, lookup_insert_ite, if_neg hkd, hk, hnil]
      rfl
    · rw [ih, lookup_insert_ite, rowsFor_cons]
      by_cases hkd : k = getEntityId d
      · rw [if_pos hkd, if_pos hkd, if_pos hkd.symm]
        rfl
      · rw [if_neg hkd, if_neg hkd, if_neg (Ne.symm hkd)]

/-- The new rows of each entity are linked, and its open row has to end where they begin. -/
lemma setVersioningAttributes_spec {l : List N} (h : SortedRows ord l) (k : Id) :
    rowsFor k (setVersioningAttributes l).1 = closeChain (rowsFor k l) ∧
      (setVersioningAttributes l).2.lookup k = (rowsFor k l).head?.map getValidFrom := by
  cases l with
  | nil => exact ⟨rfl, rfl⟩
  | cons c =>
    refine ⟨rowsFor_closeVersions h _ k, ?_⟩
    unfold setVersioningAttributes
    rw [lookup_closeVersions h, lookup_insert_ite, rowsFor_cons]
    by_cases hk : k = getEntityId c
    · rw [if_pos hk, if_pos hk, if_pos hk.symm]
      rfl
    · rw [if_neg hk, if_neg hk, if_neg (Ne.symm hk), AList.lookup_empty, Option.or_none]

end
namespace VersionedTable
variable {N Id : Type} [VersionedRow N Id] [DecidableEq Id]

def rowsOf (t : VersionedTable N) (k : Id) : List N := rowsFor k (t.rows.map row)

/-- The open version of an entity ends where its new rows begin. -/
def closeEnds (endVersions : HashMap Id NaiveDateTime) (r : N) : N :=
  match endVersions.lookup (getEntityId r) with
  | some v => closeAt v r
  | none => r

lemma closeEnds_of_not_mem {t : VersionedTable N} {endVersions : HashMap Id NaiveDateTime}
    {r : StoredRow N} (hr : r ∈ t.rows) (hnot : r ∉ t.latestVersionsByIds endVersions.keys) :
    closeEnds endVersions r.row = r.row := by
  unfold closeEnds
  split
  · rename_i v hv
    apply if_neg
    intro hopened
    have hkey : getEntityId r.row ∈ endVersions.keys := HashMap.mem_keys_iff.mpr ⟨v, hv⟩
    exact hnot (mem_filter.mpr ⟨hr, decide_eq_true ⟨hkey, hopened⟩⟩)
  · rfl

/-- The update joins on the primary keys, which identify the rows. -/
lemma batchUpdate_rows {t : VersionedTable N} (hpacks : (t.rows.map pk).Nodup)
    (endVersions : HashMap Id NaiveDateTime) :
    (t.batchUpdate (t.latestVersionsByIds endVersions.keys) endVersions).rows =
      t.rows.map fun r => { r with row := closeEnds endVersions r.row } := by
  unfold batchUpdate
  apply map_congr_left
  intro r hr
  split
  · rename_i m hm
    obtain ⟨o, ho, hvalue⟩ := mem_filterMap.mp (mem_of_find?_eq_some hm)
    obtain ⟨v, hv, rfl⟩ := Option.map_eq_some_iff.mp hvalue
    obtain ⟨hmem, hconsented⟩ := mem_filter.mp ho
    have hsame := inj_on_of_nodup_map hpacks hmem hr (by simpa using List.find?_some hm)
    subst hsame
    have hopened := (of_decide_eq_true hconsented).2
    have hclose : closeEnds endVersions o.row = setValidTo o.row v := by
      rw [closeEnds, hv]
      exact if_pos hopened
    rw [hclose]
  · rename_i hnone
    have hnot : r ∉ t.latestVersionsByIds endVersions.keys := by
      intro hdb
      obtain ⟨v, hv⟩ := HashMap.mem_keys_iff.mp (of_decide_eq_true (mem_filter.mp hdb).2).1
      have hvalue := List.find?_eq_none.mp hnone (r.pk, v)
        (mem_filterMap.mpr ⟨r, hdb, by rw [hv]; rfl⟩)
      exact hvalue (decide_eq_true rfl)
    rw [closeEnds_of_not_mem hr hnot]

/-- The entries of an entity in a batch that are newer than its open version, which is its last
accepted entry. -/
def added (accepted : Id → List N) (batch : List N) (k : Id) : List N :=
  (rowsFor k batch).filter fun e =>
    (accepted k).getLast?.all fun c => getValidFrom c < getValidFrom e

def accept (accepted : Id → List N) (batch : List N) (k : Id) : List N :=
  accepted k ++ added accepted batch k

/-- The table stores the accepted entries of every entity as linked versions. -/
structure Stores (t : VersionedTable N) (accepted : Id → List N) : Prop where
  pks : (t.rows.map pk).Nodup
  below : ∀ r ∈ t.rows, r.pk < t.nextPk
  rows : ∀ k, t.rowsOf k = closeChain (accepted k)
  isOpen : ∀ k, ∀ r ∈ accepted k, getValidTo r = none
  ordered : ∀ k, (accepted k).Pairwise fun a b => getValidFrom a ≤ getValidFrom b

variable {t : VersionedTable N} {accepted : Id → List N}

lemma stores_empty : (empty : VersionedTable N).Stores fun _ => [] :=
  ⟨.nil, fun _ hr => absurd hr not_mem_nil, fun _ => rfl,
    fun _ _ hr => absurd hr not_mem_nil, fun _ => .nil⟩

/-- Accepted entries are newer than all accepted before. -/
lemma Stores.lt_added (ht : t.Stores accepted) {batch : List N} {k : Id} {a e : N}
    (ha : a ∈ accepted k) (he : e ∈ added accepted batch k) : getValidFrom a < getValidFrom e := by
  have hnewer := (mem_filter.mp he).2
  obtain ⟨front, last, hsplit⟩ := eq_nil_or_concat (accepted k) |>.resolve_left (ne_nil_of_mem ha)
  rw [concat_eq_append] at hsplit
  have hord := ht.ordered k
  rw [hsplit] at ha hord hnewer
  rw [List.getLast?_concat, Option.all_some, decide_eq_true_eq] at hnewer
  rcases mem_append.mp ha with ha | ha
  · exact lt_of_le_of_lt ((pairwise_append.mp hord).2.2 a ha last (by simp)) hnewer
  · rw [mem_singleton.mp ha]
    exact hnewer

variable {L : Type} [LinearOrder L] {ord : Id → L} [LawfulEndVersion N Id]

/-- The open version of an entity is its last accepted entry. -/
lemma Stores.lookup_latest (ht : t.Stores accepted) (ids : List Id) (k : Id) :
    (HashMap.ofList ((t.latestVersionsByIds ids).map fun r =>
      (getEntityId r.row, getValidFrom r.row))).lookup k =
      if k ∈ ids then (accepted k).getLast?.map getValidFrom else none := by
  have hmap : (t.latestVersionsByIds ids).map (fun r => (getEntityId r.row, getValidFrom r.row)) =
      ((t.rows.map row).filter fun r => getEntityId r ∈ ids ∧ getValidTo r = none).map
        fun r => (getEntityId r, getValidFrom r) := by
    rw [latestVersionsByIds, filter_map, map_map]
    rfl
  have hchain := versionChain_closeChain (ht.isOpen k) (ht.ordered k)
  rw [lookup_ofList, hmap, lastOf_map_key, filter_filter]
  split_ifs with hk
  · have hfilter : ((t.rows.map row).filter fun r =>
        decide (getEntityId r = k) && decide (getEntityId r ∈ ids ∧ getValidTo r = none)) =
        (t.rowsOf k).filter fun r => getValidTo r = none := by
      rw [rowsOf, rowsFor, filter_filter]
      apply filter_congr
      intro r _
      by_cases hid : getEntityId r = k
      · simp [hid, hk]
      · simp [hid]
    rw [hfilter, ht.rows, hchain.isOpen, getLast?_closeChain]
    cases (accepted k).getLast? <;> rfl
  · have hnil : ((t.rows.map row).filter fun r =>
        decide (getEntityId r = k) && decide (getEntityId r ∈ ids ∧ getValidTo r = none)) = [] := by
      rw [filter_eq_nil_iff]
      intro r _ hr
      simp only [Bool.and_eq_true, decide_eq_true_eq] at hr
      exact hk (hr.1 ▸ hr.2.1)
    rw [hnil]
    rfl

lemma Stores.rowsFor_retained (ht : t.Stores accepted) (batch : List N) (k : Id) :
    rowsFor k (batch.filter fun entry =>
      !((HashMap.ofList ((t.latestVersionsByIds (batch.map getEntityId)).map fun r =>
        (getEntityId r.row, getValidFrom r.row))).lookup (getEntityId entry)).any fun latest =>
          getValidFrom entry ≤ latest) = added accepted batch k := by
  unfold added rowsFor
  rw [filter_comm]
  apply filter_congr
  intro e he
  obtain ⟨hbatch, hk⟩ := mem_filter.mp he
  have hk := of_decide_eq_true hk
  rw [ht.lookup_latest, if_pos (mem_map_of_mem hbatch), hk]
  cases (accepted k).getLast? with
  | none => rfl
  | some => simp [← decide_not]

lemma entityId_closeEnds (endVersions : HashMap Id NaiveDateTime) (r : N) :
    getEntityId (closeEnds endVersions r) = getEntityId r := by
  unfold closeEnds closeAt
  split
  · split_ifs
    · exact entityId_setValidTo r _
    · rfl
  · rfl

lemma rowsFor_map_closeEnds (endVersions : HashMap Id NaiveDateTime) (k : Id) (l : List N) :
    rowsFor k (l.map (closeEnds endVersions)) = (rowsFor k l).map fun r =>
      match endVersions.lookup k with
      | some v => closeAt v r
      | none => r := by
  unfold rowsFor
  rw [filter_map]
  have hsame : ((fun r : N => decide (getEntityId r = k)) ∘ closeEnds endVersions) =
      fun r => decide (getEntityId r = k) := by
    funext r
    simp [entityId_closeEnds]
  rw [hsame]
  apply map_congr_left
  intro r hr
  have hk := of_decide_eq_true (mem_filter.mp hr).2
  rw [closeEnds, hk]

/-- The rows to insert, and the table before they are inserted. -/
lemma Stores.applyVersioning (ht : t.Stores accepted) {batch : List N}
    (hbatch : SortedRows ord batch) :
    (∀ k, rowsFor k (t.applyVersioning batch).1 = closeChain (added accepted batch k)) ∧
      (t.applyVersioning batch).2.rows.map pk = t.rows.map pk ∧
      (t.applyVersioning batch).2.nextPk = t.nextPk ∧
      ∀ k, (t.applyVersioning batch).2.rowsOf k = (t.rowsOf k).map fun r =>
        match (added accepted batch k).head? with
        | some e => closeAt (getValidFrom e) r
        | none => r := by
  have hadded := ht.rowsFor_retained batch
  unfold VersionedTable.applyVersioning
  dsimp only
  generalize hnew : (batch.filter fun entry =>
      !((HashMap.ofList ((t.latestVersionsByIds (batch.map getEntityId)).map fun r =>
        (getEntityId r.row, getValidFrom r.row))).lookup (getEntityId entry)).any fun latest =>
          getValidFrom entry ≤ latest) = new at hadded
  have hsorted : SortedRows ord new := by
    rw [← hnew]
    exact hbatch.filter _
  have hnil : ∀ k, new = [] → added accepted batch k = [] := by
    intro k h
    rw [← hadded, h]
    rfl
  by_cases hempty : batch = []
  · have hnone : new = [] := by
      rw [← hnew, hempty]
      rfl
    rw [if_pos hempty, hempty]
    refine ⟨fun k => ?_, rfl, rfl, fun k => ?_⟩
    · rw [← hempty, hnil k hnone, hempty]
      rfl
    · rw [← hempty, hnil k hnone]
      exact (map_id _).symm
  rw [if_neg hempty]
  by_cases hnone : new = []
  · rw [if_pos hnone]
    refine ⟨fun k => ?_, rfl, rfl, fun k => ?_⟩
    · rw [hnil k hnone, hnone]
      rfl
    · rw [hnil k hnone]
      exact (map_id _).symm
  rw [if_neg hnone]
  have hspec := setVersioningAttributes_spec hsorted
  generalize setVersioningAttributes new = result at hspec
  obtain ⟨rows, endVersions⟩ := result
  dsimp only at hspec ⊢
  have htable : ((if t.latestVersionsByIds endVersions.keys = [] then t
        else t.batchUpdate (t.latestVersionsByIds endVersions.keys) endVersions).rows =
      t.rows.map fun r => { r with row := closeEnds endVersions r.row }) := by
    split_ifs with hdb
    · have hkeep : ∀ r ∈ t.rows, { r with row := closeEnds endVersions r.row } = r := by
        intro r hr
        rw [closeEnds_of_not_mem hr (by rw [hdb]; exact not_mem_nil)]
      rw [map_congr_left hkeep, map_id']
    · exact batchUpdate_rows ht.pks endVersions
  refine ⟨fun k => ?_, ?_, ?_, fun k => ?_⟩
  · rw [(hspec k).1, hadded]
  · rw [htable, map_map]
    rfl
  · split_ifs <;> rfl
  · rw [rowsOf, htable, map_map]
    have hmap : (row ∘ fun r : StoredRow N =>
        { r with row := closeEnds endVersions r.row }) = closeEnds endVersions ∘ row := rfl
    rw [hmap, ← map_map, rowsFor_map_closeEnds, (hspec k).2, hadded]
    cases (added accepted batch k).head? <;> rfl

/-- A batch is written: its newer entries are the next versions. -/
lemma Stores.write (ht : t.Stores accepted) {batch : List N} (hbatch : SortedRows ord batch)
    (hopened : ∀ r ∈ batch, getValidTo r = none) : (t.write batch).Stores (accept accepted batch) :=
      by
  obtain ⟨hrows, hpacks, hnext, htable⟩ := ht.applyVersioning hbatch
  unfold VersionedTable.write
  generalize t.applyVersioning batch = result at hrows hpacks hnext htable
  obtain ⟨rows, t'⟩ := result
  dsimp only at hrows hpacks hnext htable ⊢
  have hbelow : ∀ pk ∈ t'.rows.map StoredRow.pk, pk < t'.nextPk := by
    intro pk hpk
    rw [hpacks] at hpk
    obtain ⟨r, hr, rfl⟩ := mem_map.mp hpk
    rw [hnext]
    exact ht.below r hr
  have hadd : ∀ k, ∀ r ∈ added accepted batch k, getValidTo r = none := fun k r hr =>
    hopened r (mem_of_mem_filter (mem_of_mem_filter hr))
  have hinsert : (rows.zipIdx.map fun r => (⟨t'.nextPk + r.2, r.1⟩ : StoredRow N)).map
      pk = (List.range' 0 rows.length).map (t'.nextPk + ·) := by
    rw [map_map, ← zipIdx_map_snd 0 rows, map_map]
    rfl
  refine ⟨?_, ?_, ?_, ?_, ?_⟩
  · unfold insert
    rw [map_append, hinsert, hpacks]
    refine nodup_append.mpr ⟨ht.pks, ?_, ?_⟩
    · exact List.Nodup.map (fun a b hab => Nat.add_left_cancel hab) nodup_range'
    · rintro a ha b hb rfl
      obtain ⟨i, -, rfl⟩ := mem_map.mp hb
      have hlt := hbelow (t'.nextPk + i) (by rw [hpacks]; exact ha)
      omega
  · intro r hr
    unfold insert at hr ⊢
    dsimp only at hr ⊢
    rcases mem_append.mp hr with hr | hr
    · have hlt := hbelow r.pk (mem_map_of_mem hr)
      omega
    · obtain ⟨e, he, rfl⟩ := mem_map.mp hr
      have hlt := snd_lt_of_mem_zipIdx he
      dsimp only
      omega
  · intro k
    have hsplit : (t'.insert rows).rowsOf k = t'.rowsOf k ++ rowsFor k rows := by
      unfold insert rowsOf
      dsimp only
      rw [map_append, map_map, rowsFor_append]
      congr 2
      exact zipIdx_map_fst 0 rows
    rw [hsplit, htable, hrows, ht.rows, accept]
    cases hnew : added accepted batch k with
    | nil =>
      have hnil : closeChain ([] : List N) = [] := rfl
      rw [append_nil, hnil, append_nil]
      exact map_id _
    | cons =>
      rw [closeChain_append (ht.isOpen k)]
      rfl
  · exact fun k => forall_mem_append.mpr ⟨ht.isOpen k, hadd k⟩
  · intro k
    refine pairwise_append.mpr ⟨ht.ordered k, ?_, ?_⟩
    · exact (SortedRows.rowsFor_ordered hbatch k).filter _
    · intro a ha e he
      exact (ht.lt_added ha he).le

lemma stores_of_batches {batches : List (List N)}
    (hsorted : ∀ batch ∈ batches, SortedRows ord batch)
    (hopened : ∀ batch ∈ batches, ∀ r ∈ batch, getValidTo r = none) :
    (batches.foldl write empty).Stores (batches.foldl accept fun _ => []) := by
  induction batches using List.reverseRecOn with
  | nil => exact stores_empty
  | append_singleton _ batch ih =>
    rw [foldl_append, foldl_append]
    have hstores := ih (fun b hb => hsorted b (mem_append_left _ hb))
      fun b hb => hopened b (mem_append_left _ hb)
    exact hstores.write (hsorted batch (by simp)) (hopened batch (by simp))

omit [LawfulEndVersion N Id] in
/-- An entry is accepted, or it is not newer than one that was. -/
lemma exists_accepted {batches : List (List N)} {batch : List N} (hbatch : batch ∈ batches) {e : N}
    (he : e ∈ batch) :
    ∃ a ∈ batches.foldl accept (fun _ => []) (getEntityId e), getValidFrom e ≤ getValidFrom a := by
  induction batches using List.reverseRecOn with
  | nil => cases hbatch
  | append_singleton batches last ih =>
    rw [foldl_append]
    generalize batches.foldl accept (fun _ => []) = accepted at ih
    rcases mem_append.mp hbatch with hbatch | hbatch
    · obtain ⟨a, ha, hle⟩ := ih hbatch
      exact ⟨a, mem_append_left _ ha, hle⟩
    · rw [mem_singleton.mp hbatch] at he
      have hmem : e ∈ rowsFor (getEntityId e) last :=
        mem_filter.mpr ⟨he, decide_eq_true rfl⟩
      by_cases hnewer : (accepted (getEntityId e)).getLast?.all
          fun c => getValidFrom c < getValidFrom e
      · exact ⟨e, mem_append_right _ (mem_filter.mpr ⟨hmem, hnewer⟩), le_rfl⟩
      · cases hlast : (accepted (getEntityId e)).getLast? with
        | none => exact absurd (by rw [hlast]; rfl) hnewer
        | some c =>
          rw [hlast, Option.all_some, decide_eq_true_eq, not_lt] at hnewer
          exact ⟨c, mem_append_left _ (mem_of_getLast? hlast), hnewer⟩

/-- Each entity has its accepted entries as linked versions, of which the last one is open. -/
theorem versions_of_batches {batches : List (List N)}
    (hsorted : ∀ batch ∈ batches, SortedRows ord batch)
    (hopened : ∀ batch ∈ batches, ∀ r ∈ batch, getValidTo r = none) (k : Id) :
    VersionChain ((batches.foldl write empty).rowsOf k) ∧
      ((batches.foldl write empty).rowsOf k).map reopen = batches.foldl accept (fun _ => []) k ∧
      ((∃ batch ∈ batches, ∃ e ∈ batch, getEntityId e = k) →
        ∃ r, ((batches.foldl write empty).rowsOf k).filter (fun r => getValidTo r = none) = [r] ∧
          (batches.foldl accept (fun _ => []) k).getLast? = some r ∧
          ∀ batch ∈ batches, ∀ e ∈ batch, getEntityId e = k → getValidFrom e ≤ getValidFrom r) := by
  have hstores := stores_of_batches hsorted hopened
  have hcovered : ∀ batch ∈ batches, ∀ e ∈ batch, getEntityId e = k →
      ∃ a ∈ batches.foldl accept (fun _ => []) k, getValidFrom e ≤ getValidFrom a := by
    rintro batch hbatch e he rfl
    exact exists_accepted hbatch he
  generalize batches.foldl accept (fun _ => []) = accepted at hstores hcovered
  have hord := hstores.ordered k
  have hchain := versionChain_closeChain (hstores.isOpen k) hord
  have hmap := map_reopen_closeChain (hstores.isOpen k)
  rw [hstores.rows k]
  refine ⟨hchain, hmap, ?_⟩
  rintro ⟨batch, hbatch, e, he, hk⟩
  obtain ⟨a, ha, -⟩ := hcovered batch hbatch e he hk
  obtain ⟨front, last, hsplit⟩ := (eq_nil_or_concat (accepted k)).resolve_left (ne_nil_of_mem ha)
  rw [concat_eq_append] at hsplit
  refine ⟨last, ?_, by rw [hsplit, List.getLast?_concat], ?_⟩
  · rw [hchain.isOpen, getLast?_closeChain, hsplit, List.getLast?_concat]
    rfl
  · intro batch hbatch e he hk
    obtain ⟨a, ha, hle⟩ := hcovered batch hbatch e he hk
    rw [hsplit] at ha hord
    rcases mem_append.mp ha with ha | ha
    · exact hle.trans ((pairwise_append.mp hord).2.2 a ha last (by simp))
    · rw [← mem_singleton.mp ha]
      exact hle

end VersionedTable
def balanceRow (account : Int) (balance : UInt8) (time : NaiveDateTime) : NewAccountBalance :=
  ⟨⟨[balance]⟩, account, 1, 0, time, none⟩

/-- Two changes in one block, and an entry that comes too late. -/
def balanceBatches : List (List NewAccountBalance) :=
  [[balanceRow 1 10 1, balanceRow 1 20 2, balanceRow 1 21 2, balanceRow 2 5 1],
   [balanceRow 1 22 2, balanceRow 1 30 3]]

theorem versions_of_batches_balances : ∃ r, (((balanceBatches.foldl write empty).rowsOf
        ((1 : Int), (1 : Int))).filter fun r => getValidTo r = none) = [r] ∧ r = balanceRow 1 30 3 ∧
      VersionChain ((balanceBatches.foldl write empty).rowsOf ((1 : Int), (1 : Int))) := by
  have hsorted : ∀ batch ∈ balanceBatches, SortedRows (fun id : Int × Int => toLex id) batch := by
    unfold SortedRows
    decide +kernel
  have hopened : ∀ batch ∈ balanceBatches, ∀ r ∈ batch, getValidTo r = none := by decide +kernel
  obtain ⟨hchain, -, hlast⟩ := versions_of_batches hsorted hopened (1, 1)
  obtain ⟨r, hr, hget, -⟩ := hlast ⟨_, mem_cons_self, _, mem_cons_self, rfl⟩
  have haccepted : (balanceBatches.foldl accept (fun _ => []) (1, 1)).getLast? =
      some (balanceRow 1 30 3) := by decide +kernel
  rw [haccepted] at hget
  exact ⟨r, hr, (Option.some.inj hget).symm, hchain⟩

end Tycho
