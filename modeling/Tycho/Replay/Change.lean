import Mathlib.Data.List.Induction
import Tycho.Replay.LastWrite

/-! Messages that drop, replace and overwrite an object, and merging such messages. Merging is
sound exactly when no write that is older than the last replacement survives it. -/
namespace Replay
open List Option
variable {F K V : Type}

/-- An object is a fixed part with its cells; overwrite some of the cells. -/
def overwrite (w : K → Option V) (x : F × (K → V)) : F × (K → V) :=
  (x.1, fun k => (w k).getD (x.2 k))

lemma overwrite_overwrite (w w' : K → Option V) (x : F × (K → V)) :
    overwrite w' (overwrite w x) = overwrite (fun k => (w' k).or (w k)) x := by
  refine Prod.ext rfl (funext fun k => ?_)
  change (w' k).getD ((w k).getD (x.2 k)) = ((w' k).or (w k)).getD (x.2 k)
  cases w' k <;> rfl

/-- What a message does to one object: drop it, then put a snapshot in its place, then overwrite
some of its cells. -/
structure Change (F K V : Type) where
  removed : Bool
  snapshot : Option (F × (K → V))
  write : K → Option V

namespace Change

def apply (x : Option (F × (K → V))) (m : Change F K V) : Option (F × (K → V)) :=
  (m.snapshot.or (if m.removed then none else x)).map (overwrite m.write)

/-- One message for two, of which the second one is newer. A removal is forgotten when there is a
newer snapshot, and a snapshot when there is a newer removal. -/
def merge (m m' : Change F K V) : Change F K V where
  removed := (m.removed && m'.snapshot.isNone) || m'.removed
  snapshot := m'.snapshot.or (if m'.removed then none else m.snapshot)
  write k := (m'.write k).or (m.write k)

def empty : Change F K V := ⟨false, none, fun _ => none⟩

lemma empty_merge (m : Change F K V) : empty.merge m = m := by
  obtain ⟨removed, snapshot, write⟩ := m
  unfold merge empty
  simp

/-- It neither drops nor replaces the object. -/
structure Quiet (m : Change F K V) : Prop where
  kept : m.removed = false
  noSnapshot : m.snapshot = none

variable {l pre post : List (Change F K V)} {m : Change F K V} {x : Option (F × (K → V))}

def lastWrites (l : List (Change F K V)) (k : K) : Option V := lastWrite write l k

lemma foldl_map_overwrite {D : Type} (w : D → K → Option V) (l : List D)
    (x : Option (F × (K → V))) :
    l.foldl (fun x d => x.map (overwrite (w d))) x = x.map (overwrite (lastWrite w l)) := by
  induction l generalizing x with
  | nil =>
    change x = x.map id
    exact (congrFun map_id x).symm
  | cons d l ih =>
    rw [foldl_cons, ih, Option.map_map]
    congr 1
    funext y
    change overwrite _ (overwrite _ y) = _
    rw [overwrite_overwrite]
    congr 1
    funext k
    exact (lastWrite_cons w d l k).symm

lemma foldl_apply_quiet (hquiet : ∀ m ∈ l, Quiet m) (x : Option (F × (K → V))) :
    l.foldl apply x = x.map (overwrite (lastWrites l)) := by
  have hstep : ∀ x, ∀ m ∈ l, apply x m = x.map (overwrite m.write) := by
    intro x m hm
    have hm := hquiet m hm
    rw [apply, hm.kept, hm.noSnapshot, none_or, if_neg Bool.false_ne_true]
  rw [foldl_ext _ _ x hstep]
  exact foldl_map_overwrite write l x

lemma foldl_merge_write (l : List (Change F K V)) (m : Change F K V) :
    (l.foldl merge m).write = lastWrites (m :: l) := by
  induction l using List.reverseRecOn with
  | nil =>
    funext k
    exact (lastWrite_singleton write m k).symm
  | append_singleton l m' ih =>
    rw [foldl_append]
    change (merge (l.foldl merge m) m').write = _
    funext k
    change (m'.write k).or ((l.foldl merge m).write k) = lastWrite write (m :: (l ++ [m'])) k
    rw [ih, ← cons_append, lastWrite_concat]
    rfl

lemma foldl_merge_quiet (hquiet : ∀ m ∈ l, Quiet m) (m : Change F K V) :
    (l.foldl merge m).removed = m.removed ∧ (l.foldl merge m).snapshot = m.snapshot := by
  induction l generalizing m with
  | nil => exact ⟨rfl, rfl⟩
  | cons m' _ ih =>
    have hm' := hquiet m' mem_cons_self
    have hmerged : (m.merge m').removed = m.removed ∧ (m.merge m').snapshot = m.snapshot := by
      simp [merge, hm'.kept, hm'.noSnapshot]
    obtain ⟨hremoved, hsnapshot⟩ :=
      ih (fun m'' hm'' => hquiet m'' (mem_cons_of_mem m' hm'')) (m.merge m')
    exact ⟨hremoved.trans hmerged.1, hsnapshot.trans hmerged.2⟩

/-- The last message of a list that drops or replaces the object, if there is one. -/
inductive Ending (l : List (Change F K V)) : Prop
  | quiet (hquiet : ∀ m ∈ l, Quiet m)
  | dropped (pre : List (Change F K V)) (m : Change F K V) (post : List (Change F K V))
      (heq : l = pre ++ m :: post) (hsnapshot : m.snapshot = none) (hremoved : m.removed)
      (hquiet : ∀ m ∈ post, Quiet m)
  | replaced (pre : List (Change F K V)) (m : Change F K V) (post : List (Change F K V))
      (y : F × (K → V)) (heq : l = pre ++ m :: post) (hsnapshot : m.snapshot = some y)
      (hquiet : ∀ m ∈ post, Quiet m)

lemma quiet_concat (hpost : ∀ m ∈ post, Quiet m) (hm : Quiet m) : ∀ m' ∈ post ++ [m], Quiet m' := by
  intro m' hm'
  rcases mem_append.mp hm' with hm' | hm'
  · exact hpost m' hm'
  · rwa [mem_singleton.mp hm']

lemma ending (l : List (Change F K V)) : Ending l := by
  induction l using List.reverseRecOn with
  | nil => exact .quiet fun m hm => by cases hm
  | append_singleton l m ih =>
    cases hsnapshot : m.snapshot with
    | some y => exact .replaced l m [] y rfl hsnapshot fun m hm => by cases hm
    | none =>
      cases hremoved : m.removed with
      | true => exact .dropped l m [] rfl hsnapshot hremoved fun m hm => by cases hm
      | false =>
        have hm : Quiet m := ⟨hremoved, hsnapshot⟩
        cases ih with
        | quiet hquiet => exact .quiet (quiet_concat hquiet hm)
        | dropped pre m' post heq hsnapshot hremoved hquiet =>
          exact .dropped pre m' (post ++ [m]) (by rw [heq]; simp) hsnapshot hremoved
            (quiet_concat hquiet hm)
        | replaced pre m' post y heq hsnapshot hquiet =>
          exact .replaced pre m' (post ++ [m]) y (by rw [heq]; simp) hsnapshot
            (quiet_concat hquiet hm)

/-- The merged message has all writes of the list. -/
lemma lastWrites_empty_cons (l : List (Change F K V)) : lastWrites (empty :: l) = lastWrites l := by
  funext k
  exact (lastWrite_cons write empty l k).trans or_none

lemma foldl_merge_split (pre : List (Change F K V)) (m : Change F K V)
    (hquiet : ∀ m ∈ post, Quiet m) :
    ((pre ++ m :: post).foldl merge empty).removed = ((pre.foldl merge empty).merge m).removed ∧
    ((pre ++ m :: post).foldl merge empty).snapshot = ((pre.foldl merge empty).merge m).snapshot :=
      by
  rw [foldl_append, foldl_cons]
  exact foldl_merge_quiet hquiet _

/-- Every write before the last snapshot is written again after it, or had written what the
snapshot holds. -/
def Fresh (l : List (Change F K V)) : Prop :=
  ∀ pre m post y, l = pre ++ m :: post → m.snapshot = some y → (∀ m' ∈ post, Quiet m') →
    ∀ k v, lastWrites pre k = some v → lastWrites (m :: post) k = none → v = y.2 k

lemma fresh_map_iff {M : Type} {f : M → Change F K V} {ms : List M} :
    Fresh (ms.map f) ↔ ∀ pre m post y, ms = pre ++ m :: post → (f m).snapshot = some y →
      (∀ m' ∈ post, Quiet (f m')) → ∀ k v, lastWrite (fun m => (f m).write) pre k = some v →
        lastWrite (fun m => (f m).write) (m :: post) k = none → v = y.2 k := by
  have hwrites : ∀ l k, lastWrites (l.map f) k = lastWrite (fun m => (f m).write) l k :=
    fun l k => lastWrite_map write f l k
  constructor
  · rintro hfresh pre m post y rfl hy hquiet k v hold hnew
    refine hfresh (pre.map f) (f m) (post.map f) y (by simp) hy (by simpa using hquiet) k v ?_ ?_
    · rwa [hwrites]
    · rwa [← map_cons, hwrites]
  · intro hfresh pre' m' post' y heq hy hquiet k v hold hnew
    obtain ⟨pre, rest, rfl, rfl, hrest⟩ := map_eq_append_iff.mp heq
    obtain ⟨m, post, rfl, rfl, rfl⟩ := map_eq_cons_iff.mp hrest
    rw [hwrites] at hold
    rw [← map_cons, hwrites] at hnew
    exact hfresh pre m post y rfl hy (by simpa using hquiet) k v hold hnew

section
variable {y : F × (K → V)}

section
variable (hsnapshot : m.snapshot = some y) (hquiet : ∀ m ∈ post, Quiet m)
include hsnapshot hquiet

lemma apply_merged_replaced : apply x ((pre ++ m :: post).foldl merge empty) =
      some (overwrite (lastWrites (pre ++ m :: post)) y) := by
  have hmerged : ((pre ++ m :: post).foldl merge empty).snapshot = some y := by
    rw [(foldl_merge_split pre m hquiet).2, merge, hsnapshot, some_or]
  rw [apply, hmerged, some_or, map_some, foldl_merge_write, lastWrites_empty_cons]

lemma foldl_apply_replaced :
    (pre ++ m :: post).foldl apply x = some (overwrite (lastWrites (m :: post)) y) := by
  have hm : apply (pre.foldl apply x) m = some (overwrite m.write y) := by
    rw [apply, hsnapshot, some_or, map_some]
  rw [foldl_append, foldl_cons, foldl_apply_quiet hquiet, hm, map_some, overwrite_overwrite]
  congr 2
  funext k
  exact (lastWrite_cons write m post k).symm

end

end

section
variable (hsnapshot : m.snapshot = none) (hremoved : m.removed) (hquiet : ∀ m ∈ post, Quiet m)
include hsnapshot hremoved hquiet

lemma apply_merged_dropped : apply x ((pre ++ m :: post).foldl merge empty) = none := by
  obtain ⟨hr, hs⟩ := foldl_merge_split pre m hquiet
  rw [apply, hr, hs]
  simp [merge, hsnapshot, hremoved]

lemma foldl_apply_dropped : (pre ++ m :: post).foldl apply x = none := by
  rw [foldl_append, foldl_cons, foldl_apply_quiet hquiet]
  simp [apply, hsnapshot, hremoved]

end

lemma apply_merged_quiet (hquiet : ∀ m ∈ l, Quiet m) :
    apply x (l.foldl merge empty) = x.map (overwrite (lastWrites l)) := by
  obtain ⟨hr, hs⟩ := foldl_merge_quiet hquiet empty
  rw [apply, hr, hs, foldl_merge_write, lastWrites_empty_cons]
  rfl

/-- One merged message does what the messages do one after the other, just when they are fresh. -/
lemma apply_merged_iff (l : List (Change F K V)) (x : Option (F × (K → V))) :
    apply x (l.foldl merge empty) = l.foldl apply x ↔ Fresh l := by
  constructor
  · rintro heq pre m post y rfl hsnapshot hquiet k v hold hnew
    rw [apply_merged_replaced hsnapshot hquiet, foldl_apply_replaced hsnapshot hquiet] at heq
    have hcells := congrFun (congrArg Prod.snd (Option.some.inj heq)) k
    change (lastWrite write (pre ++ m :: post) k).getD _ =
      (lastWrites (m :: post) k).getD _ at hcells
    rw [lastWrite_append] at hcells
    change ((lastWrites (m :: post) k).or (lastWrites pre k)).getD _ = _ at hcells
    rwa [hnew, hold] at hcells
  · intro hfresh
    cases ending l with
    | quiet hquiet => rw [apply_merged_quiet hquiet, foldl_apply_quiet hquiet]
    | dropped _ _ _ heq hsnapshot hremoved hquiet =>
      rw [heq, apply_merged_dropped hsnapshot hremoved hquiet,
        foldl_apply_dropped hsnapshot hremoved hquiet]
    | replaced pre m post y heq hsnapshot hquiet =>
      have hcells : ∀ k, ((lastWrites (m :: post) k).or (lastWrites pre k)).getD (y.2 k) =
          (lastWrites (m :: post) k).getD (y.2 k) := by
        intro k
        cases hnew : lastWrites (m :: post) k with
        | some => rfl
        | none =>
          cases hold : lastWrites pre k with
          | none => rfl
          | some v => exact hfresh pre m post y heq hsnapshot hquiet k v hold hnew
      rw [heq, apply_merged_replaced hsnapshot hquiet, foldl_apply_replaced hsnapshot hquiet]
      refine congrArg some (Prod.ext rfl (funext fun k => ?_))
      change (lastWrite write (pre ++ m :: post) k).getD (y.2 k) = _
      rw [lastWrite_append]
      exact hcells k

end Change
end Replay
