import Mathlib.Data.Set.Lattice
import Tycho.Collections.Fallible
import Tycho.Dci.VersionedCache
import Tycho.Replay.Run

/-! What a versioned cache returns, against a journal of the writes to it. -/
namespace Tycho
open Collections Replay HashMap List VersionedCache Call

/-- The writes of a block, oldest first. -/
structure JournalEntry (K V : Type) where
  block : Block
  writes : List (K × V)

instance {K V : Type} : BlockScoped (JournalEntry K V) := ⟨JournalEntry.block⟩

/-- The writes that can no longer be reverted, and the blocks that can. -/
structure Journal (K V : Type) where
  settled : List (K × V)
  pending : List (JournalEntry K V)

inductive CacheCall (K V : Type) where
  | insertPermanent (k : K) (v : V)
  | extendPermanent (entries : List (K × V))
  | openBlock (b : Block)
  | insertPending (b : Block) (k : K) (v : V)
  | extendPending (b : Block) (entries : List (K × V))
  | revertTo (hash : BlockHash)
  | handleFinality (finalizedBlockHeight : Nat) (strategy : MergeStrategy V)

namespace Journal
variable {K V : Type} [DecidableEq K] (j : Journal K V)

def empty : Journal K V := ⟨[], []⟩

def writes : List (K × V) := j.settled ++ j.pending.flatMap JournalEntry.writes

def replay (k : K) : Option V := HashMap.lastOf j.writes k

def write (b : Block) (entries : List (K × V)) : Journal K V :=
  { j with pending := j.pending.modify (j.pending.findIdx fun e => e.block = b) fun e =>
      { e with writes := e.writes ++ entries } }

def record : CacheCall K V → Journal K V
  | .insertPermanent k v => { j with settled := j.settled ++ [(k, v)] }
  | .extendPermanent entries => { j with settled := j.settled ++ entries }
  | .openBlock b =>
    if (j.pending.getLast?.map JournalEntry.block) = some b then j
    else { j with pending := j.pending ++ [⟨b, []⟩] }
  | .insertPending b k v => j.write b [(k, v)]
  | .extendPending b entries => j.write b entries
  | .revertTo hash =>
    { j with pending := j.pending.rdropWhile fun e => e.block.hash ≠ hash }
  | .handleFinality height _ =>
    { settled := j.settled ++
        (j.pending.takeWhile fun e => e.block.number ≠ height).flatMap JournalEntry.writes
      pending := j.pending.dropWhile fun e => e.block.number ≠ height }

end Journal

/-- Finality changes where the writes are kept, not what they are. -/
lemma Journal.writes_handleFinality {K V : Type} [DecidableEq K] (j : Journal K V) (height : Nat)
    (strategy : MergeStrategy V) : (j.record (.handleFinality height strategy)).writes = j.writes :=
      by
  simp only [record, writes]
  rw [append_assoc, ← flatMap_append, takeWhile_append_dropWhile]

def JournalEntry.layer {K V : Type} [DecidableEq K] (e : JournalEntry K V) : BlockScopedMap K V :=
  ⟨e.block, HashMap.ofList e.writes⟩

namespace CacheCall
variable {K V : Type} [DecidableEq K]

def call : CacheCall K V → Call (VersionedCache K V) DCICacheError Unit
  | .insertPermanent k v => VersionedCache.insertPermanent k v
  | .extendPermanent entries => VersionedCache.extendPermanent entries
  | .openBlock b => VersionedCache.validateAndEnsureBlockLayer b
  | .insertPending b k v => VersionedCache.insertPending b k v
  | .extendPending b entries => VersionedCache.extendPending b entries
  | .revertTo hash => VersionedCache.revertTo hash
  | .handleFinality height strategy => VersionedCache.handleFinality height strategy

/-- What an accepted call does to the permanent map, next to what the journal settles. -/
inductive Settles (c : VersionedCache K V) (j : Journal K V) :
    CacheCall K V → VersionedCache K V → Journal K V → Prop
  | kept (call : CacheCall K V) (c' : VersionedCache K V) (j' : Journal K V)
      (hpermanent : c'.permanent = c.permanent) (hsettled : j'.settled = j.settled) :
      Settles c j call c' j'
  | written (call : CacheCall K V) (entries : List (K × V)) (c' : VersionedCache K V)
      (j' : Journal K V) (hcall : call = .extendPermanent entries ∨
        ∃ k v, call = .insertPermanent k v ∧ entries = [(k, v)])
      (hpermanent : c'.permanent = c.permanent.extend entries)
      (hsettled : j'.settled = j.settled ++ entries) : Settles c j call c' j'
  | finalized (height index : Nat) (strategy : MergeStrategy V) (c' : VersionedCache K V)
      (j' : Journal K V) (hindex : finalizedIndex height c.pending = .ok index)
      (hpermanent : c'.permanent = (j.pending.take index).foldl
        (fun m e => strategy.absorb m e.layer.data) c.permanent)
      (hsettled : j'.settled = j.settled ++ (j.pending.take index).flatMap JournalEntry.writes) :
      Settles c j (.handleFinality height strategy) c' j'

variable {c c' : VersionedCache K V} {j : Journal K V}

lemma extend_ofList (l l' : List (K × V)) :
    (HashMap.ofList l).extend l' = HashMap.ofList (l ++ l') :=
  (foldl_append).symm

section
variable (hp : c.pending = j.pending.map JournalEntry.layer)
include hp

/-- A write to the layer of a block is a write to its entry in the journal. -/
lemma pending_updateLayer {b : Block} {entries : List (K × V)}
    (h : (updateLayer b fun data => data.extend entries).on c = (.ok (), c')) :
    c'.pending = (j.write b entries).pending.map JournalEntry.layer ∧
      c'.permanent = c.permanent := by
  rw [on_updateLayer] at h
  have hok := deciding_ok h
  obtain ⟨index, hindexer, heq⟩ := ok_of_map_ok hok
  cases heq
  rw [hp, layerIndex_map (f := JournalEntry.layer) fun e => rfl] at hindexer
  have hfind := layerIndex_ok hindexer
  subst hfind
  refine ⟨?_, rfl⟩
  dsimp only [Journal.write]
  rw [hp]
  refine ext_getElem? fun n => ?_
  simp only [List.getElem?_modify, List.getElem?_map, block]
  cases j.pending[n]? with
  | none => simp
  | some =>
    split_ifs
    · simp [JournalEntry.layer, extend_ofList]
    · rfl

lemma settles_of_ok {call : CacheCall K V} (h : call.call.on c = (.ok (), c')) :
    c'.pending = (j.record call).pending.map JournalEntry.layer ∧
      Settles c j call c' (j.record call) := by
  cases call with
  | insertPermanent k v =>
    cases h
    exact ⟨hp, .written _ [(k, v)] _ _ (.inr ⟨k, v, rfl, rfl⟩) rfl rfl⟩
  | extendPermanent entries =>
    cases h
    exact ⟨hp, .written _ entries _ _ (.inl rfl) rfl rfl⟩
  | insertPending b k v =>
    have hwrite : (updateLayer b fun data => data.extend [(k, v)]).on c = (.ok (), c') := h
    obtain ⟨hpending, hpermanent⟩ := pending_updateLayer hp hwrite
    exact ⟨hpending, .kept _ _ _ hpermanent rfl⟩
  | extendPending =>
    obtain ⟨hpending, hpermanent⟩ := pending_updateLayer hp h
    exact ⟨hpending, .kept _ _ _ hpermanent rfl⟩
  | openBlock b =>
    unfold call at h
    rw [on_validateAndEnsureBlockLayer] at h
    have hok := deciding_ok h
    obtain ⟨pending, hopened, heq⟩ := ok_of_map_ok hok
    cases heq
    have hmap := openLayer_map (f := JournalEntry.layer) (fun e => rfl) ⟨b, []⟩ j.pending
    rw [← hp] at hmap
    obtain ⟨opened, hopens, rfl⟩ := ok_of_map_ok (hmap.symm.trans hopened)
    have hrecord : (j.record (.openBlock b)).pending = opened := by
      rw [openLayer_ok hopens]
      dsimp only [Journal.record, block]
      split_ifs <;> rfl
    refine ⟨by rw [hrecord], .kept _ _ _ rfl ?_⟩
    dsimp only [Journal.record]
    split_ifs <;> rfl
  | revertTo =>
    unfold call at h
    rw [on_revertTo] at h
    have hok := deciding_ok h
    obtain ⟨pending, hrev, heq⟩ := ok_of_map_ok hok
    cases heq
    rw [hp, revertLayers_map (f := JournalEntry.layer) fun e => rfl] at hrev
    obtain ⟨kept, hkept, rfl⟩ := ok_of_map_ok hrev
    refine ⟨?_, .kept _ _ _ rfl rfl⟩
    rw [revertLayers_ok hkept]
    rfl
  | handleFinality height strategy =>
    unfold call at h
    rw [on_handleFinality] at h
    have hok := deciding_ok h
    obtain ⟨index, hindexer, heq⟩ := ok_of_map_ok hok
    cases heq
    have hindex' := hindexer
    rw [hp, finalizedIndex_map (f := JournalEntry.layer) fun e => rfl] at hindex'
    obtain ⟨htaken, hdrop⟩ := finalizedIndex_ok hindex'
    refine ⟨?_, .finalized height index strategy _ _ hindexer ?_ ?_⟩
    · dsimp only [Journal.record]
      rw [hp, ← map_drop, hdrop]
      rfl
    · rw [hp, ← map_take, foldl_map]
    · rw [htaken]
      rfl

end

end CacheCall

structure Journaled (K V : Type) where
  cache : VersionedCache K V
  journal : Journal K V

namespace Journaled
variable {K V : Type} [DecidableEq K]

def fresh : Journaled K V := ⟨.new, .empty⟩

def step (s : Journaled K V) (call : CacheCall K V) : Option (Unit × Journaled K V) :=
  match call.call.on s.cache with
  | (.ok _, cache) => some ((), ⟨cache, s.journal.record call⟩)
  | (.error _, _) => none

lemma step_eq_some {s s' : Journaled K V} {call : CacheCall K V} {u : Unit}
    (h : s.step call = some (u, s')) :
    call.call.on s.cache = (.ok (), s'.cache) ∧ s'.journal = s.journal.record call := by
  unfold step at h
  split at h
  · rename_i cache hcall
    cases h
    exact ⟨hcall, rfl⟩
  · cases h

/-- The layers hold the writes of the blocks that can be reverted. -/
def Layered (s : Journaled K V) : Prop :=
  s.cache.pending = s.journal.pending.map JournalEntry.layer

section
variable {s s' : Journaled K V} {call : CacheCall K V} {u : Unit}

/-- The values of a key in the permanent map and in the layers that finality moves there. -/
def valuesBelow (c : VersionedCache K V) (index : Nat) (k : K) : List V :=
  (c.permanent.lookup k).toList ++ (c.pending.take index).filterMap fun layer => layer.data.lookup k

/-- Finality merges the values of a key into the last one of them. -/
def KeepsLast (s : Journaled K V) : CacheCall K V → Prop
  | .handleFinality height strategy => ∀ index, finalizedIndex height s.cache.pending = .ok index →
      ∀ k v vs, valuesBelow s.cache index k = v :: vs →
        vs.foldl strategy.apply v = (v :: vs).getLast (cons_ne_nil v vs)
  | _ => True

/-- The permanent map holds the last of the settled writes. -/
structure HoldsLast (s : Journaled K V) : Prop where
  layered : s.Layered
  permanent : ∀ k, s.cache.permanent.lookup k = HashMap.lastOf s.journal.settled k

lemma foldl_merge (f : V → V → V) (o : Option V) (l : List (Option V)) :
    l.foldl (fun o p => o.merge f p) o = match o.toList ++ l.filterMap id with
      | [] => none
      | v :: vs => some (vs.foldl f v) := by
  induction l generalizing o with
  | nil => cases o <;> rfl
  | cons p _ ih =>
    rw [foldl_cons, ih]
    cases o with
    | none => cases p <;> rfl
    | some => cases p <;> rfl

lemma lookup_foldl_absorb (strategy : MergeStrategy V) (m : HashMap K V)
    (entries : List (JournalEntry K V)) (k : K) :
    (entries.foldl (fun m e => strategy.absorb m e.layer.data) m).lookup k =
      (entries.map fun e => e.layer.data.lookup k).foldl (fun o p => o.merge strategy.apply p)
        (m.lookup k) := by
  induction entries generalizing m with
  | nil => rfl
  | cons _ _ ih => rw [foldl_cons, ih, MergeStrategy.lookup_absorb]; rfl

lemma lastOf_flatMap_writes (entries : List (JournalEntry K V)) (k : K) :
    HashMap.lastOf (entries.flatMap JournalEntry.writes) k =
      entries.reverse.findSome? fun e => e.layer.data.lookup k := by
  rw [HashMap.lastOf, lastWrite_flatMap, lastWrite]
  exact findSome?_congr fun e _ => (lookup_ofList e.writes k).symm

lemma HoldsLast.step (h : s.HoldsLast) (hguard : s.KeepsLast call)
    (hstep : s.step call = some (u, s')) : s'.HoldsLast := by
  obtain ⟨hcall, hjournal⟩ := step_eq_some hstep
  obtain ⟨hpending, hset⟩ := CacheCall.settles_of_ok h.layered hcall
  rw [← hjournal] at hpending hset
  refine ⟨hpending, fun k => ?_⟩
  cases hset with
  | kept _ _ _ hpermanent hsettled => rw [hpermanent, hsettled, h.permanent]
  | written _ _ _ _ _ hpermanent hsettled =>
    rw [hpermanent, hsettled, lookup_extend, lastOf_append, h.permanent]
  | finalized _ index _ _ _ hindexer hpermanent hsettled =>
    have hvalues : valuesBelow s.cache index k = (s.cache.permanent.lookup k).toList ++
        ((s.journal.pending.take index).map fun e => e.layer.data.lookup k).filterMap id := by
      rw [valuesBelow, h.layered, ← map_take, filterMap_map, filterMap_map]
      rfl
    have hlast : (valuesBelow s.cache index k).getLast? = HashMap.lastOf (s.journal.settled ++
        (s.journal.pending.take index).flatMap JournalEntry.writes) k := by
      rw [hvalues, lastOf_append, lastOf_flatMap_writes, ← h.permanent, List.getLast?_append,
        filterMap_map, List.getLast?_filterMap]
      cases s.cache.permanent.lookup k <;> rfl
    rw [hpermanent, hsettled, lookup_foldl_absorb, foldl_merge, ← hlast, ← hvalues]
    have hmerged := hguard index hindexer k
    cases hv : valuesBelow s.cache index k with
    | nil => rfl
    | cons v vs =>
      dsimp only
      rw [hmerged v vs hv, List.getLast?_eq_some_getLast]

lemma HoldsLast.get (h : s.HoldsLast) (k : K) : s.cache.get k = s.journal.replay k := by
  unfold VersionedCache.get Journal.replay Journal.writes
  rw [lastOf_append, h.permanent, h.layered, lastOf_flatMap_writes, ← map_reverse,
    List.findSome?_map]
  rfl

end

variable {strategy : MergeStrategy V} {b : Block}

section
variable {A : Type} (members : V → Set A)

/-- Each write has the elements of the value that it replaces. -/
def GrowsFrom (m : HashMap K V) : List (K × V) → Prop
  | [] => True
  | (k, v) :: entries => (∀ old, m.lookup k = some old → members old ⊆ members v) ∧
      GrowsFrom (m.insert k v) entries

/-- A map has for each key the elements of all values that were written. -/
def Covers (m : HashMap K V) (writes : List (K × V)) : Prop :=
  ∀ k a, (∃ v, m.lookup k = some v ∧ a ∈ members v) ↔ ∃ v, (k, v) ∈ writes ∧ a ∈ members v

/-- Writes do not take elements away, and finality unites them. -/
def Grows (s : Journaled K V) : CacheCall K V → Prop
  | .insertPermanent k v => GrowsFrom members s.cache.permanent [(k, v)]
  | .extendPermanent entries => GrowsFrom members s.cache.permanent entries
  | .insertPending b k v => ∀ layer, s.cache.pending.find? (fun layer => layer.block = b) =
    some layer →
      GrowsFrom members layer.data [(k, v)]
  | .extendPending b entries => ∀ layer,
      s.cache.pending.find? (fun layer => layer.block = b) = some layer →
      GrowsFrom members layer.data entries
  | .handleFinality _ strategy => ∀ v w,
      members (strategy.apply v w) = members v ∪ members w
  | _ => True

/-- The maps of a cache have all elements of the writes in the journal. -/
structure HoldsAll (s : Journaled K V) : Prop where
  layered : s.Layered
  permanent : Covers members s.cache.permanent s.journal.settled
  pending : ∀ e ∈ s.journal.pending, Covers members e.layer.data e.writes

variable {members} {m d : HashMap K V} {writes writes' entries : List (K × V)}

section
variable (h : Covers members m writes)
include h

lemma Covers.insert {k : K} {v : V}
    (hgrows : ∀ old, m.lookup k = some old → members old ⊆ members v) :
    Covers members (m.insert k v) (writes ++ [(k, v)]) := by
  intro k' a
  by_cases hk : k' = k
  · subst hk
    simp only [AList.lookup_insert, Option.some.injEq, exists_eq_left', mem_append,
      mem_singleton, Prod.mk.injEq, true_and]
    constructor
    · intro ha
      exact ⟨v, .inr rfl, ha⟩
    · rintro ⟨w, hw | rfl, ha⟩
      · obtain ⟨old, hold, hmem⟩ := (h k' a).mpr ⟨w, hw, ha⟩
        exact hgrows old hold hmem
      · exact ha
  · simp only [lookup_insert_ite, hk, if_false, mem_append, mem_singleton,
      Prod.mk.injEq, false_and, or_false]
    exact h k' a

lemma Covers.extend (hgrows : GrowsFrom members m entries) :
    Covers members (m.extend entries) (writes ++ entries) := by
  induction entries generalizing m writes with
  | nil =>
    rw [append_nil]
    exact h
  | cons _ _ ih =>
    obtain ⟨hold, hrest⟩ := hgrows
    have hextended := ih (h.insert hold) hrest
    rw [append_assoc] at hextended
    exact hextended

lemma Covers.absorb (hd : Covers members d writes')
    (hunion : ∀ v w, members (strategy.apply v w) = members v ∪ members w) :
    Covers members (strategy.absorb m d) (writes ++ writes') := by
  intro k a
  have hleft := h k a
  have hright := hd k a
  rw [MergeStrategy.lookup_absorb]
  simp only [mem_append, or_and_right, exists_or, ← hleft, ← hright]
  cases m.lookup k with
  | none => cases d.lookup k <;> simp
  | some =>
    cases d.lookup k with
    | none => simp
    | some => simp [hunion]

lemma Covers.foldl_absorb {moved : List (JournalEntry K V)}
    (hmoved : ∀ e ∈ moved, Covers members e.layer.data e.writes)
    (hunion : ∀ v w, members (strategy.apply v w) = members v ∪ members w) :
    Covers members (moved.foldl (fun m e => strategy.absorb m e.layer.data) m)
      (writes ++ moved.flatMap JournalEntry.writes) := by
  induction moved generalizing m writes with
  | nil =>
    rw [flatMap_nil, append_nil]
    exact h
  | cons _ _ ih =>
    obtain ⟨he, hrest⟩ := forall_mem_cons.mp hmoved
    have hfolded := ih (h.absorb he hunion) hrest
    rw [append_assoc] at hfolded
    exact hfolded

end

variable {s s' : Journaled K V} {call : CacheCall K V} {u : Unit}

section
variable (h : s.HoldsAll members)
include h

lemma HoldsAll.pending_write
    (hgrows : ∀ layer, s.cache.pending.find? (fun layer => layer.block = b) = some layer →
      GrowsFrom members layer.data entries) :
    ∀ e ∈ (s.journal.write b entries).pending, Covers members e.layer.data e.writes := by
  intro e he
  obtain ⟨n, hn⟩ := mem_iff_getElem?.mp he
  dsimp only [Journal.write] at hn
  rw [List.getElem?_modify] at hn
  obtain ⟨old, hold, heq⟩ := Option.map_eq_some_iff.mp hn
  have hcovers := h.pending old (mem_of_getElem? hold)
  split_ifs at heq with hfound
  · subst heq hfound
    have hlayer : s.cache.pending.find? (fun layer => layer.block = b) = some old.layer := by
      rw [h.layered, List.find?_map, List.find?_eq_getElem?_findIdx]
      exact congrArg (Option.map JournalEntry.layer) hold
    have hextended := hcovers.extend (hgrows old.layer hlayer)
    rwa [JournalEntry.layer, CacheCall.extend_ofList] at hextended
  · subst heq
    exact hcovers

/-- The entries of the journal stay covered. -/
lemma HoldsAll.pending_record (hguard : s.Grows members call) :
    ∀ e ∈ (s.journal.record call).pending, Covers members e.layer.data e.writes := by
  cases call with
  | insertPermanent => exact h.pending
  | extendPermanent => exact h.pending
  | openBlock =>
    dsimp only [Journal.record]
    split_ifs
    · exact h.pending
    · refine forall_mem_append.mpr ⟨h.pending, forall_mem_singleton.mpr ?_⟩
      intro k a
      simp [JournalEntry.layer, lookup_ofList, HashMap.lastOf]
  | insertPending => exact h.pending_write hguard
  | extendPending => exact h.pending_write hguard
  | revertTo =>
    intro e he
    exact h.pending e ((List.rdropWhile_prefix _ _).subset he)
  | handleFinality =>
    intro e he
    exact h.pending e ((dropWhile_sublist _).subset he)

lemma HoldsAll.step (hguard : s.Grows members call)
    (hstep : s.step call = some (u, s')) : s'.HoldsAll members := by
  obtain ⟨hcall, hjournal⟩ := step_eq_some hstep
  obtain ⟨hlayered, hset⟩ := CacheCall.settles_of_ok h.layered hcall
  have hpending := h.pending_record hguard
  rw [← hjournal] at hlayered hset hpending
  refine ⟨hlayered, ?_, hpending⟩
  cases hset with
  | kept _ _ _ hpermanent hsettled =>
    rw [hpermanent, hsettled]
    exact h.permanent
  | written _ _ _ _ hwrites hpermanent hsettled =>
    rw [hpermanent, hsettled]
    refine h.permanent.extend ?_
    rcases hwrites with rfl | ⟨k, v, rfl, rfl⟩
    · exact hguard
    · exact hguard
  | finalized _ _ _ _ _ _ hpermanent hsettled =>
    rw [hpermanent, hsettled]
    exact h.permanent.foldl_absorb (fun e he => h.pending e (mem_of_mem_take he)) hguard

lemma HoldsAll.getAll (k : K) (a : A) :
    (∃ vs, s.cache.getAll k = some vs ∧ ∃ v ∈ vs, a ∈ members v) ↔
      ∃ v, (k, v) ∈ s.journal.writes ∧ a ∈ members v := by
  have hlayers : (∃ layer ∈ s.cache.pending, ∃ v, layer.data.lookup k = some v ∧ a ∈ members v) ↔
      ∃ e ∈ s.journal.pending, ∃ v, e.layer.data.lookup k = some v ∧ a ∈ members v := by
    rw [h.layered]
    simp only [mem_map, exists_exists_and_eq_and]
  rw [exists_mem_getAll, hlayers, h.permanent k a]
  constructor
  · rintro (⟨e, he, hv⟩ | ⟨v, hv, ha⟩)
    · obtain ⟨v, hv, ha⟩ := (h.pending e he k a).mp hv
      exact ⟨v, mem_append_right _ (mem_flatMap.mpr ⟨e, he, hv⟩), ha⟩
    · exact ⟨v, mem_append_left _ hv, ha⟩
  · rintro ⟨v, hv, ha⟩
    rcases mem_append.mp hv with hv | hv
    · exact .inr ⟨v, hv, ha⟩
    · obtain ⟨e, he, hv⟩ := mem_flatMap.mp hv
      exact .inl ⟨e, he, (h.pending e he k a).mpr ⟨v, hv, ha⟩⟩

end

end

/-- Reads agree with the replay of the writes that were not reverted, if finality keeps the last
values, and with all of these writes, if sets only grow. -/
theorem reads_of_run {A : Type} (members : V → Set A) (trace : List (CacheCall K V × Unit))
    (s : Journaled K V) :
    (Run step KeepsLast fresh trace s → ∀ k, s.cache.get k = s.journal.replay k) ∧
    (Run step (Grows members) fresh trace s → ∀ k a,
      (∃ vs, s.cache.getAll k = some vs ∧ ∃ v ∈ vs, a ∈ members v) ↔
        ∃ v, (k, v) ∈ s.journal.writes ∧ a ∈ members v) ∧
    ∀ height strategy u s', s.step (.handleFinality height strategy) = some (u, s') →
      s'.journal.writes = s.journal.writes := by
  refine ⟨fun h => ?_, fun h => ?_, ?_⟩
  · have hstart : HoldsLast (fresh : Journaled K V) := ⟨rfl, fun k => rfl⟩
    have hlast := Run.invariant (P := fun _ s => HoldsLast s) hstart
      (fun _ _ _ _ _ hs hguard hstep => hs.step hguard hstep) h
    exact hlast.get
  · have hstart : HoldsAll members (fresh : Journaled K V) := by
      refine ⟨rfl, fun k a => ?_, fun e he => by cases he⟩
      simp [fresh, new, Journal.empty]
    have hall := Run.invariant (P := fun _ s => HoldsAll members s) hstart
      (fun _ _ _ _ _ hs hguard hstep => hs.step hguard hstep) h
    exact hall.getAll
  · intro height strategy u s' hstep
    rw [(step_eq_some hstep).2]
    exact s.journal.writes_handleFinality height strategy

def chained (n : UInt8) : Block := ⟨n.toNat, .ethereum, ⟨[n]⟩, ⟨[n - 1]⟩, 0⟩

def separateKeys : List (CacheCall Nat (HashSet Nat)) :=
  [.openBlock (chained 1), .insertPending (chained 1) 0 (HashSet.ofList [1]),
    .openBlock (chained 2), .insertPending (chained 2) 1 (HashSet.ofList [2]),
    .openBlock (chained 3), .handleFinality 3 .union]

private def bothKept (s : Journaled Nat (HashSet Nat)) (call : CacheCall Nat (HashSet Nat)) :
    Prop :=
  KeepsLast s call ∧ Grows (fun v => { a | a ∈ v }) s call

private lemma bothKept_insertPending {s : Journaled Nat (HashSet Nat)} {k : Nat} {v : HashSet Nat}
    (h : ∀ layer ∈ s.cache.pending, layer.data.lookup k = none) :
    bothKept s (.insertPending b k v) := by
  refine ⟨trivial, fun layer hlayer => ⟨fun old hold => ?_, trivial⟩⟩
  cases (h layer (mem_of_find?_eq_some hlayer)).symm.trans hold

theorem reads_of_run_separateKeys : ∃ trace s,
    trace.map Prod.fst = separateKeys ∧ Run step KeepsLast fresh trace s ∧
    Run step (Grows fun v => { a | a ∈ v }) fresh trace s ∧
    (∀ k, s.cache.get k = s.journal.replay k) ∧
    ∀ k a, (∃ vs, s.cache.getAll k = some vs ∧ ∃ v ∈ vs, a ∈ v) ↔
      ∃ v, (k, v) ∈ s.journal.writes ∧ a ∈ v := by
  have hopened : ∀ s b, bothKept s (.openBlock b) := fun _ _ => ⟨trivial, trivial⟩
  obtain ⟨trace, s, htrace, hrun⟩ : ∃ trace s, trace.map Prod.fst = separateKeys ∧
      Run step bothKept fresh trace s := by
    refine ⟨_, _, rfl, .next (.next (.next (.next (.next (.next .start (hopened _ _) rfl)
      (bothKept_insertPending ?_) rfl) (hopened _ _) rfl) (bothKept_insertPending ?_) rfl)
      (hopened _ _) rfl) ⟨?_, ?_⟩ rfl⟩
    · decide
    · decide
    · intro index hindexer k v vs hvalues
      cases hindexer
      match k with
      | 0 =>
        cases hvalues
        rfl
      | 1 =>
        cases hvalues
        rfl
      | k + 2 => cases hvalues
    · intro v w
      ext a
      have hmem : a ∈ HashMap.extend v w.toList ↔ a ∈ v ∨ a ∈ w := by
        rw [mem_extend_toList]
        tauto
      exact hmem
  have hkeeps := hrun.mono fun s call h => h.1
  have hgrows := hrun.mono fun s call h => h.2
  obtain ⟨hget, hgetAll, -⟩ := reads_of_run (fun v : HashSet Nat => { a | a ∈ v }) trace s
  exact ⟨trace, s, htrace, hkeeps, hgrows, hget hkeeps, hgetAll hgrows⟩

/-- The same key is written in two blocks. Block 2 also writes another key twice. -/
def sameKey : List (CacheCall Nat (HashSet Nat)) :=
  [.openBlock (chained 1), .insertPending (chained 1) 0 (HashSet.ofList [1]),
    .openBlock (chained 2), .insertPending (chained 2) 0 (HashSet.ofList [2]),
    .insertPending (chained 2) 1 (HashSet.ofList [3]),
      .insertPending (chained 2) 1 (HashSet.ofList [4]),
    .openBlock (chained 3)]

/-- Finality changes what `get` returns, and a set that was replaced in its layer is missing from
`getAll`. -/
theorem not_reads_sameKey : ∃ trace s s',
    trace.map Prod.fst = sameKey ∧ Run step (fun _ _ => True) fresh trace s ∧
    s.step (.handleFinality 3 .union) = some ((), s') ∧
    s.cache.get 0 = s.journal.replay 0 ∧ s'.cache.get 0 ≠ s'.journal.replay 0 ∧
    (1, HashSet.ofList [3]) ∈ s.journal.writes ∧
    ¬ ∃ vs, s.cache.getAll 1 = some vs ∧ ∃ v ∈ vs, 3 ∈ v := by
  refine ⟨_, _, _, rfl, .next (.next (.next (.next (.next (.next (.next .start trivial rfl) trivial
    rfl) trivial rfl) trivial rfl) trivial rfl) trivial rfl) trivial rfl, rfl, rfl, ?_,
    .tail _ (.tail _ (.head _)), by decide⟩
  intro hget
  -- the replayed set does not have the element of block 1
  have helem := congrArg (fun o : Option (HashSet Nat) => o.bind fun v => v.lookup 1) hget
  revert helem
  decide

end Journaled
end Tycho
