import Tycho.Dci.DciCache

/-! The cache with a layer on top, up to a layer, and after finality: what its readers return. -/
namespace Tycho
open Collections Replay List Call VersionedCache MergeStrategy

variable {b : Block} {n : Nat} {order : List SubCache}

namespace VersionedCache
variable {K V : Type} [DecidableEq K] (v : VersionedCache K V)

def topped (b : Block) (data : HashMap K V) : VersionedCache K V :=
  ⟨v.permanent, v.pending ++ [⟨b, data⟩]⟩

def upTo (n : Nat) : VersionedCache K V := ⟨v.permanent, v.pending.take n⟩

def finalize (strategy : MergeStrategy V) (index : Nat) : VersionedCache K V :=
  ⟨(v.pending.take index).foldl (fun m layer => strategy.absorb m layer.data) v.permanent,
    v.pending.drop index⟩

def Holds (k : K) (P : V → Prop) : Prop := ∃ values, v.getAll k = some values ∧ ∃ x ∈ values, P x

omit [DecidableEq K] in
lemma upTo_upTo (m n : Nat) : (v.upTo n).upTo m = v.upTo (min m n) := by
  unfold upTo
  rw [take_take]

variable {data : HashMap K V} {P : V → Prop} {k : K}

omit [DecidableEq K] in
lemma upTo_topped_of_le (h : n ≤ v.pending.length) : (v.topped b data).upTo n = v.upTo n := by
  unfold upTo topped
  rw [take_append_of_le_length h]

omit [DecidableEq K] in
lemma upTo_of_le (h : v.pending.length ≤ n) : v.upTo n = v := by
  unfold upTo
  rw [take_of_length_le h]

lemma upTo_finalize (strategy : MergeStrategy V) (index n : Nat) :
    (v.finalize strategy index).upTo n = (v.upTo (index + n)).finalize strategy index := by
  unfold finalize upTo
  rw [take_take, Nat.min_eq_left (Nat.le_add_right index n), drop_take, Nat.add_sub_cancel_left]

lemma get_topped (b : Block) (data : HashMap K V) (k : K) :
    (v.topped b data).get k = (data.lookup k).or (v.get k) := by
  unfold get topped
  rw [reverse_append, reverse_singleton, singleton_append, List.findSome?_cons]
  cases data.lookup k <;> rfl

lemma getAll_topped_empty (b : Block) (k : K) : (v.topped b ∅).getAll k = v.getAll k := by
  unfold getAll topped
  rw [reverse_append, reverse_singleton, singleton_append, filterMap_cons]
  rfl

lemma holds_topped :
    (v.topped b data).Holds k P ↔ (∃ x, data.lookup k = some x ∧ P x) ∨ v.Holds k P := by
  unfold Holds
  rw [exists_mem_getAll, exists_mem_getAll]
  constructor
  · rintro (⟨layer, hlayer, x, hx⟩ | hper)
    · rcases mem_append.mp hlayer with hold | hnew
      · exact .inr (.inl ⟨layer, hold, x, hx⟩)
      · cases mem_singleton.mp hnew
        exact .inl ⟨x, hx⟩
    · exact .inr (.inr hper)
  · rintro (⟨x, hx⟩ | ⟨layer, hlayer, hx⟩ | hper)
    · exact .inl ⟨_, mem_append_right _ mem_cons_self, x, hx⟩
    · exact .inl ⟨layer, mem_append_left _ hlayer, hx⟩
    · exact .inr hper

omit [DecidableEq K] in
lemma modify_concat (l : List (BlockScopedMap K V)) (layer : BlockScopedMap K V)
    (f : BlockScopedMap K V → BlockScopedMap K V) :
    (l ++ [layer]).modify l.length f = l ++ [f layer] := by
  induction l with
  | nil => rfl
  | cons _ _ ih => simpa using ih

omit [DecidableEq K] in
lemma on_updateLayer_topped (hb : ∀ layer ∈ v.pending, layer.block ≠ b)
    (f : HashMap K V → HashMap K V) (data : HashMap K V) :
    (updateLayer b f).on (v.topped b data) = (.ok (), v.topped b (f data)) := by
  have hfind : (v.topped b data).pending.findIdx? (fun layer => layer.block = b) =
      some v.pending.length := by
    unfold topped
    rw [List.findIdx?_append, List.findIdx?_eq_none_iff.mpr fun layer hlayer => by
      simpa using hb layer hlayer]
    simp
  rw [on_updateLayer]
  unfold deciding layerIndex
  dsimp only [block]
  rw [hfind]
  dsimp only [Except.map, topped]
  rw [modify_concat]

section
variable {strategy : MergeStrategy V}

lemma lookup_foldl_absorb_replace (layers : List (BlockScopedMap K V)) (m : HashMap K V) (k : K) :
    (layers.foldl (fun m layer => replace.absorb m layer.data) m).lookup k =
      (layers.reverse.findSome? fun layer => layer.data.lookup k).or (m.lookup k) := by
  refine HashMap.lookup_foldl_last (w := fun layer k => layer.data.lookup k) (fun m layer => ?_)
    layers m
  rw [lookup_absorb]
  cases layer.data.lookup k <;> cases m.lookup k <;> rfl

/-- Finality with replacement is not seen in the latest value. -/
lemma get_finalize (index : Nat) (k : K) : (v.finalize .replace index).get k = v.get k := by
  unfold get finalize
  rw [lookup_foldl_absorb_replace, ← Option.or_assoc, ← List.findSome?_append,
    ← reverse_append, take_append_drop]

section
variable (hP : ∀ x y, P (strategy.apply x y) ↔ P x ∨ P y)
include hP

lemma foldl_absorb_holds (layers : List (BlockScopedMap K V)) (m : HashMap K V) (k : K) :
    (∃ x, (layers.foldl (fun m layer => strategy.absorb m layer.data) m).lookup k = some x ∧ P x) ↔
      (∃ layer ∈ layers, ∃ x, layer.data.lookup k = some x ∧ P x) ∨
        ∃ x, m.lookup k = some x ∧ P x := by
  induction layers generalizing m with
  | nil => simp
  | cons layer layers ih =>
    rw [foldl_cons, ih, lookup_absorb]
    have hmerged : (∃ x, (m.lookup k).merge strategy.apply (layer.data.lookup k) = some x ∧ P x) ↔
        (∃ x, layer.data.lookup k = some x ∧ P x) ∨ ∃ x, m.lookup k = some x ∧ P x := by
      cases layer.data.lookup k <;> cases m.lookup k <;> simp [hP, or_comm]
    rw [hmerged, ← or_assoc, exists_mem_cons_iff, or_comm (a := ∃ layer ∈ layers, _)]

/-- Finality is not seen in the values of a key, if merging keeps them. -/
lemma holds_finalize (index : Nat) (k : K) :
    (v.finalize strategy index).Holds k P ↔ v.Holds k P := by
  unfold Holds
  rw [exists_mem_getAll, exists_mem_getAll]
  unfold finalize
  rw [foldl_absorb_holds hP, ← or_assoc]
  have hsplit : (∃ layer ∈ v.pending, ∃ x, layer.data.lookup k = some x ∧ P x) ↔
      (∃ layer ∈ v.pending.drop index, ∃ x, layer.data.lookup k = some x ∧ P x) ∨
        ∃ layer ∈ v.pending.take index, ∃ x, layer.data.lookup k = some x ∧ P x := by
    conv_lhs => rw [← take_append_drop index v.pending]
    simp only [mem_append, or_and_right, exists_or]
    exact or_comm
  rw [hsplit]

end

end

lemma containsKey_iff : v.containsKey k ↔ v.Holds k fun _ => True := by
  unfold Holds
  rw [exists_mem_getAll]
  unfold containsKey
  simp only [Bool.or_eq_true, any_eq_true, mem_reverse, Option.isSome_iff_exists, and_true]

end VersionedCache

namespace DCICache

def build (f : (i : SubCache) → VersionedCache i.Key i.Value) : DCICache :=
  ⟨f .epIdToEntrypoint, f .entrypointResults, f .retriggers, f .trackedContracts,
    f .erc20Addresses, f .blacklistedAddresses, f .epIdToComponentId,
    f .componentIdToEntrypointParams, f .tracingRetryCounts⟩

lemma get_build (f : (i : SubCache) → VersionedCache i.Key i.Value) (i : SubCache) :
    i.lens.get (build f) = f i := by
  cases i <;> rfl

lemma build_get (c : DCICache) : build (fun i => i.lens.get c) = c := rfl

lemma ext_of_get {c c' : DCICache} (h : ∀ i : SubCache, i.lens.get c = i.lens.get c') : c = c' := by
  rw [← build_get c, ← build_get c']
  exact congrArg build (funext h)

def topped (c : DCICache) (b : Block) (data : (i : SubCache) → HashMap i.Key i.Value) : DCICache :=
  build fun i => (i.lens.get c).topped b (data i)

def upTo (c : DCICache) (n : Nat) : DCICache := build fun i => (i.lens.get c).upTo n

def finalize (c : DCICache) (index : Nat) : DCICache :=
  build fun i => (i.lens.get c).finalize i.strategy index

section
variable {c : DCICache} {bs : List Block}

lemma length_pending (hbs : ∀ i, c.blocks i = bs) (i : SubCache) :
    (i.lens.get c).pending.length = bs.length := by
  rw [← hbs i, blocks, length_map]

lemma upTo_upTo (m n : Nat) : (c.upTo n).upTo m = c.upTo (min m n) := by
  refine ext_of_get fun i => ?_
  rw [upTo, upTo, upTo, get_build, get_build, get_build, VersionedCache.upTo_upTo]

lemma upTo_of_le (hbs : ∀ i, c.blocks i = bs) (h : bs.length ≤ n) : c.upTo n = c := by
  refine ext_of_get fun i => ?_
  rw [upTo, get_build, VersionedCache.upTo_of_le _ (by rwa [length_pending hbs])]

lemma upTo_topped_of_le (hbs : ∀ i, c.blocks i = bs)
    {data : (i : SubCache) → HashMap i.Key i.Value} (h : n ≤ bs.length) :
    (c.topped b data).upTo n = c.upTo n := by
  refine ext_of_get fun i => ?_
  rw [upTo, upTo, get_build, get_build, topped, get_build,
    VersionedCache.upTo_topped_of_le _ (by rwa [length_pending hbs])]

lemma upTo_finalize (index n : Nat) :
    (c.finalize index).upTo n = (c.upTo (index + n)).finalize index := by
  refine ext_of_get fun i => ?_
  rw [upTo, finalize, finalize, get_build, get_build, get_build, VersionedCache.upTo_finalize, upTo,
    get_build]

lemma blocks_upTo (n : Nat) (i : SubCache) : (c.upTo n).blocks i = (c.blocks i).take n := by
  rw [blocks, upTo, get_build, VersionedCache.upTo, map_take, blocks]

lemma blocks_finalize (index : Nat) (i : SubCache) :
    (c.finalize index).blocks i = (c.blocks i).drop index := by
  rw [blocks, finalize, get_build, VersionedCache.finalize, map_drop, blocks]

end

variable {c c' : DCICache} {bs : List Block}
  {call : (i : SubCache) → Call (VersionedCache i.Key i.Value) DCICacheError Unit}
  {f : (i : SubCache) → VersionedCache i.Key i.Value}

lemma part_of_onEach (h : (onEach order call).on c = (.ok (), c')) (hnodup : order.Nodup) :
    (∀ i ∈ order, (call i).on (i.lens.get c) = (.ok (), i.lens.get c')) ∧
      ∀ i ∉ order, i.lens.get c' = i.lens.get c := by
  induction order generalizing c with
  | nil =>
    cases h
    exact ⟨fun i hi => absurd hi not_mem_nil, fun i _ => rfl⟩
  | cons i _ ih =>
    obtain ⟨hi, hnodup⟩ := nodup_cons.mp hnodup
    obtain ⟨_, c₁, hcall, hrest⟩ := ok_of_on_bind h
    rw [on_zoom] at hcall
    obtain ⟨hok, hset⟩ := Prod.mk.inj hcall
    obtain ⟨hparts, hother⟩ := ih hrest hnodup
    have hsame : ∀ j, j ≠ i → j.lens.get c₁ = j.lens.get c := by
      intro j hj
      rw [← hset, i.get_set_of_ne c _ hj]
    constructor
    · intro j hj
      rcases mem_cons.mp hj with rfl | hrest
      · rw [hother j hi, ← hset, j.get_set]
        exact Prod.ext hok rfl
      · have hne : j ≠ i := by
          rintro rfl
          exact hi hrest
        rw [← hsame j hne]
        exact hparts j hrest
    · intro j hj
      rw [mem_cons, not_or] at hj
      rw [hother j hj.2, hsame j hj.1]

lemma eq_build_of_onEach (h : (onEach order call).on c = (.ok (), c'))
    (hok : ∀ i, (call i).on (i.lens.get c) = (.ok (), f i)) (hnodup : order.Nodup)
    (hall : ∀ i, i ∈ order) : c' = build f := by
  refine ext_of_get fun i => ?_
  rw [get_build]
  exact congrArg Prod.snd (((part_of_onEach h hnodup).1 i (hall i)).symm.trans (hok i))

/-- A call that moves the parts together succeeds if it does for their blocks. -/
lemma next_ok_of_onEach {next : List Block → Except DCICacheError (List Block)} {i : SubCache}
    (hcall : ∀ i, VersionedCache.Moves next (call i)) (hbs : ∀ i, c.blocks i = bs)
    (h : (onEach (i :: order) call).on c = (.ok (), c')) : ∃ bs', next bs = .ok bs' := by
  cases hnext : next bs with
  | ok bs' => exact ⟨bs', rfl⟩
  | error e =>
    have herr : (onEach (i :: order) call).on c = (.error e, c) :=
      all_error (onPart_zoom (hcall i)) (hbs i) hnext
    rw [herr] at h
    cases h

section
variable (hbs : ∀ i, c.blocks i = bs)
include hbs

lemma tryInsertBlockLayer_ok (h : (tryInsertBlockLayer b).exec c = .ok c') :
    c' = if bs.getLast? = some b then c else c.topped b fun _ => ∅ := by
  have hon := exec_ok h
  obtain ⟨bs', hnext⟩ := next_ok_of_onEach (fun _ => moves_validateAndEnsureBlockLayer b) hbs hon
  have hparts : ∀ i : SubCache, (validateAndEnsureBlockLayer b).on (i.lens.get c) =
      (.ok (), i.lens.get (if bs.getLast? = some b then c else c.topped b fun _ => ∅)) := by
    intro i
    have hmap := openLayer_map block_block ⟨b, ∅⟩ (i.lens.get c).pending
    rw [show (i.lens.get c).pending.map block = bs from hbs i,
      show openLayer (block (⟨b, ∅⟩ : BlockScopedMap i.Key i.Value)) bs = .ok bs' from hnext]
      at hmap
    obtain ⟨pending, hopened, -⟩ := ok_of_map_ok hmap.symm
    have hpending : pending = if bs.getLast? = some b then (i.lens.get c).pending
        else (i.lens.get c).pending ++ [⟨b, ∅⟩] := by
      rw [← hbs i, blocks, List.getLast?_map]
      exact openLayer_ok hopened
    rw [on_validateAndEnsureBlockLayer, deciding, hopened, hpending]
    by_cases hlast : bs.getLast? = some b
    · simp only [if_pos hlast]
      rfl
    · simp only [if_neg hlast]
      rw [topped, get_build]
      rfl
  exact (eq_build_of_onEach hon hparts (by decide) (by intro j; cases j <;> decide)).trans
    (build_get _)

lemma revertTo_ok {hash : BlockHash}
    (h : (revertTo hash).exec c = .ok c') : ∃ n, c' = c.upTo n := by
  have hon := exec_ok h
  obtain ⟨bs', hnext⟩ := next_ok_of_onEach (fun _ => moves_revertTo hash) hbs hon
  refine ⟨bs'.length, ?_⟩
  have hparts : ∀ i : SubCache, (VersionedCache.revertTo hash).on (i.lens.get c) =
      (.ok (), (i.lens.get c).upTo bs'.length) := by
    intro i
    have hmap := revertLayers_map VersionedCache.block_block hash (i.lens.get c).pending
    rw [show (i.lens.get c).pending.map block = bs from hbs i, hnext] at hmap
    obtain ⟨pending, hrev, hlen⟩ := ok_of_map_ok hmap.symm
    have htaken : pending = (i.lens.get c).pending.take bs'.length := by
      have hinit : pending <+: (i.lens.get c).pending := by
        rw [revertLayers_ok hrev]
        exact rdropWhile_prefix _ _
      rw [← hlen, length_map]
      exact prefix_iff_eq_take.mp hinit
    rw [on_revertTo, deciding, hrev, htaken]
    rfl
  exact eq_build_of_onEach hon hparts (by decide) (by intro j; cases j <;> decide)

lemma handleFinality_ok {height : Nat} (h : (handleFinality height).exec c = .ok c') :
    ∃ index, finalizedIndex height bs = .ok index ∧ c' = c.finalize index := by
  have hon := exec_ok h
  obtain ⟨bs', hnext⟩ := next_ok_of_onEach
    (fun i => VersionedCache.moves_handleFinality height i.strategy) hbs hon
  obtain ⟨index, hindex, -⟩ := ok_of_map_ok hnext
  refine ⟨index, hindex, ?_⟩
  have hparts : ∀ i : SubCache, (VersionedCache.handleFinality height i.strategy).on (i.lens.get c)
    =
        (.ok (), (i.lens.get c).finalize i.strategy index) := by
    intro i
    have hmap := finalizedIndex_map VersionedCache.block_block height (i.lens.get c).pending
    rw [show (i.lens.get c).pending.map block = bs from hbs i, hindex] at hmap
    rw [on_handleFinality, deciding, ← hmap]
    rfl
  exact eq_build_of_onEach hon hparts (by decide) (by intro j; cases j <;> decide)

end

/-- Each part is finalized, also if the layers of the parts differ. -/
lemma handleFinality_part {height : Nat} (h : (handleFinality height).exec c = .ok c')
    (i : SubCache) : ∃ index, i.lens.get c' = (i.lens.get c).finalize i.strategy index := by
  have hpart := (part_of_onEach (exec_ok h) (by decide)).1 i (by cases i <;> decide)
  rw [on_handleFinality] at hpart
  have hdecide := deciding_ok hpart
  obtain ⟨index, -, heq⟩ := ok_of_map_ok hdecide
  exact ⟨index, (Prod.mk.inj heq).2.symm⟩

end DCICache
end Tycho
