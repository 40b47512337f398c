import Mathlib.Data.List.DropRight
import Tycho.Indexer.ReorgBuffer
import Tycho.Replay.Call

/-! The versioned cache of the dynamic contract indexer: a permanent map below a stack of layers,
one for each block that can still be reverted. -/
namespace Tycho
open Collections Replay List Call

lemma exists_of_mem_getD {A : Type} {a : A} {o : Option (List A)} (h : a ∈ o.getD []) :
    ∃ l, o = some l ∧ a ∈ l := by
  cases o with
  | none => cases h
  | some l => exact ⟨l, rfl, h⟩

inductive DCICacheError where
  | unexpectedBlockOrder (new last : Nat)
  | blockNotFound (block context : String)
deriving DecidableEq

structure BlockScopedMap (K V : Type) where
  block : Block
  data : HashMap K V

instance {K V : Type} : BlockScoped (BlockScopedMap K V) := ⟨BlockScopedMap.block⟩

inductive MergeStrategy (V : Type) where
  | replace
  | custom (merge : V → V → V)

/-- Pending layers are kept oldest first. -/
structure VersionedCache (K V : Type) where
  permanent : HashMap K V
  pending : List (BlockScopedMap K V)

section
variable {B : Type} [BlockScoped B]

/-- The layers that a revert to a block leaves. On startup the pending layers can start with the
child of that block. -/
def revertLayers (hash : BlockHash) (pending : List B) : Except DCICacheError (List B) :=
  match pending with
  | [] => .ok []
  | front :: _ =>
    match pending.reverse.findIdx? fun layer => (block layer).hash = hash with
    | some fromBack => .ok (pending.take (pending.length - fromBack))
    | none =>
      if (block front).parentHash = hash then .ok []
      else .error (.blockNotFound hash.toString "revert to")

/-- A block is the newest layer already, or its child. -/
def openLayer (new : B) (pending : List B) : Except DCICacheError (List B) :=
  match pending.getLast? with
  | none => .ok (pending ++ [new])
  | some last =>
    if block last = block new then .ok pending
    else if (block last).hash = (block new).parentHash then .ok (pending ++ [new])
    else .error (.unexpectedBlockOrder (block new).number (block last).number)

def layerIndex (b : Block) (pending : List B) : Except DCICacheError Nat :=
  match pending.findIdx? fun layer => block layer = b with
  | some index => .ok index
  | none => .error (.blockNotFound b.number.repr "get layer")

def finalizedIndex (finalizedBlockHeight : Nat) (pending : List B) : Except DCICacheError Nat :=
  if pending.isEmpty then .ok 0
  else match pending.findIdx? fun layer => (block layer).number = finalizedBlockHeight with
    | some index => .ok index
    | none => .error (.blockNotFound finalizedBlockHeight.repr "finality")

section
variable {C : Type} [BlockScoped C] {f : B → C} {pending pending' : List B}

/-- Only the blocks of the layers decide where a revert ends. -/
lemma revertLayers_map (hf : ∀ b, block (f b) = block b) (hash : BlockHash) (pending : List B) :
    revertLayers hash (pending.map f) = (revertLayers hash pending).map (List.map f) := by
  cases pending with
  | nil => rfl
  | cons front rest =>
    have hfind : ((front :: rest).map f).reverse.findIdx? (fun layer => (block layer).hash = hash) =
        (front :: rest).reverse.findIdx? fun layer => (block layer).hash = hash := by
      rw [← map_reverse, List.findIdx?_map]
      simp only [Function.comp_def, hf]
    unfold revertLayers
    rw [map_cons] at hfind ⊢
    dsimp only
    rw [hfind, hf]
    cases (front :: rest).reverse.findIdx? fun layer => (block layer).hash = hash with
    | some => simp [Except.map, map_take]
    | none =>
      split_ifs <;> rfl

lemma openLayer_map (hf : ∀ b, block (f b) = block b) (new : B) (pending : List B) :
    openLayer (f new) (pending.map f) = (openLayer new pending).map (List.map f) := by
  unfold openLayer
  rw [List.getLast?_map]
  cases pending.getLast? with
  | none => simp [Except.map]
  | some =>
    simp only [Option.map_some, hf]
    split_ifs <;> simp [Except.map]

lemma layerIndex_map (hf : ∀ b, block (f b) = block b) (b : Block) (pending : List B) :
    layerIndex b (pending.map f) = layerIndex b pending := by
  unfold layerIndex
  rw [List.findIdx?_map]
  simp only [Function.comp_def, hf]

lemma finalizedIndex_map (hf : ∀ b, block (f b) = block b) (height : Nat) (pending : List B) :
    finalizedIndex height (pending.map f) = finalizedIndex height pending := by
  unfold finalizedIndex
  rw [List.findIdx?_map, isEmpty_map]
  simp only [Function.comp_def, hf]

lemma openLayer_ok {new : B} (h : openLayer new pending = .ok pending') :
    pending' = if pending.getLast?.map block = some (block new) then pending
      else pending ++ [new] := by
  unfold openLayer at h
  cases hlast : pending.getLast? with
  | none =>
    rw [hlast] at h
    cases h
    rfl
  | some =>
    simp only [hlast, Option.map_some, Option.some.injEq] at h ⊢
    split_ifs at h ⊢ with hsame hlink
    · cases h
      rfl
    · cases h
      rfl

lemma layerIndex_ok {b : Block} {index : Nat} (h : layerIndex b pending = .ok index) :
    index = pending.findIdx fun layer => block layer = b := by
  unfold layerIndex at h
  split at h
  · rename_i i hi
    cases h
    exact (List.findIdx?_eq_some_iff_findIdx_eq.mp hi).2.symm
  · cases h

/-- An accepted revert leaves the layers up to the newest one with the hash, or none. -/
lemma revertLayers_ok {hash : BlockHash} (h : revertLayers hash pending = .ok pending') :
    pending' = pending.rdropWhile fun layer => (block layer).hash ≠ hash := by
  unfold revertLayers at h
  cases pending with
  | nil =>
    cases h
    rfl
  | cons front rest =>
    dsimp only at h
    generalize front :: rest = pending at h ⊢
    unfold List.rdropWhile
    cases hfind : pending.reverse.findIdx? fun layer => (block layer).hash = hash with
    | some =>
      rw [hfind] at h
      cases h
      obtain ⟨l₁, m, l₂, hrev, rfl, hm, hl₁⟩ := split_of_findIdx? hfind
      have hpending : pending = (l₂.reverse ++ [m]) ++ l₁.reverse := by
        rw [← reverse_reverse pending, hrev]
        simp
      have hlen : pending.length - l₁.length = (l₂.reverse ++ [m]).length := by
        rw [hpending]
        simp only [length_append, length_reverse, length_singleton]
        omega
      have hdrop : (l₁ ++ m :: l₂).dropWhile (fun layer => (block layer).hash ≠ hash) = m :: l₂ :=
        by
        rw [dropWhile_append_of_pos fun layer hlayer => by simpa using hl₁ layer hlayer,
          dropWhile_cons_of_neg (by simpa using hm)]
      rw [hlen, hrev, hdrop]
      conv_lhs => rw [hpending, take_left]
      simp
    | none =>
      rw [hfind] at h
      have hnone : pending.reverse.dropWhile (fun layer => (block layer).hash ≠ hash) = [] := by
        rw [dropWhile_eq_nil_iff]
        intro layer hlayer
        simpa using List.findIdx?_eq_none_iff.mp hfind layer hlayer
      rw [hnone]
      dsimp only at h
      split_ifs at h
      cases h
      rfl

/-- Finality takes the layers below the oldest one with the height. -/
lemma finalizedIndex_ok {height index : Nat} (h : finalizedIndex height pending = .ok index) :
    pending.take index = pending.takeWhile (fun layer => (block layer).number ≠ height) ∧
      pending.drop index = pending.dropWhile fun layer => (block layer).number ≠ height := by
  unfold finalizedIndex at h
  split_ifs at h with hempty
  · rw [List.isEmpty_iff] at hempty
    subst hempty
    simp
  · cases hfind : pending.findIdx? fun layer => (block layer).number = height with
    | none =>
      rw [hfind] at h
      cases h
    | some =>
      rw [hfind] at h
      cases h
      obtain ⟨l₁, m, l₂, rfl, rfl, hm, hl₁⟩ := split_of_findIdx? hfind
      have hpos : ∀ layer ∈ l₁, decide ((block layer).number ≠ height) = true := by
        intro layer hlayer
        simpa using hl₁ layer hlayer
      rw [take_left, drop_left, takeWhile_append_of_pos hpos,
        dropWhile_append_of_pos hpos, takeWhile_cons_of_neg (by simpa using hm),
        dropWhile_cons_of_neg (by simpa using hm), append_nil]
      exact ⟨rfl, rfl⟩

end
end

def MergeStrategy.absorb {K V : Type} [DecidableEq K] (strategy : MergeStrategy V)
    (permanent data : HashMap K V) : HashMap K V :=
  match strategy with
  | .replace => permanent.extend data.toList
  | .custom merge => mergeWith merge permanent data.toList

def MergeStrategy.union {T : Type} [DecidableEq T] : MergeStrategy (HashSet T) :=
  .custom fun existing new => HashMap.extend existing new.toList

def MergeStrategy.apply {V : Type} : MergeStrategy V → V → V → V
  | .replace => fun _ value => value
  | .custom merge => merge

lemma MergeStrategy.lookup_absorb {K V : Type} [DecidableEq K] (strategy : MergeStrategy V)
    (permanent data : HashMap K V) (k : K) :
    (strategy.absorb permanent data).lookup k =
      (permanent.lookup k).merge strategy.apply (data.lookup k) := by
  cases strategy with
  | replace =>
    rw [absorb, HashMap.lookup_extend_toList]
    cases data.lookup k <;> cases permanent.lookup k <;> rfl
  | custom =>
    rw [absorb, lookup_mergeWith, valuesAt_toList]
    cases data.lookup k <;> cases permanent.lookup k <;> rfl

namespace VersionedCache
variable {K V : Type} [DecidableEq K]

def new : VersionedCache K V := ⟨∅, []⟩

def insertPermanent (k : K) (v : V) : Call (VersionedCache K V) DCICacheError Unit :=
  modify fun c => { c with permanent := c.permanent.insert k v }

def extendPermanent (entries : List (K × V)) : Call (VersionedCache K V) DCICacheError Unit :=
  modify fun c => { c with permanent := c.permanent.extend entries }

def updateLayer (b : Block) (f : HashMap K V → HashMap K V) :
    Call (VersionedCache K V) DCICacheError Unit := do
  match (← get).pending.findIdx? fun layer => layer.block = b with
  | some i =>
    modify fun c => { c with
      pending := c.pending.modify i fun layer => { layer with data := f layer.data } }
  | none => throw (.blockNotFound b.number.repr "get layer")

def insertPending (b : Block) (k : K) (v : V) : Call (VersionedCache K V) DCICacheError Unit :=
  updateLayer b fun data => data.insert k v

def extendPending (b : Block) (entries : List (K × V)) :
    Call (VersionedCache K V) DCICacheError Unit :=
  updateLayer b fun data => data.extend entries

def pendingEntry (b : Block) (k : K) (f : Option V → V) :
    Call (VersionedCache K V) DCICacheError Unit :=
  updateLayer b fun data => data.insert k (f (data.lookup k))

/-- The finalized block itself stays pending. -/
def handleFinality (finalizedBlockHeight : Nat) (strategy : MergeStrategy V) :
    Call (VersionedCache K V) DCICacheError Unit := do
  if (← get).pending.isEmpty then return
  match (← get).pending.findIdx? fun layer => layer.block.number = finalizedBlockHeight with
  | some index =>
    let finalizedLayers := (← get).pending.take index
    modify fun c => { c with pending := c.pending.drop index }
    finalizedLayers.forM fun layer =>
      modify fun c => { c with permanent := strategy.absorb c.permanent layer.data }
  | none => throw (.blockNotFound finalizedBlockHeight.repr "finality")

def revertTo (hash : BlockHash) : Call (VersionedCache K V) DCICacheError Unit := do
  match (← get).pending with
  | [] => return
  | front :: _ =>
    match (← get).pending.reverse.findIdx? fun layer => layer.block.hash = hash with
    | some fromBack =>
      modify fun c => { c with pending := c.pending.take (c.pending.length - fromBack) }
    | none =>
      -- on startup the pending layers can start with the child of the target
      if front.block.parentHash = hash then modify fun c => { c with pending := [] }
      else throw (.blockNotFound hash.toString "revert to")

def validateAndEnsureBlockLayer (b : Block) : Call (VersionedCache K V) DCICacheError Unit := do
  match (← get).pending.getLast? with
  | none => modify fun c => { c with pending := c.pending ++ [⟨b, ∅⟩] }
  | some last =>
    if last.block = b then return
    else if last.block.hash = b.parentHash then
      modify fun c => { c with pending := c.pending ++ [⟨b, ∅⟩] }
    else throw (.unexpectedBlockOrder b.number last.block.number)

/-- The newest layer comes first. -/
def get (c : VersionedCache K V) (k : K) : Option V :=
  (c.pending.reverse.findSome? fun layer => layer.data.lookup k).or (c.permanent.lookup k)

def getAll (c : VersionedCache K V) (k : K) : Option (List V) :=
  let values := (c.pending.reverse.filterMap fun layer => layer.data.lookup k) ++
    (c.permanent.lookup k).toList
  if values.isEmpty then none else some values

def containsKey (c : VersionedCache K V) (k : K) : Bool :=
  c.pending.reverse.any (fun layer => (layer.data.lookup k).isSome) || (c.permanent.lookup k).isSome

section
variable (c : VersionedCache K V)

omit [DecidableEq K] in
lemma on_updateLayer (b : Block) (f : HashMap K V → HashMap K V) :
    (updateLayer b f).on c = deciding (fun c => (layerIndex b c.pending).map fun i =>
      ((), { c with
        pending := c.pending.modify i fun layer => { layer with data := f layer.data } })) c := by
  unfold updateLayer deciding layerIndex
  rw [on_bind_ok (on_get c)]
  dsimp only [block]
  cases c.pending.findIdx? fun layer => layer.block = b <;> rfl

omit [DecidableEq K] in
lemma on_revertTo (hash : BlockHash) :
    (revertTo hash).on c = deciding (fun c => (revertLayers hash c.pending).map fun pending =>
      ((), { c with pending := pending })) c := by
  obtain ⟨permanent, pending⟩ := c
  unfold revertTo deciding revertLayers
  rw [on_bind_ok (on_get _)]
  cases pending with
  | nil => rfl
  | cons front rest =>
    dsimp only [block]
    rw [on_bind_ok (on_get _)]
    cases (front :: rest).reverse.findIdx? fun layer => layer.block.hash = hash with
    | some => rfl
    | none =>
      split_ifs <;> rfl

omit [DecidableEq K] in
lemma on_validateAndEnsureBlockLayer (b : Block) :
    (validateAndEnsureBlockLayer b).on c = deciding (fun c =>
      (openLayer ⟨b, ∅⟩ c.pending).map fun pending => ((), { c with pending := pending })) c := by
  unfold validateAndEnsureBlockLayer deciding openLayer
  rw [on_bind_ok (on_get c)]
  dsimp only [block]
  cases c.pending.getLast? with
  | none => rfl
  | some =>
    dsimp only
    split_ifs <;> rfl

/-- Finalized layers change the permanent map and nothing else. -/
lemma foldl_absorb (strategy : MergeStrategy V) (layers : List (BlockScopedMap K V)) :
    layers.foldl (fun c layer =>
        { c with permanent := strategy.absorb c.permanent layer.data }) c =
      ⟨layers.foldl (fun m layer => strategy.absorb m layer.data) c.permanent, c.pending⟩ := by
  induction layers generalizing c with
  | nil => rfl
  | cons _ _ ih => exact ih _

lemma on_handleFinality (height : Nat) (strategy : MergeStrategy V) :
    (handleFinality height strategy).on c = deciding (fun c =>
      (finalizedIndex height c.pending).map fun index =>
        ((), ⟨(c.pending.take index).foldl (fun m layer => strategy.absorb m layer.data)
          c.permanent,
          c.pending.drop index⟩)) c := by
  obtain ⟨permanent, pending⟩ := c
  unfold handleFinality deciding finalizedIndex
  rw [on_bind_ok (on_get _)]
  dsimp only [block]
  cases hempty : pending.isEmpty with
  | true =>
    rw [List.isEmpty_iff] at hempty
    subst hempty
    rfl
  | false =>
    simp only [Bool.false_eq_true, if_false]
    rw [on_bind_ok (on_get _)]
    cases pending.findIdx? fun layer => layer.block.number = height with
    | none => rfl
    | some =>
      rw [on_bind_ok (on_get _), on_bind_ok (on_modify _ _), on_forM_modify]
      exact congrArg (Prod.mk _) (foldl_absorb _ strategy _)

/-- The values of a key are those of the layers and the permanent one. -/
lemma exists_mem_getAll {k : K} {P : V → Prop} : (∃ vs, c.getAll k = some vs ∧ ∃ v ∈ vs, P v) ↔
      (∃ layer ∈ c.pending, ∃ v, layer.data.lookup k = some v ∧ P v) ∨
        ∃ v, c.permanent.lookup k = some v ∧ P v := by
  have hmem : ∀ v, v ∈ (c.pending.reverse.filterMap fun layer => layer.data.lookup k) ++
      (c.permanent.lookup k).toList ↔
        (∃ layer ∈ c.pending, layer.data.lookup k = some v) ∨ c.permanent.lookup k = some v := by
    intro v
    simp
  unfold getAll
  generalize (c.pending.reverse.filterMap fun layer => layer.data.lookup k) ++
    (c.permanent.lookup k).toList = values at hmem ⊢
  have hvalues : (∃ vs, (if values.isEmpty then none else some values) = some vs ∧
      ∃ v ∈ vs, P v) ↔ ∃ v ∈ values, P v := by
    cases values <;> simp
  rw [hvalues]
  constructor
  · rintro ⟨v, hv, hp⟩
    rcases (hmem v).mp hv with ⟨layer, hlayer, hlookup⟩ | hlookup
    · exact .inl ⟨layer, hlayer, v, hlookup, hp⟩
    · exact .inr ⟨v, hlookup, hp⟩
  · rintro (⟨layer, hlayer, v, hlookup, hp⟩ | ⟨v, hlookup, hp⟩)
    · exact ⟨v, (hmem v).mpr (.inl ⟨layer, hlayer, hlookup⟩), hp⟩
    · exact ⟨v, (hmem v).mpr (.inr hlookup), hp⟩

end
end VersionedCache
end Tycho
