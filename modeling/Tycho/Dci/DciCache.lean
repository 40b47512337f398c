import Tycho.Collections.Fallible
import Tycho.Dci.VersionedCache
import Tycho.Replay.Run

/-! The cache of the dynamic contract indexer: nine versioned caches that move together. -/
namespace Tycho
open Collections Replay Call VersionedCache

instance : BlockScoped Block := ⟨id⟩

structure DCICache where
  epIdToEntrypoint : VersionedCache EntryPointId EntryPoint
  /-- No result means that tracing failed. -/
  entrypointResults : VersionedCache (EntryPointId × TracingParams) (Option TracingResult)
  retriggers : VersionedCache (Address × StoreKey) (HashSet EntryPointWithTracingParams × UInt8)
  trackedContracts : VersionedCache Address (HashSet StoreKey)
  erc20Addresses : VersionedCache Address Bool
  blacklistedAddresses : VersionedCache Address Bool
  epIdToComponentId : VersionedCache EntryPointId (HashSet ComponentId)
  componentIdToEntrypointParams : VersionedCache ComponentId (HashSet EntryPointWithTracingParams)
  tracingRetryCounts : VersionedCache (EntryPointId × TracingParams) Nat

inductive SubCache where
  | epIdToEntrypoint | entrypointResults | retriggers | trackedContracts | erc20Addresses
  | blacklistedAddresses | epIdToComponentId | componentIdToEntrypointParams | tracingRetryCounts
deriving DecidableEq

namespace SubCache

abbrev Key : SubCache → Type
  | epIdToEntrypoint => EntryPointId
  | entrypointResults => EntryPointId × TracingParams
  | retriggers => Address × StoreKey
  | trackedContracts => Address
  | erc20Addresses => Address
  | blacklistedAddresses => Address
  | epIdToComponentId => EntryPointId
  | componentIdToEntrypointParams => ComponentId
  | tracingRetryCounts => EntryPointId × TracingParams

abbrev Value : SubCache → Type
  | epIdToEntrypoint => EntryPoint
  | entrypointResults => Option TracingResult
  | retriggers => HashSet EntryPointWithTracingParams × UInt8
  | trackedContracts => HashSet StoreKey
  | erc20Addresses => Bool
  | blacklistedAddresses => Bool
  | epIdToComponentId => HashSet ComponentId
  | componentIdToEntrypointParams => HashSet EntryPointWithTracingParams
  | tracingRetryCounts => Nat

instance : (i : SubCache) → DecidableEq i.Key
  | epIdToEntrypoint => inferInstanceAs (DecidableEq EntryPointId)
  | entrypointResults => inferInstanceAs (DecidableEq (EntryPointId × TracingParams))
  | retriggers => inferInstanceAs (DecidableEq (Address × StoreKey))
  | trackedContracts => inferInstanceAs (DecidableEq Address)
  | erc20Addresses => inferInstanceAs (DecidableEq Address)
  | blacklistedAddresses => inferInstanceAs (DecidableEq Address)
  | epIdToComponentId => inferInstanceAs (DecidableEq EntryPointId)
  | componentIdToEntrypointParams => inferInstanceAs (DecidableEq ComponentId)
  | tracingRetryCounts => inferInstanceAs (DecidableEq (EntryPointId × TracingParams))

def lens : (i : SubCache) → Call.Lens DCICache (VersionedCache i.Key i.Value)
  | epIdToEntrypoint => ⟨DCICache.epIdToEntrypoint, fun v c => { c with epIdToEntrypoint := v }⟩
  | entrypointResults => ⟨DCICache.entrypointResults, fun v c => { c with entrypointResults := v }⟩
  | retriggers => ⟨DCICache.retriggers, fun v c => { c with retriggers := v }⟩
  | trackedContracts => ⟨DCICache.trackedContracts, fun v c => { c with trackedContracts := v }⟩
  | erc20Addresses => ⟨DCICache.erc20Addresses, fun v c => { c with erc20Addresses := v }⟩
  | blacklistedAddresses =>
    ⟨DCICache.blacklistedAddresses, fun v c => { c with blacklistedAddresses := v }⟩
  | epIdToComponentId => ⟨DCICache.epIdToComponentId, fun v c => { c with epIdToComponentId := v }⟩
  | componentIdToEntrypointParams => ⟨DCICache.componentIdToEntrypointParams,
      fun v c => { c with componentIdToEntrypointParams := v }⟩
  | tracingRetryCounts =>
    ⟨DCICache.tracingRetryCounts, fun v c => { c with tracingRetryCounts := v }⟩

/-- How finality merges the values of a part. The offset of a retrigger stays the one that is
there. -/
def strategy : (i : SubCache) → MergeStrategy i.Value
  | epIdToEntrypoint => .replace
  | entrypointResults => .replace
  | retriggers => .custom fun existing new => (HashMap.extend existing.1 new.1.toList, existing.2)
  | trackedContracts => .union
  | erc20Addresses => .replace
  | blacklistedAddresses => .replace
  | epIdToComponentId => .union
  | componentIdToEntrypointParams => .union
  | tracingRetryCounts => .replace

section
variable (i : SubCache) (c : DCICache) (v : VersionedCache i.Key i.Value)

lemma get_set : i.lens.get (i.lens.set v c) = v := by
  cases i <;> rfl

lemma get_set_of_ne {j : SubCache} (h : j ≠ i) : j.lens.get (i.lens.set v c) = j.lens.get c := by
  cases i <;> cases j <;> first | rfl | exact absurd rfl h

lemma set_get : i.lens.set (i.lens.get c) c = c := by
  cases i <;> rfl

end
end SubCache

namespace DCICache

def new : DCICache :=
  ⟨.new, .new, .new, .new, .new, .new, .new, .new, .new⟩

def onEach (order : List SubCache)
    (call : (i : SubCache) → Call (VersionedCache i.Key i.Value) DCICacheError Unit) :
    Call DCICache DCICacheError Unit :=
  all (order.map fun i => (call i).zoom i.lens)

def revertTo (hash : BlockHash) : Call DCICache DCICacheError Unit :=
  onEach [.epIdToEntrypoint, .entrypointResults, .retriggers, .trackedContracts, .erc20Addresses,
    .blacklistedAddresses, .epIdToComponentId, .componentIdToEntrypointParams,
    .tracingRetryCounts] fun _ => VersionedCache.revertTo hash

def handleFinality (finalizedBlockHeight : Nat) : Call DCICache DCICacheError Unit :=
  onEach [.epIdToEntrypoint, .entrypointResults, .retriggers, .trackedContracts, .erc20Addresses,
    .blacklistedAddresses, .epIdToComponentId, .componentIdToEntrypointParams,
    .tracingRetryCounts] fun i => VersionedCache.handleFinality finalizedBlockHeight i.strategy

def tryInsertBlockLayer (b : Block) : Call DCICache DCICacheError Unit :=
  onEach [.epIdToEntrypoint, .entrypointResults, .retriggers, .trackedContracts,
    .epIdToComponentId, .erc20Addresses, .blacklistedAddresses, .componentIdToEntrypointParams,
    .tracingRetryCounts] fun _ => validateAndEnsureBlockLayer b

def blocks (c : DCICache) (i : SubCache) : List Block := (i.lens.get c).pending.map block

end DCICache

/-- A call on a versioned cache whose outcome depends only on the blocks of the layers. -/
def VersionedCache.Moves {K V : Type} (next : List Block → Except DCICacheError (List Block))
    (call : Call (VersionedCache K V) DCICacheError Unit) : Prop :=
  ∃ f : VersionedCache K V → Except DCICacheError (Unit × VersionedCache K V),
    (∀ c, call.on c = deciding f c) ∧
      ∀ c, next (c.pending.map block) = (f c).map fun r => r.2.pending.map block

namespace VersionedCache
variable {K V : Type}

lemma block_block (layer : BlockScopedMap K V) : block (block layer) = block layer := rfl

lemma moves_revertTo (hash : BlockHash) :
    Moves (revertLayers hash) (revertTo hash : Call (VersionedCache K V) DCICacheError Unit) := by
  refine ⟨_, fun c => on_revertTo c hash, fun c => ?_⟩
  rw [revertLayers_map block_block]
  cases revertLayers hash c.pending <;> rfl

lemma moves_validateAndEnsureBlockLayer (b : Block) : Moves (openLayer b)
      (validateAndEnsureBlockLayer b : Call (VersionedCache K V) DCICacheError Unit) := by
  refine ⟨_, fun c => on_validateAndEnsureBlockLayer c b, fun c => ?_⟩
  have hopened := openLayer_map block_block ⟨b, ∅⟩ c.pending
  rw [show openLayer b (c.pending.map block) = _ from hopened]
  cases openLayer (⟨b, ∅⟩ : BlockScopedMap K V) c.pending <;> rfl

lemma moves_handleFinality [DecidableEq K] (height : Nat) (strategy : MergeStrategy V) :
    Moves (fun blocks => (finalizedIndex height blocks).map fun index => blocks.drop index)
      (handleFinality height strategy : Call (VersionedCache K V) DCICacheError Unit) := by
  refine ⟨_, fun c => on_handleFinality c height strategy, fun c => ?_⟩
  dsimp only
  rw [finalizedIndex_map block_block]
  cases finalizedIndex height c.pending with
  | error => rfl
  | ok => exact congrArg Except.ok (List.map_drop).symm

end VersionedCache

namespace DCICache
variable {c c' : DCICache} {next : List Block → Except DCICacheError (List Block)}

lemma onPart_zoom {i : SubCache} {call : Call (VersionedCache i.Key i.Value) DCICacheError Unit}
    (h : VersionedCache.Moves next call) : Call.OnPart blocks next i (call.zoom i.lens) := by
  obtain ⟨f, hon, hnext⟩ := h
  constructor
  · intro c x hx
    have hmap : (f (i.lens.get c)).map (fun r => r.2.pending.map block) = .ok x :=
      (hnext _).symm.trans hx
    obtain ⟨⟨_, v⟩, hf, rfl⟩ := ok_of_map_ok hmap
    have hcall : call.on (i.lens.get c) = (.ok (), v) := by
      rw [hon, deciding, hf]
    refine ⟨i.lens.set v c, ?_, ?_, ?_⟩
    · rw [on_zoom, hcall]
    · rw [blocks, i.get_set]
    · intro j hj
      rw [blocks, i.get_set_of_ne c v hj, blocks]
  · intro c e he
    have hmap : (f (i.lens.get c)).map (fun r => r.2.pending.map block) = .error e :=
      (hnext _).symm.trans he
    have hcall : call.on (i.lens.get c) = (.error e, i.lens.get c) := by
      rw [hon, deciding]
      cases hf : f (i.lens.get c) with
      | ok =>
        rw [hf] at hmap
        cases hmap
      | error =>
        rw [hf] at hmap
        cases hmap
        rfl
    rw [on_zoom, hcall, i.set_get]

def Lockstep (c : DCICache) : Prop := ∃ bs, ∀ i, c.blocks i = bs

/-- A call that keeps the parts together, and changes nothing if it fails. -/
def KeepsLockstep (call : Call DCICache DCICacheError Unit) : Prop :=
  ∀ c, Lockstep c → Lockstep (call.on c).2 ∧ ∀ e, (call.on c).1 = .error e → (call.on c).2 = c

/-- Parts in lockstep agree on whether a call fails, so it fails in the first of them. -/
lemma keepsLockstep_onEach {i : SubCache} {order : List SubCache}
    {call : (i : SubCache) → Call (VersionedCache i.Key i.Value) DCICacheError Unit}
    (hcall : ∀ i, VersionedCache.Moves next (call i)) (hnodup : (i :: order).Nodup)
    (hall : ∀ j, j ∈ i :: order) : KeepsLockstep (onEach (i :: order) call) := by
  rintro c ⟨bs, hbs⟩
  cases hnext : next bs with
  | error e =>
    have hon : (onEach (i :: order) call).on c = (.error e, c) :=
      all_error (onPart_zoom (hcall i)) (hbs i) hnext
    rw [hon]
    exact ⟨⟨bs, hbs⟩, fun _ _ => rfl⟩
  | ok bs' =>
    obtain ⟨c', hon, hview, -⟩ := all_ok (fun j _ => onPart_zoom (hcall j)) hnodup
      (fun j _ => hbs j) hnext
    rw [show (onEach (i :: order) call).on c = (.ok (), c') from hon]
    refine ⟨⟨bs', fun j => hview j (hall j)⟩, ?_⟩
    intro e he
    cases he

lemma keepsLockstep_revertTo (hash : BlockHash) : KeepsLockstep (revertTo hash) :=
  keepsLockstep_onEach (fun _ => moves_revertTo hash) (by decide) (by intro j; cases j <;> decide)

lemma keepsLockstep_handleFinality (height : Nat) : KeepsLockstep (handleFinality height) :=
  keepsLockstep_onEach (fun i => moves_handleFinality height i.strategy) (by decide)
    (by intro j; cases j <;> decide)

lemma keepsLockstep_tryInsertBlockLayer (b : Block) : KeepsLockstep (tryInsertBlockLayer b) :=
  keepsLockstep_onEach (fun _ => moves_validateAndEnsureBlockLayer b) (by decide)
    (by intro j; cases j <;> decide)

lemma keepsLockstep_updateLayer (i : SubCache) (b : Block)
    (f : HashMap i.Key i.Value → HashMap i.Key i.Value) :
    KeepsLockstep ((updateLayer b f).zoom i.lens) := by
  rintro c ⟨bs, hbs⟩
  rw [on_zoom, on_updateLayer, deciding]
  cases layerIndex b (i.lens.get c).pending with
  | error =>
    dsimp only [Except.map]
    rw [i.set_get]
    exact ⟨⟨bs, hbs⟩, fun _ _ => rfl⟩
  | ok =>
    dsimp only [Except.map]
    refine ⟨⟨bs, fun j => ?_⟩, ?_⟩
    · rw [← hbs j]
      by_cases hj : j = i
      · subst hj
        rw [blocks, j.get_set, blocks]
        refine List.ext_getElem? fun n => ?_
        simp only [List.getElem?_map, List.getElem?_modify]
        cases (j.lens.get c).pending[n]? with
        | none => rfl
        | some =>
          dsimp only [Option.map]
          split_ifs <;> rfl
      · rw [blocks, i.get_set_of_ne c _ hj, blocks]
    · intro e he
      cases he

lemma keepsLockstep_updatePermanent (i : SubCache)
    (f : HashMap i.Key i.Value → HashMap i.Key i.Value) :
    KeepsLockstep (zoom i.lens (modify fun c => { c with permanent := f c.permanent })) := by
  rintro c ⟨bs, hbs⟩
  rw [on_zoom, on_modify]
  refine ⟨⟨bs, fun j => ?_⟩, ?_⟩
  · rw [← hbs j]
    by_cases hj : j = i
    · subst hj
      rw [blocks, j.get_set, blocks]
    · rw [blocks, i.get_set_of_ne c _ hj, blocks]
  · intro e he
    cases he

end DCICache

/-- The calls on the cache, and writes to its parts between them. -/
inductive DciCacheCall where
  | tryInsertBlockLayer (b : Block)
  | revertTo (hash : BlockHash)
  | handleFinality (finalizedBlockHeight : Nat)
  | updateLayer (i : SubCache) (b : Block) (f : HashMap i.Key i.Value → HashMap i.Key i.Value)
  | updatePermanent (i : SubCache) (f : HashMap i.Key i.Value → HashMap i.Key i.Value)

namespace DciCacheCall

def call : DciCacheCall → Call DCICache DCICacheError Unit
  | .tryInsertBlockLayer b => DCICache.tryInsertBlockLayer b
  | .revertTo hash => DCICache.revertTo hash
  | .handleFinality height => DCICache.handleFinality height
  | .updateLayer i b f => (VersionedCache.updateLayer b f).zoom i.lens
  | .updatePermanent i f =>
    zoom i.lens (modify fun c => { c with permanent := f c.permanent })

/-- A call that fails ends nothing: the cache is used as it was left. -/
def step (c : DCICache) (e : DciCacheCall) : Option (Except DCICacheError Unit × DCICache) :=
  some (e.call.on c)

lemma keepsLockstep (e : DciCacheCall) : DCICache.KeepsLockstep e.call := by
  cases e with
  | tryInsertBlockLayer b => exact DCICache.keepsLockstep_tryInsertBlockLayer b
  | revertTo hash => exact DCICache.keepsLockstep_revertTo hash
  | handleFinality height => exact DCICache.keepsLockstep_handleFinality height
  | updateLayer i b f => exact DCICache.keepsLockstep_updateLayer i b f
  | updatePermanent i f => exact DCICache.keepsLockstep_updatePermanent i f

end DciCacheCall

namespace DCICache

/-- After any calls the parts have the same pending blocks, and a call that fails next leaves the
cache as it is. -/
theorem lockstep_of_run {trace : List (DciCacheCall × Except DCICacheError Unit)} {c : DCICache}
    (hrun : Run DciCacheCall.step (fun _ _ => True) new trace c) :
    (∃ bs, ∀ i, c.blocks i = bs) ∧
      ∀ (e : DciCacheCall) err c', e.call.on c = (.error err, c') → c' = c := by
  have hlockstep : Lockstep c := by
    refine Run.invariant (P := fun _ c => Lockstep c) ⟨[], ?_⟩ ?_ hrun
    · intro i
      cases i <;> rfl
    · intro _ c e o c' hc _ hstep
      have hon : e.call.on c = (o, c') := Option.some.inj hstep
      have hkept := (e.keepsLockstep c hc).1
      rwa [hon] at hkept
  refine ⟨hlockstep, ?_⟩
  intro e err c' hon
  have hkept := (e.keepsLockstep c hlockstep).2 err
  rw [hon] at hkept
  exact hkept rfl

def blockAt (n : UInt8) : Block := ⟨n.toNat, .ethereum, ⟨[n]⟩, ⟨[n - 1]⟩, n.toNat⟩

/-- Two blocks, a revert to an unknown one, finality of the second and a revert to the first. -/
def finalizedReorg : List DciCacheCall :=
  [.tryInsertBlockLayer (blockAt 2), .tryInsertBlockLayer (blockAt 3), .revertTo ⟨[9]⟩,
    .handleFinality 3, .revertTo ⟨[2]⟩]

theorem lockstep_of_run_finalizedReorg :
    ∃ (trace : List (DciCacheCall × Except DCICacheError Unit)) (c : DCICache),
      trace.map Prod.fst = finalizedReorg ∧
      trace.map (fun call => call.2.isOk) = [true, true, false, true, true] ∧
      (∃ bs, ∀ i, c.blocks i = bs) ∧
      ∀ (e : DciCacheCall) err c', e.call.on c = (.error err, c') → c' = c := by
  obtain ⟨trace, c, hrun, hcalls, hok⟩ : ∃ trace c,
      Run DciCacheCall.step (fun _ _ => True) new trace c ∧
      trace.map Prod.fst = finalizedReorg ∧
      trace.map (fun call => call.2.isOk) = [true, true, false, true, true] :=
    ⟨_, _, .next (.next (.next (.next (.next .start trivial rfl) trivial rfl) trivial rfl)
      trivial rfl) trivial rfl, rfl, rfl⟩
  exact ⟨trace, c, hcalls, hok, lockstep_of_run hrun⟩

end DCICache
end Tycho
