import Tycho.Dci.BlockWrites

/-! When a component that was paused by a failed trace is tried again. -/
namespace Tycho
open Collections Replay HashMap List Option Function VersionedCache BlockChanges
  DCICache EntryPointWithTracingParams DynamicContractIndexer SubCache
variable {m : Selection} {c : DCICache} {s s' : DynamicContractIndexer}

inductive Outcome where
  | traced (key : EntryPointId × TracingParams)
  | paused (id : ComponentId) (key : EntryPointId × TracingParams)
deriving DecidableEq

/-- A component was paused, and its entry point was not traced successfully since. -/
def Paused (log : List Outcome) (id : ComponentId) (key : EntryPointId × TracingParams) : Prop :=
  ∃ l₁ l₂, log = l₁ ++ .paused id key :: l₂ ∧ .traced key ∉ l₂

variable {id : ComponentId} {key : EntryPointId × TracingParams}

lemma paused_append {log log' : List Outcome} (h : Paused (log ++ log') id key) :
    .paused id key ∈ log' ∨ Paused log id key ∧ .traced key ∉ log' := by
  obtain ⟨l₁, l₂, heq, hnot⟩ := h
  rcases append_eq_append_iff.mp heq with ⟨l, rfl, hl⟩ | ⟨l, rfl, hl⟩
  · exact .inl (hl ▸ mem_append_right _ mem_cons_self)
  · cases l with
    | nil =>
      rw [nil_append] at hl
      exact .inl (hl ▸ mem_cons_self)
    | cons _ l =>
      rw [cons_append] at hl
      obtain ⟨rfl, hl₂⟩ := List.cons.inj hl
      rw [hl₂, mem_append, not_or] at hnot
      exact .inr ⟨⟨l₁, l, rfl, hnot.1⟩, hnot.2⟩

/-- The outcomes of a block. Results come before failures. -/
def DynamicContractIndexer.outcomes (s : DynamicContractIndexer) (src : DciSources)
    (bc : BlockChanges) : List Outcome :=
  match s.selectEntrypoints src.order bc with
  | .error _ => []
  | .ok (c, m) =>
    let t := m.trace src bc.block
    (t.traced.map fun e => .traced e.entryPointWithParams.key) ++ t.failed.flatMap fun f =>
      ((c.epIdToComponentId.getAll f.1.entryPoint.externalId).getD []).flatMap fun ids =>
        ids.keys.map fun id => .paused id f.1.key

/-- The indexer with what it did: outcomes that are final, and those of each pending block. -/
structure Watched where
  indexer : DynamicContractIndexer
  settled : List Outcome
  pending : List (List Outcome)

inductive DciEvent where
  | block (src : DciSources) (bc : BlockChanges)
  | revert (targetBlock : BlockHash)

namespace Watched

def start (s : DynamicContractIndexer) : Watched := ⟨s, [], []⟩

def log (w : Watched) : List Outcome := w.settled ++ w.pending.flatten

/-- The outcomes of pending blocks, with those of a block that has a layer or gets one. -/
def record (w : Watched) (b : Block) (outcomes : List Outcome) : List (List Outcome) :=
  if (w.indexer.cache.blocks .entrypointResults).getLast? = some b then
    w.pending.dropLast ++ [w.pending.getLast?.getD [] ++ outcomes]
  else w.pending ++ [outcomes]

/-- An error ends the run. Outcomes follow the layers of the cache. -/
def step (w : Watched) : DciEvent → Option (Option BlockChanges × Watched)
  | .block src bc =>
    match w.indexer.processBlockUpdate src bc with
    | .ok (indexer, bc') =>
      let pending := w.record bc.block (w.indexer.outcomes src bc)
      let final := pending.length - indexer.cache.entrypointResults.pending.length
      some (some bc', ⟨indexer, w.settled ++ (pending.take final).flatten, pending.drop final⟩)
    | .error _ => none
  | .revert targetBlock =>
    match w.indexer.processRevert targetBlock with
    | .ok indexer => some (none, ⟨indexer, w.settled,
      w.pending.take indexer.cache.entrypointResults.pending.length⟩)
    | .error _ => none

end Watched

def BlockChanges.Links (bc : BlockChanges) (id : ComponentId) (entrypoint : EntryPointId) : Prop :=
  ∃ ep, (id, ep) ∈ bc.links ∧ ep.externalId = entrypoint

def DCICache.Linked (c : DCICache) (id : ComponentId) (entrypoint : EntryPointId) : Prop :=
  c.epIdToComponentId.Holds entrypoint fun ids => id ∈ ids

def BlockChanges.Brings (bc : BlockChanges) (key : EntryPointId × TracingParams) : Prop :=
  ∃ tx, (key.1, tx, key.2) ∈ bc.entrypointParams

namespace DynamicContractIndexer

/-- A block asks for an entry point: with new params that have no result, because a component is
retried, or because of a storage change. -/
def Asks (s : DynamicContractIndexer) (bc : BlockChanges) (key : EntryPointId × TracingParams) :
    Prop :=
  bc.Brings key ∧ ¬ s.cache.Succeeded key ∨
  (∃ component ∈ bc.updatedComponents,
    (key.1, component.2, key.2) ∈ s.paramsToRetry component.1 component.2) ∨
  ∃ retriggered, s.detectRetriggers bc.blockContractChanges = .ok retriggered ∧
    ∃ e ∈ retriggered, e.key = key

/-- A block will record params for a component: they are new, and the component is linked by the
block, or by the newest layer if the block links none. -/
def WillRecord (s : DynamicContractIndexer) (bc : BlockChanges) (id : ComponentId)
    (key : EntryPointId × TracingParams) : Prop :=
  bc.Brings key ∧ ¬ s.cache.Succeeded key ∧ (bc.Links id key.1 ∨ (∀ id', ¬ bc.Links id' key.1) ∧
      ∃ ids, s.cache.epIdToComponentId.get key.1 = some ids ∧ id ∈ ids)

end DynamicContractIndexer

/-- The blocks for which retries are complete. A block that has a layer is the newest one, and all
components that are linked to an entry point the block asks for have its params, or get them. -/
def Watched.Covered (w : Watched) : DciEvent → Prop
  | .block _ bc =>
    (bc.block ∈ w.indexer.cache.blocks .entrypointResults →
      (w.indexer.cache.blocks .entrypointResults).getLast? = some bc.block) ∧
    ∀ id key, w.indexer.Asks bc key → w.indexer.cache.Linked id key.1 ∨ bc.Links id key.1 →
      w.indexer.cache.Recorded id key ∨ w.indexer.WillRecord bc id key
  | .revert _ => True

/-- Paused components have their params, and no result. -/
structure Retried (c : DCICache) (log : List Outcome) : Prop where
  keyed : c.Keyed
  paused : ∀ id key, Paused log id key →
    c.Recorded id key ∧ c.entrypointResults.get key = some none

namespace Retried
variable {log : List Outcome}

lemma finalize (h : Retried c log) (index : Nat) : Retried (c.finalize index) log := by
  have hunion : ∀ (e : EntryPointWithTracingParams) x y,
      e ∈ (strategy .componentIdToEntrypointParams).apply x y ↔ e ∈ x ∨ e ∈ y := by
    intro e x y
    exact HashMap.mem_extend_toList.trans or_comm
  constructor
  · intro id ep hget
    exact h.keyed id ep ((c.epIdToEntrypoint.get_finalize index id).symm.trans hget)
  · intro id key hpaused
    obtain ⟨⟨e, hkey, hparams⟩, hresult⟩ := h.paused id key hpaused
    refine ⟨⟨e, hkey, ?_⟩, (c.entrypointResults.get_finalize index key).trans hresult⟩
    exact (c.componentIdToEntrypointParams.holds_finalize (hunion e) index id).mpr hparams

end Retried

variable {entrypoint : EntryPointId} {b : Block} {bs : List Block} {out : Option BlockChanges}

namespace DynamicContractIndexer
variable {src : DciSources} {bc bc' : BlockChanges}

section
variable {c₁ c₀ : DCICache} {d : LayerData}
  {params : HashMap ComponentId (HashSet EntryPointWithTracingParams)}
variable (hsel : Selecting s bc c₁ m c₀ d params)
include hsel

lemma asks_of_selected (hkeyed : s.cache.Keyed) {e : EntryPointWithTracingParams} (he : e ∈ m) :
    s.Asks bc e.key := by
  rcases hsel.selected e he with ⟨id, hnew⟩ | ⟨component, hcomp, p, hp, hep, hparams⟩ |
    ⟨retriggered, hdetect, hmem⟩
  · have hentry := (entrypoint_congr (get_opened hsel.opened (i := .epIdToEntrypoint)
      (by decide) (by decide) id).1).symm.trans hnew.entrypoint
    have hid : e.entryPoint.externalId = id := entrypoint_keyed hkeyed hentry
    refine .inl ⟨?_, ?_⟩
    · rw [BlockChanges.Brings, key, hid]
      exact hnew.brought
    · rintro ⟨result, hresult⟩
      rw [key, hid] at hresult
      exact hnew.unsuccessful ⟨result, (get_opened hsel.opened (i := .entrypointResults)
        (by decide) (by decide) (id, e.params)).1.trans hresult⟩
  · have hid : e.entryPoint.externalId = p.1 := entrypoint_keyed hkeyed hep
    have htx := (mem_paramsToRetry.mp hp).1
    refine .inr (.inl ⟨component, hcomp, ?_⟩)
    rw [key, hid, hparams, show (_, component.2, _) = p from
      Prod.ext rfl (Prod.ext htx.symm rfl)]
    exact hp
  · exact .inr (.inr ⟨retriggered, hdetect, e, hmem, rfl⟩)

lemma linked_selecting (h : c₁.Linked id entrypoint) :
    s.cache.Linked id entrypoint ∨ bc.Links id entrypoint := by
  have hover : c₁.epIdToComponentId = c₀.epIdToComponentId.topped bc.block
      (addTo (d .epIdToComponentId) (bc.links.map fun link => (link.2.externalId, link.1))) := by
    rw [hsel.cache_eq]
    change c₀.epIdToComponentId.topped bc.block _ = _
    rw [withParams, update_of_ne (by decide), opened, update_self]
  have hold : (c₀.epIdToComponentId.topped bc.block (d .epIdToComponentId)).Holds entrypoint
      (fun ids => id ∈ ids) → s.cache.Linked id entrypoint := by
    rintro ⟨values, hvalues, hmem⟩
    exact ⟨values, (hsel.opened.getAll .epIdToComponentId entrypoint).symm.trans hvalues, hmem⟩
  unfold DCICache.Linked at h
  rw [hover, holds_topped] at h
  rcases h with hnew | hbelow
  · rcases mem_addTo.mp hnew with hset | hlink
    · exact .inl (hold ((holds_topped _).mpr (.inl hset)))
    · obtain ⟨link, hmem, heq⟩ := mem_map.mp hlink
      cases heq
      exact .inr ⟨link.2, hmem, rfl⟩
  · exact .inl (hold ((holds_topped _).mpr (.inr hbelow)))

lemma get_links_selecting (h : bc.Links id entrypoint ∨ (∀ id', ¬ bc.Links id' entrypoint) ∧
      ∃ ids, s.cache.epIdToComponentId.get entrypoint = some ids ∧ id ∈ ids) :
    ∃ ids, (c₀.topped bc.block (bc.opened d)).epIdToComponentId.get entrypoint = some ids ∧
      id ∈ ids := by
  have hover : (c₀.topped bc.block (bc.opened d)).epIdToComponentId =
      c₀.epIdToComponentId.topped bc.block
        (addTo (d .epIdToComponentId) (bc.links.map fun link => (link.2.externalId, link.1))) := by
    change c₀.epIdToComponentId.topped bc.block _ = _
    rw [opened, update_self]
  rw [hover, get_topped]
  rcases h with ⟨ep, hlink, rfl⟩ | ⟨hnone, ids, hids, hid⟩
  · have hmem : (ep.externalId, id) ∈ bc.links.map fun link => (link.2.externalId, link.1) :=
      mem_map.mpr ⟨(id, ep), hlink, rfl⟩
    obtain ⟨ids, hids, hid⟩ := (mem_addTo (m := d .epIdToComponentId)).mpr (.inr hmem)
    exact ⟨ids, by rw [hids, some_or], hid⟩
  · refine ⟨ids, ?_, hid⟩
    have hvalues : valuesAt (bc.links.map fun link => (link.2.externalId, link.1)) entrypoint =
        [] := by
      rw [valuesAt_eq_nil_iff]
      intro id' hmem
      obtain ⟨link, hlink, heq⟩ := mem_map.mp hmem
      cases heq
      exact hnone _ ⟨link.2, hlink, rfl⟩
    rw [lookup_addTo, if_pos hvalues, ← get_topped _ bc.block]
    exact (hsel.opened.get .epIdToComponentId entrypoint).trans hids

/-- Covered components have their params after the selection. -/
lemma recorded_selecting (hkeyed : s.cache.Keyed)
    (h : s.cache.Recorded id key ∨ s.WillRecord bc id key) :
    c₁.Recorded id key := by
  rcases h with ⟨e, hkey, he⟩ | ⟨⟨tx, hbrings⟩, hnot, hlinks⟩
  · exact ⟨e, hkey, hsel.grow id e he⟩
  · obtain ⟨ids, hids, hid⟩ := get_links_selecting hsel hlinks
    have hresults :=
      (get_opened hsel.opened (i := .entrypointResults) (by decide) (by decide) key).1
    obtain ⟨ep, hep, hrecords⟩ := hsel.recorded _ hbrings fun ⟨result, hresult⟩ =>
      hnot ⟨result, hresults.symm.trans hresult⟩
    have hentry := (entrypoint_congr (get_opened hsel.opened (i := .epIdToEntrypoint)
      (by decide) (by decide) key.1).1).symm.trans hep
    have hep' : ep.externalId = key.1 := entrypoint_keyed hkeyed hentry
    refine ⟨⟨ep, key.2⟩, ?_, hrecords ids hids id hid⟩
    rw [EntryPointWithTracingParams.key, hep']

end

lemma mem_of_mem_failed {f : EntryPointWithTracingParams × Transaction}
    (h : f ∈ (m.trace src b).failed) : f.1 ∈ m := by
  obtain ⟨⟨entry, result⟩, hzip, hf⟩ := mem_filterMap.mp h
  have hentry : entry = f := by
    cases result with
    | ok => cases hf
    | error => exact Option.some.inj hf
  have hmem := (of_mem_zip hzip).1
  rw [hentry, VisitOrder.mem_visit] at hmem
  rw [mem_iff_lookup]
  exact ⟨f.2, HashMap.mem_toList.mp hmem⟩

section
variable (hselect : s.selectEntrypoints src.order bc = .ok (c, m))
include hselect

lemma paused_mem_outcomes (h : .paused id key ∈ s.outcomes src bc) :
    ∃ f ∈ (m.trace src bc.block).failed, f.1.key = key ∧ c.Linked id key.1 := by
  unfold outcomes at h
  rw [hselect] at h
  rcases mem_append.mp h with htraced | hpaused
  · obtain ⟨_, _, heq⟩ := mem_map.mp htraced
    cases heq
  · obtain ⟨f, hf, hids⟩ := mem_flatMap.mp hpaused
    obtain ⟨ids, hmem, hpaused⟩ := mem_flatMap.mp hids
    obtain ⟨id', hid, heq⟩ := mem_map.mp hpaused
    cases heq
    refine ⟨f, hf, rfl, ?_⟩
    obtain ⟨sets, hall, hmem⟩ := exists_of_mem_getD hmem
    exact ⟨sets, hall, ids, hmem, hid⟩

lemma traced_mem_outcomes {t : TracedEntryPoint} (h : t ∈ (m.trace src bc.block).traced) :
    .traced t.entryPointWithParams.key ∈ s.outcomes src bc := by
  unfold outcomes
  rw [hselect]
  exact mem_append_left _ (mem_map.mpr ⟨t, h, rfl⟩)

/-- The components that the block marks as paused are those of its outcomes. -/
lemma mem_componentIdsToPause :
    id ∈ (c.componentIdsToPause (m.trace src bc.block).failed).map Prod.fst ↔
      ∃ key, .paused id key ∈ s.outcomes src bc := by
  unfold outcomes DCICache.componentIdsToPause
  rw [hselect]
  constructor
  · intro h
    obtain ⟨e, he, rfl⟩ := mem_map.mp h
    obtain ⟨f, hf, he⟩ := mem_flatMap.mp he
    obtain ⟨ids, hids, he⟩ := mem_flatMap.mp he
    obtain ⟨id, hid, rfl⟩ := mem_map.mp he
    have hpaused : Outcome.paused id f.1.key ∈ ids.keys.map fun id => Outcome.paused id f.1.key :=
      mem_map.mpr ⟨id, hid, rfl⟩
    exact ⟨f.1.key, mem_append_right _
      (mem_flatMap.mpr ⟨f, hf, mem_flatMap.mpr ⟨ids, hids, hpaused⟩⟩)⟩
  · rintro ⟨key, h⟩
    rcases mem_append.mp h with htraced | hpaused
    · obtain ⟨_, _, heq⟩ := mem_map.mp htraced
      cases heq
    · obtain ⟨f, hf, hpaused⟩ := mem_flatMap.mp hpaused
      obtain ⟨ids, hids, hpaused⟩ := mem_flatMap.mp hpaused
      obtain ⟨id, hid, heq⟩ := mem_map.mp hpaused
      cases heq
      have hpairwise : (id, f.2) ∈ ids.keys.map fun id => (id, f.2) := mem_map.mpr ⟨id, hid, rfl⟩
      exact mem_map.mpr ⟨_, mem_flatMap.mpr ⟨f, hf, mem_flatMap.mpr ⟨ids, hids, hpairwise⟩⟩, rfl⟩

end

/-- A covered block keeps paused components retried, under the layer that it leaves. -/
lemma processBlockUpdate_retried (hbs : ∀ i, s.cache.blocks i = bs) (hnodup : bs.Nodup)
    (hcovered : Watched.Covered ⟨s, [], []⟩ (.block src bc))
    (h : s.processBlockUpdate src bc = .ok (s', bc')) :
    ∃ c₀ d d' index, DCICache.Opened s.cache bc.block c₀ d ∧
      s'.cache = (c₀.topped bc.block d').finalize index ∧
      ∀ log, Retried s.cache log → Retried (c₀.topped bc.block d') (log ++ s.outcomes src bc) := by
  obtain ⟨hnewest, hcovered⟩ := hcovered
  rw [hbs] at hnewest
  obtain ⟨c₁, m, c₂, c₃, hselect, hupdate, hextend, hfinality, -⟩ := processBlockUpdate_cache h
  obtain ⟨c₀, d, params, hsel⟩ := selectEntrypoints_ok hbs hnodup hnewest hselect
  have hc₁ := hsel.cache_eq
  subst hc₁
  obtain ⟨d₂, hd₂, hframe, hfailed, hkept⟩ := updateCache_topped hsel.opened.fresh
    (withParams (bc.opened d) params) (m.trace src bc.block)
  cases hupdate.symm.trans hd₂
  have hc₃ := run_topped hsel.opened.fresh d₂ .epIdToEntrypoint fun data =>
    data.extend (bc.newEntrypoints.values.map fun ep => (ep.externalId, ep))
  cases hextend.symm.trans hc₃
  generalize hd₃ : update d₂ epIdToEntrypoint _ = d₃ at hfinality hextend hc₃
  obtain ⟨index, -, hfinal⟩ := handleFinality_ok (fun i => by
    rw [blocks_topped, hsel.opened.blocks hbs]) hfinality
  have hother : ∀ i, i ≠ .epIdToEntrypoint → d₃ i = d₂ i := by
    intro i hi
    rw [← hd₃, update_of_ne hi]
  refine ⟨c₀, d, d₃, index, hsel.opened, hfinal, fun log hlog => ⟨?_, ?_⟩⟩
  · intro id ep hget
    have hdata : d₃ .epIdToEntrypoint = (d .epIdToEntrypoint).extend
        (bc.newEntrypoints.values.map fun ep => (ep.externalId, ep)) := by
      rw [← hd₃, update_self, hframe _ (by decide) (by decide) (by decide) (by decide),
        withParams, update_of_ne (by decide),
        opened_of_ne (by decide) (by decide)]
    change (c₀.epIdToEntrypoint.topped bc.block _).get id = some ep at hget
    rw [get_topped, hdata, lookup_extend, Option.or_assoc, ← get_topped _ bc.block] at hget
    rcases Option.or_eq_some_iff.mp hget with hnew | ⟨-, hold⟩
    · obtain ⟨_, _, heq⟩ := mem_map.mp (mem_of_lastOf hnew)
      cases heq
      rfl
    · exact hlog.keyed id ep ((hsel.opened.get .epIdToEntrypoint id).symm.trans hold)
  · intro id key hpaused
    have hparams : (c₀.topped bc.block d₃).componentIdToEntrypointParams =
        (c₀.topped bc.block (withParams (bc.opened d) params)).componentIdToEntrypointParams :=
      get_topped_congr (i := .componentIdToEntrypointParams) (by
        rw [hother _ (by decide), hframe _ (by decide) (by decide) (by decide) (by decide)])
    have hrecorded : (c₀.topped bc.block (withParams (bc.opened d) params)).Recorded id key →
        (c₀.topped bc.block d₃).Recorded id key := by
      rintro ⟨e, hkey, he⟩
      refine ⟨e, hkey, ?_⟩
      unfold DCICache.HasParams at he ⊢
      rwa [hparams]
    have hresult : (c₀.topped bc.block d₃).entrypointResults.get key =
        ((d₂ .entrypointResults).lookup key).or (c₀.entrypointResults.get key) := by
      change (c₀.entrypointResults.topped bc.block _).get key = _
      rw [get_topped, hother _ (by decide)]
    rw [hresult]
    rcases paused_append hpaused with hnew | ⟨hold, hnotTraced⟩
    · obtain ⟨f, hf, rfl, hlinked⟩ := paused_mem_outcomes hselect hnew
      have hasks := asks_of_selected hsel hlog.keyed (mem_of_mem_failed hf)
      have hcover := hcovered id f.1.key hasks (linked_selecting hsel hlinked)
      refine ⟨hrecorded (recorded_selecting hsel hlog.keyed hcover), ?_⟩
      rw [hfailed f hf]
      rfl
    · obtain ⟨⟨e, hkey, he⟩, hnone⟩ := hlog.paused id key hold
      refine ⟨hrecorded ⟨e, hkey, hsel.grow id e he⟩, ?_⟩
      by_cases hfail : ∃ f ∈ (m.trace src bc.block).failed, f.1.key = key
      · obtain ⟨f, hf, rfl⟩ := hfail
        rw [hfailed f hf]
        rfl
      · rw [hkept key (fun f hf hkey => hfail ⟨f, hf, hkey⟩) fun t ht hkey =>
          hnotTraced (hkey ▸ traced_mem_outcomes hselect ht), withParams,
          update_of_ne (by decide), opened_of_ne (by decide) (by decide),
          ← get_topped _ bc.block]
        exact (hsel.opened.get .entrypointResults key).trans hnone

end DynamicContractIndexer

namespace Watched
variable {w w' : Watched}

/-- The outcomes follow the layers, and at every layer paused components are retried. -/
structure Kept (w : Watched) : Prop where
  lockstep : ∃ bs, (∀ i, w.indexer.cache.blocks i = bs) ∧ bs.Nodup ∧
    w.pending.length = bs.length
  retried : ∀ n, Retried (w.indexer.cache.upTo n) (w.settled ++ (w.pending.take n).flatten)

lemma Kept.full (h : w.Kept) : Retried w.indexer.cache w.log := by
  obtain ⟨bs, hbs, -, hlength⟩ := h.lockstep
  have hn := h.retried bs.length
  rwa [upTo_of_le hbs le_rfl, take_of_length_le hlength.le] at hn

lemma Kept.revert (h : w.Kept) {targetBlock : BlockHash}
    (hstep : w.step (.revert targetBlock) = some (out, w')) : w'.Kept := by
  obtain ⟨bs, hbs, hnodup, hlength⟩ := h.lockstep
  unfold step at hstep
  dsimp only at hstep
  split at hstep
  · rename_i indexer hrev
    cases hstep
    obtain ⟨c, hc, hindexer⟩ := ok_of_map_ok hrev
    obtain ⟨n, rfl⟩ := revertTo_ok hbs (ok_of_mapError_ok hc)
    subst hindexer
    have hlayers : (w.indexer.cache.upTo n).entrypointResults.pending.length =
        min n w.pending.length := by
      have hlen := length_pending (c := w.indexer.cache.upTo n)
        (fun i => (blocks_upTo n i).trans (by rw [hbs])) .entrypointResults
      rw [length_take] at hlen
      rw [hlength]
      exact hlen
    constructor
    · refine ⟨bs.take n, fun i => by rw [blocks_upTo, hbs], hnodup.take, ?_⟩
      rw [hlayers, length_take, length_take]
      omega
    · intro k
      have hk := h.retried (min k n)
      rw [hlayers, DCICache.upTo_upTo, take_take]
      have htaken : w.pending.take (min k (min n w.pending.length)) = w.pending.take (min k n) := by
        rw [← Nat.min_assoc, ← take_take, take_length]
      rwa [htaken]
  · cases hstep

/-- The outcomes of a block are added to those of its layer. -/
lemma record_spec {c₀ : DCICache} {d : LayerData} {bs₀ : List Block}
    (hbs : ∀ i, w.indexer.cache.blocks i = bs) (hlength : w.pending.length = bs.length)
    (hopened : DCICache.Opened w.indexer.cache b c₀ d) (hbs₀ : ∀ i, c₀.blocks i = bs₀)
    (outcomes : List Outcome) :
    (w.record b outcomes).length = bs₀.length + 1 ∧
      (w.record b outcomes).flatten = w.pending.flatten ++ outcomes ∧
      ∀ n ≤ bs₀.length, (w.record b outcomes).take n = w.pending.take n ∧
        w.indexer.cache.upTo n = c₀.upTo n := by
  unfold record
  rw [hbs]
  rcases hopened.cases with hc | ⟨hc, -⟩
  · have hbs' : bs = bs₀ ++ [b] := by rw [← hbs .entrypointResults, hc, blocks_topped, hbs₀]
    rw [if_pos (by rw [hbs', List.getLast?_concat])]
    have hne : w.pending ≠ [] := by
      intro hnil
      rw [hnil, hbs'] at hlength
      simp at hlength
    have hpending := dropLast_append_getLast hne
    have hlen : w.pending.dropLast.length = bs₀.length := by
      rw [length_dropLast, hlength, hbs', length_append, length_singleton]
      omega
    refine ⟨by rw [length_append, hlen, length_singleton], ?_, ?_⟩
    · rw [List.getLast?_eq_some_getLast hne, getD_some, flatten_append,
        flatten_singleton, ← append_assoc]
      conv_rhs => rw [← hpending, flatten_append, flatten_singleton]
    · intro n hn
      rw [hc, upTo_topped_of_le hbs₀ hn]
      refine ⟨?_, rfl⟩
      rw [take_append_of_le_length (by omega)]
      conv_rhs => rw [← hpending, take_append_of_le_length (by omega)]
  · have hbs' : bs = bs₀ := by rw [← hbs .entrypointResults, hc, hbs₀]
    subst hbs'
    have hnot : ¬ bs.getLast? = some b := by
      intro heq
      have hfresh := hopened.fresh .entrypointResults
      rw [hbs₀] at hfresh
      exact hfresh (mem_of_getLast? heq)
    rw [if_neg hnot]
    refine ⟨by rw [length_append, hlength, length_singleton], by simp, ?_⟩
    intro n hn
    rw [take_append_of_le_length (by omega), hc]
    exact ⟨rfl, rfl⟩

/-- The first layers, counted from those that are left. -/
lemma take_drop_length_sub (l : List (List Outcome)) (index : Nat) :
    l.take (l.length - (l.length - index)) = l.take index ∧
      l.drop (l.length - (l.length - index)) = l.drop index := by
  have htaken : l.take (l.length - (l.length - index)) = l.take index := by
    rw [Nat.sub_sub_eq_min, Nat.min_comm, ← take_take, take_length]
  refine ⟨htaken, (append_right_inj (l.take index)).mp ?_⟩
  rw [take_append_drop, ← htaken, take_append_drop]

lemma Kept.block (h : w.Kept) {src : DciSources} {bc : BlockChanges}
    (hcovered : w.Covered (.block src bc)) (hstep : w.step (.block src bc) = some (out, w')) :
    w'.Kept := by
  obtain ⟨bs, hbs, hnodup, hlength⟩ := h.lockstep
  unfold step at hstep
  dsimp only at hstep
  split at hstep
  · rename_i indexer bc' hprocess
    cases hstep
    obtain ⟨c₀, d, d', index, hopened, hcache, hret⟩ :=
      processBlockUpdate_retried hbs hnodup hcovered hprocess
    have hbs₀ := hopened.blocks hbs
    have hnodup₀ : (if bs.getLast? = some bc.block then bs.dropLast else bs).Nodup := by
      split_ifs
      · exact hnodup.sublist (dropLast_sublist bs)
      · exact hnodup
    generalize (if bs.getLast? = some bc.block then bs.dropLast else bs) = bs₀ at hbs₀ hnodup₀
    obtain ⟨hlen, hflat, hbelow⟩ := record_spec hbs hlength hopened hbs₀ (w.indexer.outcomes src bc)
    have hover : ∀ i, (c₀.topped bc.block d').blocks i = bs₀ ++ [bc.block] := fun i => by
      rw [blocks_topped, hbs₀]
    generalize w.record bc.block (w.indexer.outcomes src bc) = pending at hlen hflat hbelow ⊢
    -- below the layer of the block nothing changes, and on it the block was covered
    have hversions : ∀ n, Retried ((c₀.topped bc.block d').upTo n)
        (w.settled ++ (pending.take n).flatten) := by
      intro n
      by_cases hn : n ≤ bs₀.length
      · obtain ⟨htaken, hupTo⟩ := hbelow n hn
        rw [upTo_topped_of_le hbs₀ hn, htaken, ← hupTo]
        exact h.retried n
      · rw [upTo_of_le hover (by rw [length_append, length_singleton]; omega),
          take_of_length_le (by omega), hflat, ← append_assoc]
        exact hret _ h.full
    have hlayers : indexer.cache.entrypointResults.pending.length = pending.length - index := by
      have hlen' := length_pending (c := indexer.cache) (fun i => by
        rw [hcache, blocks_finalize, hover]) .entrypointResults
      rw [length_drop, length_append, length_singleton, ← hlen] at hlen'
      exact hlen'
    obtain ⟨htaken, hdrop⟩ := take_drop_length_sub pending index
    rw [hlayers, htaken, hdrop]
    constructor
    · refine ⟨(bs₀ ++ [bc.block]).drop index, fun i => ?_, ?_, ?_⟩
      · rw [hcache, blocks_finalize, hover]
      · refine List.Nodup.sublist (drop_sublist _ _) ?_
        refine nodup_append.mpr ⟨hnodup₀, nodup_singleton _, ?_⟩
        rintro b' hb' _ hmem rfl
        cases mem_singleton.mp hmem
        exact hopened.fresh .entrypointResults (hbs₀ .entrypointResults ▸ hb')
      · rw [length_drop, length_drop, hlen, length_append, length_singleton]
    · intro n
      have hn := (hversions (index + n)).finalize index
      rw [hcache, upTo_finalize, append_assoc, ← flatten_append]
      have hjoin : pending.take index ++ (pending.drop index).take n = pending.take (index + n) :=
        by
        rw [take_add]
      rwa [hjoin]
  · cases hstep

end Watched

namespace DCICache
variable {c c' : DCICache}

/-- A cache without layers, as it is loaded. -/
structure Loaded (c : DCICache) : Prop where
  blocks : ∀ i, c.blocks i = []
  keyed : c.Keyed

lemma Loaded.writePermanent (h : c.Loaded) {i : SubCache} (hi : i ≠ .epIdToEntrypoint)
    (f : HashMap i.Key i.Value → HashMap i.Key i.Value) : (c.writePermanent i f).Loaded := by
  constructor
  · intro j
    by_cases hj : j = i
    · subst hj
      rw [DCICache.blocks, DCICache.writePermanent, j.get_set]
      exact h.blocks j
    · rw [DCICache.blocks, DCICache.writePermanent, i.get_set_of_ne c _ hj]
      exact h.blocks j
  · have hsame : (c.writePermanent i f).epIdToEntrypoint = c.epIdToEntrypoint :=
      i.get_set_of_ne c _ hi.symm
    intro id ep hget
    rw [hsame] at hget
    exact h.keyed id ep hget

lemma Loaded.loadEntrypoints (h : c.Loaded) (stored : StoredEntryPoints) :
    (c.loadEntrypoints stored).Loaded := by
  unfold DCICache.loadEntrypoints
  refine Loaded.writePermanent ?_ (by decide) _
  generalize hc₁ : c.writePermanent .epIdToComponentId _ = c₁
  have h₁ : c₁.Loaded := hc₁ ▸ h.writePermanent (by decide) _
  constructor
  · intro j
    by_cases hj : j = .epIdToEntrypoint
    · subst hj
      exact h₁.blocks .epIdToEntrypoint
    · rw [DCICache.blocks, DCICache.writePermanent, get_set_of_ne _ c₁ _ hj]
      exact h₁.blocks j
  · intro id ep hget
    have hpending : c₁.epIdToEntrypoint.pending = [] :=
      map_eq_nil_iff.mp (h₁.blocks .epIdToEntrypoint)
    change get ⟨HashMap.extend c₁.epIdToEntrypoint.permanent _,
      c₁.epIdToEntrypoint.pending⟩ id = some ep at hget
    unfold VersionedCache.get at hget
    dsimp only at hget
    rw [hpending, reverse_nil, List.findSome?_nil, none_or, lookup_extend] at hget
    rcases or_eq_some_iff.mp hget with hnew | ⟨-, hold⟩
    · obtain ⟨_, _, heq⟩ := mem_map.mp (mem_of_lastOf hnew)
      cases heq
      rfl
    · refine h₁.keyed id ep ?_
      unfold VersionedCache.get
      rw [hpending]
      exact hold

lemma Loaded.loadResult (h : c.Loaded) {r : EntryPointId × TracingParams × TracingResult}
    (hload : c.loadResult r = .ok c') : c'.Loaded := by
  unfold DCICache.loadResult at hload
  obtain ⟨c₁, hretriggers, hload⟩ := ok_of_bind_ok hload
  cases hload
  have h₁ : c₁.Loaded := by
    refine foldlM_ok_invariant (P := Loaded) ?_ h hretriggers
    intro c location c' _ hc hstep
    split at hstep
    · cases hstep
      exact hc.writePermanent (by decide) _
    · cases hstep
  have htracked : SubCache.trackedContracts ≠ .epIdToEntrypoint := by decide
  refine Loaded.writePermanent ?_ (by decide) _
  exact List.foldlRecOn _ _ h₁ fun c hc access _ => hc.writePermanent htracked _

lemma Loaded.initialize {s s' : DynamicContractIndexer} {stored : StoredEntryPoints}
    (hnew : s.cache = .new) (h : s.initialize stored = .ok s') : s'.cache.Loaded := by
  have hstart : (new).Loaded := by
    refine ⟨fun i => ?_, fun id ep hget => ?_⟩
    · cases i <;> rfl
    · cases hget
  unfold DynamicContractIndexer.initialize at h
  rw [hnew] at h
  obtain ⟨c, hresults, h⟩ := ok_of_bind_ok h
  cases h
  have hc : c.Loaded := foldlM_ok_invariant (P := Loaded)
    (fun c r c' _ hc hstep => hc.loadResult hstep) (hstart.loadEntrypoints stored) hresults
  have hblacklist : SubCache.blacklistedAddresses ≠ .epIdToEntrypoint := by decide
  have hparams : SubCache.componentIdToEntrypointParams ≠ .epIdToEntrypoint := by decide
  have herc20 : SubCache.erc20Addresses ≠ .epIdToEntrypoint := by decide
  dsimp only
  exact ((hc.writePermanent hblacklist _).writePermanent hparams _).writePermanent herc20 _

end DCICache

namespace Watched
variable {w : Watched} {trace : List (DciEvent × Option BlockChanges)} {stored : StoredEntryPoints}

lemma kept_of_run (hnew : s.cache = .new) (hinit : s.initialize stored = .ok s')
    (hrun : Run step Covered (start s') trace w) : w.Kept := by
  have hloaded := DCICache.Loaded.initialize hnew hinit
  refine Run.invariant (P := fun _ w => w.Kept) ?_ ?_ hrun
  · refine ⟨⟨[], hloaded.blocks, nodup_nil, rfl⟩, fun n => ?_⟩
    rw [start, upTo_of_le hloaded.blocks (Nat.zero_le n)]
    refine ⟨hloaded.keyed, ?_⟩
    rintro id key ⟨l₁, l₂, heq, -⟩
    simp at heq
  · intro _ w e out w' hw hguard hstep
    cases e with
    | block => exact hw.block hguard hstep
    | revert => exact hw.revert hstep

/-- In a run of covered blocks, a paused component that changes is traced again with the params
that failed, as long as they have no result and retries are left. -/
theorem retried_of_run (hnew : s.cache = .new) (hinit : s.initialize stored = .ok s')
    (hrun : Run step Covered (start s') trace w) {id : ComponentId}
    {key : EntryPointId × TracingParams} (hpaused : Paused w.log id key)
    (hcount : (w.indexer.cache.tracingRetryCounts.get key).getD 0 < w.indexer.maxRetryCount)
    {order : VisitOrder} {bc : BlockChanges} {c : DCICache} {m : Selection}
    (hnewest : bc.block ∈ w.indexer.cache.blocks .entrypointResults →
      (w.indexer.cache.blocks .entrypointResults).getLast? = some bc.block)
    (hupdated : id ∈ bc.updatedComponents.map Prod.fst)
    (hselect : w.indexer.selectEntrypoints order bc = .ok (c, m)) : ∃ e ∈ m, e.key = key := by
  have hkept := kept_of_run hnew hinit hrun
  obtain ⟨bs, hbs, hnodup, -⟩ := hkept.lockstep
  obtain ⟨hrecorded, hresult⟩ := hkept.full.paused id key hpaused
  rw [hbs] at hnewest
  obtain ⟨_, _, _, hsel⟩ := selectEntrypoints_ok hbs hnodup hnewest hselect
  obtain ⟨component, hcomp, rfl⟩ := mem_map.mp hupdated
  obtain ⟨tx, hret⟩ := hsel.retried component hcomp
  obtain ⟨e, he, hep, hparams⟩ := hret (key.1, tx, key.2)
    (mem_paramsToRetry.mpr ⟨rfl, hrecorded, hresult, hcount⟩)
  refine ⟨e, he, ?_⟩
  have hid := entrypoint_keyed hkept.full.keyed hep
  rw [EntryPointWithTracingParams.key, hid, hparams]

def quote : EntryPoint := ⟨"hook:quote", ⟨[7]⟩, "quote()"⟩

def quoteParams : TracingParams := .rpcTracer ⟨none, ⟨[]⟩, none, none⟩

def quoteKey : EntryPointId × TracingParams := (quote.externalId, quoteParams)

def blockWith (n : UInt8) (change : TxWithChanges → TxWithChanges) : BlockChanges :=
  ⟨"dci", .ethereum, blockAt n, 1, false, ∅,
    [change (.empty ⟨⟨[n]⟩, ⟨[n]⟩, .new, none, 0⟩)], [], [], none⟩

def linking (n : UInt8) (id : ComponentId) (params : List TracingParams) : BlockChanges :=
  blockWith n fun t => { t with
    entrypoints := HashMap.ofList [(id, HashSet.ofList [quote])]
    entrypointParams := HashMap.ofList [(quote.externalId,
      HashSet.ofList (params.map fun p => (p, id)))] }

def updating (n : UInt8) (id : ComponentId) : BlockChanges :=
  blockWith n fun t => { t with stateUpdates := HashMap.ofList [(id, .new id ∅ ∅)] }

def noTrace : DciSources where
  order := .asListed
  trace _ entries := entries.map fun _ => .error "tracing failed"
  accountsAtBlock _ _ _ := .ok ∅
  debugTraced _ := ""

lemma covered_linking : (start (.new .ethereum)).Covered
    (.block noTrace (linking 1 "pool" [quoteParams])) := by
  refine ⟨fun hmem => absurd hmem (not_mem_nil), ?_⟩
  intro id key hasks hlinked
  have hempty : ¬ (start (.new .ethereum)).indexer.cache.Linked id key.1 := by
    rintro ⟨_, heq, -⟩
    cases heq
  rcases hasks with ⟨hbrings, hnot⟩ | ⟨component, hcomp, -⟩ | ⟨_, hdetect, e, he, -⟩
  · exact .inr ⟨hbrings, hnot, .inl (hlinked.resolve_left hempty)⟩
  · exact absurd hcomp (not_mem_nil)
  · cases hdetect
    exact absurd he (AList.notMem_empty e)

theorem retried_of_run_pool : ∃ (trace : List (DciEvent × Option BlockChanges)) (w : Watched)
    (c : DCICache) (m : Selection), Run step Covered (start (.new .ethereum)) trace w ∧
      w.log = [.paused "pool" quoteKey] ∧
      w.indexer.selectEntrypoints .asListed (updating 2 "pool") = .ok (c, m) ∧
      ∃ e ∈ m, e.key = quoteKey := by
  have hcheck : ((start (.new .ethereum)).step
      (.block noTrace (linking 1 "pool" [quoteParams]))).any (fun r =>
        r.2.log = [.paused "pool" quoteKey] ∧
        (r.2.indexer.cache.tracingRetryCounts.get quoteKey).getD 0 < r.2.indexer.maxRetryCount ∧
        blockAt 2 ∉ r.2.indexer.cache.blocks .entrypointResults ∧
        (r.2.indexer.selectEntrypoints .asListed (updating 2 "pool")).isOk) := by decide +kernel
  obtain ⟨⟨out, w⟩, hstep, hcheck⟩ := (any_eq_true _ _).mp hcheck
  obtain ⟨hlog, hcount, hblock, hselect⟩ := of_decide_eq_true hcheck
  have hrun := Run.next .start covered_linking hstep
  cases hok : w.indexer.selectEntrypoints .asListed (updating 2 "pool") with
  | error =>
    rw [hok] at hselect
    cases hselect
  | ok r =>
    refine ⟨_, w, r.1, r.2, hrun, hlog, hok, ?_⟩
    have hinit : DynamicContractIndexer.initialize (.new .ethereum) ⟨∅, ∅, ∅, [], []⟩ =
        .ok (.new .ethereum) := rfl
    exact retried_of_run rfl hinit hrun ⟨[], [], hlog, not_mem_nil⟩ hcount
      (fun hmem => absurd hmem hblock) (by decide) hok

/-- A component that was linked before the params came is paused with them, but not retried. -/
theorem not_retried_olderLink : ∃ (trace : List (DciEvent × Option BlockChanges)) (w : Watched)
    (c : DCICache) (m : Selection), Run step (fun _ _ => True) (start (.new .ethereum)) trace w ∧
      w.log = [.paused "newer" quoteKey, .paused "older" quoteKey] ∧
      (w.indexer.cache.tracingRetryCounts.get quoteKey).getD 0 < w.indexer.maxRetryCount ∧
      "older" ∈ (updating 3 "older").updatedComponents.map Prod.fst ∧
      w.indexer.selectEntrypoints .asListed (updating 3 "older") = .ok (c, m) ∧
      m.keys = [] := by
  have hcheck : (play step (fun _ _ => True) (start (.new .ethereum))
      [.block noTrace (linking 1 "older" []),
        .block noTrace (linking 2 "newer" [quoteParams])]).any (fun r =>
        r.2.log = [.paused "newer" quoteKey, .paused "older" quoteKey] ∧
        (r.2.indexer.cache.tracingRetryCounts.get quoteKey).getD 0 < r.2.indexer.maxRetryCount ∧
        ((r.2.indexer.selectEntrypoints .asListed (updating 3 "older")).map
          fun r => r.2.keys).toOption = some []) := by decide +kernel
  obtain ⟨trace, w, hrun, hlog, hcount, hselect⟩ := exists_run_of_any hcheck
  dsimp only at hlog hcount hselect
  cases hok : w.indexer.selectEntrypoints .asListed (updating 3 "older") with
  | error =>
    rw [hok] at hselect
    cases hselect
  | ok r =>
    rw [hok] at hselect
    exact ⟨trace, w, r.1, r.2, hrun, hlog, hcount, by decide, hok, Option.some.inj hselect⟩

end Watched
end Tycho
