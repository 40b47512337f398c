import Tycho.Dci.BlockUpdate
import Tycho.Dci.Layers

/-! What processing a block writes into the layer of the block. -/
namespace Tycho
open Collections Replay HashMap List AList Function VersionedCache DCICache BlockChanges
variable {d : LayerData} {bc : BlockChanges} {c : DCICache} {m : Selection} {i : SubCache}
  {bs : List Block} {b : Block} {s s' : DynamicContractIndexer} {c₀ : DCICache}

abbrev LayerData := (i : SubCache) → HashMap i.Key i.Value

variable {id : EntryPointId}

variable {X : Type} {c' : DCICache} {ep : EntryPoint}
  {params : HashMap ComponentId (HashSet EntryPointWithTracingParams)} {acc : DCICache × Selection}
  {p : EntryPointId × Transaction × TracingParams}
  {l : List (EntryPointId × Transaction × TracingParams)} {m' : Selection}

namespace DCICache
variable {c c₀ c' : DCICache}

section
variable (hb : ∀ i, b ∉ c₀.blocks i)
include hb

lemma run_topped (d : LayerData) (i : SubCache)
    (f : HashMap i.Key i.Value → HashMap i.Key i.Value) :
    (c₀.topped b d).run i (updateLayer b f) = .ok (c₀.topped b (update d i (f (d i)))) := by
  have hlayers : ∀ layer ∈ (i.lens.get c₀).pending, layer.block ≠ b := by
    rintro layer hlayer rfl
    exact hb i (mem_map_of_mem hlayer)
  have hset : i.lens.set ((i.lens.get c₀).topped b (f (d i))) (c₀.topped b d) =
      c₀.topped b (update d i (f (d i))) := by
    refine ext_of_get fun j => ?_
    by_cases hj : j = i
    · subst hj
      rw [j.get_set, topped, get_build, update_self]
    · rw [i.get_set_of_ne _ _ hj, topped, topped, get_build, get_build, update_of_ne hj]
  unfold run Call.exec
  rw [Call.on_zoom, topped, get_build, on_updateLayer_topped _ hlayers]
  exact congrArg Except.ok hset

/-- A loop that writes to one part. -/
lemma foldlM_run_topped (i : SubCache) (f : X → HashMap i.Key i.Value → HashMap i.Key i.Value)
    (l : List X) (d : LayerData) :
    l.foldlM (fun c x => c.run i (updateLayer b (f x))) (c₀.topped b d) =
      .ok (c₀.topped b (update d i (l.foldl (fun data x => f x data) (d i)))) := by
  induction l generalizing d with
  | nil => simp [pure, Except.pure]
  | cons _ l ih =>
    rw [foldlM_cons, run_topped hb]
    change l.foldlM _ (c₀.topped b _) = _
    rw [ih, update_self, update_idem, foldl_cons]

lemma foldlM_pendingEntry_topped (i : SubCache) (key : X → i.Key)
    (f : X → Option i.Value → i.Value) (l : List X) (d : LayerData) :
    l.foldlM (fun c x => c.run i (pendingEntry b (key x) (f x))) (c₀.topped b d) =
      .ok (c₀.topped b (update d i (l.foldl (fun data x =>
        data.insert (key x) (f x (data.lookup (key x)))) (d i)))) :=
  foldlM_run_topped hb i (fun x data => data.insert (key x) (f x (data.lookup (key x)))) l d

lemma insertPending_topped (d : LayerData) (i : SubCache) (k : i.Key) (v : i.Value) :
    (c₀.topped b d).run i (insertPending b k v) =
      .ok (c₀.topped b (update d i ((d i).insert k v))) :=
  run_topped hb d i fun data => data.insert k v

end

/-- The cache before a block, over which its layer is or will be. -/
structure Opened (c : DCICache) (b : Block) (c₀ : DCICache) (d : LayerData) : Prop where
  fresh : ∀ i, b ∉ c₀.blocks i
  cases : c = c₀.topped b d ∨ c = c₀ ∧ d = fun _ => ∅

/-- A layer that is on top has the cache below it. -/
lemma exists_topped_of_getLast? (hbs : ∀ i, c.blocks i = bs) (hlast : bs.getLast? = some b) :
    ∃ c₀ d, c = topped c₀ b d ∧ ∀ i, c₀.blocks i = bs.dropLast := by
  have hlayer : ∀ i : SubCache, ∃ data : HashMap i.Key i.Value,
      (i.lens.get c).pending = (i.lens.get c).pending.dropLast ++ [⟨b, data⟩] := by
    intro i
    have hlast' : (i.lens.get c).pending.getLast?.map block = some b := by
      rw [← List.getLast?_map, ← hlast, ← hbs i, blocks]
    obtain ⟨⟨b', data⟩, hget, hb'⟩ := Option.map_eq_some_iff.mp hlast'
    cases hb'
    exact ⟨data, (dropLast_append_getLast? _ hget).symm⟩
  choose d hd using hlayer
  refine ⟨build fun i => ⟨(i.lens.get c).permanent, (i.lens.get c).pending.dropLast⟩, d, ?_, ?_⟩
  · refine ext_of_get fun i => ?_
    rw [topped, get_build, get_build]
    unfold VersionedCache.topped
    rw [← hd i]
  · intro i
    rw [blocks, get_build, ← hbs i, blocks, map_dropLast]

/-- If a block that has a layer is the newest one, its layer is on top. -/
lemma exists_opened (hbs : ∀ i, c.blocks i = bs) (hnodup : bs.Nodup)
    (hnewest : b ∈ bs → bs.getLast? = some b) (h : (tryInsertBlockLayer b).exec c = .ok c') :
    ∃ c₀ d, c' = topped c₀ b d ∧ Opened c b c₀ d := by
  have hc' := tryInsertBlockLayer_ok hbs h
  split_ifs at hc' with hlast
  · obtain ⟨c₀, d, hc, hblocks⟩ := exists_topped_of_getLast? hbs hlast
    refine ⟨c₀, d, hc'.trans hc, ?_, .inl hc⟩
    intro i hmem
    rw [hblocks] at hmem
    rw [← dropLast_append_getLast? b hlast] at hnodup
    exact (nodup_append.mp hnodup).2.2 b hmem b mem_cons_self rfl
  · refine ⟨c, fun _ => ∅, hc', ?_, .inr ⟨rfl, rfl⟩⟩
    intro i hmem
    rw [hbs] at hmem
    exact hlast (hnewest hmem)

lemma blocks_topped (c₀ : DCICache) (b : Block) (d : LayerData) (i : SubCache) :
    (c₀.topped b d).blocks i = c₀.blocks i ++ [b] := by
  rw [blocks, topped, get_build, VersionedCache.topped, map_append]
  rfl

section
variable (h : Opened c b c₀ d)
include h

lemma Opened.blocks (hbs : ∀ i, c.blocks i = bs) (i : SubCache) :
    c₀.blocks i = if bs.getLast? = some b then bs.dropLast else bs := by
  rcases h.cases with rfl | ⟨rfl, -⟩
  · have hi := hbs i
    rw [blocks_topped] at hi
    rw [← hi, List.getLast?_concat, if_pos rfl, dropLast_concat]
  · rw [hbs, if_neg]
    intro hlast
    have hfresh := h.fresh i
    rw [hbs] at hfresh
    exact hfresh (mem_of_getLast? hlast)

lemma Opened.get (i : SubCache) (k : i.Key) :
    (i.lens.get (c₀.topped b d)).get k = (i.lens.get c).get k := by
  rcases h.cases with rfl | ⟨rfl, rfl⟩
  · rfl
  · rw [topped, get_build, get_topped, lookup_empty, Option.none_or]

lemma Opened.getAll (i : SubCache) (k : i.Key) :
    (i.lens.get (c₀.topped b d)).getAll k = (i.lens.get c).getAll k := by
  rcases h.cases with rfl | ⟨rfl, rfl⟩
  · rfl
  · rw [topped, get_build, getAll_topped_empty]

end

/-- Parts that have the same data are the same. -/
lemma get_topped_congr {d' : LayerData} (h : d' i = d i) :
    i.lens.get (c₀.topped b d') = i.lens.get (c₀.topped b d) := by
  rw [topped, topped, get_build, get_build, h]

end DCICache

def BlockChanges.opened (bc : BlockChanges) (d : LayerData) : LayerData :=
  update (update d .erc20Addresses (bc.componentTokens.foldl
      (fun data t => data.insert t ((data.lookup t).getD true)) (d .erc20Addresses)))
    .epIdToComponentId (addTo (d .epIdToComponentId)
      (bc.links.map fun link => (link.2.externalId, link.1)))

lemma BlockChanges.opened_of_ne (herc20 : i ≠ .erc20Addresses) (hlinks : i ≠ .epIdToComponentId) :
    bc.opened d i = d i := by
  rw [opened, update_of_ne hlinks, update_of_ne herc20]

lemma DCICache.openBlock_ok (hbs : ∀ i, c.blocks i = bs) (hnodup : bs.Nodup)
    (hnewest : bc.block ∈ bs → bs.getLast? = some bc.block) (h : c.openBlock bc = .ok c') :
    ∃ c₀ d, Opened c bc.block c₀ d ∧ c' = c₀.topped bc.block (bc.opened d) := by
  obtain ⟨c₁, hinsert, h⟩ := ok_of_bind_ok h
  obtain ⟨c₀, d, rfl, hopened⟩ := exists_opened hbs hnodup hnewest (ok_of_mapError_ok hinsert)
  rw [foldlM_pendingEntry_topped hopened.fresh, ok_bind,
    foldlM_pendingEntry_topped hopened.fresh] at h
  cases h
  refine ⟨c₀, d, hopened, ?_⟩
  rw [opened, addTo, foldl_map, update_of_ne (by decide)]
  rfl

namespace DCICache

/-- Some layer has an entry point and its params for a component. -/
def HasParams (c : DCICache) (id : ComponentId) (e : EntryPointWithTracingParams) : Prop :=
  c.componentIdToEntrypointParams.Holds id fun set => e ∈ set

/-- A component is retried with the params of an entry point. -/
def Recorded (c : DCICache) (id : ComponentId) (key : EntryPointId × TracingParams) : Prop :=
  ∃ e, e.key = key ∧ c.HasParams id e

def Keyed (c : DCICache) : Prop :=
  ∀ id ep, c.epIdToEntrypoint.get id = some ep → ep.externalId = id

def Succeeded (c : DCICache) (key : EntryPointId × TracingParams) : Prop :=
  ∃ result, c.entrypointResults.get key = some (some result)

lemma lookup_newEntrypoints (h : bc.newEntrypoints.lookup id = some ep) : ep.externalId = id := by
  rw [newEntrypoints, lookup_ofList] at h
  have hmem := mem_of_lastOf h
  simp only [mem_flatMap, mem_map] at hmem
  obtain ⟨_, _, _, _, ep', _, heq⟩ := hmem
  cases heq
  rfl

lemma entrypoint_congr {new : HashMap EntryPointId EntryPoint}
    (h : c'.epIdToEntrypoint.get id = c.epIdToEntrypoint.get id) :
    c'.entrypoint new id = c.entrypoint new id := by
  unfold entrypoint
  rw [h]

lemma entrypoint_keyed (hkeyed : c.Keyed) (h : c.entrypoint bc.newEntrypoints id = .ok ep) :
    ep.externalId = id := by
  unfold entrypoint at h
  split at h
  · rename_i hep
    cases h
    rcases Option.or_eq_some_iff.mp hep with hnew | ⟨-, hget⟩
    · exact lookup_newEntrypoints hnew
    · exact hkeyed id _ hget
  · cases h

end DCICache

namespace DynamicContractIndexer
lemma mem_paramsToRetry {id : ComponentId} {tx : Transaction}
    {x : EntryPointId × Transaction × TracingParams} :
    x ∈ s.paramsToRetry id tx ↔ x.2.1 = tx ∧ s.cache.Recorded id (x.1, x.2.2) ∧
      s.cache.entrypointResults.get (x.1, x.2.2) = some none ∧
      (s.cache.tracingRetryCounts.get (x.1, x.2.2)).getD 0 < s.maxRetryCount := by
  unfold paramsToRetry DCICache.Recorded DCICache.HasParams VersionedCache.Holds
  constructor
  · intro hx
    obtain ⟨set, hset, hx⟩ := mem_flatMap.mp hx
    obtain ⟨e, he, hx⟩ := mem_filterMap.mp hx
    obtain ⟨sets, hsets, hmem⟩ := exists_of_mem_getD hset
    split at hx
    · rename_i hresult
      split_ifs at hx with hcount
      cases hx
      exact ⟨rfl, ⟨e, rfl, sets, hsets, set, hmem, he⟩, hresult, hcount⟩
    · cases hx
  · rintro ⟨rfl, ⟨e, hkey, sets, hsets, set, hmem, he⟩, hresult, hcount⟩
    rw [hsets]
    refine mem_flatMap.mpr ⟨set, hmem, mem_filterMap.mpr ⟨e, he, ?_⟩⟩
    rw [← hkey] at hresult hcount
    simp only [hresult, if_pos hcount]
    have hid : e.entryPoint.externalId = x.1 := congrArg Prod.fst hkey
    have hparams : e.params = x.2.2 := congrArg Prod.snd hkey
    rw [hid, hparams]

/-- What is retried depends on three parts of the cache. -/
lemma paramsToRetry_congr (hparams : ∀ id, s'.cache.componentIdToEntrypointParams.getAll id =
      s.cache.componentIdToEntrypointParams.getAll id)
    (hresults : ∀ key, s'.cache.entrypointResults.get key = s.cache.entrypointResults.get key)
    (hcounts : ∀ key, s'.cache.tracingRetryCounts.get key = s.cache.tracingRetryCounts.get key)
    (hmax : s'.maxRetryCount = s.maxRetryCount) : s'.paramsToRetry = s.paramsToRetry := by
  funext id tx
  unfold paramsToRetry
  simp only [hparams, hresults, hcounts, hmax]

lemma detectRetriggers_congr (hret : ∀ location, s'.cache.retriggers.getAll location =
      s.cache.retriggers.getAll location)
    (hlen : s'.addressByteLen = s.addressByteLen) (txs : List TxWithContractChanges) :
    s'.detectRetriggers txs = s.detectRetriggers txs := by
  have hat : s'.retriggersAt = s.retriggersAt := by
    funext location
    unfold retriggersAt
    rw [hret]
  have hchanged : s'.retriggerAddressChanged = s.retriggerAddressChanged := by
    funext change offset
    unfold retriggerAddressChanged
    rw [hlen]
  unfold detectRetriggers
  rw [hat, hchanged]

section
abbrev withParams (d : LayerData)
  (params : HashMap ComponentId (HashSet EntryPointWithTracingParams)) :
    LayerData :=
  update d .componentIdToEntrypointParams params

lemma hasParams_topped {b : Block} {id : ComponentId} {e : EntryPointWithTracingParams} :
    (c₀.topped b (withParams d params)).HasParams id e ↔
      (∃ set, params.lookup id = some set ∧ e ∈ set) ∨ c₀.HasParams id e := by
  have hover : (c₀.topped b (withParams d params)).componentIdToEntrypointParams =
      c₀.componentIdToEntrypointParams.topped b params := by
    change (c₀.componentIdToEntrypointParams.topped b _) = _
    rw [withParams, update_self]
  unfold DCICache.HasParams
  rw [hover, holds_topped]

structure SelectedNew (bc : BlockChanges) (c : DCICache) (e : EntryPointWithTracingParams)
    (id : EntryPointId) : Prop where
  brought : ∃ tx, (id, tx, e.params) ∈ bc.entrypointParams
  entrypoint : c.entrypoint bc.newEntrypoints id = .ok e.entryPoint
  unsuccessful : ¬ c.Succeeded (id, e.params)

/-- New params are recorded for the components that the newest layer links. -/
def RecordsNew (bc : BlockChanges) (c c' : DCICache)
    (p : EntryPointId × Transaction × TracingParams) : Prop :=
  ¬ c.Succeeded (p.1, p.2.2) → ∃ ep, c.entrypoint bc.newEntrypoints p.1 = .ok ep ∧
    ∀ ids, c.epIdToComponentId.get p.1 = some ids → ∀ id ∈ ids, c'.HasParams id ⟨ep, p.2.2⟩

section
variable (hb : ∀ i, bc.block ∉ c₀.blocks i)
include hb

lemma recordParams_topped
    (params : HashMap ComponentId (HashSet EntryPointWithTracingParams)) (ids : List ComponentId)
    (e : EntryPointWithTracingParams) :
    (c₀.topped bc.block (withParams d params)).recordParams bc.block ids e =
      .ok (c₀.topped bc.block (withParams d (addTo params (ids.map fun id => (id, e))))) := by
  unfold recordParams withParams
  rw [foldlM_pendingEntry_topped hb, update_self, update_idem, addTo, foldl_map]
  rfl

lemma selectNew_ok (hp : p ∈ bc.entrypointParams)
    (h : selectNew bc (c₀.topped bc.block (withParams d params), m) p = .ok acc) :
    (∃ params', acc.1 = c₀.topped bc.block (withParams d params')) ∧
      (∀ id e, (c₀.topped bc.block (withParams d params)).HasParams id e → acc.1.HasParams id e) ∧
      (∀ e ∈ acc.2, e ∈ m ∨ SelectedNew bc (c₀.topped bc.block d) e p.1) ∧
      RecordsNew bc (c₀.topped bc.block d) acc.1 p := by
  have hsame : ∀ i : SubCache, i ≠ .componentIdToEntrypointParams →
      i.lens.get (c₀.topped bc.block (withParams d params)) = i.lens.get (c₀.topped bc.block d) :=
    fun i hi => get_topped_congr (update_of_ne hi _ _)
  have hentry : (c₀.topped bc.block (withParams d params)).epIdToEntrypoint =
      (c₀.topped bc.block d).epIdToEntrypoint := hsame .epIdToEntrypoint (by decide)
  have hresults : (c₀.topped bc.block (withParams d params)).entrypointResults =
      (c₀.topped bc.block d).entrypointResults := hsame .entrypointResults (by decide)
  have hlinks : (c₀.topped bc.block (withParams d params)).epIdToComponentId =
      (c₀.topped bc.block d).epIdToComponentId := hsame .epIdToComponentId (by decide)
  unfold selectNew at h
  obtain ⟨ep, hep, h⟩ := ok_of_bind_ok h
  unfold entrypoint at hep
  rw [hentry] at hep
  dsimp only at h
  rw [hresults, hlinks] at h
  split at h
  · rename_i result hresult
    cases h
    exact ⟨⟨params, rfl⟩, fun _ _ h => h, fun e he => .inl he,
      fun hnot => absurd ⟨result, hresult⟩ hnot⟩
  · rename_i hnot
    have hselected : ∀ e ∈ keepEarlier m ⟨ep, p.2.2⟩ p.2.1,
        e ∈ m ∨ SelectedNew bc (c₀.topped bc.block d) e p.1 := by
      intro e he
      rcases (mem_insert _).mp he with rfl | he
      · refine .inr ⟨⟨p.2.1, hp⟩, hep, ?_⟩
        rintro ⟨result, hresult⟩
        exact hnot result hresult
      · exact .inl he
    cases hget : (c₀.topped bc.block d).epIdToComponentId.get p.1 with
    | none =>
      rw [hget] at h
      cases h
      refine ⟨⟨params, rfl⟩, fun _ _ h => h, hselected, fun _ => ⟨ep, hep, ?_⟩⟩
      intro ids hids
      rw [hget] at hids
      cases hids
    | some =>
      rw [hget] at h
      dsimp only at h
      rw [recordParams_topped hb] at h
      cases h
      refine ⟨⟨_, rfl⟩, ?_, hselected, fun _ => ⟨ep, hep, ?_⟩⟩
      · intro id e he
        rw [hasParams_topped] at he ⊢
        exact he.imp_left fun he => mem_addTo.mpr (.inl he)
      · intro ids' hids' id hid
        cases hget.symm.trans hids'
        rw [hasParams_topped]
        exact .inl (mem_addTo.mpr (.inr (mem_map_of_mem hid)))

/-- What the selection of new params has done to the cache and selected. -/
structure SelectsNew (bc : BlockChanges) (c₀ : DCICache) (d : LayerData)
    (acc : DCICache × Selection) : Prop where
  topped : ∃ params, acc.1 = c₀.topped bc.block (withParams d params)
  grows : ∀ id e, (c₀.topped bc.block d).HasParams id e → acc.1.HasParams id e
  selected : ∀ e ∈ acc.2, ∃ id, SelectedNew bc (c₀.topped bc.block d) e id

lemma foldlM_selectNew_ok (hl : l ⊆ bc.entrypointParams)
    (h : l.foldlM (selectNew bc) (c₀.topped bc.block d, ∅) = .ok acc) :
    SelectsNew bc c₀ d acc ∧ ∀ p ∈ l, RecordsNew bc (c₀.topped bc.block d) acc.1 p := by
  have hself : c₀.topped bc.block d =
      c₀.topped bc.block (withParams d (d .componentIdToEntrypointParams)) := by
    rw [withParams, update_eq_self]
  have hstep : ∀ acc p acc', p ∈ l → SelectsNew bc c₀ d acc → selectNew bc acc p = .ok acc' →
      SelectsNew bc c₀ d acc' ∧ RecordsNew bc (c₀.topped bc.block d) acc'.1 p ∧
      ∀ p', RecordsNew bc (c₀.topped bc.block d) acc.1 p' →
        RecordsNew bc (c₀.topped bc.block d) acc'.1 p' := by
    rintro ⟨c, m⟩ p acc' hp ⟨⟨params, rfl⟩, hgrow, hselected⟩ hnext
    obtain ⟨hover, hgrow', hnew, hrecords⟩ := selectNew_ok hb (hl hp) hnext
    refine ⟨⟨hover, fun id e he => hgrow' id e (hgrow id e he), fun e he => ?_⟩, hrecords, ?_⟩
    · exact (hnew e he).elim (hselected e) fun h => ⟨p.1, h⟩
    · intro p' hp' hnot
      obtain ⟨ep, hep, hids⟩ := hp' hnot
      exact ⟨ep, hep, fun ids hget id hid => hgrow' id _ (hids ids hget id hid)⟩
  have hstart : SelectsNew bc c₀ d (c₀.topped bc.block d, ∅) :=
    ⟨⟨_, hself⟩, fun _ _ h => h, fun e he => absurd he (notMem_empty e)⟩
  exact ⟨foldlM_ok_invariant
    (fun acc p acc' hp hacc hnext => (hstep acc p acc' hp hacc hnext).1) hstart h,
    foldlM_ok_forall hstep hstart h⟩

end

end

section
lemma selectRetry_ok (h : selectRetry bc c m p = .ok m') :
    ∃ ep, c.entrypoint bc.newEntrypoints p.1 = .ok ep ∧
      (c.Succeeded (p.1, p.2.2) ∧ m' = m ∨ m' = keepEarlier m ⟨ep, p.2.2⟩ p.2.1) := by
  unfold selectRetry at h
  obtain ⟨ep, hep, h⟩ := ok_of_bind_ok h
  refine ⟨ep, hep, ?_⟩
  split at h
  · rename_i result hresult
    cases h
    exact .inl ⟨⟨result, hresult⟩, rfl⟩
  · cases h
    exact .inr rfl

lemma foldlM_selectRetry_ok (h : l.foldlM (selectRetry bc c) m = .ok m') : (∀ e ∈ m, e ∈ m') ∧
      (∀ e ∈ m', e ∈ m ∨ ∃ p ∈ l, c.entrypoint bc.newEntrypoints p.1 = .ok e.entryPoint ∧
        e.params = p.2.2) ∧
      ∀ p ∈ l, c.Succeeded (p.1, p.2.2) ∨ ∃ e ∈ m',
        c.entrypoint bc.newEntrypoints p.1 = .ok e.entryPoint ∧ e.params = p.2.2 := by
  have hkeep : ∀ m p m', selectRetry bc c m p = .ok m' → ∀ e ∈ m, e ∈ m' := by
    intro m p m' hstep e he
    obtain ⟨ep, -, ⟨-, rfl⟩ | rfl⟩ := selectRetry_ok hstep
    · exact he
    · exact (mem_insert _).mpr (.inr he)
  refine ⟨?_, ?_, ?_⟩
  · exact foldlM_ok_invariant (P := fun m' => ∀ e ∈ m, e ∈ m')
      (fun m₁ p m₂ _ hm hstep e he => hkeep m₁ p m₂ hstep e (hm e he)) (fun e he => he) h
  · refine foldlM_ok_invariant (P := fun m' : Selection => ∀ e ∈ m', e ∈ m ∨ ∃ p ∈ l,
      c.entrypoint bc.newEntrypoints p.1 = .ok e.entryPoint ∧ e.params = p.2.2) ?_ ?_ h
    · intro m₁ p m₂ hp hm hstep e he
      obtain ⟨ep, hep, ⟨-, rfl⟩ | rfl⟩ := selectRetry_ok hstep
      · exact hm e he
      · rcases (mem_insert _).mp he with rfl | he
        · exact .inr ⟨p, hp, hep, rfl⟩
        · exact hm e he
    · exact fun e he => .inl he
  · refine foldlM_ok_forall (P := fun _ => True) (Q := fun p (m' : Selection) =>
      c.Succeeded (p.1, p.2.2) ∨ ∃ e ∈ m',
        c.entrypoint bc.newEntrypoints p.1 = .ok e.entryPoint ∧ e.params = p.2.2) ?_ trivial h
    intro m₁ p m₂ _ _ hstep
    refine ⟨trivial, ?_, ?_⟩
    · obtain ⟨ep, hep, ⟨hsuccess, -⟩ | rfl⟩ := selectRetry_ok hstep
      · exact .inl hsuccess
      · exact .inr ⟨⟨ep, p.2.2⟩, (mem_insert _).mpr (.inl rfl), hep, rfl⟩
    · rintro p' (hsuccess | ⟨e, he, hp'⟩)
      · exact .inl hsuccess
      · exact .inr ⟨e, hkeep m₁ p m₂ hstep e he, hp'⟩

end

/-- What the selection for a block does: its layer gets tokens, links and params, and what is
selected is new, retried or retriggered. -/
structure Selecting (s : DynamicContractIndexer) (bc : BlockChanges) (cache : DCICache)
    (m : Selection) (c₀ : DCICache) (d : LayerData)
    (params : HashMap ComponentId (HashSet EntryPointWithTracingParams)) : Prop where
  opened : DCICache.Opened s.cache bc.block c₀ d
  cache_eq : cache = c₀.topped bc.block (withParams (bc.opened d) params)
  grow : ∀ id e, s.cache.HasParams id e → cache.HasParams id e
  recorded : ∀ p ∈ bc.entrypointParams,
    RecordsNew bc (c₀.topped bc.block (bc.opened d)) cache p
  selected : ∀ e ∈ m,
    (∃ id, SelectedNew bc (c₀.topped bc.block (bc.opened d)) e id) ∨
    (∃ component ∈ bc.updatedComponents, ∃ p ∈ s.paramsToRetry component.1 component.2,
      s.cache.entrypoint bc.newEntrypoints p.1 = .ok e.entryPoint ∧ e.params = p.2.2) ∨
    ∃ retriggered, s.detectRetriggers bc.blockContractChanges = .ok retriggered ∧ e ∈ retriggered
  retried : ∀ component ∈ bc.updatedComponents, ∃ tx, ∀ p ∈ s.paramsToRetry component.1 tx,
    ∃ e ∈ m, s.cache.entrypoint bc.newEntrypoints p.1 = .ok e.entryPoint ∧ e.params = p.2.2

section
variable {c c₀ : DCICache} (hopened : DCICache.Opened c bc.block c₀ d)
include hopened

/-- Parts without tokens and links are read as before the block. -/
lemma get_opened (herc20 : i ≠ .erc20Addresses) (hlinks : i ≠ .epIdToComponentId) (k : i.Key) :
    (i.lens.get (c₀.topped bc.block (bc.opened d))).get k = (i.lens.get c).get k ∧
      (i.lens.get (c₀.topped bc.block (bc.opened d))).getAll k = (i.lens.get c).getAll k := by
  rw [get_topped_congr (opened_of_ne herc20 hlinks)]
  exact ⟨hopened.get i k, hopened.getAll i k⟩

lemma get_selecting (params : HashMap ComponentId (HashSet EntryPointWithTracingParams))
    (herc20 : i ≠ .erc20Addresses) (hlinks : i ≠ .epIdToComponentId)
    (hparams : i ≠ .componentIdToEntrypointParams) (k : i.Key) :
    (i.lens.get (c₀.topped bc.block (withParams (bc.opened d) params))).get k =
      (i.lens.get c).get k ∧
      (i.lens.get (c₀.topped bc.block (withParams (bc.opened d) params))).getAll k =
        (i.lens.get c).getAll k := by
  rw [get_topped_congr (update_of_ne hparams _ _)]
  exact get_opened hopened herc20 hlinks k

lemma extractParamsToRetry_opened (s : DynamicContractIndexer) (hc : s.cache = c) :
    extractParamsToRetry { s with cache := c₀.topped bc.block (bc.opened d) } bc =
      s.extractParamsToRetry bc := by
  subst hc
  have hcongr : paramsToRetry { s with cache := c₀.topped bc.block (bc.opened d) } =
      s.paramsToRetry :=
    paramsToRetry_congr
      (fun id => (get_opened hopened (i := .componentIdToEntrypointParams) (by decide) (by decide)
        id).2)
      (fun key => (get_opened hopened (i := .entrypointResults) (by decide) (by decide) key).1)
      (fun key => (get_opened hopened (i := .tracingRetryCounts) (by decide) (by decide) key).1) rfl
  unfold extractParamsToRetry
  rw [hcongr]

end

lemma selectEntrypoints_ok {order : VisitOrder} {cache : DCICache}
    (hbs : ∀ i, s.cache.blocks i = bs) (hnodup : bs.Nodup)
    (hnewest : bc.block ∈ bs → bs.getLast? = some bc.block)
    (h : s.selectEntrypoints order bc = .ok (cache, m)) :
    ∃ c₀ d params, Selecting s bc cache m c₀ d params := by
  unfold selectEntrypoints at h
  obtain ⟨c₁, hopen, h⟩ := ok_of_bind_ok h
  obtain ⟨c₀, d, hopened, rfl⟩ := openBlock_ok hbs hnodup hnewest hopen
  obtain ⟨⟨c₂, m₁⟩, hnew, h⟩ := ok_of_bind_ok h
  have hsub : ungroup order bc.newEntrypointParams ⊆ bc.entrypointParams :=
    fun p hp => mem_ungroup_group.mp hp
  obtain ⟨⟨⟨params, hc₂⟩, hgrow, hselect⟩, hrecords⟩ := foldlM_selectNew_ok hopened.fresh hsub hnew
  dsimp only at hc₂ h
  subst hc₂
  obtain ⟨m₂, hretries, h⟩ := ok_of_bind_ok h
  obtain ⟨retriggered, hdetect, h⟩ := ok_of_bind_ok h
  cases h
  -- the selection reads the cache as it was before the block
  have hresult : ∀ key,
      DCICache.Succeeded (c₀.topped bc.block (withParams (bc.opened d) params)) key →
      s.cache.Succeeded key := by
    rintro key ⟨result, hresults⟩
    exact ⟨result, (get_selecting hopened params (i := .entrypointResults) (by decide) (by decide)
      (by decide) key).1.symm.trans hresults⟩
  have hentry : ∀ id, (c₀.topped bc.block (withParams (bc.opened d) params)).entrypoint
      bc.newEntrypoints id = s.cache.entrypoint bc.newEntrypoints id := fun id =>
    entrypoint_congr (get_selecting hopened params (i := .epIdToEntrypoint) (by decide)
      (by decide) (by decide) id).1
  have hret : detectRetriggers
      { s with cache := c₀.topped bc.block (withParams (bc.opened d) params) }
      bc.blockContractChanges = s.detectRetriggers bc.blockContractChanges :=
    detectRetriggers_congr (fun location => (get_selecting hopened params (i := .retriggers)
      (by decide) (by decide) (by decide) location).2) (by rfl) _
  rw [hret] at hdetect
  rw [extractParamsToRetry_opened hopened s rfl] at hretries
  obtain ⟨hkept, hsound, hcomp⟩ := foldlM_selectRetry_ok hretries
  have hmem : ∀ e, e ∈ HashMap.extend m₂ (order.visit retriggered.toList) ↔
      e ∈ retriggered ∨ e ∈ m₂ := by
    intro e
    rw [mem_extend, ((order.perm _).map Prod.fst).mem_iff, map_fst_toList]
    exact Iff.rfl
  refine ⟨c₀, d, params, hopened, rfl, ?_, ?_, ?_, ?_⟩
  · intro id e he
    refine hgrow id e ?_
    have hall := (get_opened hopened (i := .componentIdToEntrypointParams) (by decide) (by decide)
      id).2
    obtain ⟨values, hvalues, hmem⟩ := he
    exact ⟨values, hall.trans hvalues, hmem⟩
  · exact fun p hp => hrecords p (mem_ungroup_group.mpr hp)
  · intro e he
    rcases (hmem e).mp he with he | he
    · exact .inr (.inr ⟨retriggered, hdetect, he⟩)
    · rcases hsound e he with he | ⟨p, hp, hep, hparams⟩
      · exact .inl (hselect e he)
      · obtain ⟨component, hcomplete, hp⟩ := exists_of_mem_flatMapFirst (mem_ungroup_group.mp hp)
        exact .inr (.inl ⟨component, hcomplete, p, hp, (hentry p.1).symm.trans hep, hparams⟩)
  · intro component hcomplete
    obtain ⟨tx, -, hsubset⟩ := exists_subset_flatMapFirst (f := s.paramsToRetry) hcomplete
    refine ⟨tx, fun p hp => ?_⟩
    rcases hcomp p (mem_ungroup_group.mpr (hsubset hp)) with hsuccess | ⟨e, he, hep, hparams⟩
    · obtain ⟨result, hresults⟩ := hresult _ hsuccess
      rw [(mem_paramsToRetry.mp hp).2.2.1] at hresults
      cases hresults
    · exact ⟨e, (hmem e).mpr (.inr he), (hentry p.1).symm.trans hep, hparams⟩

end DynamicContractIndexer
namespace DCICache
variable (hb : ∀ i, b ∉ c₀.blocks i)
include hb

lemma addTraced_topped (d : LayerData) (t : TracedEntryPoint) :
    ∃ d', addTraced b (c₀.topped b d) t = .ok (c₀.topped b d') ∧
      (∀ i, i ≠ .retriggers → i ≠ .trackedContracts → i ≠ .entrypointResults → d' i = d i) ∧
      d' .entrypointResults =
        (d .entrypointResults).insert t.entryPointWithParams.key (some t.tracingResult) := by
  unfold addTraced
  rw [foldlM_pendingEntry_topped hb, ok_bind, foldlM_pendingEntry_topped hb, ok_bind,
    insertPending_topped hb]
  refine ⟨_, rfl, ?_, ?_⟩
  · intro i hret htracked hresults
    rw [update_of_ne hresults, update_of_ne htracked, update_of_ne hret]
  · rw [update_self, update_of_ne (by decide), update_of_ne (by decide)]

lemma addFailed_topped (d : LayerData) (f : EntryPointWithTracingParams × Transaction) :
    ∃ d', addFailed b (c₀.topped b d) f = .ok (c₀.topped b d') ∧
      (∀ i, i ≠ .entrypointResults → i ≠ .tracingRetryCounts → d' i = d i) ∧
      d' .entrypointResults = (d .entrypointResults).insert f.1.key none := by
  unfold addFailed
  rw [insertPending_topped hb, ok_bind]
  rw [insertPending_topped hb]
  refine ⟨_, rfl, ?_, ?_⟩
  · intro i hresults hcounts
    rw [update_of_ne hcounts, update_of_ne hresults]
  · rw [update_of_ne (by decide), update_self]

lemma foldlM_addTraced_topped (traced : List TracedEntryPoint) (d : LayerData) :
    ∃ d', traced.foldlM (addTraced b) (c₀.topped b d) = .ok (c₀.topped b d') ∧
      (∀ i, i ≠ .retriggers → i ≠ .trackedContracts → i ≠ .entrypointResults → d' i = d i) ∧
      ∀ key, (∀ t ∈ traced, t.entryPointWithParams.key ≠ key) →
        (d' .entrypointResults).lookup key = (d .entrypointResults).lookup key := by
  induction traced generalizing d with
  | nil => exact ⟨d, rfl, fun _ _ _ _ => rfl, fun _ _ => rfl⟩
  | cons t _ ih =>
    obtain ⟨d₁, hadd, hframe₁, hresults⟩ := addTraced_topped hb d t
    obtain ⟨d₂, hrest, hframe₂, hlookup⟩ := ih d₁
    refine ⟨d₂, by rw [foldlM_cons, hadd, ok_bind, hrest], ?_, ?_⟩
    · intro i h₁ h₂ h₃
      rw [hframe₂ i h₁ h₂ h₃, hframe₁ i h₁ h₂ h₃]
    · intro key hkey
      rw [hlookup key fun t' ht' => hkey t' (mem_cons_of_mem t ht'), hresults,
        lookup_insert_ne (hkey t mem_cons_self).symm]

lemma foldlM_addFailed_topped (failed : List (EntryPointWithTracingParams × Transaction))
    (d : LayerData) :
    ∃ d', failed.foldlM (addFailed b) (c₀.topped b d) = .ok (c₀.topped b d') ∧
      (∀ i, i ≠ .entrypointResults → i ≠ .tracingRetryCounts → d' i = d i) ∧
      ∀ key, (d' .entrypointResults).lookup key =
        if ∃ f ∈ failed, f.1.key = key then some none else (d .entrypointResults).lookup key := by
  induction failed generalizing d with
  | nil => exact ⟨d, rfl, fun _ _ _ => rfl, fun _ => by simp⟩
  | cons f _ ih =>
    obtain ⟨d₁, hadd, hframe₁, hresults⟩ := addFailed_topped hb d f
    obtain ⟨d₂, hrest, hframe₂, hlookup⟩ := ih d₁
    refine ⟨d₂, by rw [foldlM_cons, hadd, ok_bind, hrest], ?_, ?_⟩
    · intro i h₁ h₂
      rw [hframe₂ i h₁ h₂, hframe₁ i h₁ h₂]
    · intro key
      rw [hlookup, hresults, lookup_insert_ite]
      simp only [exists_mem_cons_iff]
      by_cases hkey : f.1.key = key
      · simp [hkey]
      · simp only [if_neg (Ne.symm hkey), or_iff_right hkey]

/-- After the results of a block, the failed entry points have none, and those that were not traced
have the same as before. -/
lemma updateCache_topped (d : LayerData) (t : Traces) :
    ∃ d', (c₀.topped b d).updateCache b t = .ok (c₀.topped b d') ∧
      (∀ i, i ≠ .retriggers → i ≠ .trackedContracts → i ≠ .entrypointResults →
        i ≠ .tracingRetryCounts → d' i = d i) ∧
      (∀ f ∈ t.failed, (d' .entrypointResults).lookup f.1.key = some none) ∧
      ∀ key, (∀ f ∈ t.failed, f.1.key ≠ key) →
        (∀ traced ∈ t.traced, traced.entryPointWithParams.key ≠ key) →
        (d' .entrypointResults).lookup key = (d .entrypointResults).lookup key := by
  obtain ⟨d₁, htrace, hframe₁, hlookup₁⟩ := foldlM_addTraced_topped hb t.traced d
  obtain ⟨d₂, hfailed, hframe₂, hlookup₂⟩ := foldlM_addFailed_topped hb t.failed d₁
  refine ⟨d₂, by rw [updateCache, htrace, ok_bind, hfailed], ?_, ?_, ?_⟩
  · intro i h₁ h₂ h₃ h₄
    rw [hframe₂ i h₃ h₄, hframe₁ i h₁ h₂ h₃]
  · intro f hf
    rw [hlookup₂, if_pos ⟨f, hf, rfl⟩]
  · intro key hnotFailed hnotTraced
    rw [hlookup₂, if_neg, hlookup₁ key hnotTraced]
    rintro ⟨f, hf, hkey⟩
    exact hnotFailed f hf hkey

end DCICache
namespace DynamicContractIndexer
variable {src : DciSources} {bc bc' : BlockChanges}

lemma applyTraces_ok (h : s.applyTraces src bc m = .ok (s', bc')) :
    ∃ byTx accounts rest txs, m.byTx src (m.trace src bc.block).traced = .ok byTx ∧
      s.requestAccounts src bc.block (s.cache.newAccounts src.order byTx) = .ok accounts ∧
      (src.order.visit (s.cache.newAccounts src.order byTx).txs.toList).foldlM injectAccount
        (accounts, bc.txsWithUpdate) = .ok (rest, txs) ∧
      (src.order.visit (HashMap.ofList (s.cache.componentIdsToPause
        (m.trace src bc.block).failed)).toList).foldlM (fun txs e =>
          (insertStateAttributeUpdate txs e.1 e.2 "paused" ⟨[2]⟩).mapError
            DciError.mergeError) txs = .ok bc'.txsWithUpdate ∧
      s.cache.updateCache bc.block (m.trace src bc.block) = .ok s'.cache ∧
      s' = { s with cache := s'.cache } ∧
      bc' = { bc with
        txsWithUpdate := bc'.txsWithUpdate, traceResults := (m.trace src bc.block).traced } := by
  unfold applyTraces at h
  obtain ⟨byTx, hbyTx, h⟩ := ok_of_bind_ok h
  obtain ⟨accounts, haccounts, h⟩ := ok_of_bind_ok h
  obtain ⟨⟨rest, txs⟩, hinject, h⟩ := ok_of_bind_ok h
  obtain ⟨paused, hpause, h⟩ := ok_of_bind_ok h
  obtain ⟨cache, hcache, h⟩ := ok_of_bind_ok h
  cases h
  refine ⟨byTx, accounts, rest, txs, hbyTx, haccounts, hinject, hpause, ?_, rfl, rfl⟩
  unfold recordTraces at hcache
  split_ifs at hcache with hempty
  · cases hcache
    rw [Bool.and_eq_true, List.isEmpty_iff, List.isEmpty_iff] at hempty
    rw [updateCache, hempty.1, hempty.2]
    rfl
  · exact hcache

lemma trace_of_isEmpty (h : m.entries.isEmpty) (b : Block) : m.trace src b = ⟨[], []⟩ := by
  have hlist : src.order.visit m.toList = [] := by
    rw [List.isEmpty_iff] at h
    have hnil : m.toList = [] := by rw [HashMap.toList, h, map_nil]
    rw [hnil]
    exact (src.order.perm []).eq_nil
  unfold Selection.trace
  rw [hlist]
  rfl

section
variable (h : s.processBlockUpdate src bc = .ok (s', bc'))
include h

lemma processBlockUpdate_steps : ∃ c₁ m s₂ bc₂ c₃, s.selectEntrypoints src.order bc = .ok (c₁, m) ∧
      traceSelected { s with cache := c₁ } src bc m = .ok (s₂, bc₂) ∧
      s₂.cache.run .epIdToEntrypoint (extendPending bc₂.block
        (bc.newEntrypoints.values.map fun ep => (ep.externalId, ep))) = .ok c₃ ∧
      addTrackedUpdates { s₂ with cache := c₃ } src.order bc₂ = .ok bc' ∧
      (handleFinality bc₂.finalizedBlockHeight).exec c₃ = .ok s'.cache ∧
      s' = { s₂ with cache := s'.cache } := by
  unfold processBlockUpdate at h
  obtain ⟨⟨c₁, m⟩, hselect, h⟩ := ok_of_bind_ok h
  obtain ⟨⟨s₂, bc₂⟩, htraces, h⟩ := ok_of_bind_ok h
  obtain ⟨c₃, hextend, h⟩ := ok_of_bind_ok h
  obtain ⟨bc₃, htracked, h⟩ := ok_of_bind_ok h
  obtain ⟨c₄, hfinality, h⟩ := ok_of_bind_ok h
  cases h
  have hadd := ok_of_mapError_ok htracked
  have hfinal : bc'.finalizedBlockHeight = bc₂.finalizedBlockHeight := by
    obtain ⟨updates, -, hupdates⟩ := ok_of_bind_ok hadd
    obtain ⟨txs, -, hbc⟩ := ok_of_bind_ok hupdates
    cases hbc
    rfl
  have hexec := ok_of_mapError_ok hfinality
  rw [hfinal] at hexec
  exact ⟨c₁, m, s₂, bc₂, c₃, hselect, htraces, hextend, hadd, hexec, rfl⟩

lemma processBlockUpdate_cache : ∃ c₁ m c₂ c₃, s.selectEntrypoints src.order bc = .ok (c₁, m) ∧
      c₁.updateCache bc.block (m.trace src bc.block) = .ok c₂ ∧
      c₂.run .epIdToEntrypoint (extendPending bc.block
        (bc.newEntrypoints.values.map fun ep => (ep.externalId, ep))) = .ok c₃ ∧
      (handleFinality bc.finalizedBlockHeight).exec c₃ = .ok s'.cache ∧
      s' = { s with cache := s'.cache } := by
  obtain ⟨c₁, m, s₂, bc₂, c₃, hselect, htraces, hextend, -, hfinality, hs'⟩ :=
    processBlockUpdate_steps h
  unfold traceSelected at htraces
  split_ifs at htraces with hempty
  · cases htraces
    refine ⟨c₁, m, c₁, c₃, hselect, ?_, hextend, hfinality, hs'⟩
    rw [trace_of_isEmpty hempty]
    rfl
  · obtain ⟨_, _, _, _, -, -, -, -, hupdate, hs₂, hbc₂⟩ := applyTraces_ok htraces
    rw [hbc₂] at hextend hfinality
    refine ⟨c₁, m, s₂.cache, c₃, hselect, hupdate, hextend, hfinality, ?_⟩
    rw [hs', hs₂]

end

end DynamicContractIndexer
end Tycho
