import Tycho.Indexer.ReorgBuffer

/-! Looking up the latest buffered value of a key: newest block first, newest transaction first. -/
namespace Tycho
open Collections Replay HashMap Option AList HashSet TxWithChanges ProtocolComponentStateDelta

section
variable {K L D V W : Type} [DecidableEq K] [DecidableEq L]

/-- The updates of a block for some keys. Transactions are visited newest first and the first
value of a key stays. -/
def filteredUpdate (outer : TxWithChanges → HashMap K D) (inner : D → HashMap L V) (value : V → W)
    (b : BlockChanges) (keys : List (K × L)) : HashMap (K × L) W :=
  let keysSet := HashSet.ofList keys
  b.txsWithUpdate.reverse.foldl (fun res update =>
    (outer update).toList.foldl (fun res e =>
      ((inner e.2).toList.filter fun x => (e.1, x.1) ∈ keysSet).foldl (fun res x =>
        HashMap.orInsert res (e.1, x.1) (value x.2)) res) res) ∅

def txWrite (outer : TxWithChanges → HashMap K D) (inner : D → HashMap L V) (value : V → W)
    (t : TxWithChanges) (key : K × L) : Option W :=
  ((outer t).lookup key.1).bind fun d => ((inner d).lookup key.2).map value

variable (outer : TxWithChanges → HashMap K D) (inner : D → HashMap L V) (value : V → W)

private lemma lookup_foldl_filter (e : K × D) (keys : List (K × L)) (res : HashMap (K × L) W)
    (key : K × L) :
    (((inner e.2).toList.filter fun x => (e.1, x.1) ∈ HashSet.ofList keys).foldl
      (fun res x => HashMap.orInsert res (e.1, x.1) (value x.2)) res).lookup key =
      (res.lookup key).or (if e.1 = key.1 then
        if key ∈ keys then ((inner e.2).lookup key.2).map value else none else none) := by
  rw [List.foldl_filter]
  have hstep : ∀ (m : HashMap (K × L) W) (x : L × V),
      (if (e.1, x.1) ∈ HashSet.ofList keys then HashMap.orInsert m (e.1, x.1) (value x.2)
        else m).lookup key =
        (m.lookup key).or (if x.1 = key.2 then
          if e.1 = key.1 ∧ key ∈ keys then some (value x.2) else none else none) := by
    intro m x
    by_cases hkey : key = (e.1, x.1)
    · subst hkey
      by_cases hm : (e.1, x.1) ∈ keys <;> simp [hm, lookup_orInsert]
    · have hne : ¬(x.1 = key.2 ∧ e.1 = key.1) := fun h => hkey (Prod.ext h.2.symm h.1.symm)
      have hnone : (if x.1 = key.2 then
          if e.1 = key.1 ∧ key ∈ keys then some (value x.2) else none else none) = none := by
        by_cases hx : x.1 = key.2
        · rw [if_pos hx, if_neg fun h => hne ⟨hx, h.1⟩]
        · rw [if_neg hx]
      rw [hnone, or_none]
      split_ifs
      · rw [lookup_orInsert, if_neg hkey, or_none]
      · rfl
  simp only [decide_eq_true_eq]
  rw [lookup_foldl_first hstep, findSome?_toList (inner e.2)
    (fun v => if e.1 = key.1 ∧ key ∈ keys then some (value v) else none)]
  congr 1
  cases (inner e.2).lookup key.2 <;> by_cases hk : e.1 = key.1 <;> by_cases hm : key ∈ keys <;>
    simp [hk, hm]

private lemma lookup_filteredUpdate_or (b : BlockChanges) (keys : List (K × L)) (key : K × L) :
    (filteredUpdate outer inner value b keys).lookup key =
      b.txsWithUpdate.reverse.findSome? fun t =>
        if key ∈ keys then txWrite outer inner value t key else none := by
  have htx : ∀ (t : TxWithChanges) (res : HashMap (K × L) W), ((outer t).toList.foldl (fun res e =>
        ((inner e.2).toList.filter fun x => (e.1, x.1) ∈ HashSet.ofList keys).foldl (fun res x =>
          HashMap.orInsert res (e.1, x.1) (value x.2)) res) res).lookup key =
        (res.lookup key).or (if key ∈ keys then txWrite outer inner value t key else none) := by
    intro t res
    rw [lookup_foldl_first (fun m e => lookup_foldl_filter inner value e keys m key),
      findSome?_toList (outer t)
        (fun d => if key ∈ keys then ((inner d).lookup key.2).map value else none)]
    congr 1
    split_ifs with hkeys
    · rfl
    · cases (outer t).lookup key.1 <;> rfl
  rw [filteredUpdate, lookup_foldl_first (fun m t => htx t m)]
  rfl

/-- For the given keys a filtered update holds what the last transaction wrote. -/
lemma lookup_filteredUpdate (b : BlockChanges) {keys : List (K × L)} {key : K × L}
    (hk : key ∈ keys) : (filteredUpdate outer inner value b keys).lookup key =
      lastWrite (txWrite outer inner value) b.txsWithUpdate key := by
  rw [lookup_filteredUpdate_or]
  simp only [if_pos hk]
  rfl

end

namespace BlockChanges

/-- Only updated attributes are looked at; an attribute that the block deletes is not found. -/
def getFilteredProtocolStateUpdate : BlockChanges → List (ComponentId × AttrStoreKey) →
      HashMap (ComponentId × AttrStoreKey) StoreVal :=
  filteredUpdate stateUpdates updatedAttributes id

def getFilteredAccountStateUpdate :
    BlockChanges → List (Address × StoreKey) → HashMap (Address × StoreKey) StoreVal :=
  filteredUpdate accountDeltas AccountDelta.slots fun v => v.getD .new

def getFilteredComponentBalanceUpdate : BlockChanges → List (ComponentId × Address) →
      HashMap (ComponentId × Address) ComponentBalance :=
  filteredUpdate balanceChanges id id

def getFilteredAccountBalanceUpdate :
    BlockChanges → List (Address × Address) → HashMap (Address × Address) AccountBalance :=
  filteredUpdate accountBalanceChanges id id

end BlockChanges

section
variable {B Key W : Type} [DecidableEq Key]

def takeMissing (put : HashMap Key W → Key → W → HashMap Key W) (found : List (Key × W))
    (st : HashMap Key W × HashSet Key) : HashMap Key W × HashSet Key :=
  found.foldl (fun st e =>
    if e.1 ∈ st.2 then (put st.1 e.1 e.2, st.2.erase e.1) else st) st

/-- Visit the blocks newest first until no key is missing. The four lookups of the buffer differ
in the keys they ask each block for, and in how they store a value. -/
def lookupBuffered (select : HashSet Key → List Key)
    (put : HashMap Key W → Key → W → HashMap Key W) (filtered : B → List Key → HashMap Key W)
    (blocks : List B) (keys : List Key) : HashMap Key W × HashSet Key :=
  blocks.reverse.foldl (fun st m =>
    if st.2.keys = [] then st else takeMissing put (filtered m (select st.2)).toList st)
    (∅, ofList keys)

/-- How far a lookup is: `o` says what has been found for each key. -/
structure LookupState (keys : List Key) (o : Key → Option W)
    (st : HashMap Key W × HashSet Key) : Prop where
  found : ∀ key ∈ keys, st.1.lookup key = o key
  foreign : ∀ key ∉ keys, st.1.lookup key = none
  missing : ∀ key, key ∈ st.2 ↔ key ∈ keys ∧ o key = none

namespace LookupState
variable {put : HashMap Key W → Key → W → HashMap Key W} {keys : List Key} {o o' : Key → Option W}
  {st : HashMap Key W × HashSet Key}

lemma congr (h : LookupState keys o st) (ho : ∀ key ∈ keys, o key = o' key) :
    LookupState keys o' st := by
  refine ⟨fun key hk => (h.found key hk).trans (ho key hk), h.foreign, ?_⟩
  intro key
  rw [h.missing]
  exact and_congr_right fun hk => by rw [ho key hk]

lemma isSome_of_not_missing (h : LookupState keys o st) {key : Key} (hk : key ∈ keys)
    (hm : key ∉ st.2) : ∃ v, o key = some v := by
  rw [← isSome_iff_exists, isSome_iff_ne_none]
  exact fun ho => hm ((h.missing key).mpr ⟨hk, ho⟩)

section
variable (hput : ∀ m k v, k ∉ m → put m k v = AList.insert k v m) (h : LookupState keys o st)
include hput h

/-- One entry of a block is stored if its key is still missing. -/
lemma take (e : Key × W) :
    LookupState keys (fun key => (o key).or (if e.1 = key then some e.2 else none))
      (if e.1 ∈ st.2 then (put st.1 e.1 e.2, AList.erase e.1 st.2) else st) := by
  by_cases hm : e.1 ∈ st.2
  · obtain ⟨hk, ho⟩ := (h.missing e.1).mp hm
    have hvacant : e.1 ∉ st.1 := by
      rw [← lookup_eq_none, h.found e.1 hk, ho]
    rw [if_pos hm, hput _ _ _ hvacant]
    refine ⟨?_, ?_, ?_⟩
    · intro key hkey
      rw [lookup_insert_ite, h.found key hkey]
      by_cases hkey : key = e.1
      · subst hkey
        simp [ho]
      · simp [hkey, Ne.symm hkey]
    · intro key hkey
      have hne : key ≠ e.1 := fun he => hkey (he ▸ hk)
      rw [lookup_insert_ne hne]
      exact h.foreign key hkey
    · intro key
      rw [mem_erase, h.missing]
      by_cases hkey : key = e.1
      · subst hkey
        simp
      · simp [hkey, Ne.symm hkey]
  · rw [if_neg hm]
    refine h.congr ?_
    intro key hk
    by_cases hkey : e.1 = key
    · obtain ⟨v, hv⟩ := h.isSome_of_not_missing hk (hkey ▸ hm)
      rw [hv, some_or]
    · rw [if_neg hkey, or_none]

lemma takeMissing {found : List (Key × W)} (hf : (found.map Prod.fst).Nodup) :
    LookupState keys (fun key => (o key).or (HashMap.lastOf found key))
      (Tycho.takeMissing put found st) := by
  induction found generalizing st o with
  | nil => exact h.congr fun key _ => or_none.symm
  | cons e _ ih =>
    obtain ⟨he, hf⟩ := List.nodup_cons.mp hf
    refine (ih (h.take hput e) hf).congr ?_
    intro key _
    rw [lastOf_cons, Option.or_assoc]
    by_cases hkey : e.1 = key
    · rw [lastOf_eq_none (hkey ▸ he), Option.or_none, Option.none_or]
    · rw [if_neg hkey, Option.none_or, Option.or_none]

end

end LookupState

/-- A lookup finds, for each key it is asked for, what the last block wrote. -/
lemma lookupBuffered_spec {select : HashSet Key → List Key}
    {put : HashMap Key W → Key → W → HashMap Key W} {filtered : B → List Key → HashMap Key W}
    {r : B → Key → Option W} {keys : List Key}
    (hput : ∀ m k v, k ∉ m → put m k v = AList.insert k v m)
    (hselect : ∀ s : HashSet Key, (∀ k ∈ s, k ∈ keys) → ∀ k ∈ s, k ∈ select s)
    (hr : ∀ m ks key, key ∈ ks → (filtered m ks).lookup key = r m key)
    (blocks : List B) :
    LookupState keys (lastWrite r blocks) (lookupBuffered select put filtered blocks keys) := by
  -- induction on the blocks still to visit; `o` is what the visited ones gave
  have hfold : ∀ (l : List B) (o : Key → Option W) (st : HashMap Key W × HashSet Key),
      LookupState keys o st →
      LookupState keys (fun key => (o key).or (l.findSome? fun m => r m key))
        (l.foldl (fun st m => if st.2.keys = [] then st
          else takeMissing put (filtered m (select st.2)).toList st) st) := by
    intro l
    induction l with
    | nil => exact fun o st h => h.congr fun key _ => or_none.symm
    | cons m _ ih =>
      intro o st h
      have hstep : LookupState keys (fun key => (o key).or (r m key)) (if st.2.keys = [] then st
            else takeMissing put (filtered m (select st.2)).toList st) := by
        by_cases hm : st.2.keys = []
        · rw [if_pos hm]
          refine h.congr fun key hk => ?_
          have hnot : key ∉ st.2 := fun hin => by
            rw [mem_keys, hm] at hin
            cases hin
          obtain ⟨v, hv⟩ := h.isSome_of_not_missing hk hnot
          rw [hv, some_or]
        · rw [if_neg hm]
          refine (h.takeMissing hput (nodup_toList _)).congr fun key hk => ?_
          rw [lastOf_toList]
          by_cases hin : key ∈ st.2
          · rw [hr m _ key (hselect st.2 (fun k hk => ((h.missing k).mp hk).1) key hin)]
          · obtain ⟨v, hv⟩ := h.isSome_of_not_missing hk hin
            rw [hv, some_or, some_or]
      refine (ih _ _ hstep).congr fun key _ => ?_
      rw [Option.or_assoc, List.findSome?_cons]
      cases r m key <;> rfl
  have hinit : LookupState keys (fun _ => none) ((∅ : HashMap Key W), ofList keys) := by
    exact ⟨fun _ _ => rfl, fun _ _ => rfl, fun key => by simp⟩
  exact hfold blocks.reverse _ _ hinit

end

section
variable {K L W : Type} [DecidableEq K] [DecidableEq L]

def toNested (res : HashMap (K × L) W) : HashMap K (HashMap L W) :=
  res.toList.foldl (fun m e => HashMap.upsert m e.1.1 ∅ fun i => i.insert e.1.2 e.2) ∅

lemma lookup₂_toNested (res : HashMap (K × L) W) (k : K) (l : L) :
    HashMap.lookup₂ (toNested res) k l = res.lookup (k, l) := by
  refine (read_foldl_toList (k := (k, l)) (fun m => HashMap.lookup₂ m k l) (fun w _ => some w)
    ?_ ?_ res ∅).trans ?_
  · intro m w
    rw [HashMap.lookup₂, lookup_upsert, if_pos rfl, bind_some, lookup_insert_ite, if_pos rfl]
  · rintro m ⟨⟨k', l'⟩, w⟩ hne
    rw [lookup₂_upsert m k' k l _ fun n => lookup_insert_ite n l' l w]
    split_ifs with hk hl
    · exact absurd (Prod.ext hk hl.symm) hne
    · rfl
    · rfl
  · cases res.lookup (k, l) <;> rfl

end
namespace ReorgBuffer

def txs (blocks : List BlockUpdateWithCursor) : List TxWithChanges :=
  blocks.flatMap fun m => m.blockUpdate.txsWithUpdate

section
variable (b : ReorgBuffer BlockUpdateWithCursor)

def lookupProtocolState (keys : List (ComponentId × AttrStoreKey)) :
    HashMap (ComponentId × AttrStoreKey) StoreVal × List (ComponentId × AttrStoreKey) :=
  let st := lookupBuffered AList.keys (fun m k v => m.insert k v)
    (fun m => m.blockUpdate.getFilteredProtocolStateUpdate) b.blockMessages keys
  (st.1, st.2.keys)

def lookupAccountState (keys : List (Address × StoreKey)) :
    HashMap (Address × StoreKey) StoreVal × List (Address × StoreKey) :=
  let st := lookupBuffered AList.keys (fun m k v => m.insert k v)
    (fun m => m.blockUpdate.getFilteredAccountStateUpdate) b.blockMessages keys
  (st.1, st.2.keys)

def lookupComponentBalances (keys : List (ComponentId × Address)) :
    HashMap ComponentId (HashMap Address ComponentBalance) × List (ComponentId × Address) :=
  let st := lookupBuffered (fun _ => keys) HashMap.orInsert
    (fun m => m.blockUpdate.getFilteredComponentBalanceUpdate) b.blockMessages keys
  (toNested st.1, st.2.keys)

def lookupAccountBalances (keys : List (Address × Address)) :
    HashMap Address (HashMap Address AccountBalance) × List (Address × Address) :=
  let st := lookupBuffered (fun _ => keys) HashMap.orInsert
    (fun m => m.blockUpdate.getFilteredAccountBalanceUpdate) b.blockMessages keys
  (toNested st.1, st.2.keys)

end
end ReorgBuffer

namespace TxWithChanges

/-- The value a transaction gives an attribute; deletions are not values. -/
def attributeUpdate (t : TxWithChanges) (key : ComponentId × AttrStoreKey) : Option StoreVal :=
  (t.stateUpdates.lookup key.1).bind fun delta => delta.updatedAttributes.lookup key.2

/-- The value a transaction leaves in a slot; a deleted slot is empty. -/
def slotUpdate (t : TxWithChanges) (key : Address × StoreKey) : Option StoreVal :=
  (t.accountDeltas.lookup key.1).bind fun delta => (delta.slots.lookup key.2).map (·.getD .new)

def componentBalance (t : TxWithChanges) (key : ComponentId × Address) : Option ComponentBalance :=
  t.balanceChanges.lookup₂ key.1 key.2

def accountBalance (t : TxWithChanges) (key : Address × Address) : Option AccountBalance :=
  t.accountBalanceChanges.lookup₂ key.1 key.2

end TxWithChanges

namespace ReorgBuffer
variable (b : ReorgBuffer BlockUpdateWithCursor)

private lemma insert_vacant {Key W : Type} [DecidableEq Key] (m : HashMap Key W) (k : Key)
    (v : W) (h : k ∉ m) : HashMap.orInsert m k v = AList.insert k v m :=
  if_neg h

/-- What a lookup returns: the value for each key, and the keys that are missing. -/
structure Found {Key W : Type} (keys : List Key) (w : Key → Option W) (get : Key → Option W)
    (missing : List Key) : Prop where
  found : ∀ key ∈ keys, get key = w key
  foreign : ∀ key ∉ keys, get key = none
  missing : ∀ key, key ∈ missing ↔ key ∈ keys ∧ w key = none

private lemma found_of_txs {K L D V W : Type} [DecidableEq K] [DecidableEq L]
    (outer : TxWithChanges → HashMap K D) (inner : D → HashMap L V) (value : V → W)
    {r : TxWithChanges → K × L → Option W} {select : HashSet (K × L) → List (K × L)}
    {put : HashMap (K × L) W → K × L → W → HashMap (K × L) W} {keys : List (K × L)}
    {get : K × L → Option W} {blocks : List BlockUpdateWithCursor}
    (hr : ∀ t key, txWrite outer inner value t key = r t key)
    (hput : ∀ m k v, k ∉ m → put m k v = AList.insert k v m)
    (hselect : ∀ s : HashSet (K × L), (∀ k ∈ s, k ∈ keys) → ∀ k ∈ s, k ∈ select s)
    (hget : ∀ key, get key = (lookupBuffered select put
      (fun m => filteredUpdate outer inner value m.blockUpdate) blocks keys).1.lookup key) :
    Found keys (lastWrite r (txs blocks)) get (lookupBuffered select put
      (fun m => filteredUpdate outer inner value m.blockUpdate) blocks keys).2.keys := by
  have hr : txWrite outer inner value = r := funext fun t => funext fun key => hr t key
  subst hr
  have h := (lookupBuffered_spec hput hselect
    (fun m ks key hk => lookup_filteredUpdate outer inner value m.blockUpdate hk) blocks).congr
    fun key _ => (lastWrite_flatMap _ _ _ _).symm
  exact ⟨fun key hk => (hget key).trans (h.found key hk),
    fun key hk => (hget key).trans (h.foreign key hk), h.missing⟩

lemma lookupProtocolState_spec (keys : List (ComponentId × AttrStoreKey)) :
    Found keys (lastWrite attributeUpdate (txs b.blockMessages))
      (b.lookupProtocolState keys).1.lookup (b.lookupProtocolState keys).2 :=
  found_of_txs stateUpdates updatedAttributes id (fun t key => by simp [txWrite, attributeUpdate])
    (fun _ _ _ _ => rfl) (fun _ _ _ hk => hk) fun _ => rfl

lemma lookupAccountState_spec (keys : List (Address × StoreKey)) :
    Found keys (lastWrite slotUpdate (txs b.blockMessages))
      (b.lookupAccountState keys).1.lookup (b.lookupAccountState keys).2 :=
  found_of_txs accountDeltas AccountDelta.slots (fun v => v.getD .new)
    (fun _ _ => rfl) (fun _ _ _ _ => rfl) (fun _ _ _ hk => hk) fun _ => rfl

lemma lookupComponentBalances_spec (keys : List (ComponentId × Address)) :
    Found keys (lastWrite componentBalance (txs b.blockMessages))
      (fun k => (b.lookupComponentBalances keys).1.lookup₂ k.1 k.2)
      (b.lookupComponentBalances keys).2 :=
  found_of_txs balanceChanges id id
    (fun t key => by simp [txWrite, componentBalance, HashMap.lookup₂])
    insert_vacant (fun _ hs => hs) fun key => lookup₂_toNested _ key.1 key.2

lemma lookupAccountBalances_spec (keys : List (Address × Address)) :
    Found keys (lastWrite accountBalance (txs b.blockMessages))
      (fun k => (b.lookupAccountBalances keys).1.lookup₂ k.1 k.2)
      (b.lookupAccountBalances keys).2 :=
  found_of_txs accountBalanceChanges id id
    (fun t key => by simp [txWrite, accountBalance, HashMap.lookup₂])
    insert_vacant (fun _ hs => hs) fun key => lookup₂_toNested _ key.1 key.2

end ReorgBuffer
end Tycho
