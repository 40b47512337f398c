import Mathlib.Data.List.Nodup

/-! A cache of bounded size that keeps the entries that were pushed last. -/
namespace Collections
open List
variable {K V : Type}

/-- The entries of the cache, the one that was pushed last first. -/
structure LruCache (K V : Type) where
  entries : List (K × V)
  capacity : Nat
  capacity_pos : 0 < capacity
  length_le : entries.length ≤ capacity
deriving DecidableEq

variable {c : LruCache K V} {l : List (K × V)} {k : K} {recent rest : List K}

namespace LruCache
variable [DecidableEq K]

def empty (capacity : Nat) (h : 0 < capacity) : LruCache K V := ⟨[], capacity, h, Nat.zero_le _⟩

def keys (c : LruCache K V) : List K := c.entries.map Prod.fst

def contains (c : LruCache K V) (k : K) : Bool := k ∈ c.keys

/-- An entry with the same key is replaced, and the oldest entry makes room. -/
def push (c : LruCache K V) (k : K) (v : V) : LruCache K V where
  entries := ((k, v) :: c.entries.filter fun e => e.1 ≠ k).take c.capacity
  capacity := c.capacity
  capacity_pos := c.capacity_pos
  length_le := length_take_le _ _

def pushAll (c : LruCache K V) (l : List (K × V)) : LruCache K V :=
  l.foldl (fun c e => c.push e.1 e.2) c

lemma keys_push (c : LruCache K V) (k : K) (v : V) :
    (c.push k v).keys = (k :: c.keys.filter fun k' => k' ≠ k).take c.capacity := by
  unfold keys push
  rw [map_take, map_cons, filter_map]
  rfl

lemma keys_push_of_recent (v : V) (hc : c.keys = (recent ++ rest).take c.capacity)
    (hk : k ∉ recent) :
    ∃ rest, (c.push k v).keys = (k :: recent ++ rest).take c.capacity := by
  refine ⟨(rest.take (c.capacity - recent.length)).filter fun k' => k' ≠ k, ?_⟩
  have hrecent : (recent.take c.capacity).filter (fun k' => k' ≠ k) = recent.take c.capacity := by
    rw [filter_eq_self]
    intro k' hk'
    rw [decide_eq_true_eq]
    rintro rfl
    exact hk (mem_of_mem_take hk')
  obtain ⟨n, hn⟩ := Nat.exists_eq_add_one.mpr c.capacity_pos
  rw [keys_push, hc, take_append, filter_append, hrecent, hn, cons_append,
    take_succ_cons, take_succ_cons, take_append, take_append, take_take,
    length_take, Nat.min_eq_left (Nat.le_succ n),
    show n - min (n + 1) recent.length = n - recent.length by omega]

lemma keys_pushAll (hc : c.keys = (recent ++ rest).take c.capacity) (hl : (l.map Prod.fst).Nodup)
    (hrecent : ∀ e ∈ l, e.1 ∉ recent) :
    ∃ rest, (c.pushAll l).keys = ((l.map Prod.fst).reverse ++ recent ++ rest).take c.capacity := by
  induction l generalizing c recent rest with
  | nil => exact ⟨rest, hc⟩
  | cons e l ih =>
    obtain ⟨hnot, hnodup⟩ := nodup_cons.mp hl
    obtain ⟨rest', hpush⟩ := keys_push_of_recent e.2 hc (hrecent e mem_cons_self)
    obtain ⟨rest'', hall⟩ := ih (c := c.push e.1 e.2) hpush hnodup fun e' he' hmem => by
      rcases mem_cons.mp hmem with heq | hmem
      · exact hnot (heq ▸ mem_map_of_mem he')
      · exact hrecent e' (mem_cons_of_mem e he') hmem
    refine ⟨rest'', ?_⟩
    rw [map_cons, reverse_cons, append_assoc _ [e.1]]
    exact hall

lemma keys_pushAll_new (c : LruCache K V) (hl : (l.map Prod.fst).Nodup) :
    ∃ rest, (c.pushAll l).keys = ((l.map Prod.fst).reverse ++ rest).take c.capacity := by
  have hkeys : c.keys = ([] ++ c.keys).take c.capacity := by
    rw [nil_append, take_of_length_le]
    rw [keys, length_map]
    exact c.length_le
  obtain ⟨rest, hrest⟩ := keys_pushAll hkeys hl fun _ _ => not_mem_nil
  rw [append_nil] at hrest
  exact ⟨rest, hrest⟩

lemma contains_pushAll (c : LruCache K V) (hl : (l.map Prod.fst).Nodup)
    (hfit : l.length ≤ c.capacity) (hk : k ∈ l.map Prod.fst) :
    (c.pushAll l).contains k := by
  obtain ⟨rest, hrest⟩ := c.keys_pushAll_new hl
  unfold contains
  rw [hrest, take_append, take_of_length_le
    (by rw [length_reverse, length_map]; exact hfit), decide_eq_true_eq]
  exact mem_append_left _ (mem_reverse.mpr hk)

/-- If they do not fit, the first of them is pushed out by the others. -/
lemma length_le_of_contains_pushAll {e : K × V} (hl : ((e :: l).map Prod.fst).Nodup)
    (hfirst : (c.pushAll (e :: l)).contains e.1) :
    (e :: l).length ≤ c.capacity := by
  by_contra hlt
  obtain ⟨rest, hrest⟩ := c.keys_pushAll_new hl
  unfold contains at hfirst
  rw [hrest, decide_eq_true_eq, map_cons, reverse_cons, append_assoc, take_append_of_le_length
      (by rw [length_reverse, length_map]; rw [length_cons] at hlt; omega)] at hfirst
  exact (nodup_cons.mp hl).1 (mem_reverse.mp (mem_of_mem_take hfirst))

end LruCache
end Collections
