import Tycho.Encoding.Solution
import Tycho.Execution.Dispatcher

/-! The encoded lists are decoded by the router. -/
namespace Tycho
open LibPrefixLengthEncodedByteArray Calldata

namespace LibPrefixLengthEncodedByteArray

/-- Elements that the loop does not reach stay empty; one more than the size is out of bounds. -/
def toArray (c : Calldata) (encoded : Slice) : Option (List (List UInt8)) :=
  let n := size c encoded
  let elements := takeAll c (n + 1) encoded
  if elements.length ≤ n then some (elements.map c.read ++ List.replicate (n - elements.length) [])
  else none

end LibPrefixLengthEncodedByteArray

namespace Calldata
variable {c : Calldata}

lemma length_read (e : Slice) : (c.read e).length = e.length := by
  rw [read, List.length_map, List.length_range]

lemma lengthAt_lt (offset : Nat) : lengthAt c offset < 65536 := by
  have hhigh := (c.byteAt offset).toNat_lt
  have hlow := (c.byteAt (offset + 1)).toNat_lt
  unfold lengthAt
  omega

end Calldata

/-- An element with its length. -/
def pleElement (actionData : List UInt8) : List UInt8 :=
  [UInt8.ofNat (actionData.length / 256), UInt8.ofNat actionData.length] ++ actionData

@[simp] lemma length_pleElement (e : List UInt8) : (pleElement e).length = e.length + 2 := by
  simp [pleElement]

lemma pleEncode_eq_flatMap (l : List (List UInt8)) : pleEncode l = l.flatMap pleElement := by
  have hfold : ∀ (l : List (List UInt8)) (encoded : List UInt8),
      l.foldl (fun encoded actionData => encoded ++
        [UInt8.ofNat (actionData.length / 256), UInt8.ofNat actionData.length] ++ actionData)
          encoded =
          encoded ++ l.flatMap pleElement := by
    intro l
    induction l with
    | nil => simp
    | cons e l ih =>
      intro encoded
      rw [List.foldl_cons, ih]
      simp [pleElement]
  exact hfold l []

section
variable {c : Calldata} {fuel : Nat}

lemma length_of_mem_takeAll {encoded e : Slice} (h : e ∈ takeAll c fuel encoded) :
    e.length < 65536 := by
  induction fuel generalizing encoded with
  | zero => cases h
  | succ fuel ih =>
    rw [takeAll] at h
    split_ifs at h with hempty
    · cases h
    rcases List.mem_cons.mp h with rfl | h
    · rw [next, if_neg hempty]
      exact lengthAt_lt _
    · exact ih h

lemma length_of_mem_toArray {encoded : Slice} {l : List (List UInt8)}
    (h : toArray c encoded = some l) : ∀ e ∈ l, e.length < 65536 := by
  unfold toArray at h
  dsimp only at h
  split_ifs at h
  cases h
  intro e he
  rcases List.mem_append.mp he with he | he
  · obtain ⟨slice, hslice, rfl⟩ := List.mem_map.mp he
    rw [length_read]
    exact length_of_mem_takeAll hslice
  · rw [List.eq_of_mem_replicate he]
    decide

variable {pre post e : List UInt8} (h : c.swaps = pre ++ (pleElement e ++ post))
include h

lemma byteAt_pleElement {i : Nat} (hi : i < (pleElement e).length) :
    c.byteAt (pre.length + i) = (pleElement e).getD i 0 := by
  unfold byteAt
  rw [h, List.append_assoc, List.append_assoc,
    List.getD_append_right _ _ _ _ (Nat.le_add_right _ _),
    Nat.add_sub_cancel_left, List.getD_append _ _ _ _ hi]

lemma lengthAt_pleElement (he : e.length < 65536) : lengthAt c pre.length = e.length := by
  have hhigh := byteAt_pleElement h (i := 0) (by simp)
  have hlow := byteAt_pleElement h (i := 1) (by simp)
  unfold lengthAt
  rw [Nat.add_zero] at hhigh
  rw [hhigh, hlow]
  simp only [pleElement, List.cons_append, List.nil_append, List.getD_cons_zero,
    List.getD_cons_succ,
    UInt8.toNat_ofNat']
  omega

lemma read_pleElement : c.read ⟨pre.length + 2, e.length⟩ = e := by
  apply List.ext_getElem (length_read _)
  intro i _ hi
  have hbyte := byteAt_pleElement h (i := i + 2) (by simp [hi])
  rw [Nat.add_comm i, ← Nat.add_assoc] at hbyte
  simp only [Calldata.read, List.getElem_map, List.getElem_range, hbyte]
  simp [pleElement, Nat.add_comm 2, hi]

/-- The rest begins after the element, and its length is what remains. -/
lemma next_pleElement (he : e.length < 65536) :
    next c ⟨pre.length, (pleElement e ++ post).length⟩ =
      (⟨pre.length + 2, e.length⟩, ⟨(pre ++ pleElement e).length, post.length⟩) := by
  have hlen := c.length_lt
  have hswaps := congrArg List.length h
  simp only [List.length_append, length_pleElement] at hswaps ⊢
  unfold next
  rw [if_neg (by dsimp only; omega), lengthAt_pleElement h he]
  simp only [Prod.mk.injEq, Slice.mk.injEq, true_and]
  omega

end

section
variable {c : Calldata} {fuel : Nat} {pre : List UInt8} {l : List (List UInt8)}
  (hl : ∀ e ∈ l, e.length < 65536) (hfuel : l.length ≤ fuel)
include hl hfuel

lemma takeAll_pleElements (h : c.swaps = pre ++ l.flatMap pleElement) :
    (takeAll c fuel ⟨pre.length, (l.flatMap pleElement).length⟩).map c.read = l ∧
      sizeFrom c fuel pre.length (pre.length + (l.flatMap pleElement).length) = l.length := by
  induction l generalizing fuel pre with
  | nil => cases fuel <;> simp [sizeFrom, takeAll]
  | cons e l ih =>
    obtain ⟨he, hl⟩ := List.forall_mem_cons.mp hl
    cases fuel with
    | zero => simp at hfuel
    | succ fuel =>
      rw [List.flatMap_cons] at h ⊢
      have hswaps : c.swaps = pre ++ pleElement e ++ l.flatMap pleElement := by simp [h]
      obtain ⟨hread, hsize⟩ := ih hl (Nat.le_of_succ_le_succ hfuel) hswaps
      constructor
      · rw [takeAll, if_neg (by simp), next_pleElement h he, List.map_cons, read_pleElement h,
          hread]
      · rw [List.length_append, length_pleElement, Nat.add_assoc] at hsize
        rw [sizeFrom, if_pos (by simp), lengthAt_pleElement h he, List.length_append,
          length_pleElement, hsize, List.length_cons]

end

lemma length_le_pleEncode (l : List (List UInt8)) : l.length ≤ (pleEncode l).length := by
  rw [pleEncode_eq_flatMap]
  induction l with
  | nil => simp
  | cons e l ih =>
    rw [List.flatMap_cons, List.length_append, List.length_cons, length_pleElement]
    omega

/-- The router decodes what was encoded exactly if two bytes are enough for all lengths. -/
theorem toArray_pleEncode_iff (l : List (List UInt8)) {c : Calldata} (h : c.swaps = pleEncode l) :
    (size c c.swapsSlice = l.length ∧
      (∀ fuel, l.length ≤ fuel → (takeAll c fuel c.swapsSlice).map c.read = l) ∧
      toArray c c.swapsSlice = some l) ↔ ∀ e ∈ l, e.length < 65536 := by
  constructor
  · rintro ⟨-, -, harranged⟩
    exact length_of_mem_toArray harranged
  · intro hl
    have hswaps : c.swaps = [] ++ l.flatMap pleElement := by
      rw [h, pleEncode_eq_flatMap, List.nil_append]
    have hslice : c.swapsSlice = ⟨([] : List UInt8).length, (l.flatMap pleElement).length⟩ := by
      rw [swapsSlice, hswaps, List.nil_append, List.length_nil]
    have hsize : size c c.swapsSlice = l.length := by
      have hfuel := length_le_pleEncode l
      rw [pleEncode_eq_flatMap] at hfuel
      rw [size, hslice]
      exact (takeAll_pleElements hl hfuel hswaps).2
    have hread : ∀ fuel, l.length ≤ fuel → (takeAll c fuel c.swapsSlice).map c.read = l := by
      intro fuel hfuel
      rw [hslice]
      exact (takeAll_pleElements hl hfuel hswaps).1
    refine ⟨hsize, hread, ?_⟩
    have hlength := congrArg List.length (hread (l.length + 1) (Nat.le_succ _))
    rw [List.length_map] at hlength
    unfold toArray
    rw [hsize, if_pos hlength.le, hread _ (Nat.le_succ _), hlength, Nat.sub_self]
    simp

theorem toArray_pleEncode_iff_two : ∃ c : Calldata, c.swaps = pleEncode [[1, 2], []] ∧
    toArray c c.swapsSlice = some [[1, 2], []] := by
  refine ⟨⟨pleEncode [[1, 2], []], [7], by decide⟩, rfl, ?_⟩
  exact ((toArray_pleEncode_iff [[1, 2], []] rfl).mpr (by decide)).2.2

/-- The length of this element is written as zero. -/
theorem toArray_pleEncode_long : ∃ c : Calldata, c.swaps = pleEncode [List.replicate 65536 0] ∧
    toArray c c.swapsSlice ≠ some [List.replicate 65536 0] := by
  have hlength : (pleEncode [List.replicate 65536 0]).length + ([] : List UInt8).length < 2 ^ 64 :=
    by
    rw [pleEncode_eq_flatMap, List.flatMap_cons, List.flatMap_nil, List.append_nil,
      length_pleElement, List.length_replicate]
    decide
  refine ⟨⟨_, [], hlength⟩, rfl, fun harranged => ?_⟩
  have hshare := length_of_mem_toArray harranged _ (List.mem_singleton_self _)
  rw [List.length_replicate] at hshare
  exact absurd hshare (lt_irrefl _)

end Tycho
