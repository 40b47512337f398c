import Mathlib.Data.List.Chain
import Mathlib.Data.List.Infix

/-! Lists whose elements are numbered consecutively. -/
namespace Collections
open List
variable {B : Type} {num : B → Nat}

lemma isChain_concat {R : B → B → Prop} {l : List B} {b : B} (h : l.IsChain R)
    (hb : ∀ a ∈ l.getLast?, R a b) : (l ++ [b]).IsChain R := by
  refine isChain_append.mpr ⟨h, isChain_singleton b, ?_⟩
  intro a ha b' hb'
  cases hb'
  exact hb a ha

/-- Each element has the number after its predecessor's. -/
def Contiguous (num : B → Nat) (l : List B) : Prop :=
  l.IsChain fun a b => num b = num a + 1

variable {l : List B} {l' : List B} {b first last a : B} {v : Nat} {p : B → Bool}

namespace Contiguous

lemma pairwise (h : Contiguous num l) : l.Pairwise fun a b => num a < num b := by
  have hlt : l.IsChain fun a b => num a < num b := List.IsChain.imp (fun a b hab => by omega) h
  have htrans : IsTrans B fun a b => num a < num b := ⟨fun a b c hab hbc => Nat.lt_trans hab hbc⟩
  exact isChain_iff_pairwise.mp hlt

lemma of_append_left (h : Contiguous num (l ++ l')) : Contiguous num l :=
  (isChain_append.mp h).1

lemma of_append_right (h : Contiguous num (l ++ l')) : Contiguous num l' :=
  (isChain_append.mp h).2.1

section
variable (h : Contiguous num l)
include h

lemma concat (hb : ∀ a, l.getLast? = some a → num b = num a + 1) : Contiguous num (l ++ [b]) := by
  exact isChain_concat h hb

section
variable (hf : l.head? = some first) (hl : l.getLast? = some last)
include hf hl

/-- Every number between that of the first and that of the last element is taken, once. -/
lemma split (hv : num first ≤ v) (hv' : v ≤ num last) :
    ∃ l₁ m l₂, l = l₁ ++ m :: l₂ ∧ num m = v ∧ (∀ a ∈ l₁, num a < v) ∧ ∀ a ∈ l₂, v < num a := by
  induction l generalizing first with
  | nil => cases hf
  | cons a l ih =>
    have hfirst : a = first := Option.some.inj hf
    subst a
    obtain ⟨hlt, -⟩ := pairwise_cons.mp h.pairwise
    by_cases ha : num first = v
    · exact ⟨[], first, l, rfl, ha, by simp, fun b hb => ha ▸ hlt b hb⟩
    · cases l with
      | nil =>
        have hlast : first = last := Option.some.inj hl
        subst last
        omega
      | cons b l =>
        have hb : num b = num first + 1 := (isChain_cons_cons.mp h).1
        have hrest : Contiguous num (b :: l) := (isChain_cons_cons.mp h).2
        obtain ⟨l₁, m, l₂, heq, hm, h₁, h₂⟩ := ih hrest rfl (by simpa using hl) (by omega)
        exact ⟨first :: l₁, m, l₂, by rw [heq]; rfl, hm, forall_mem_cons.mpr ⟨by omega, h₁⟩, h₂⟩

lemma bounds (ha : a ∈ l) : num first ≤ num a ∧ num a ≤ num last := by
  constructor
  · obtain ⟨tail, rfl⟩ := List.head?_eq_some_iff.mp hf
    rcases mem_cons.mp ha with rfl | ha
    · exact Nat.le_refl _
    · exact ((pairwise_cons.mp h.pairwise).1 a ha).le
  · obtain ⟨front, rfl⟩ := List.getLast?_eq_some_iff.mp hl
    rcases mem_append.mp ha with ha | ha
    · exact ((pairwise_append.mp h.pairwise).2.2 a ha last (by simp)).le
    · rw [mem_singleton.mp ha]

end

lemma exists_number (ha : a ∈ l) (hb : b ∈ l) (hav : num a ≤ v)
    (hvb : v ≤ num b) : ∃ m ∈ l, num m = v := by
  have hne : l ≠ [] := ne_nil_of_mem ha
  obtain ⟨first, hf⟩ : ∃ first, l.head? = some first := ⟨_, List.head?_eq_some_head hne⟩
  obtain ⟨last, hl⟩ : ∃ last, l.getLast? = some last := ⟨_, List.getLast?_eq_some_getLast hne⟩
  have hfirst := (h.bounds hf hl ha).1
  have hlast := (h.bounds hf hl hb).2
  obtain ⟨l₁, m, l₂, rfl, hm, -, -⟩ := h.split hf hl (hfirst.trans hav) (hvb.trans hlast)
  exact ⟨m, by simp, hm⟩

end

end Contiguous

section
variable {l₁ l₂ : List B} {m : B} {v : Nat}

section
variable (hm : num m = v) (h₁ : ∀ a ∈ l₁, num a < v) (h₂ : ∀ a ∈ l₂, v < num a)
include hm h₁ h₂

lemma filter_le_of_split : (l₁ ++ m :: l₂).filter (fun a => num a ≤ v) = l₁ ++ [m] := by
  have hl₁ : l₁.filter (fun a => num a ≤ v) = l₁ := by
    rw [filter_eq_self]
    intro a ha
    simpa using (h₁ a ha).le
  have hl₂ : l₂.filter (fun a => num a ≤ v) = [] := by
    rw [filter_eq_nil_iff]
    intro a ha
    simpa using h₂ a ha
  rw [filter_append, hl₁, filter_cons, if_pos (by simpa using hm.le), hl₂]

lemma filter_ge_of_split : (l₁ ++ m :: l₂).filter (fun a => v ≤ num a) = m :: l₂ := by
  have hl₁ : l₁.filter (fun a => v ≤ num a) = [] := by
    rw [filter_eq_nil_iff]
    intro a ha
    simpa using h₁ a ha
  have hl₂ : l₂.filter (fun a => v ≤ num a) = l₂ := by
    rw [filter_eq_self]
    intro a ha
    simpa using (h₂ a ha).le
  rw [filter_append, hl₁, filter_cons, if_pos (by simpa using hm.ge), hl₂, nil_append]

end

/-- An element of an ascending list has the smaller ones before it and the larger ones after
it. -/
lemma split_of_mem (h : l.Pairwise fun a b => num a < num b) (hm : m ∈ l) :
    ∃ l₁ l₂, l = l₁ ++ m :: l₂ ∧ (∀ a ∈ l₁, num a < num m) ∧ ∀ a ∈ l₂, num m < num a := by
  obtain ⟨l₁, l₂, rfl⟩ := append_of_mem hm
  obtain ⟨-, hright, hcross⟩ := pairwise_append.mp h
  exact ⟨l₁, l₂, rfl, fun a ha => hcross a ha m mem_cons_self, (pairwise_cons.mp hright).1⟩

/-- The first element that satisfies a predicate, when the elements before it do not. -/
lemma findIdx?_of_split (hm : p m = true) (h₁ : ∀ a ∈ l₁, p a = false) :
    (l₁ ++ m :: l₂).findIdx? p = some l₁.length := by
  have hn : l₁.findIdx? p = none := List.findIdx?_eq_none_iff.mpr h₁
  rw [List.findIdx?_append, hn, List.findIdx?_cons, if_pos hm]
  simp

lemma exists_first {P : B → Prop} (ha : a ∈ l) (h : P a) :
    ∃ l₁ m l₂, l = l₁ ++ m :: l₂ ∧ P m ∧ ∀ b ∈ l₁, ¬P b := by
  classical
  have hsome : (l.find? fun b => P b).isSome := List.find?_isSome.mpr ⟨a, ha, by simpa using h⟩
  obtain ⟨m, hm⟩ := Option.isSome_iff_exists.mp hsome
  obtain ⟨hp, l₁, l₂, heq, hfront⟩ := List.find?_eq_some_iff_append.mp hm
  exact ⟨l₁, m, l₂, heq, by simpa using hp, fun b hb => by simpa using hfront b hb⟩

lemma split_of_findIdx? {i : Nat} (h : l.findIdx? p = some i) :
    ∃ l₁ m l₂, l = l₁ ++ m :: l₂ ∧ l₁.length = i ∧ p m = true ∧ ∀ a ∈ l₁, p a = false := by
  induction l generalizing i with
  | nil => cases h
  | cons a l ih =>
    rw [List.findIdx?_cons] at h
    by_cases ha : p a = true
    · rw [if_pos ha] at h
      cases h
      exact ⟨[], a, l, rfl, rfl, ha, fun _ hm => by cases hm⟩
    · rw [if_neg ha] at h
      obtain ⟨j, hj, rfl⟩ := Option.map_eq_some_iff.mp h
      obtain ⟨l₁, m, l₂, rfl, rfl, hm, hl₁⟩ := ih hj
      exact ⟨a :: l₁, m, l₂, rfl, rfl, hm, forall_mem_cons.mpr ⟨Bool.eq_false_iff.mpr ha, hl₁⟩⟩

end
end Collections
