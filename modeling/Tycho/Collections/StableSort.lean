import Mathlib.Data.List.Sort

/-! Stable sorting by a numeric key, seen through the elements that share a key. -/
namespace Collections
open List
variable {A : Type} {key : A → Nat}

def atKey (key : A → Nat) (i : Nat) (l : List A) : List A := l.filter fun a => key a = i

def sortBy (key : A → Nat) (l : List A) : List A := l.insertionSort fun a b => key a ≤ key b

@[simp] lemma atKey_append (i : Nat) (l l' : List A) :
    atKey key i (l ++ l') = atKey key i l ++ atKey key i l' :=
  filter_append _ _

lemma sortBy_sorted (l : List A) : (sortBy key l).Pairwise fun a b => key a ≤ key b := by
  have htotal : Std.Total fun a b : A => key a ≤ key b := ⟨fun a b => Nat.le_total _ _⟩
  have htrans : IsTrans A fun a b => key a ≤ key b := ⟨fun a b c hab hbc => hab.trans hbc⟩
  exact pairwise_insertionSort _ l

/-- Inserting an element passes only smaller keys, so it comes first among its own. -/
lemma atKey_orderedInsert (i : Nat) (a : A) (l : List A) :
    atKey key i (l.orderedInsert (fun a b => key a ≤ key b) a) = atKey key i (a :: l) := by
  induction l with
  | nil => rfl
  | cons b _ ih =>
    rw [orderedInsert_cons]
    split_ifs with hab
    · rfl
    · have hne : key a ≠ key b := by omega
      unfold atKey at ih ⊢
      rw [filter_cons, ih]
      by_cases ha : key a = i
      · have hb : key b ≠ i := fun hb => hne (ha.trans hb.symm)
        simp [ha, hb]
      · by_cases hb : key b = i <;> simp [ha, hb]

/-- The sort is stable. -/
@[simp] lemma atKey_sortBy (i : Nat) (l : List A) : atKey key i (sortBy key l) = atKey key i l := by
  induction l with
  | nil => rfl
  | cons a l ih =>
    have hcounts : ∀ l' : List A, atKey key i (a :: l') = atKey key i [a] ++ atKey key i l' :=
      fun l' => atKey_append i [a] l'
    calc atKey key i (sortBy key (a :: l)) = atKey key i (a :: sortBy key l) :=
          atKey_orderedInsert i a (sortBy key l)
      _ = atKey key i (a :: l) := by rw [hcounts (sortBy key l), ih, ← hcounts]

/-- Sorted lists are equal if they have the same elements at each key, in the same order. -/
lemma eq_of_sorted {l l' : List A} (hl : l.Pairwise fun a b => key a ≤ key b)
    (hl' : l'.Pairwise fun a b => key a ≤ key b) (h : ∀ i, atKey key i l = atKey key i l') :
    l = l' := by
  induction l generalizing l' with
  | nil =>
    cases l' with
    | nil => rfl
    | cons b =>
      have hb := h (key b)
      simp [atKey] at hb
  | cons a l ih =>
    cases l' with
    | nil =>
      have ha := h (key a)
      simp [atKey] at ha
    | cons b l' =>
      obtain ⟨ha, hl⟩ := pairwise_cons.mp hl
      obtain ⟨hb, htail'⟩ := pairwise_cons.mp hl'
      -- both heads have the smallest key
      have hkey : key a = key b := by
        have hmem : a ∈ atKey key (key a) (b :: l') := by
          rw [← h]
          simp [atKey]
        have hmem' : b ∈ atKey key (key b) (a :: l) := by
          rw [h]
          simp [atKey]
        have hle : key b ≤ key a := by
          rcases mem_cons.mp (mem_of_mem_filter hmem) with rfl | hin
          · exact Nat.le_refl _
          · exact hb a hin
        have hle' : key a ≤ key b := by
          rcases mem_cons.mp (mem_of_mem_filter hmem') with rfl | hin
          · exact Nat.le_refl _
          · exact ha b hin
        omega
      have hhead := h (key a)
      simp only [atKey, filter_cons, decide_true, if_true, hkey] at hhead
      obtain ⟨rfl, htail⟩ := List.cons.inj hhead
      refine congrArg (a :: ·) (ih hl htail' fun i => ?_)
      by_cases hi : key a = i
      · rw [← hi]
        exact htail
      · have hrest := h i
        simpa [atKey, hi] using hrest

lemma sortBy_eq_iff {l l' : List A} :
    sortBy key l = sortBy key l' ↔ ∀ i, atKey key i l = atKey key i l' := by
  constructor
  · intro h i
    rw [← atKey_sortBy i l, h, atKey_sortBy]
  · intro h
    refine eq_of_sorted (sortBy_sorted l) (sortBy_sorted l') fun i => ?_
    rw [atKey_sortBy, atKey_sortBy, h]

/-- Words that commute with each other can be joined in any order. -/
lemma flatMap_perm {B : Type} {f : B → List A} {l l' : List B} (h : l.Perm l')
    (hcomm : ∀ b ∈ l, ∀ c ∈ l, f b ++ f c = f c ++ f b) : l.flatMap f = l'.flatMap f := by
  induction h with
  | nil => rfl
  | cons _ _ ih =>
    rw [flatMap_cons, flatMap_cons,
      ih fun c hc d hd => hcomm c (mem_cons_of_mem _ hc) d (mem_cons_of_mem _ hd)]
  | swap b c =>
    have hbc := hcomm b (by simp) c (by simp)
    simp only [flatMap_cons, ← append_assoc]
    rw [← hbc]
  | trans h₁ _ ih₁ ih₂ =>
    rw [ih₁ hcomm, ih₂ fun b hb c hc => hcomm b (h₁.mem_iff.mpr hb) c (h₁.mem_iff.mpr hc)]

end Collections
