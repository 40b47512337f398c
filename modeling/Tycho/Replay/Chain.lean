import Mathlib.Data.List.Induction

/-! A chain of numbered messages that is cut back by reverts, and the state at its end. -/
namespace Replay
open List
variable {M X : Type} {number : M → Nat} {revert : M → Bool}

/-- A revert cuts the chain back to its number, every other message is put at the end. -/
def advance (number : M → Nat) (revert : M → Bool) (chain : List M) (m : M) : List M :=
  if revert m then chain.filter fun x => number x ≤ number m else chain ++ [m]

def chainOf (number : M → Nat) (revert : M → Bool) (l : List M) : List M :=
  l.foldl (advance number revert) []

lemma chainOf_concat (l : List M) (m : M) :
    chainOf number revert (l ++ [m]) = advance number revert (chainOf number revert l) m := by
  rw [chainOf, foldl_append]
  rfl

/-- A message that is no revert is not below any message of the chain. -/
def Ascending (number : M → Nat) (revert : M → Bool) (l : List M) : Prop :=
  ∀ l₁ m l₂, l = l₁ ++ m :: l₂ → revert m = false →
    ∀ x ∈ chainOf number revert l₁, number x ≤ number m

/-- A revert brings back the state at the end of the chain that it leaves. -/
def Restoring (number : M → Nat) (revert : M → Bool) (act : X → M → X) (x₀ : X) (l : List M) :
    Prop :=
  ∀ l₁ m l₂, l = l₁ ++ m :: l₂ → revert m = true → act ((chainOf number revert l₁).foldl act x₀) m =
      (chainOf number revert (l₁ ++ [m])).foldl act x₀

/-- Nothing in the chain is above its last message. -/
lemma Ascending.number_le {l : List M} {m : M} (h : Ascending number revert (l ++ [m]))
    {x : M} (hx : x ∈ chainOf number revert (l ++ [m])) : number x ≤ number m := by
  rw [chainOf_concat, advance] at hx
  split_ifs at hx with hrev
  · exact of_decide_eq_true (mem_filter.mp hx).2
  · rcases mem_append.mp hx with hx | hx
    · exact h l m [] rfl (Bool.not_eq_true _ ▸ hrev) x hx
    · have heq : x = m := mem_singleton.mp hx
      exact heq ▸ Nat.le_refl _

/-- Messages above a number leave the chain up to the number as it is. -/
lemma filter_chainOf_append {b : Nat} (l : List M) {r : List M} (h : ∀ m ∈ r, b < number m) :
    (chainOf number revert (l ++ r)).filter (fun x => number x ≤ b) =
      (chainOf number revert l).filter fun x => number x ≤ b := by
  induction r using List.reverseRecOn with
  | nil => rw [append_nil]
  | append_singleton r m ih =>
    have hm : b < number m := h m (by simp)
    rw [← ih fun x hx => h x (mem_append_left _ hx), ← append_assoc, chainOf_concat, advance]
    split_ifs with hrev
    · rw [filter_filter]
      apply filter_congr
      intro x _
      rw [← Bool.decide_and]
      exact decide_eq_decide.mpr ⟨And.left, fun hx => ⟨hx, by omega⟩⟩
    · have hnot : ¬number m ≤ b := by omega
      simp [filter_append, hnot]

/-- The state at the end of the chain is reached message by message, reverts included. -/
lemma foldl_chainOf_append {act : X → M → X} {x₀ : X} (l : List M) {r : List M}
    (h : Restoring number revert act x₀ (l ++ r)) :
    (chainOf number revert (l ++ r)).foldl act x₀ =
      r.foldl act ((chainOf number revert l).foldl act x₀) := by
  induction r using List.reverseRecOn with
  | nil => rw [append_nil, foldl_nil]
  | append_singleton r m ih =>
    have hr : Restoring number revert act x₀ (l ++ r) := by
      intro l₁ m' l₂ heq
      exact h l₁ m' (l₂ ++ [m]) (by rw [← append_assoc, heq]; simp)
    rw [foldl_append, ← ih hr, foldl_cons, foldl_nil]
    by_cases hrev : revert m = true
    · rw [h (l ++ r) m [] (by simp) hrev, append_assoc]
    · rw [← append_assoc, chainOf_concat, advance, if_neg hrev, foldl_append]
      rfl

end Replay
