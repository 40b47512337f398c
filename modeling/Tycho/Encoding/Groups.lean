import Mathlib.Data.List.Induction
import Tycho.Collections.Fallible
import Tycho.Encoding.Strategies

/-! What the groups of swaps are, and what the check of the splits accepts. -/
namespace Tycho
open Collections List Option

/-- How a group comes about: from one swap, or by the next one that takes what it puts out. -/
inductive SwapGroup.Formed : SwapGroup → Prop
  | start (swap : Swap) (protocol : String) :
    Formed ⟨swap.tokenIn, swap.tokenOut, protocol, [swap], swap.split⟩
  | merge {g : SwapGroup} (swap : Swap) (h : Formed g) (hin : swap.tokenIn = g.tokenOut)
    (hsplit : swap.split = 0) (hout : swap.tokenOut ≠ g.tokenIn) :
    Formed { g with swaps := g.swaps ++ [swap], tokenOut := swap.tokenOut }

namespace SwapGroup.Formed
variable {g : SwapGroup}

section
variable (h : g.Formed)
include h

lemma eq_cons : ∃ first rest, g.swaps = first :: rest ∧ first.tokenIn = g.tokenIn ∧
      first.split = g.split := by
  induction h with
  | start swap => exact ⟨swap, [], rfl, rfl, rfl⟩
  | merge swap _ _ _ _ ih =>
    obtain ⟨first, rest, hswaps, hin, hsplit⟩ := ih
    exact ⟨first, rest ++ [swap], by simp [hswaps], hin, hsplit⟩

lemma eq_concat : ∃ rest last, g.swaps = rest ++ [last] ∧ last.tokenOut = g.tokenOut := by
  cases h with
  | start swap => exact ⟨[], swap, rfl, rfl⟩
  | merge swap => exact ⟨_, swap, rfl, rfl⟩

/-- A group from a token to itself is one swap. -/
lemma of_self (hself : g.tokenIn = g.tokenOut) :
    ∃ swap, g.swaps = [swap] ∧ swap.tokenIn = g.tokenIn ∧ swap.tokenOut = g.tokenOut := by
  cases h with
  | start swap => exact ⟨swap, rfl, rfl, rfl⟩
  | merge _ _ _ _ hout => exact absurd hself.symm hout

/-- Inside a group each swap takes all that the one before it puts out. -/
lemma link {p q : List Swap} {a b : Swap} (hswaps : g.swaps = p ++ a :: b :: q) :
    b.tokenIn = a.tokenOut ∧ b.split = 0 := by
  induction h generalizing q with
  | start =>
    have hlen := congrArg List.length hswaps
    simp only [length_append, length_cons, length_nil] at hlen
    omega
  | @merge g swap h hin hsplit _ ih =>
    obtain rfl | ⟨q, last, rfl⟩ := q.eq_nil_or_concat
    · obtain ⟨rest, last, hrest, hlast⟩ := h.eq_concat
      have heq : rest ++ [last, swap] = p ++ [a, b] := by simpa [hrest] using hswaps
      obtain ⟨-, hpairwise⟩ := append_inj' heq rfl
      cases hpairwise
      exact ⟨hin.trans hlast.symm, hsplit⟩
    · have heq : g.swaps ++ [swap] = (p ++ a :: b :: q) ++ [last] := by simpa using hswaps
      exact ih (append_inj' heq rfl).1

end

end SwapGroup.Formed

def swapsOf (groups : List SwapGroup) : List Swap := groups.flatMap SwapGroup.swaps

@[simp] lemma swapsOf_nil : swapsOf [] = [] := rfl

@[simp] lemma swapsOf_cons (g : SwapGroup) (groups : List SwapGroup) :
    swapsOf (g :: groups) = g.swaps ++ swapsOf groups := flatMap_cons

@[simp] lemma swapsOf_append (groups groups' : List SwapGroup) :
    swapsOf (groups ++ groups') = swapsOf groups ++ swapsOf groups' := flatMap_append

variable {swaps : List Swap} {token : Address}

namespace Grouping

/-- What the loop has made of the swaps so far. -/
structure Covers (swaps : List Swap) (st : Grouping) : Prop where
  swapsOf_eq : swapsOf (st.groupedSwaps ++ st.currentGroup.toList) = swaps
  formed : ∀ g ∈ st.groupedSwaps ++ st.currentGroup.toList, g.Formed
  lastOut : ∀ g ∈ st.currentGroup, st.lastSwapOutToken = g.tokenOut
  lastProtocol : st.currentGroup = none → st.lastSwapProtocol = ""

lemma covers_start : Covers [] start where
  swapsOf_eq := rfl
  formed := by simp [start]
  lastOut := by simp [start]
  lastProtocol _ := rfl

lemma merges_eq_true {st : Grouping} {swap : Swap} (h : st.merges swap) :
    normalizedProtocol swap = st.lastSwapProtocol ∧
      normalizedProtocol swap ∈ GROUPABLE_PROTOCOLS ∧ swap.split = 0 ∧
      swap.tokenIn = st.lastSwapOutToken ∧ ∀ g ∈ st.currentGroup, swap.tokenOut ≠ g.tokenIn := by
  simpa [merges, Option.all_eq_true, and_assoc] using h

lemma Covers.addSwap {st : Grouping} (h : Covers swaps st) (swap : Swap) :
    Covers (swaps ++ [swap]) (st.addSwap swap) := by
  unfold Grouping.addSwap
  split_ifs with hmerges
  · obtain ⟨hprotocol, hgroupable, hsplit, hin, hout⟩ := merges_eq_true hmerges
    cases hg : st.currentGroup with
    | none =>
      -- no protocol that is grouped has the empty name
      rw [h.lastProtocol hg] at hprotocol
      rw [hprotocol] at hgroupable
      exact absurd hgroupable (by decide)
    | some g =>
      have hformed := h.formed
      have hswaps := h.swapsOf_eq
      simp only [hg, toList_some, mem_append, mem_singleton, swapsOf_append,
        swapsOf_cons, swapsOf_nil, append_nil] at hformed hswaps
      refine ⟨by simp [← hswaps], ?_, by simp, by simp⟩
      simp only [map_some, toList_some, mem_append, mem_singleton]
      rintro g' (hg' | rfl)
      · exact hformed g' (.inl hg')
      · exact .merge swap (hformed g (.inr rfl)) (hin.trans (h.lastOut g hg)) hsplit (hout g hg)
  · have hswaps := h.swapsOf_eq
    refine ⟨by simp [← hswaps], ?_, by simp, by simp⟩
    intro g hg
    rw [toList_some, mem_append, mem_singleton] at hg
    obtain hg | rfl := hg
    · exact h.formed g hg
    · exact .start swap _

lemma covers_foldl (swaps : List Swap) : Covers swaps (swaps.foldl addSwap start) := by
  induction swaps using List.reverseRecOn with
  | nil => exact covers_start
  | append_singleton _ swap ih =>
    rw [foldl_append]
    exact ih.addSwap swap

end Grouping

/-- Grouping keeps every swap in its place. -/
lemma swapsOf_groupSwaps (swaps : List Swap) : swapsOf (groupSwaps swaps) = swaps :=
  (Grouping.covers_foldl swaps).swapsOf_eq

lemma formed_of_mem_groupSwaps {g : SwapGroup} (hg : g ∈ groupSwaps swaps) :
    g.Formed :=
  (Grouping.covers_foldl swaps).formed g hg

/-- The groups are the swaps in their order, cut into paths. -/
theorem groupSwaps_paths (swaps : List Swap) : swapsOf (groupSwaps swaps) = swaps ∧
    ∀ g ∈ groupSwaps swaps,
      (∃ first rest, g.swaps = first :: rest ∧ first.tokenIn = g.tokenIn ∧
        first.split = g.split) ∧
      (∃ rest last, g.swaps = rest ++ [last] ∧ last.tokenOut = g.tokenOut) ∧
      ∀ p a b q, g.swaps = p ++ a :: b :: q → b.tokenIn = a.tokenOut ∧ b.split = 0 := by
  refine ⟨swapsOf_groupSwaps swaps, fun g hg => ?_⟩
  have h := formed_of_mem_groupSwaps hg
  exact ⟨h.eq_cons, h.eq_concat, fun _ _ _ _ => h.link⟩

def swapsFrom (token : Address) (swaps : List Swap) : List Swap :=
  swaps.filter fun swap => swap.tokenIn = token

@[simp] lemma mem_swapsFrom {swap : Swap} :
    swap ∈ swapsFrom token swaps ↔ swap ∈ swaps ∧ swap.tokenIn = token := by
  simp [swapsFrom]

namespace SplitSwapValidator

/-- The swaps of one token: parts of the total, and last the remainder. -/
structure Parts (init : List Swap) (last : Swap) : Prop where
  remainder : last.split = 0
  part : ∀ swap ∈ init, 0 < swap.split ∧ swap.split < 1
  total : (init.map Swap.split).sum < 1

lemma valuesAt_swaps (swaps : List Swap) (token : Address) :
    valuesAt (swaps.map fun swap => (swap.tokenIn, swap)) token = swapsFrom token swaps := by
  induction swaps with
  | nil => rfl
  | cons swap _ ih =>
    rw [map_cons, valuesAt_cons, ih, swapsFrom, swapsFrom, filter_cons]
    by_cases htoken : swap.tokenIn = token <;> simp [htoken]

lemma scanSplits_eq_ok {total total' : ℚ} (h : scanSplits token total swaps = .ok (true, total')) :
    ∃ init last, swaps = init ++ [last] ∧ last.split = 0 ∧ (∀ swap ∈ init, 0 < swap.split) ∧
      total' = total + (init.map Swap.split).sum := by
  induction swaps generalizing total with
  | nil => simp [scanSplits] at h
  | cons swap _ ih =>
    rw [scanSplits] at h
    split_ifs at h with hzero hlast hneg
    · cases h
      exact ⟨[], swap, by rw [hlast, nil_append], hzero, by simp, by simp⟩
    · obtain ⟨init, last, rfl, hlast, hparts, htotal⟩ := ih h
      refine ⟨swap :: init, last, rfl, hlast, ?_, ?_⟩
      · intro s hs
        obtain rfl | hs := mem_cons.mp hs
        · exact lt_of_le_of_ne (not_lt.mp hneg) (Ne.symm hzero)
        · exact hparts s hs
      · rw [htotal, map_cons, sum_cons, add_assoc]

variable {showF64 : ℚ → String} {order : VisitOrder}

lemma validateTokenSplits_eq_ok (h : validateTokenSplits showF64 token swaps = .ok ()) :
    ∃ init last, swaps = init ++ [last] ∧ last.split = 0 ∧ (∀ swap ∈ init, 0 < swap.split) ∧
      (init.map Swap.split).sum < 1 := by
  unfold validateTokenSplits at h
  split at h
  case h_1 swap =>
    split_ifs at h with hzero
    exact ⟨[], swap, rfl, not_not.mp hzero, by simp, by simp⟩
  case h_2 =>
    obtain ⟨⟨found, total⟩, hscan, h⟩ := ok_of_bind_ok h
    dsimp only at h
    split_ifs at h with hfound htotal
    obtain ⟨init, last, rfl, hlast, hparts, rfl⟩ := scanSplits_eq_ok (hfound ▸ hscan)
    exact ⟨init, last, rfl, hlast, hparts, by simpa using htotal⟩

lemma forM_eq_ok {A E : Type} {f : A → Except E Unit} {l : List A} (h : l.forM f = .ok ()) :
    ∀ a ∈ l, f a = .ok () := by
  induction l with
  | nil => simp
  | cons a _ ih =>
    obtain ⟨_, ha, h⟩ := ok_of_bind_ok h
    exact forall_mem_cons.mpr ⟨ha, ih h⟩

/-- What the check of the splits accepts, for each token that is taken. -/
lemma parts_of_validated (h : validateSplitPercentages showF64 order swaps = .ok ())
    (token : Address) (htoken : swapsFrom token swaps ≠ []) :
    ∃ init last, swapsFrom token swaps = init ++ [last] ∧ Parts init last := by
  unfold validateSplitPercentages at h
  split at h
  case h_1 => cases h
  case h_2 hfind =>
    have hmem : (token, swapsFrom token swaps) ∈ (swapsByToken swaps).toList := by
      rw [HashMap.mem_toList, swapsByToken, lookup_group, valuesAt_swaps, if_neg htoken]
    obtain ⟨init, last, heq, hlast, hparts, htotal⟩ :=
      validateTokenSplits_eq_ok (forM_eq_ok h _ (order.mem_visit.mpr hmem))
    refine ⟨init, last, heq, hlast, fun swap hswap => ⟨hparts swap hswap, ?_⟩, htotal⟩
    have hin : swap ∈ swapsFrom token swaps := by
      change swap ∈ (token, swapsFrom token swaps).2
      rw [heq]
      exact mem_append_left [last] hswap
    have hbelow := List.find?_eq_none.mp hfind swap (mem_swapsFrom.mp hin).1
    simpa using hbelow

end SplitSwapValidator

end Tycho
