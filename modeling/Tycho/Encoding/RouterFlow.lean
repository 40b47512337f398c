import Tycho.Encoding.TokenFlow
import Tycho.Execution.Hops

/-! The loop of `_splitSwap` over token indices refines the rule over tokens: what the router
computes for the hops of a split swap is an execution with pools that pay what the hops paid. -/
namespace Tycho
open Collections List Function Replay.Program TychoRouter

namespace TokenFlow
variable {givenToken : Address} {pools pools' : Nat → Nat → Nat} {st st' : FlowState}
  {groups : List SwapGroup} {g : SwapGroup}

/-- Only the pools of the swaps matter. -/
lemma fed_congr {n : Nat} (swaps : List Swap) (amount : Nat)
    (h : ∀ k, n ≤ k → k < n + swaps.length → pools k = pools' k) :
    fed pools n swaps amount = fed pools' n swaps amount ∧
      fedOutput pools n swaps amount = fedOutput pools' n swaps amount := by
  induction swaps generalizing n amount with
  | nil => exact ⟨rfl, rfl⟩
  | cons swap swaps ih =>
    rw [length_cons] at h
    obtain ⟨hfed, hout⟩ := ih (n := n + 1) (pools n amount)
      fun k hk hlt => h k (by omega) (by omega)
    rw [h n (le_refl n) (by omega)] at hfed hout
    rw [fed, fed, fedOutput, fedOutput, h n (le_refl n) (by omega), hfed, hout]
    exact ⟨rfl, rfl⟩

lemma execute_congr (h : ∀ k, st.inputs.length ≤ k → pools k = pools' k) :
    execute givenToken pools groups st = execute givenToken pools' groups st := by
  induction groups generalizing st with
  | nil => rfl
  | cons g groups ih =>
    have hhop : executeHop givenToken pools st g = executeHop givenToken pools' st g := by
      obtain ⟨hfed, hout⟩ := fed_congr g.swaps (hopInput st g) fun k hk _ => h k hk
      rw [executeHop, executeHop]
      simp only [hfed, hout]
    rw [execute_cons, execute_cons, ← hhop]
    cases hnext : executeHop givenToken pools st g with
    | none => rfl
    | some st₁ =>
      refine ih fun k hk => h k (le_trans ?_ hk)
      rw [inputs_of_executeHop hnext, length_append]
      omega

/-- The last pool pays the output of a hop. -/
lemma fedOutput_const {swaps : List Swap} (hne : swaps ≠ []) (n amount out : Nat) :
    fedOutput (fun _ _ => out) n swaps amount = out := by
  obtain ⟨init, last, rfl⟩ := (eq_nil_or_concat' swaps).resolve_left hne
  rw [fedOutput_append]
  rfl

/-- The arrays of the router hold the amounts of the tokens at their positions. -/
structure Tracks (tokens : List Address) (st : FlowState) (arrays : SplitAmounts) : Prop where
  amounts : ∀ i token, tokens[i]? = some token → arrays.amounts i = st.amounts token
  remaining : ∀ i token, tokens[i]? = some token → arrays.remainingAmounts i = st.remaining token
  cyclic : arrays.cyclicSwapAmountOut = st.cyclicSwapAmountOut

/-- The positions of the tokens of a hop and its share, as they are encoded. -/
structure Encodes (tokens : List Address) (args : SplitArgs) (g : SwapGroup) : Prop where
  tokenIn : tokens[args.tokenInIndex]? = some g.tokenIn
  tokenOut : tokens[args.tokenOutIndex]? = some g.tokenOut
  split : args.split = percentageToUint24 g.split

section
variable {tokens : List Address} {arrays arrays' : SplitAmounts} {args : SplitArgs}

lemma getElem?_inj_of_nodup (hnodup : tokens.Nodup) {i j : Nat} {a b : Address}
    (hi : tokens[i]? = some a) (hj : tokens[j]? = some b) : i = j ↔ a = b := by
  constructor
  · rintro rfl
    exact Option.some.inj (hi.symm.trans hj)
  · rintro rfl
    obtain ⟨hlt, -⟩ := List.getElem?_eq_some_iff.mp hi
    exact (List.getElem?_inj hlt hnodup).mp (hi.trans hj.symm)

lemma tracks_start (hnodup : tokens.Nodup) (hgiven : tokens[0]? = some givenToken)
    (amountIn : Nat) : Tracks tokens (start givenToken amountIn)
      ⟨fun i => if i = 0 then amountIn else 0, fun i => if i = 0 then amountIn else 0, 0⟩ := by
  have hat : ∀ i token, tokens[i]? = some token →
      (if i = 0 then amountIn else 0) = update (0 : Address → Nat) givenToken amountIn token := by
    intro i token hi
    rw [update_apply]
    simp only [getElem?_inj_of_nodup hnodup hi hgiven, Pi.zero_apply]
  exact ⟨hat, hat, rfl⟩

lemma hopInput_of_splitAmountIn {s s' : RouterState} {amount : Nat}
    (htracks : Tracks tokens st arrays) (hencodes : Encodes tokens args g)
    (h : splitAmountIn arrays args s = .ok (amount, s')) : amount = hopInput st g := by
  unfold splitAmountIn at h
  rw [hopInput, splitInput, ← hencodes.split, ← htracks.amounts _ _ hencodes.tokenIn,
    ← htracks.remaining _ _ hencodes.tokenIn]
  split_ifs at h ⊢
  · simp only [bind_eq_ok, checkedUint256_eq_ok, pure_eq_ok] at h
    obtain ⟨_, _, ⟨-, rfl, -⟩, rfl, -⟩ := h
    rfl
  · exact (pure_eq_ok.mp h).1.symm

/-- A hop does to the arrays what it does to the amounts of the tokens. -/
lemma Tracks.settled (hnodup : tokens.Nodup) (hgiven : tokens[0]? = some givenToken)
    (htracks : Tracks tokens st arrays) (hencodes : Encodes tokens args g)
    (amount out : Nat) (inputs : List Nat) :
    Tracks tokens (settled givenToken st g.tokenIn amount g.tokenOut out inputs)
      (TychoRouter.afterHop arrays args amount out) := by
  have hzero := getElem?_inj_of_nodup hnodup hencodes.tokenOut hgiven
  have hwith : ∀ i token, tokens[i]? = some token →
      update arrays.remainingAmounts args.tokenOutIndex
        (arrays.remainingAmounts args.tokenOutIndex + out) i =
      remainingWith st g.tokenOut out token := by
    intro i token hi
    simp only [remainingWith, update_apply, getElem?_inj_of_nodup hnodup hi hencodes.tokenOut,
      htracks.remaining _ _ hencodes.tokenOut, htracks.remaining _ _ hi]
  refine ⟨fun i token hi => ?_, fun i token hi => ?_, ?_⟩
  · simp only [TychoRouter.afterHop, TokenFlow.settled, hzero]
    split_ifs with hfirst
    · rw [← htracks.amounts _ _ hi, hzero.mpr hfirst, update_eq_self]
    · simp only [update_apply, getElem?_inj_of_nodup hnodup hi hencodes.tokenOut,
        htracks.amounts _ _ hencodes.tokenOut, htracks.amounts _ _ hi]
  · simp only [TychoRouter.afterHop, TokenFlow.settled]
    rw [hwith _ _ hencodes.tokenIn, update_apply, hwith _ _ hi, update_apply]
    simp only [getElem?_inj_of_nodup hnodup hi hencodes.tokenIn]
  · simp only [TychoRouter.afterHop, TokenFlow.settled, hzero, htracks.cyclic]

end

section
variable {env : RouterEnv} {route : Route} {nTokens : Nat} {receiver : Address} {isCyclical : Bool}
  {tokens : List Address} {arrays arrays' : SplitAmounts} {s s' : RouterState}

/-- The element is decoded to the positions and the share of the hop. -/
def DecodesTo (c : Calldata) (tokens : List Address) (element : Slice) (g : SwapGroup) : Prop :=
  ∀ decoded s s', LibSwap.decodeSplitSwap c element s = .ok (decoded, s') →
    Encodes tokens decoded.1 g

/-- A hop of the router is a hop of the tokens, with what the executor has paid as its output. -/
lemma exists_settle_of_splitHop (hnodup : tokens.Nodup) (hgiven : tokens[0]? = some givenToken)
    {i : Nat} {element : Slice} (hdecodes : DecodesTo route.calldata tokens element g)
    (htracks : Tracks tokens st arrays)
    (h : splitHop env route nTokens receiver isCyclical i arrays element s = .ok (arrays', s')) :
    ∃ out, hopInput st g ≤ remainingWith st g.tokenOut out g.tokenIn ∧ ∀ inputs,
      Tracks tokens (settled givenToken st g.tokenIn (hopInput st g) g.tokenOut out inputs)
        arrays' := by
  simp only [splitHop, bind_eq_ok, require_eq_ok] at h
  obtain ⟨decoded, _, hdecoded, _, _, ⟨-, rfl⟩, amount, _, hamount, out, s₁, -, hrecord⟩ := h
  have hencodes := hdecodes decoded _ _ hdecoded
  obtain rfl := hopInput_of_splitAmountIn htracks hencodes hamount
  obtain ⟨rfl, hle, rfl⟩ := of_recordHop_ok hrecord
  refine ⟨out, ?_, fun inputs => htracks.settled hnodup hgiven hencodes _ out inputs⟩
  refine hle.trans (le_of_eq ?_)
  simp only [remainingWith, update_apply,
    getElem?_inj_of_nodup hnodup hencodes.tokenIn hencodes.tokenOut,
    htracks.remaining _ _ hencodes.tokenOut, htracks.remaining _ _ hencodes.tokenIn]

/-- The pools of a hop pay its output, and those of later swaps are as they are. -/
def payingFirst (n out : Nat) (pools : Nat → Nat → Nat) (k : Nat) : Nat → Nat :=
  if k < n then fun _ => out else pools k

/-- The loop over the elements of a split swap is an execution of its hops. -/
lemma exists_execute_of_splitHops (hnodup : tokens.Nodup) (hgiven : tokens[0]? = some givenToken)
    (hgroups : ∀ g ∈ groups, g.tokenIn ≠ g.tokenOut ∧ g.swaps ≠ []) {i : Nat}
    {elements : List Slice}
    (hdecodes : Forall₂ (DecodesTo route.calldata tokens) elements groups)
    (htracks : Tracks tokens st arrays)
    (h : splitHops env route nTokens receiver isCyclical i arrays elements s = .ok (arrays', s')) :
    ∃ pools st', execute givenToken pools groups st = some st' ∧ Tracks tokens st' arrays' := by
  induction hdecodes generalizing i st arrays s with
  | nil =>
    obtain ⟨rfl, -⟩ := pure_eq_ok.mp h
    exact ⟨fun _ _ => 0, st, rfl, htracks⟩
  | @cons element g elements groups hdecodes _ ih =>
    rw [splitHops, bind_eq_ok] at h
    obtain ⟨arrays₁, s₁, hhop, hrest⟩ := h
    obtain ⟨⟨hself, hswaps⟩, hgroups⟩ := forall_mem_cons.mp hgroups
    obtain ⟨out, hle, hsettled⟩ := exists_settle_of_splitHop hnodup hgiven hdecodes htracks hhop
    -- the later pools are known only after this hop, which they do not touch
    obtain ⟨pools, st', hexecute, htracks'⟩ := ih hgroups (hsettled
      (st.inputs ++ fed (fun _ _ => out) st.inputs.length g.swaps (hopInput st g))) hrest
    refine ⟨payingFirst (st.inputs.length + g.swaps.length) out pools, st', ?_, htracks'⟩
    have hpaid : ∀ k, st.inputs.length ≤ k → k < st.inputs.length + g.swaps.length →
        payingFirst (st.inputs.length + g.swaps.length) out pools k = fun _ => out :=
      fun k _ hlt => if_pos hlt
    obtain ⟨hfed, hout⟩ := fed_congr g.swaps (hopInput st g) hpaid
    rw [execute_cons, executeHop, if_neg hself]
    simp only [hfed, hout, fedOutput_const hswaps]
    rw [settle, if_pos hle, Option.bind_some, ← hexecute]
    refine execute_congr fun k hk => if_neg ?_
    rw [TokenFlow.settled, length_append, length_fed] at hk
    omega

/-- A split swap of the router trades what its hops trade. -/
theorem exists_execute_of_splitSwapHops {checkedToken : Address} {amountIn amountOut : Nat}
    (hnodup : tokens.Nodup) (hgiven : tokens[0]? = some givenToken)
    (hchecked : givenToken ≠ checkedToken → tokens[nTokens - 1]? = some checkedToken)
    (hgroups : ∀ g ∈ groups, g.tokenIn ≠ g.tokenOut ∧ g.swaps ≠ [])
    (hdecodes : Forall₂ (DecodesTo route.calldata tokens) (splitElements route.calldata) groups)
    (h : splitSwapHops env amountIn nTokens route receiver (givenToken = checkedToken) s =
      .ok (amountOut, s')) :
    ∃ pools st', execute givenToken pools groups (start givenToken amountIn) = some st' ∧
      TokenFlow.amountOut givenToken checkedToken st' = amountOut := by
  simp only [splitSwapHops, bind_eq_ok, require_eq_ok, pure_eq_ok] at h
  obtain ⟨_, _, ⟨-, rfl⟩, _, _, ⟨-, rfl⟩, arrays, _, hhops, rfl, -⟩ := h
  obtain ⟨pools, st', hexecute, htracks⟩ := exists_execute_of_splitHops hnodup hgiven hgroups
    hdecodes (tracks_start hnodup hgiven amountIn) hhops
  refine ⟨pools, st', hexecute, ?_⟩
  unfold TokenFlow.amountOut
  simp only [decide_eq_true_eq]
  split_ifs with hcyclic
  · exact htracks.cyclic.symm
  · exact (htracks.amounts _ _ (hchecked hcyclic)).symm

end
end TokenFlow
end Tycho
