import Tycho.Encoding.Groups

/-! The inputs that the router computes from the encoded splits of a token, and the rule by which
it gives each hop its input, over tokens and with pools as functions. The swaps are numbered in
the order of the solution, and each has its own pool. -/
namespace Tycho
open Collections List Function SplitSwapValidator

/-- The input of a hop: a part of all there was of its token, or for the split 0 all that is left
of it. -/
def splitInput (split total remaining : Nat) : Nat :=
  if 0 < split then total * split / MAX_UINT24 else remaining

/-- What is left of a total after the swaps with these splits, `none` where the subtraction
underflows. -/
def remainingAfter (total : Nat) : List Nat → Nat → Option Nat
  | [], remaining => some remaining
  | split :: splits, remaining =>
    let amount := splitInput split total remaining
    if amount ≤ remaining then remainingAfter total splits (remaining - amount) else none

def encodedSplits (swaps : List Swap) : List Nat :=
  swaps.map fun swap => percentageToUint24 swap.split

/-- No part is encoded as the remainder, the parts of an amount are no more than it, and what is
left after them is the true remainder. -/
structure SplitsSurvive (parts : List Swap) : Prop where
  nonzero : ∀ swap ∈ parts, percentageToUint24 swap.split ≠ 0
  sum_le : ∀ amount,
    ((encodedSplits parts).map fun split => amount * split / MAX_UINT24).sum ≤ amount
  remainder : ∀ amount, remainingAfter amount (encodedSplits parts) amount =
    some (amount - ((encodedSplits parts).map fun split => amount * split / MAX_UINT24).sum)

lemma percentageToUint24_ne_zero_iff (decimal : ℚ) :
    percentageToUint24 decimal ≠ 0 ↔ 1 / (2 * MAX_UINT24) ≤ decimal := by
  have hmax : (0 : ℚ) < MAX_UINT24 := by norm_num [MAX_UINT24]
  have hpos : percentageToUint24 decimal ≠ 0 ↔ 1 ≤ ⌊decimal * MAX_UINT24 + 1 / 2⌋ := by
    rw [percentageToUint24]
    omega
  rw [hpos, Int.le_floor, div_le_iff₀ (by positivity)]
  constructor <;> intro h <;> push_cast at * <;> linarith

lemma sum_inputs_le (total : Nat) (splits : List Nat) (h : splits.sum ≤ MAX_UINT24) :
    (splits.map fun split => total * split / MAX_UINT24).sum ≤ total := by
  have hscaled : ∀ splits : List Nat,
      (splits.map fun split => total * split / MAX_UINT24).sum * MAX_UINT24 ≤
        total * splits.sum := by
    intro splits
    induction splits with
    | nil => simp
    | cons split _ ih =>
      have hone : total * split / MAX_UINT24 * MAX_UINT24 ≤ total * split := Nat.div_mul_le_self _ _
      rw [map_cons, sum_cons, sum_cons, Nat.add_mul, Nat.mul_add]
      exact Nat.add_le_add hone ih
  have hbound : total * splits.sum ≤ total * MAX_UINT24 := Nat.mul_le_mul_left total h
  exact Nat.le_of_mul_le_mul_right ((hscaled splits).trans hbound) (by decide)

/-- Splits that are not zero leave what their parts have not taken. -/
lemma remainingAfter_eq {total remaining : Nat} {splits : List Nat}
    (hpos : ∀ split ∈ splits, split ≠ 0)
    (hle : (splits.map fun split => total * split / MAX_UINT24).sum ≤ remaining) :
    remainingAfter total splits remaining =
      some (remaining - (splits.map fun split => total * split / MAX_UINT24).sum) := by
  induction splits generalizing remaining with
  | nil => rfl
  | cons split _ ih =>
    rw [map_cons, sum_cons] at hle
    have hinput : splitInput split total remaining = total * split / MAX_UINT24 :=
      if_pos (Nat.pos_of_ne_zero (hpos split mem_cons_self))
    rw [remainingAfter, hinput, if_pos (by omega),
      ih (fun s hs => hpos s (mem_cons_of_mem split hs)) (by omega), map_cons,
      sum_cons, Nat.sub_sub]

lemma sum_inputs_max (splits : List Nat) :
    (splits.map fun split => MAX_UINT24 * split / MAX_UINT24).sum = splits.sum := by
  have hmap : (fun split => MAX_UINT24 * split / MAX_UINT24) = id :=
    funext fun split => Nat.mul_div_cancel_left split (by decide)
  rw [hmap, map_id]

/-- For the splits of a token that are accepted: they survive the encoding when none is below half
a unit and the encoded ones are no more than the whole. -/
theorem splitsSurvive_iff {showF64 : ℚ → String} {order : VisitOrder} {swaps : List Swap}
    (haccepted : validateSplitPercentages showF64 order swaps = .ok ())
    (token : Address) (parts : List Swap) (last : Swap)
    (hparts : swapsFrom token swaps = parts ++ [last]) :
    (last.split = 0 ∧ (∀ swap ∈ parts, 0 < swap.split ∧ swap.split < 1) ∧
      (parts.map Swap.split).sum < 1) ∧
    (SplitsSurvive parts ↔ (∀ swap ∈ parts, 1 / (2 * MAX_UINT24) ≤ swap.split) ∧
        (encodedSplits parts).sum ≤ MAX_UINT24) := by
  have hne : swapsFrom token swaps ≠ [] := by simp [hparts]
  obtain ⟨init, last', heq, hvalid⟩ := parts_of_validated haccepted token hne
  obtain ⟨rfl, hlast⟩ := append_inj' (hparts.symm.trans heq) rfl
  cases hlast
  refine ⟨⟨hvalid.remainder, hvalid.part, hvalid.total⟩, ?_, ?_⟩
  · intro h
    have hsum := h.sum_le MAX_UINT24
    rw [sum_inputs_max] at hsum
    exact ⟨fun swap hswap => (percentageToUint24_ne_zero_iff _).mp (h.nonzero swap hswap), hsum⟩
  · rintro ⟨hunit, hsum⟩
    have hnonzero : ∀ swap ∈ parts, percentageToUint24 swap.split ≠ 0 :=
      fun swap hswap => (percentageToUint24_ne_zero_iff _).mpr (hunit swap hswap)
    have hle := fun amount => sum_inputs_le amount (encodedSplits parts) hsum
    refine ⟨hnonzero, hle, fun amount => remainingAfter_eq ?_ (hle amount)⟩
    simpa [encodedSplits] using hnonzero

def swapsWithSplits (splits : List ℚ) : List Swap :=
  splits.map (sampleSwap "uniswap_v2" 1 2)

/-- A part below half a unit becomes the remainder, and three parts that are each rounded up by half
a unit are more than the whole. -/
theorem not_splitsSurvive_rounded : (validateSplitPercentages toString .asListed
        (swapsWithSplits [1 / 10 ^ 9, 0]) = .ok () ∧
      ¬ SplitsSurvive (swapsWithSplits [1 / 10 ^ 9])) ∧
    validateSplitPercentages toString .asListed
      (swapsWithSplits [5592404.5 / 16777215, 5592404.5 / 16777215, 5592405.5 / 16777215, 0]) =
        .ok () ∧
    ¬ SplitsSurvive
      (swapsWithSplits [5592404.5 / 16777215, 5592404.5 / 16777215, 5592405.5 / 16777215]) := by
  refine ⟨⟨by decide +kernel, ?_⟩, by decide +kernel, ?_⟩
  · intro h
    exact h.nonzero _ mem_cons_self (by decide +kernel)
  · intro h
    have hsum := h.sum_le MAX_UINT24
    revert hsum
    decide +kernel

/-- Two thirds in two parts. -/
theorem splitsSurvive_iff_thirds : validateSplitPercentages toString .asListed
        (swapsWithSplits [1 / 3, 1 / 3, 0]) = .ok () ∧
      SplitsSurvive (swapsWithSplits [1 / 3, 1 / 3]) := by
  have haccepted : validateSplitPercentages toString .asListed
      (swapsWithSplits [1 / 3, 1 / 3, 0]) = .ok () := by decide +kernel
  have hiff := (splitsSurvive_iff haccepted (sampleToken 1) (swapsWithSplits [1 / 3, 1 / 3])
    (sampleSwap "uniswap_v2" 1 2 0) (by decide +kernel)).2
  exact ⟨haccepted, hiff.mpr ⟨by decide +kernel, by decide +kernel⟩⟩

/-- The variables of `_splitSwap`, and the input of each swap so far. -/
structure FlowState where
  amounts : Address → Nat
  remaining : Address → Nat
  cyclicSwapAmountOut : Nat
  inputs : List Nat

variable {out : Nat} {st st' : FlowState}

variable {g' : SwapGroup} {u u' : FlowState} {groups : List SwapGroup}

namespace TokenFlow

/-- The inputs of swaps of which each is fed with the full output of the one before it, from the
swap with this number on. -/
def fed (pools : Nat → Nat → Nat) : Nat → List Swap → Nat → List Nat
  | _, [], _ => []
  | n, _ :: swaps, amount => amount :: fed pools (n + 1) swaps (pools n amount)

def fedOutput (pools : Nat → Nat → Nat) : Nat → List Swap → Nat → Nat
  | _, [], amount => amount
  | n, _ :: swaps, amount => fedOutput pools (n + 1) swaps (pools n amount)

section
variable (pools : Nat → Nat → Nat) (n : Nat)
include pools n

@[simp] lemma length_fed (swaps : List Swap) (amount : Nat) :
    (fed pools n swaps amount).length = swaps.length := by
  induction swaps generalizing n amount with
  | nil => rfl
  | cons _ _ ih => simp [fed, ih]

lemma fed_append (swaps swaps' : List Swap) (amount : Nat) :
    fed pools n (swaps ++ swaps') amount = fed pools n swaps amount ++
      fed pools (n + swaps.length) swaps' (fedOutput pools n swaps amount) := by
  induction swaps generalizing n amount with
  | nil => rfl
  | cons _ _ ih => simp [fed, fedOutput, ih, Nat.add_assoc, Nat.add_comm 1]

lemma fedOutput_append (swaps swaps' : List Swap) (amount : Nat) :
    fedOutput pools n (swaps ++ swaps') amount =
      fedOutput pools (n + swaps.length) swaps' (fedOutput pools n swaps amount) := by
  induction swaps generalizing n amount with
  | nil => rfl
  | cons _ _ ih => simp [fedOutput, ih, Nat.add_assoc, Nat.add_comm 1]

end

variable (givenToken : Address)

def start (amountIn : Nat) : FlowState :=
  ⟨update 0 givenToken amountIn, update 0 givenToken amountIn, 0, []⟩

def remainingWith (st : FlowState) (tokenOut : Address) (out : Nat) : Address → Nat :=
  update st.remaining tokenOut (st.remaining tokenOut + out)

def settled (st : FlowState) (tokenIn : Address) (amount : Nat) (tokenOut : Address) (out : Nat)
    (inputs : List Nat) : FlowState where
  amounts := if tokenOut = givenToken then st.amounts
    else update st.amounts tokenOut (st.amounts tokenOut + out)
  remaining := update (remainingWith st tokenOut out) tokenIn
    (remainingWith st tokenOut out tokenIn - amount)
  cyclicSwapAmountOut := if tokenOut = givenToken then st.cyclicSwapAmountOut + out
    else st.cyclicSwapAmountOut
  inputs := inputs

/-- `none` where the subtraction underflows. -/
def settle (st : FlowState) (tokenIn : Address) (amount : Nat) (tokenOut : Address) (out : Nat)
    (inputs : List Nat) : Option FlowState :=
  if amount ≤ remainingWith st tokenOut out tokenIn then
    some (settled givenToken st tokenIn amount tokenOut out inputs)
  else none

def hopInput (st : FlowState) (g : SwapGroup) : Nat :=
  splitInput (percentageToUint24 g.split) (st.amounts g.tokenIn) (st.remaining g.tokenIn)

variable (pools : Nat → Nat → Nat)

/-- The router takes no hop from a token to itself. -/
def executeHop (st : FlowState) (g : SwapGroup) : Option FlowState :=
  if g.tokenIn = g.tokenOut then none
  else
    let amount := hopInput st g
    settle givenToken st g.tokenIn amount g.tokenOut
      (fedOutput pools st.inputs.length g.swaps amount)
      (st.inputs ++ fed pools st.inputs.length g.swaps amount)

def execute (groups : List SwapGroup) (st : FlowState) : Option FlowState :=
  groups.foldlM (executeHop givenToken pools) st

def alone (swap : Swap) : SwapGroup :=
  ⟨swap.tokenIn, swap.tokenOut, Grouping.normalizedProtocol swap, [swap], swap.split⟩

def amountOut (checkedToken : Address) (st : FlowState) : Nat :=
  if givenToken = checkedToken then st.cyclicSwapAmountOut else st.amounts checkedToken

/-- Nothing remains but the output. -/
structure NothingLeft (checkedToken : Address) (st : FlowState) : Prop where
  others : ∀ token, token ≠ checkedToken → st.remaining token = 0
  checked : st.remaining checkedToken ≤ amountOut givenToken checkedToken st

/-- The rule of `_sequentialSwap`: every hop gets the output of the one before it. -/
def executeSequential (groups : List SwapGroup) (st : Nat × List Nat) : Option (Nat × List Nat) :=
  groups.foldlM (fun (amount, inputs) g =>
    if g.tokenIn = g.tokenOut then none
    else some (fedOutput pools inputs.length g.swaps amount,
      inputs ++ fed pools inputs.length g.swaps amount)) st

section
variable {givenToken pools}

@[simp] lemma execute_cons (g : SwapGroup) (groups : List SwapGroup) (st : FlowState) :
    execute givenToken pools (g :: groups) st =
      (executeHop givenToken pools st g).bind (execute givenToken pools groups) :=
  foldlM_cons

lemma execute_append (groups groups' : List SwapGroup) (st : FlowState) :
    execute givenToken pools (groups ++ groups') st =
      (execute givenToken pools groups st).bind (execute givenToken pools groups') :=
  foldlM_append

lemma execute_singleton (g : SwapGroup) (st : FlowState) :
    execute givenToken pools [g] st = executeHop givenToken pools st g := by
  rw [execute_cons]
  cases executeHop givenToken pools st g <;> rfl

def hopOutput (pools : Nat → Nat → Nat) (st : FlowState) (g : SwapGroup) : Nat :=
  fedOutput pools st.inputs.length g.swaps (hopInput st g)

def afterHop (givenToken : Address) (pools : Nat → Nat → Nat) (st : FlowState) (g : SwapGroup) :
    FlowState :=
  settled givenToken st g.tokenIn (hopInput st g) g.tokenOut (hopOutput pools st g)
    (st.inputs ++ fed pools st.inputs.length g.swaps (hopInput st g))

lemma remainingWith_of_ne {tokenIn tokenOut : Address} (hne : tokenIn ≠ tokenOut) :
    remainingWith st tokenOut out tokenIn = st.remaining tokenIn :=
  update_of_ne hne _ _

section
variable {st st' : FlowState} {g : SwapGroup}

lemma executeHop_eq_some : executeHop givenToken pools st g = some st' ↔
      g.tokenIn ≠ g.tokenOut ∧ hopInput st g ≤ st.remaining g.tokenIn ∧
        afterHop givenToken pools st g = st' := by
  unfold executeHop
  split_ifs with hself
  · simp [hself]
  · rw [settle, remainingWith_of_ne hself]
    split_ifs with hle
    · simp only [hself, hle, ne_eq, not_false_eq_true, true_and, Option.some.injEq]
      rfl
    · simp [hle]

lemma executeHop_eq_none (hne : g.tokenIn ≠ g.tokenOut) :
    executeHop givenToken pools st g = none ↔ st.remaining g.tokenIn < hopInput st g := by
  rw [executeHop, if_neg hne, settle, remainingWith_of_ne hne]
  split_ifs with hle
  · exact ⟨nofun, fun h => absurd hle (Nat.not_le.mpr h)⟩
  · exact ⟨fun _ => Nat.lt_of_not_le hle, fun _ => rfl⟩

structure Hopped (givenToken : Address) (st : FlowState) (g : SwapGroup) (out : Nat)
    (st' : FlowState) : Prop where
  remaining_in : st'.remaining g.tokenIn = st.remaining g.tokenIn - hopInput st g
  remaining_out : st'.remaining g.tokenOut = st.remaining g.tokenOut + out
  remaining_other : ∀ token, token ≠ g.tokenIn → token ≠ g.tokenOut →
    st'.remaining token = st.remaining token
  amounts_out : g.tokenOut ≠ givenToken → st'.amounts g.tokenOut = st.amounts g.tokenOut + out
  amounts_other : ∀ token, token ≠ g.tokenOut ∨ token = givenToken →
    st'.amounts token = st.amounts token
  cyclic_given : g.tokenOut = givenToken →
    st'.cyclicSwapAmountOut = st.cyclicSwapAmountOut + out
  cyclic_other : g.tokenOut ≠ givenToken → st'.cyclicSwapAmountOut = st.cyclicSwapAmountOut

lemma hopped_afterHop (givenToken : Address) (pools : Nat → Nat → Nat) (st : FlowState)
    (hne : g.tokenIn ≠ g.tokenOut) :
    Hopped givenToken st g (hopOutput pools st g) (afterHop givenToken pools st g) where
  remaining_in := by simp [afterHop, settled, remainingWith_of_ne hne]
  remaining_out := by simp [afterHop, settled, remainingWith, update_of_ne hne.symm]
  remaining_other token hin hout := by
    simp [afterHop, settled, remainingWith, update_of_ne hin, update_of_ne hout]
  amounts_out hgiven := by simp [afterHop, settled, hgiven]
  amounts_other token htoken := by
    by_cases hgiven : g.tokenOut = givenToken
    · simp [afterHop, settled, hgiven]
    · have hout : token ≠ g.tokenOut := by
        obtain hout | rfl := htoken
        · exact hout
        · exact Ne.symm hgiven
      simp [afterHop, settled, hgiven, hout]
  cyclic_given hgiven := by simp [afterHop, settled, hgiven]
  cyclic_other hgiven := by simp [afterHop, settled, hgiven]

lemma hopped_of_executeHop (h : executeHop givenToken pools st g = some st') :
    Hopped givenToken st g (hopOutput pools st g) st' := by
  obtain ⟨hne, -, rfl⟩ := executeHop_eq_some.mp h
  exact hopped_afterHop givenToken pools st hne

section
variable (hs : Hopped givenToken st g out st') (hu : Hopped givenToken u g' out u')
  (hout : g.tokenOut = g'.tokenOut)
include hs hu hout

lemma Hopped.amounts_congr {token : Address} (h : st.amounts token = u.amounts token) :
    st'.amounts token = u'.amounts token := by
  by_cases hother : token ≠ g.tokenOut ∨ token = givenToken
  · rw [hs.amounts_other token hother, h, hu.amounts_other token (hout ▸ hother)]
  · obtain ⟨htoken, hgiven⟩ := not_or.mp hother
    obtain rfl := not_not.mp htoken
    rw [hs.amounts_out hgiven, h, hout, hu.amounts_out (hout ▸ hgiven)]

lemma Hopped.cyclic_congr (h : st.cyclicSwapAmountOut = u.cyclicSwapAmountOut) :
    st'.cyclicSwapAmountOut = u'.cyclicSwapAmountOut := by
  by_cases hgiven : g.tokenOut = givenToken
  · rw [hs.cyclic_given hgiven, hu.cyclic_given (hout ▸ hgiven), h]
  · rw [hs.cyclic_other hgiven, hu.cyclic_other (hout ▸ hgiven), h]

end

/-- A hop without output only takes its input. -/
lemma Hopped.quiet (h : Hopped givenToken st g 0 st') : (∀ token, st'.remaining token =
      if token = g.tokenIn then st.remaining token - hopInput st g else st.remaining token) ∧
    st'.amounts = st.amounts ∧ st'.cyclicSwapAmountOut = st.cyclicSwapAmountOut := by
  refine ⟨fun token => ?_, funext fun token => ?_, ?_⟩
  · split_ifs with hin
    · rw [hin, h.remaining_in]
    by_cases hout : token = g.tokenOut
    · rw [hout, h.remaining_out, Nat.add_zero]
    · exact h.remaining_other token hin hout
  · by_cases hother : token ≠ g.tokenOut ∨ token = givenToken
    · exact h.amounts_other token hother
    · obtain ⟨hout, hgiven⟩ := not_or.mp hother
      obtain rfl := not_not.mp hout
      exact h.amounts_out hgiven
  · by_cases hgiven : g.tokenOut = givenToken
    · exact h.cyclic_given hgiven
    · exact h.cyclic_other hgiven

end

lemma ne_of_execute {groups : List SwapGroup} (h : execute givenToken pools groups st = some st') :
    ∀ g ∈ groups, g.tokenIn ≠ g.tokenOut := by
  induction groups generalizing st with
  | nil => simp
  | cons _ _ ih =>
    rw [execute_cons, Option.bind_eq_some_iff] at h
    obtain ⟨st₁, hhop, hrest⟩ := h
    intro g' hg'
    obtain rfl | hg' := mem_cons.mp hg'
    · exact (executeHop_eq_some.mp hhop).1
    · exact ih hrest g' hg'

lemma inputs_of_executeHop {g : SwapGroup} (h : executeHop givenToken pools st g = some st') :
    st'.inputs = st.inputs ++ fed pools st.inputs.length g.swaps (hopInput st g) := by
  rw [← (executeHop_eq_some.mp h).2.2]
  rfl

lemma inputs_of_execute (h : execute givenToken pools groups st = some st') :
    ∃ inputs, st'.inputs = st.inputs ++ inputs ∧ inputs.length = (swapsOf groups).length := by
  induction groups generalizing st with
  | nil =>
    cases h
    exact ⟨[], by simp⟩
  | cons g _ ih =>
    rw [execute_cons, Option.bind_eq_some_iff] at h
    obtain ⟨st₁, hhop, hrest⟩ := h
    obtain ⟨inputs, heq, hlen⟩ := ih hrest
    refine ⟨fed pools st.inputs.length g.swaps (hopInput st g) ++ inputs, ?_, ?_⟩
    · rw [heq, inputs_of_executeHop hhop, append_assoc]
    · simp [hlen]

@[simp] lemma swapsOf_alone (swaps : List Swap) : swapsOf (swaps.map alone) = swaps := by
  induction swaps with
  | nil => rfl
  | cons _ _ ih =>
    rw [map_cons, swapsOf_cons, ih]
    rfl

lemma executeSequential_eq (groups : List SwapGroup) (st : Nat × List Nat) :
    executeSequential pools groups st = if ∀ g ∈ groups, g.tokenIn ≠ g.tokenOut then
        some (fedOutput pools st.2.length (swapsOf groups) st.1,
          st.2 ++ fed pools st.2.length (swapsOf groups) st.1)
      else none := by
  induction groups generalizing st with
  | nil => simp [executeSequential, fedOutput, fed]
  | cons g _ ih =>
    obtain ⟨amount, inputs⟩ := st
    unfold executeSequential at ih ⊢
    rw [foldlM_cons]
    by_cases hself : g.tokenIn = g.tokenOut
    · simp [hself]
    · simp [hself, ih, fed_append, fedOutput_append]

end

end TokenFlow

end Tycho
