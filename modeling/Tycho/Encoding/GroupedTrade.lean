import Tycho.Encoding.Leftovers

/-! A run of the groups beside the run of their swaps one by one, and when both trade the same. -/
namespace Tycho
open Collections List Option SplitSwapValidator

/-- After the remainder of a token no other part of it is taken. -/
def RemainderLast (swap later : Swap) : Prop :=
  swap.split = 0 → later.tokenIn = swap.tokenIn → later.split = 0

lemma SwapGroup.Formed.ne {g : SwapGroup} (h : g.Formed)
    (hself : ∀ swap ∈ g.swaps, swap.tokenIn ≠ swap.tokenOut) : g.tokenIn ≠ g.tokenOut := by
  cases h with
  | start swap => exact hself swap mem_cons_self
  | merge _ _ _ _ hout => exact Ne.symm hout

lemma percentageToUint24_zero : percentageToUint24 0 = 0 := by decide +kernel

/-- Two fallible runs that stay related go on to related runs. -/
lemma optionRel_bind {A B C D : Type} {R : A → B → Prop} {S : C → D → Prop} {a : Option A}
    {b : Option B} {f : A → Option C} {g : B → Option D} (h : Option.Rel R a b)
    (hnext : ∀ x y, a = some x → R x y → Option.Rel S (f x) (g y)) :
    Option.Rel S (a.bind f) (b.bind g) := by
  cases h with
  | none => exact .none
  | some hxy => exact hnext _ _ rfl hxy

namespace TokenFlow
variable {givenToken checkedToken : Address} {pools : Nat → Nat → Nat}

/-- The amounts that the rest of the swaps and the output depend on are the same. -/
structure Agrees (givenToken checkedToken : Address) (rest : List Swap) (u s : FlowState) :
    Prop where
  remaining : ∀ token, u.remaining token = s.remaining token
  inputs : u.inputs = s.inputs
  amounts : ∀ token, (token = checkedToken ∨ ∃ x ∈ rest, x.tokenIn = token ∧ x.split ≠ 0) →
    u.amounts token = s.amounts token
  cyclic : givenToken = checkedToken → u.cyclicSwapAmountOut = s.cyclicSwapAmountOut

section
variable {g : SwapGroup} {u u₁ s s₁ : FlowState} {swap : Swap} {rest : List Swap}

section
variable (h : Agrees givenToken checkedToken (swap :: rest) u s)
include h

lemma Agrees.hopInput_eq (hin : g.tokenIn = swap.tokenIn) (hsplit : g.split = swap.split) :
    hopInput u (alone swap) = hopInput s g := by
  have hremains : u.remaining swap.tokenIn = s.remaining swap.tokenIn := h.remaining swap.tokenIn
  simp only [hopInput, alone, hin, hsplit, hremains]
  by_cases hzero : swap.split = 0
  · simp [splitInput, hzero, percentageToUint24_zero]
  · rw [h.amounts swap.tokenIn (.inr ⟨swap, mem_cons_self, rfl, hzero⟩)]

/-- Hops of the same tokens and amounts. -/
lemma Agrees.hopped {u' s' : FlowState} {g' : SwapGroup} {out : Nat}
    (hu : Hopped givenToken u g out u') (hs : Hopped givenToken s g' out s')
    (hin : g.tokenIn = g'.tokenIn) (hout : g.tokenOut = g'.tokenOut)
    (hinputs : hopInput u g = hopInput s g') (hinputs' : u'.inputs = s'.inputs) :
    Agrees givenToken checkedToken rest u' s' := by
  refine ⟨fun token => ?_, hinputs', fun token htoken => ?_, fun hcyclic => ?_⟩
  · by_cases htin : token = g.tokenIn
    · rw [htin, hu.remaining_in, hin, hs.remaining_in, h.remaining, hinputs]
    by_cases htout : token = g.tokenOut
    · rw [htout, hu.remaining_out, hout, hs.remaining_out, h.remaining]
    · rw [hu.remaining_other token htin htout, h.remaining,
        hs.remaining_other token (hin ▸ htin) (hout ▸ htout)]
  · exact hu.amounts_congr hs hout (h.amounts token (htoken.imp_right
      fun ⟨x, hx, hxin⟩ => ⟨x, mem_cons_of_mem swap hx, hxin⟩))
  · exact hu.cyclic_congr hs hout (h.cyclic hcyclic)

/-- A group of one swap. -/
lemma Agrees.executeHop_start (hin : g.tokenIn = swap.tokenIn) (hout : g.tokenOut = swap.tokenOut)
    (hsplit : g.split = swap.split) (hswaps : g.swaps = [swap])
    (hne : swap.tokenIn ≠ swap.tokenOut) :
    Option.Rel (Agrees givenToken checkedToken rest)
      (executeHop givenToken pools u (alone swap)) (executeHop givenToken pools s g) := by
  have hinput := h.hopInput_eq hin hsplit
  have hne' : g.tokenIn ≠ g.tokenOut := by rwa [hin, hout]
  by_cases hle : hopInput s g ≤ s.remaining g.tokenIn
  · have hleft : hopInput u (alone swap) ≤ u.remaining swap.tokenIn := by
      rwa [hinput, h.remaining, ← hin]
    rw [executeHop_eq_some.mpr ⟨hne, hleft, rfl⟩, executeHop_eq_some.mpr ⟨hne', hle, rfl⟩]
    have hu : Hopped givenToken u (alone swap) _ _ := hopped_afterHop givenToken pools u hne
    have houtput : hopOutput pools u (alone swap) = hopOutput pools s g := by
      rw [hopOutput, hopOutput, hinput, h.inputs, hswaps]
      rfl
    rw [houtput] at hu
    refine .some (h.hopped hu (hopped_afterHop givenToken pools s hne') hin.symm hout.symm hinput
      ?_)
    simp only [afterHop, settled, hinput, h.inputs, hswaps]
    rfl
  · have hnone : executeHop givenToken pools u (alone swap) = none := by
      rw [executeHop_eq_none hne, hinput]
      exact (h.remaining swap.tokenIn).trans_lt (hin ▸ Nat.lt_of_not_le hle)
    rw [hnone, (executeHop_eq_none hne').mpr (Nat.lt_of_not_le hle)]
    exact .none

end

/-- The next swap of a group takes what the group has put out so far, and no more. -/
lemma Agrees.executeHop_merge (hg : g.tokenIn ≠ g.tokenOut)
    (hhop : executeHop givenToken pools s g = some s₁)
    (h : Agrees givenToken checkedToken (swap :: rest) u₁ s₁)
    (hin : swap.tokenIn = g.tokenOut) (hsplit : swap.split = 0) (hout : swap.tokenOut ≠ g.tokenIn)
    (hne : swap.tokenIn ≠ swap.tokenOut) (hcheck : swap.tokenIn ≠ checkedToken)
    (hrest : ∀ later ∈ rest, RemainderLast swap later)
    (hzero : s.remaining g.tokenOut = 0) :
    ∃ u₂ s₂, executeHop givenToken pools u₁ (alone swap) = some u₂ ∧ executeHop givenToken pools s
        { g with swaps := g.swaps ++ [swap], tokenOut := swap.tokenOut } = some s₂ ∧
      Agrees givenToken checkedToken rest u₂ s₂ := by
  obtain ⟨-, hle, rfl⟩ := executeHop_eq_some.mp hhop
  have hs₁ := hopped_afterHop givenToken pools s hg
  have hremains : u₁.remaining swap.tokenIn = hopOutput pools s g := by
    rw [h.remaining, hin, hs₁.remaining_out, hzero, Nat.zero_add]
  have hinput : hopInput u₁ (alone swap) = hopOutput pools s g := by
    simp only [hopInput, alone, hsplit, percentageToUint24_zero, splitInput, Nat.lt_irrefl,
      if_false, hremains]
  have hlen : u₁.inputs.length = s.inputs.length + g.swaps.length := by
    rw [h.inputs]
    simp [afterHop, settled]
  let g' : SwapGroup := { g with swaps := g.swaps ++ [swap], tokenOut := swap.tokenOut }
  have houtput : hopOutput pools u₁ (alone swap) = hopOutput pools s g' := by
    change fedOutput pools u₁.inputs.length [swap] (hopInput u₁ (alone swap)) =
      fedOutput pools s.inputs.length (g.swaps ++ [swap]) (hopInput s g)
    rw [fedOutput_append, hinput, hlen]
    rfl
  have hinputs : (afterHop givenToken pools u₁ (alone swap)).inputs =
      (afterHop givenToken pools s g').inputs := by
    change u₁.inputs ++ fed pools u₁.inputs.length [swap] (hopInput u₁ (alone swap)) =
      s.inputs ++ fed pools s.inputs.length (g.swaps ++ [swap]) (hopInput s g)
    rw [fed_append, hinput, hlen, h.inputs, ← append_assoc]
    rfl
  have hu₂ : Hopped givenToken u₁ (alone swap) _ _ := hopped_afterHop givenToken pools u₁ hne
  have hs₂ : Hopped givenToken s g' _ _ := hopped_afterHop givenToken pools s hout.symm
  rw [houtput] at hu₂
  refine ⟨_, _, executeHop_eq_some.mpr ⟨hne, by rw [hinput]; exact hremains.ge, rfl⟩,
    executeHop_eq_some.mpr ⟨hout.symm, hle, rfl⟩, ?_, hinputs, ?_, ?_⟩
  · intro token
    by_cases hfirst : token = g.tokenIn
    · subst hfirst
      have hbetween : g.tokenIn ≠ swap.tokenIn := hin ▸ hg
      rw [hu₂.remaining_other _ hbetween hout.symm, h.remaining, hs₁.remaining_in]
      exact hs₂.remaining_in.symm
    by_cases hlast : token = swap.tokenOut
    · subst hlast
      refine hu₂.remaining_out.trans (Eq.trans ?_ hs₂.remaining_out.symm)
      rw [h.remaining]
      exact congrArg (· + _) (hs₁.remaining_other _ hfirst (hin ▸ hne.symm))
    rw [hs₂.remaining_other token hfirst hlast]
    by_cases hbetween : token = swap.tokenIn
    · subst hbetween
      refine hu₂.remaining_in.trans ?_
      rw [hinput, hin, hzero]
      exact Nat.sub_eq_zero_of_le hremains.le
    · rw [hu₂.remaining_other token hbetween hlast, h.remaining,
        hs₁.remaining_other token hfirst (hin ▸ hbetween)]
  · -- the token between the two swaps is neither the output nor taken in parts later
    intro token htoken
    have hbetween : token ≠ g.tokenOut := by
      rintro rfl
      obtain hchecked | ⟨x, hx, hxin, hxsplit⟩ := htoken
      · exact hcheck (hin.trans hchecked)
      · exact hxsplit (hrest x hx hsplit (hxin.trans hin.symm))
    refine hu₂.amounts_congr hs₂ rfl ?_
    have hlater := htoken.imp_right fun hlater => hlater.imp fun x hx =>
      And.imp_left (mem_cons_of_mem swap) hx
    rw [h.amounts token hlater, hs₁.amounts_other token (.inl hbetween)]
  · intro hcyclic
    have hbetween : g.tokenOut ≠ givenToken := by
      rw [← hin, hcyclic]
      exact hcheck
    refine hu₂.cyclic_congr hs₂ rfl ?_
    rw [h.cyclic hcyclic, hs₁.cyclic_other hbetween]

/-- At each link of a group the token between the swaps is not the output, and nothing of it
remains before the first of them. -/
def LinksHold (givenToken checkedToken : Address) (pools : Nat → Nat → Nat) (u : FlowState)
    (swaps : List Swap) : Prop :=
  ∀ p a b q, swaps = p ++ a :: b :: q → b.tokenIn ≠ checkedToken ∧
    ∀ u', execute givenToken pools (p.map alone) u = some u' → u'.remaining b.tokenIn = 0

/-- A hop of a group does what its swaps do one by one. The second part carries the induction:
what remains of the group's output token before its last swap remained before the group. -/
lemma Agrees.executeHop_group (hformed : g.Formed)
    (hself : ∀ swap ∈ g.swaps, swap.tokenIn ≠ swap.tokenOut)
    (hlast : (g.swaps ++ rest).Pairwise RemainderLast)
    (hlinks : LinksHold givenToken checkedToken pools u g.swaps)
    (h : Agrees givenToken checkedToken (g.swaps ++ rest) u s) :
    Option.Rel (Agrees givenToken checkedToken rest)
      (execute givenToken pools (g.swaps.map alone) u) (executeHop givenToken pools s g) ∧
    ∀ p a, g.swaps = p ++ [a] → executeHop givenToken pools s g ≠ none →
      (∀ u', execute givenToken pools (p.map alone) u = some u' → u'.remaining a.tokenOut = 0) →
      s.remaining g.tokenOut = 0 := by
  induction hformed generalizing rest with
  | start swap =>
    refine ⟨?_, ?_⟩
    · rw [map_singleton, execute_singleton]
      exact h.executeHop_start rfl rfl rfl rfl (hself swap mem_cons_self)
    · intro p a heq _ hzero
      obtain ⟨rfl, hpa⟩ := append_inj' (show [] ++ [swap] = p ++ [a] from heq) rfl
      cases hpa
      exact (h.remaining swap.tokenOut).symm.trans (hzero u rfl)
  | @merge g swap hformed hin hsplit hout ih =>
    have hmem : ∀ x ∈ g.swaps, x ∈ g.swaps ++ [swap] := fun x hx => mem_append_left _ hx
    have hne : swap.tokenIn ≠ swap.tokenOut := hself swap (by simp)
    have hg : g.tokenIn ≠ g.tokenOut := hformed.ne fun x hx => hself x (hmem x hx)
    rw [append_assoc] at h hlast
    obtain ⟨hrel, hbefore⟩ := ih (fun x hx => hself x (hmem x hx)) hlast
      (fun p a b q heq => hlinks p a b (q ++ [swap]) (by simp [heq])) h
    have hrest : ∀ later ∈ rest, RemainderLast swap later :=
      (pairwise_cons.mp (pairwise_append.mp hlast).2.1).1
    obtain ⟨p, a, hpa, haout⟩ := hformed.eq_concat
    have hlink := hlinks p a swap [] (by simp [hpa])
    rw [map_append, execute_append, map_singleton]
    cases hhop : executeHop givenToken pools s g with
    | none =>
      rw [hhop] at hrel
      cases hrun : execute givenToken pools (g.swaps.map alone) u with
      | some => rw [hrun] at hrel; cases hrel
      | none =>
        have hnone : executeHop givenToken pools s
            { g with swaps := g.swaps ++ [swap], tokenOut := swap.tokenOut } = none :=
          (executeHop_eq_none hout.symm).mpr ((executeHop_eq_none hg).mp hhop)
        exact ⟨by rw [hnone]; exact .none, fun _ _ _ hsome => absurd hnone hsome⟩
    | some =>
      rw [hhop] at hrel
      cases hrun : execute givenToken pools (g.swaps.map alone) u with
      | none => rw [hrun] at hrel; cases hrel
      | some u₁ =>
        rw [hrun] at hrel
        cases hrel with
        | some hagrees =>
          have hzero : s.remaining g.tokenOut = 0 := by
            refine hbefore p a hpa (by simp [hhop]) fun u' hu' => ?_
            rw [haout, ← hin]
            exact hlink.2 u' hu'
          obtain ⟨u₂, s₂, hu₂, hs₂, hagrees₂⟩ := hagrees.executeHop_merge hg hhop hin hsplit hout
            hne hlink.1 hrest hzero
          refine ⟨?_, ?_⟩
          · rw [hs₂, Option.bind_some, execute_singleton, hu₂]
            exact .some hagrees₂
          · intro p' a' heq _ hbefore'
            obtain ⟨rfl, hswap⟩ := append_inj' heq rfl
            cases hswap
            have hremains := hbefore' u₁ hrun
            rw [hagrees.remaining, (hopped_of_executeHop hhop).remaining_other _ hout
              (hin ▸ hne.symm)] at hremains
            exact hremains

lemma Agrees.execute_groups {groups : List SwapGroup} (hformed : ∀ g ∈ groups, g.Formed)
    (hself : ∀ swap ∈ swapsOf groups, swap.tokenIn ≠ swap.tokenOut)
    (hlast : (swapsOf groups).Pairwise RemainderLast)
    (hlinks : ∀ pre g post, groups = pre ++ g :: post → ∀ u',
      execute givenToken pools ((swapsOf pre).map alone) u = some u' →
      LinksHold givenToken checkedToken pools u' g.swaps)
    (h : Agrees givenToken checkedToken (swapsOf groups) u s) :
    Option.Rel (Agrees givenToken checkedToken [])
      (execute givenToken pools ((swapsOf groups).map alone) u)
      (execute givenToken pools groups s) := by
  induction groups generalizing u s with
  | nil => exact .some h
  | cons g groups ih =>
    rw [swapsOf_cons] at hself hlast h
    have hstep := (h.executeHop_group (hformed g mem_cons_self)
      (fun x hx => hself x (mem_append_left _ hx)) hlast (hlinks [] g groups rfl u rfl)).1
    rw [swapsOf_cons, map_append, execute_append, execute_cons]
    refine optionRel_bind hstep fun u₁ s₁ hrun hagrees => ?_
    refine ih (fun g' hg' => hformed g' (mem_cons_of_mem g hg'))
      (fun x hx => hself x (mem_append_right _ hx)) (pairwise_append.mp hlast).2.1 ?_
      hagrees
    intro pre g' post heq u' hu'
    refine hlinks (g :: pre) g' post (by rw [heq, cons_append]) u' ?_
    rw [swapsOf_cons, map_append, execute_append, hrun]
    exact hu'

end

end TokenFlow

variable {swaps : List Swap} {g : SwapGroup}

variable {st s : FlowState} {k : Nat}

variable {amountIn : Nat} {b : Swap} {groups : List SwapGroup}

namespace TokenFlow
variable {givenToken checkedToken : Address} {pools : Nat → Nat → Nat}

/-- The two results are of the same trade: both revert, or every swap has the same input, the
outputs are the same and nothing is left over. -/
def SameResult (givenToken checkedToken : Address) : Option FlowState → Option FlowState → Prop :=
  Option.Rel fun u s => u.inputs = s.inputs ∧
    amountOut givenToken checkedToken u = amountOut givenToken checkedToken s ∧
    NothingLeft givenToken checkedToken u ∧ NothingLeft givenToken checkedToken s

/-- For all pools and amounts the groups trade as the swaps one by one. -/
def SameTrade (givenToken checkedToken : Address) (swaps : List Swap) : Prop :=
  ∀ pools amountIn, SameResult givenToken checkedToken
    (execute givenToken pools (swaps.map alone) (start givenToken amountIn))
    (execute givenToken pools (groupSwaps swaps) (start givenToken amountIn))

/-- Where swaps are merged nothing can remain of the token between them, which is not the output,
and at the end nothing can remain but the output. -/
structure Mergeable (givenToken checkedToken : Address) (swaps : List Swap) : Prop where
  noSelfSwap : ∀ swap ∈ swaps, swap.tokenIn ≠ swap.tokenOut
  links : ∀ pre g post p a b q, groupSwaps swaps = pre ++ g :: post →
    g.swaps = p ++ a :: b :: q →
    b.tokenIn ≠ checkedToken ∧ ¬ MayRemain givenToken b.tokenIn (swapsOf pre ++ p)
  others : ∀ token, token ≠ checkedToken → ¬ MayRemain givenToken token swaps
  given : givenToken = checkedToken → (remainsAfter givenToken givenToken swaps).own = false

lemma nothingLeft_of_mergeable (h : Mergeable givenToken checkedToken swaps)
    (hrun : execute givenToken pools (swaps.map alone) (start givenToken amountIn) = some st) :
    NothingLeft givenToken checkedToken st := by
  refine ⟨fun token htoken => remaining_eq_zero hrun (h.others token htoken), ?_⟩
  have hbound := bounded_of_execute hrun checkedToken
  by_cases hcyclic : givenToken = checkedToken
  · subst hcyclic
    obtain ⟨n, hn, -, hout⟩ := hbound.parts
    rw [h.given rfl] at hn
    rw [amountOut, if_pos rfl]
    exact hn.trans (by simpa using hout rfl)
  · rw [amountOut, if_neg hcyclic]
    exact (hbound.other (Ne.symm hcyclic)).2

lemma sameTrade_of_mergeable (hlast : swaps.Pairwise RemainderLast)
    (h : Mergeable givenToken checkedToken swaps) : SameTrade givenToken checkedToken swaps := by
  intro pools amountIn
  have hswaps := swapsOf_groupSwaps swaps
  have hrel : Option.Rel (Agrees givenToken checkedToken [])
      (execute givenToken pools ((swapsOf (groupSwaps swaps)).map alone)
        (start givenToken amountIn))
      (execute givenToken pools (groupSwaps swaps) (start givenToken amountIn)) := by
    refine Agrees.execute_groups (fun g hg => formed_of_mem_groupSwaps hg)
      (by rw [hswaps]; exact h.noSelfSwap) (by rw [hswaps]; exact hlast) ?_
      ⟨fun _ => rfl, rfl, fun _ _ => rfl, fun _ => rfl⟩
    intro pre g post heq u' hu' p a b q hg
    obtain ⟨hcheck, hnone⟩ := h.links pre g post p a b q heq hg
    refine ⟨hcheck, fun u'' hu'' => remaining_eq_zero (?_ : execute givenToken pools
      ((swapsOf pre ++ p).map alone) (start givenToken amountIn) = some u'') hnone⟩
    rw [map_append, execute_append, hu']
    exact hu''
  rw [hswaps] at hrel
  generalize hu : execute givenToken pools (swaps.map alone) (start givenToken amountIn) = u at hrel
  generalize execute givenToken pools (groupSwaps swaps) (start givenToken amountIn) = s at hrel
  cases hrel with
  | none => exact .none
  | @some u s hagrees =>
    have hleft := nothingLeft_of_mergeable h hu
    have hout : amountOut givenToken checkedToken u = amountOut givenToken checkedToken s := by
      unfold amountOut
      split_ifs with hcyclic
      · exact hagrees.cyclic hcyclic
      · exact hagrees.amounts checkedToken (.inl rfl)
    refine .some ⟨hagrees.inputs, hout, hleft, fun token htoken => ?_, ?_⟩
    · rw [← hagrees.remaining]
      exact hleft.others token htoken
    · rw [← hagrees.remaining, ← hout]
      exact hleft.checked

/-- Inside a group each swap is fed with the output of the one before it. -/
lemma inputs_of_link {pre post : List SwapGroup} {p q : List Swap} {a : Swap}
    (h : execute givenToken pools (pre ++ g :: post) st = some s) (hg : g.swaps = p ++ a :: b :: q)
    (hk : k = st.inputs.length + (swapsOf pre ++ p).length) :
    ∃ x, s.inputs[k]? = some x ∧ s.inputs[k + 1]? = some (pools k x) := by
  rw [execute_append, bind_eq_some_iff] at h
  obtain ⟨s₁, hpre, hrest⟩ := h
  rw [execute_cons, bind_eq_some_iff] at hrest
  obtain ⟨s₂, hhop, hpost⟩ := hrest
  obtain ⟨before, hbefore, hlength⟩ := inputs_of_execute hpre
  obtain ⟨after, hafter, -⟩ := inputs_of_execute hpost
  have hlen : k = (s₁.inputs ++ fed pools s₁.inputs.length p (hopInput s₁ g)).length := by
    simp [hk, hbefore, hlength]
  set x := fedOutput pools s₁.inputs.length p (hopInput s₁ g) with hx
  have hinputs : s.inputs = (s₁.inputs ++ fed pools s₁.inputs.length p (hopInput s₁ g)) ++
      x :: pools k x :: (fed pools (k + 2) q (pools (k + 1) (pools k x)) ++ after) := by
    rw [hafter, inputs_of_executeHop hhop, hg, fed_append, ← hx]
    simp [fed, hlen, Nat.add_assoc]
  refine ⟨x, ?_, ?_⟩
  · rw [hinputs, hlen, List.getElem?_append_right le_rfl, Nat.sub_self]
    rfl
  · rw [hinputs, List.getElem?_append_right (by omega), show k + 1 - _ = 1 by omega]
    rfl

lemma amountOut_quiet {st' : FlowState} (h : executeHop givenToken pools st g = some st')
    (hout : hopOutput pools st g = 0) :
    amountOut givenToken checkedToken st' = amountOut givenToken checkedToken st := by
  have hhopped := hopped_of_executeHop h
  rw [hout] at hhopped
  obtain ⟨-, hamounts, hcyclic⟩ := hhopped.quiet
  rw [amountOut, amountOut, hamounts, hcyclic]

lemma hopOutput_eq_zero {last : Swap} (hg : g.swaps = swaps ++ [last])
    (hpool : ∀ n, pools (st.inputs.length + swaps.length) n = 0) : hopOutput pools st g = 0 := by
  rw [hopOutput, hg, fedOutput_append]
  exact hpool _

lemma amountOut_of_quiet_pools (hformed : ∀ g ∈ groups, g.Formed)
    (h : execute givenToken pools groups st = some s)
    (hpools : ∀ i, st.inputs.length ≤ i → i < st.inputs.length + (swapsOf groups).length →
      ∀ n, pools i n = 0) :
    amountOut givenToken checkedToken s = amountOut givenToken checkedToken st := by
  induction groups generalizing st with
  | nil =>
    cases h
    rfl
  | cons g _ ih =>
    rw [execute_cons, bind_eq_some_iff] at h
    obtain ⟨s₁, hhop, hrest⟩ := h
    obtain ⟨swaps, last, hg, -⟩ := (hformed g mem_cons_self).eq_concat
    rw [swapsOf_cons, hg] at hpools
    have hinputs : s₁.inputs.length = st.inputs.length + (swaps.length + 1) := by
      rw [inputs_of_executeHop hhop]
      simp [hg]
    simp only [length_append, length_cons, length_nil] at hpools
    rw [ih (fun g' hg' => hformed g' (mem_cons_of_mem g hg')) hrest
      (fun i hle hlt => hpools i (by omega) (by omega))]
    exact amountOut_quiet hhop (hopOutput_eq_zero hg (hpools _ (by omega) (by omega)))

/-- Without amounts and outputs every hop goes through. -/
lemma exists_execute_zero (givenToken : Address) (hne : ∀ g ∈ groups, g.tokenIn ≠ g.tokenOut)
    (hzero : ∀ t, st.amounts t = 0 ∧ st.remaining t = 0) :
    ∃ st', execute givenToken (unitPools none) groups st = some st' := by
  induction groups generalizing st with
  | nil => exact ⟨st, rfl⟩
  | cons g _ ih =>
    have hg := hne g mem_cons_self
    have hinput : hopInput st g = 0 := by
      simp [hopInput, splitInput, hzero]
    have hfed : ∀ n swaps, fedOutput (unitPools none) n swaps 0 = 0 := by
      intro n swaps
      induction swaps generalizing n with
      | nil => rfl
      | cons _ _ ih => exact ih (n + 1)
    have hhopped := hopped_afterHop givenToken (unitPools none) st hg
    have hout : hopOutput (unitPools none) st g = 0 := by
      rw [hopOutput, hinput, hfed]
    rw [hout] at hhopped
    obtain ⟨hremains, hamounts, -⟩ := hhopped.quiet
    obtain ⟨st', hrun⟩ := ih (fun g' hg' => hne g' (mem_cons_of_mem g hg'))
      (fun t => (⟨by rw [hamounts]; exact (hzero t).1, by rw [hremains]; simp [hzero]⟩ :
        (afterHop givenToken (unitPools none) st g).amounts t = 0 ∧
          (afterHop givenToken (unitPools none) st g).remaining t = 0))
    refine ⟨st', ?_⟩
    rw [execute_cons, executeHop_eq_some.mpr ⟨hg, by rw [hinput]; exact Nat.zero_le _, rfl⟩]
    exact hrun

section
lemma SameTrade.inputs_eq (h : SameTrade givenToken checkedToken swaps) {u : FlowState}
    (hu : execute givenToken pools (swaps.map alone) (start givenToken amountIn) = some u) :
    ∃ s, execute givenToken pools (groupSwaps swaps) (start givenToken amountIn) = some s ∧
      u.inputs = s.inputs ∧
      amountOut givenToken checkedToken u = amountOut givenToken checkedToken s ∧
      NothingLeft givenToken checkedToken u := by
  have hrel := h pools amountIn
  rw [hu] at hrel
  generalize execute givenToken pools (groupSwaps swaps) (start givenToken amountIn) = s at hrel
  cases hrel with
  | @some _ s hsame => exact ⟨s, rfl, hsame.1, hsame.2.1, hsame.2.2.1⟩

lemma SameTrade.noSelfSwap (h : SameTrade givenToken checkedToken swaps)
    (hgroups : ∀ g ∈ groupSwaps swaps, g.tokenIn ≠ g.tokenOut) :
    ∀ swap ∈ swaps, swap.tokenIn ≠ swap.tokenOut := by
  have hzero : ∀ t, (start givenToken 0).amounts t = 0 ∧ (start givenToken 0).remaining t = 0 :=
    fun t => by simp only [start, Function.update_apply, Pi.zero_apply, ite_self, and_self]
  obtain ⟨s, hs⟩ := exists_execute_zero givenToken hgroups hzero
  have hrel := h (unitPools none) 0
  rw [hs] at hrel
  generalize hu : execute givenToken (unitPools none) (swaps.map alone) (start givenToken 0) = u
    at hrel
  cases hrel with
  | some =>
    intro swap hswap
    exact ne_of_execute hu (alone swap) (mem_map_of_mem hswap)

/-- After the first swap of a link the other one takes the unit. -/
lemma OneUnit.execute_link (givenToken checkedToken : Address) (pools : Nat → Nat → Nat)
    {rest : List Swap} (h : OneUnit b.tokenIn true st)
    (hne : ∀ swap ∈ b :: rest, swap.tokenIn ≠ swap.tokenOut)
    (hmax : ∀ swap ∈ b :: rest, percentageToUint24 swap.split ≤ MAX_UINT24) (hb : b.split = 0)
    (hlast : (b :: rest).Pairwise RemainderLast)
    (hpools : ∀ i, st.inputs.length ≤ i → ∀ n, pools i n = 0) :
    ∃ st', execute givenToken pools ((b :: rest).map alone) st = some st' ∧
      st'.inputs[st.inputs.length]? = some 1 ∧
      amountOut givenToken checkedToken st' = amountOut givenToken checkedToken st := by
  obtain ⟨st₁, hhop, hunit, hamounts, hcyclic, hinputs⟩ := h.executeHop_drain givenToken pools
    (hne b mem_cons_self) rfl (by rw [hb, percentageToUint24_zero]) (hpools _ le_rfl)
  have hlater := (pairwise_cons.mp hlast).1
  have hpass : ∀ x ∈ rest, Passes b.tokenIn false st₁ x := by
    intro x hx hin
    refine ⟨nofun, fun hwhole => ?_⟩
    rw [hlater x hx hb hin, percentageToUint24_zero] at hwhole
    exact absurd hwhole (by decide)
  obtain ⟨st₂, hrun, -, hamounts₂, hcyclic₂, hinputs₂⟩ := hunit.execute_pass givenToken pools
    (fun x hx => hne x (mem_cons_of_mem b hx))
    (fun x hx => hmax x (mem_cons_of_mem b hx)) hpass
    (fun i hle _ => hpools i (by simp [hinputs] at hle; omega))
  refine ⟨st₂, ?_, ?_, ?_⟩
  · rw [map_cons, execute_cons, hhop]
    exact hrun
  · simp [hinputs₂, hinputs]
  · rw [amountOut, amountOut, hamounts₂, hcyclic₂, hamounts, hcyclic]

lemma unitPools_eq_zero {source : Option Nat} {n : Nat} (h : ∀ i ∈ source, i < n) (hk : n ≤ k)
    (amount : Nat) : unitPools source k amount = 0 := by
  cases source with
  | none => rfl
  | some i => exact unitPools_of_ne (by have := h i rfl; omega) amount

section
variable {pre post : List SwapGroup} {p q : List Swap} {a b : Swap}

lemma swaps_of_link (hgroups : groupSwaps swaps = pre ++ g :: post)
    (hg : g.swaps = p ++ a :: b :: q) :
    swaps = (swapsOf pre ++ p) ++ a :: b :: (q ++ swapsOf post) := by
  rw [← swapsOf_groupSwaps swaps, hgroups]
  simp [hg]

/-- With one unit from the first swap of a link the groups put nothing out. -/
lemma amountOut_of_link (hgroups : groupSwaps swaps = pre ++ g :: post)
    (hg : g.swaps = p ++ a :: b :: q)
    (hs : execute givenToken (unitPools (some k)) (groupSwaps swaps) (start givenToken 0) = some s)
    (hk : k = (swapsOf pre ++ p).length) : amountOut givenToken checkedToken s = 0 := by
  have hformed : ∀ g' ∈ pre ++ g :: post, g'.Formed :=
    fun g' hg' => formed_of_mem_groupSwaps (hgroups ▸ hg')
  rw [hgroups, execute_append, bind_eq_some_iff] at hs
  obtain ⟨s₁, hpre, hrest⟩ := hs
  rw [execute_cons, bind_eq_some_iff] at hrest
  obtain ⟨s₂, hhop, hpost⟩ := hrest
  have hlength : s₁.inputs.length = (swapsOf pre).length := by
    obtain ⟨inputs, heq, hlength⟩ := inputs_of_execute hpre
    simp [heq, hlength, start]
  have hlen₂ : s₂.inputs.length = s₁.inputs.length + g.swaps.length := by
    simp [inputs_of_executeHop hhop]
  obtain ⟨inner, last, hlast, -⟩ := (hformed g (by simp)).eq_concat
  have hinner : p.length + 1 ≤ inner.length := by
    have := congrArg List.length (hlast.symm.trans hg)
    simp only [length_append, length_cons, length_nil] at this
    omega
  rw [length_append] at hk
  have hlast' : g.swaps.length = inner.length + 1 := by simp [hlast]
  rw [amountOut_of_quiet_pools (fun g' hg' => hformed g' (by simp [hg'])) hpost
      (fun i hi _ => unitPools_of_ne (by omega)),
    amountOut_quiet hhop (hopOutput_eq_zero hlast (unitPools_of_ne (by omega))),
    amountOut_of_quiet_pools (fun g' hg' => hformed g' (by simp [hg'])) hpre
      (fun i _ hi => unitPools_of_ne (by simp [start] at hi; omega))]
  simp only [amountOut, start, Function.update_apply, Pi.zero_apply, ite_self]

section
variable (h : SameTrade givenToken checkedToken swaps)
  (hne : ∀ swap ∈ swaps, swap.tokenIn ≠ swap.tokenOut)
  (hmax : ∀ swap ∈ swaps, percentageToUint24 swap.split ≤ MAX_UINT24)
  (hlast : swaps.Pairwise RemainderLast) (hgroups : groupSwaps swaps = pre ++ g :: post)
  (hg : g.swaps = p ++ a :: b :: q)
include h hne hmax hlast hgroups hg

/-- What remains of the token before a link goes to the second swap only if it is on its own. -/
lemma SameTrade.not_mayRemain : ¬ MayRemain givenToken b.tokenIn (swapsOf pre ++ p) := by
  intro hremain
  obtain ⟨hin, hb⟩ := (formed_of_mem_groupSwaps (g := g) (by rw [hgroups]; simp)).link hg
  have hswaps := swaps_of_link hgroups hg
  generalize hbefore : swapsOf pre ++ p = before at hremain hswaps
  have hmem : ∀ x ∈ before, x ∈ swaps := fun x hx => by rw [hswaps]; simp [hx]
  have ha : a ∈ swaps := by rw [hswaps]; simp
  obtain ⟨source, amountIn, st, hsource, hrun, hunit⟩ := exists_oneUnit hremain
    (fun x hx => hne x (hmem x hx)) (fun x hx => hmax x (hmem x hx))
  have hlength : st.inputs.length = before.length := by
    obtain ⟨inputs, heq, hlength⟩ := inputs_of_execute hrun
    simp [heq, hlength, start]
  have hquiet : ∀ k, st.inputs.length ≤ k → ∀ n, unitPools source k n = 0 :=
    fun k hk => unitPools_eq_zero hsource (by omega)
  obtain ⟨st₁, hhop, hunit₁, -, -, hinputs⟩ := hunit.executeHop_pass givenToken _
    (hne a ha) (hmax a ha) (fun hain => absurd (hain.trans hin) (hne a ha)) (hquiet _ le_rfl)
  have hlen₁ : st₁.inputs.length = before.length + 1 := by simp [hinputs, hlength]
  have hrest : ∀ x ∈ b :: (q ++ swapsOf post), x ∈ swaps := by
    intro x hx
    rw [hswaps]
    exact mem_append_right _ (mem_cons_of_mem a hx)
  obtain ⟨st₂, hrun₂, hone, -⟩ := hunit₁.execute_link givenToken checkedToken _
    (fun x hx => hne x (hrest x hx))
    (fun x hx => hmax x (hrest x hx)) hb
    (pairwise_cons.mp (pairwise_append.mp (hswaps ▸ hlast)).2.1).2
    (fun k hk => hquiet k (by omega))
  have hall : execute givenToken (unitPools source) (swaps.map alone)
      (start givenToken amountIn) = some st₂ := by
    rw [hswaps, map_append, execute_append, hrun, map_cons, bind_some, execute_cons, hhop]
    exact hrun₂
  obtain ⟨s, hs, hsame, -⟩ := h.inputs_eq hall
  rw [hgroups] at hs
  obtain ⟨x, -, hx⟩ := inputs_of_link hs hg (k := before.length) (by simp [start, hbefore])
  rw [← hsame, ← hlen₁, hone, hquiet _ hlength.le] at hx
  cases hx

/-- The output of the first swap of a link is not counted by the group. -/
lemma SameTrade.ne_checkedToken : b.tokenIn ≠ checkedToken := by
  intro hcheck
  obtain ⟨hin, hb⟩ := (formed_of_mem_groupSwaps (g := g) (by rw [hgroups]; simp)).link hg
  have hswaps := swaps_of_link hgroups hg
  generalize hbefore : swapsOf pre ++ p = before at hswaps
  have hfirst : ∀ x ∈ before ++ [a], x ∈ swaps := by
    intro x hx
    rw [hswaps, append_cons]
    exact mem_append_left _ hx
  have hrest : ∀ x ∈ b :: (q ++ swapsOf post), x ∈ swaps := by
    intro x hx
    rw [hswaps]
    exact mem_append_right _ (mem_cons_of_mem a hx)
  obtain ⟨st, hrun, hunit, hamounts, hcyclic, hlength⟩ := exists_oneUnit_source (p := before)
    (fun x hx => hne x (hfirst x hx)) (fun x hx => hmax x (hfirst x hx))
  rw [← hin] at hunit hamounts hcyclic
  obtain ⟨st₁, hrun₁, -, hout⟩ := hunit.execute_link givenToken checkedToken
    (unitPools (some before.length)) (fun x hx => hne x (hrest x hx))
    (fun x hx => hmax x (hrest x hx)) hb
    (pairwise_cons.mp (pairwise_append.mp (hswaps ▸ hlast)).2.1).2
    (fun k hk => unitPools_of_ne (by omega))
  have hone : amountOut givenToken checkedToken st = 1 := by
    unfold amountOut
    rw [← hcheck]
    split_ifs with hgiven
    · exact hcyclic.trans (if_pos hgiven.symm)
    · exact hamounts.trans (if_neg (Ne.symm hgiven))
  have hall : execute givenToken (unitPools (some before.length)) (swaps.map alone)
      (start givenToken 0) = some st₁ := by
    rw [hswaps, append_cons, map_append, execute_append, hrun]
    exact hrun₁
  obtain ⟨s, hs, -, hsame, -⟩ := h.inputs_eq hall
  have hzero : amountOut givenToken checkedToken s = 0 :=
    amountOut_of_link hgroups hg hs (by rw [hbefore])
  omega

end

end

lemma mergeable_of_sameTrade (h : SameTrade givenToken checkedToken swaps)
    (hgroups : ∀ g ∈ groupSwaps swaps, g.tokenIn ≠ g.tokenOut)
    (hmax : ∀ swap ∈ swaps, percentageToUint24 swap.split ≤ MAX_UINT24)
    (hlast : swaps.Pairwise RemainderLast) : Mergeable givenToken checkedToken swaps := by
  have hne := h.noSelfSwap hgroups
  refine ⟨hne, fun pre g post p a b q hpre hg => ⟨h.ne_checkedToken hne hmax hlast hpre hg,
    h.not_mayRemain hne hmax hlast hpre hg⟩, fun token htoken hremains => ?_, fun hcyclic => ?_⟩
  · obtain ⟨source, amountIn, st, -, hrun, hunit⟩ := exists_oneUnit hremains hne hmax
    obtain ⟨-, -, -, -, hleft⟩ := h.inputs_eq hrun
    have hone : st.remaining token = 1 := (hunit.remaining token).trans (if_pos ⟨rfl, rfl⟩)
    have hnone := hleft.others token htoken
    omega
  · subst hcyclic
    by_contra hown
    obtain ⟨-, hpass⟩ := own_remainsAfter (by simpa using hown)
    obtain ⟨st, hrun, hunit, -, hcyclic, -⟩ := (oneUnit_start givenToken).execute_pass givenToken
      (unitPools none) hne hmax
      (fun swap hswap hin => ⟨fun _ => (hpass swap hswap hin).1,
        fun hwhole => absurd hwhole (hpass swap hswap hin).2⟩) (fun _ _ _ _ => rfl)
    obtain ⟨-, -, -, -, hleft⟩ := h.inputs_eq hrun
    have hone := (hunit.remaining givenToken).trans (if_pos ⟨rfl, rfl⟩)
    have hle := hleft.checked
    rw [amountOut, if_pos rfl, hcyclic, hone] at hle
    exact absurd hle (by simp [start])

end

lemma sameTrade_of_selfHop (hg : g ∈ groupSwaps swaps) (hself : g.tokenIn = g.tokenOut) :
    SameTrade givenToken checkedToken swaps := by
  intro pools amountIn
  have hgroups : execute givenToken pools (groupSwaps swaps) (start givenToken amountIn) =
      none := by
    rw [eq_none_iff_forall_ne_some]
    exact fun s hs => ne_of_execute hs g hg hself
  obtain ⟨swap, hswap, hin, hout⟩ : ∃ swap ∈ swaps, swap.tokenIn = g.tokenIn ∧
      swap.tokenOut = g.tokenOut := by
    obtain ⟨swap, hgs, hin, hout⟩ := (formed_of_mem_groupSwaps hg).of_self hself
    refine ⟨swap, ?_, hin, hout⟩
    rw [← swapsOf_groupSwaps swaps]
    exact mem_flatMap.mpr ⟨g, hg, by simp [hgs]⟩
  have hsingles : execute givenToken pools (swaps.map alone) (start givenToken amountIn) =
      none := by
    rw [eq_none_iff_forall_ne_some]
    exact fun s hs => ne_of_execute hs (alone swap) (mem_map_of_mem hswap)
      (hin.trans (hself.trans hout.symm))
  rw [SameResult, hgroups, hsingles]
  exact .none

/-- The rule of `_sequentialSwap` for the groups and for the swaps one by one. -/
def SameSequentialTrade (swaps : List Swap) : Prop :=
  ∀ pools amountIn, executeSequential pools (swaps.map alone) (amountIn, []) =
    executeSequential pools (groupSwaps swaps) (amountIn, [])

lemma sameSequentialTrade_iff (swaps : List Swap) :
    SameSequentialTrade swaps ↔ (∃ g ∈ groupSwaps swaps, g.tokenIn = g.tokenOut) ∨
      ∀ swap ∈ swaps, swap.tokenIn ≠ swap.tokenOut := by
  have halone : (∀ g ∈ swaps.map alone, g.tokenIn ≠ g.tokenOut) ↔
      ∀ swap ∈ swaps, swap.tokenIn ≠ swap.tokenOut := forall_mem_map
  have hgroups : (∀ swap ∈ swaps, swap.tokenIn ≠ swap.tokenOut) →
      ∀ g ∈ groupSwaps swaps, g.tokenIn ≠ g.tokenOut := by
    intro hne g hg
    refine (formed_of_mem_groupSwaps hg).ne fun swap hswap => hne swap ?_
    rw [← swapsOf_groupSwaps swaps]
    exact mem_flatMap.mpr ⟨g, hg, hswap⟩
  simp only [SameSequentialTrade, executeSequential_eq, swapsOf_alone, swapsOf_groupSwaps, halone]
  by_cases hne : ∀ swap ∈ swaps, swap.tokenIn ≠ swap.tokenOut
  · simp only [if_pos hne, if_pos (hgroups hne), implies_true, true_iff]
    exact .inr hne
  · simp only [if_neg hne, or_iff_left hne]
    constructor
    · intro h
      by_contra hnone
      have hall : ∀ g ∈ groupSwaps swaps, g.tokenIn ≠ g.tokenOut :=
        fun g hg hself => hnone ⟨g, hg, hself⟩
      have hsome := h (unitPools none) 0
      rw [if_pos hall] at hsome
      cases hsome
    · rintro ⟨g, hg, hself⟩ pools amountIn
      rw [if_neg fun hall => hall g hg hself]

end TokenFlow

def Validated (showF64 : ℚ → String) (order : VisitOrder) (givenToken checkedToken : Address)
    (swaps : List Swap) : Prop :=
  SwapValidator.validateSwapPath order swaps givenToken checkedToken = .ok () ∧
    ((∀ swap ∈ swaps, swap.split = 0) ∨ validateSplitPercentages showF64 order swaps = .ok ())

lemma percentageToUint24_le {decimal : ℚ} (h : decimal < 1) :
    percentageToUint24 decimal ≤ MAX_UINT24 := by
  have hlt : decimal * MAX_UINT24 + 1 / 2 < ((MAX_UINT24 + 1 : Int) : ℚ) := by
    norm_num [MAX_UINT24]
    linarith
  have hfloor := Int.floor_lt.mpr hlt
  unfold percentageToUint24
  omega

section
variable {showF64 : ℚ → String} {order : VisitOrder}

section
variable (h : validateSplitPercentages showF64 order swaps = .ok ())
include h

lemma split_lt_one_of_validated {swap : Swap} (hswap : swap ∈ swaps) : swap.split < 1 := by
  have hmem : swap ∈ swapsFrom swap.tokenIn swaps := mem_swapsFrom.mpr ⟨hswap, rfl⟩
  obtain ⟨init, last, heq, hparts⟩ :=
    parts_of_validated h swap.tokenIn (ne_nil_of_mem hmem)
  rw [heq, mem_append, mem_singleton] at hmem
  obtain hmem | rfl := hmem
  · exact (hparts.part swap hmem).2
  · rw [hparts.remainder]
    exact zero_lt_one

lemma remainderLast_of_validated : swaps.Pairwise RemainderLast := by
  rw [pairwise_iff_forall_sublist]
  intro swap later hsub hzero hin
  have hfrom : List.Sublist [swap, later] (swapsFrom swap.tokenIn swaps) := by
    have hfilter := hsub.filter fun x => x.tokenIn = swap.tokenIn
    rwa [filter_cons_of_pos (by simp), filter_cons_of_pos (by simp [hin]), filter_nil] at hfilter
  obtain ⟨init, last, heq, hparts⟩ := parts_of_validated h swap.tokenIn
    (ne_nil_of_mem (hfrom.subset mem_cons_self))
  have hpairwise : (init ++ [last]).Pairwise fun s x => s.split = 0 → x.split = 0 := by
    have hinit : ∀ s ∈ init, s.split ≠ 0 := fun s hs => (hparts.part s hs).1.ne'
    exact pairwise_append.mpr ⟨pairwise_of_forall_mem_list
      fun s hs _ _ hzero => absurd hzero (hinit s hs), pairwise_singleton _ _,
      fun s hs _ _ hzero => absurd hzero (hinit s hs)⟩
  rw [heq] at hfrom
  exact rel_of_pairwise_cons (hpairwise.sublist hfrom) mem_cons_self hzero

end

end

namespace TokenFlow

/-- For an accepted solution: grouping does not change the trade when a hop reverts in any case, or
when nothing can remain of a token where two swaps on it are merged and nothing can remain at the
end. By the rule of sequential swaps it is enough that no swap inside a group reverts. -/
theorem sameTrade_iff {showF64 : ℚ → String} {order : VisitOrder} {swaps : List Swap}
    (h : Validated showF64 order givenToken checkedToken swaps) :
    (SameTrade givenToken checkedToken swaps ↔ (∃ g ∈ groupSwaps swaps, g.tokenIn = g.tokenOut) ∨
        Mergeable givenToken checkedToken swaps) ∧
    ((∀ swap ∈ swaps, swap.split = 0) → (SameSequentialTrade swaps ↔
      (∃ g ∈ groupSwaps swaps, g.tokenIn = g.tokenOut) ∨
        ∀ swap ∈ swaps, swap.tokenIn ≠ swap.tokenOut)) := by
  refine ⟨?_, fun _ => sameSequentialTrade_iff swaps⟩
  have hmax : ∀ swap ∈ swaps, percentageToUint24 swap.split ≤ MAX_UINT24 := by
    intro swap hswap
    refine percentageToUint24_le ?_
    obtain hzero | hsplits := h.2
    · rw [hzero swap hswap]
      exact zero_lt_one
    · exact split_lt_one_of_validated hsplits hswap
  have hlast : swaps.Pairwise RemainderLast := by
    obtain hzero | hsplits := h.2
    · exact pairwise_of_forall_mem_list fun _ _ later hlater _ _ => hzero later hlater
    · exact remainderLast_of_validated hsplits
  constructor
  · intro hsame
    by_cases hself : ∃ g ∈ groupSwaps swaps, g.tokenIn = g.tokenOut
    · exact .inl hself
    · exact .inr (mergeable_of_sameTrade hsame (fun g hg heq => hself ⟨g, hg, heq⟩) hmax hlast)
  · rintro (⟨g, hg, hself⟩ | hmergeable)
    · exact sameTrade_of_selfHop hg hself
    · exact sameTrade_of_mergeable hlast hmergeable

/-- Two branches into the second token, of which the last swap belongs to the group of the second
branch. -/
def branchedSwaps : List Swap :=
  [sampleSwap "uniswap_v2" 1 2 (1 / 2), sampleSwap "uniswap_v4" 1 2 0,
    sampleSwap "uniswap_v4" 2 3 0]

/-- The output of the first branch is left in the router. -/
theorem not_sameTrade_branched :
    Validated toString .asListed (sampleToken 1) (sampleToken 3) branchedSwaps ∧
      ¬ SameTrade (sampleToken 1) (sampleToken 3) branchedSwaps := by
  refine ⟨⟨by decide +kernel, .inr (by decide +kernel)⟩, fun h => ?_⟩
  have hinputs : ∀ {u s : Option FlowState}, SameResult (sampleToken 1) (sampleToken 3) u s →
      u.map FlowState.inputs = s.map FlowState.inputs := by
    rintro _ _ (⟨hsame⟩ | _)
    · exact congrArg some hsame.1
    · rfl
  have heq := hinputs (h (fun _ amount => amount) 10)
  revert heq
  decide +kernel

def mergedSwaps : List Swap :=
  [sampleSwap "uniswap_v2" 1 2 0, sampleSwap "uniswap_v4" 2 3 0, sampleSwap "uniswap_v4" 3 4 0]

lemma groupSwaps_mergedSwaps : groupSwaps mergedSwaps =
    [alone (sampleSwap "uniswap_v2" 1 2 0), ⟨sampleToken 2, sampleToken 4, "uniswap_v4",
      [sampleSwap "uniswap_v4" 2 3 0, sampleSwap "uniswap_v4" 3 4 0], 0⟩] := by
  decide +kernel

lemma mergeable_mergedSwaps : Mergeable (sampleToken 1) (sampleToken 4) mergedSwaps where
  noSelfSwap := by decide +kernel
  links pre g post p a b q hgroups hg := by
    rw [groupSwaps_mergedSwaps] at hgroups
    obtain _ | ⟨g₁, _ | ⟨g₂, pre⟩⟩ := pre
    · cases hgroups
      obtain _ | ⟨_, _ | ⟨_, p⟩⟩ := p <;> cases hg
    · cases hgroups
      obtain _ | ⟨_, _ | ⟨_, p⟩⟩ := p
      · cases hg
        exact ⟨by decide +kernel, by decide +kernel⟩
      · cases hg
      · simp at hg
    · simp at hgroups
  others token htoken := by
    by_cases h1 : token = sampleToken 1
    · rw [h1]
      decide +kernel
    by_cases h2 : token = sampleToken 2
    · rw [h2]
      decide +kernel
    by_cases h3 : token = sampleToken 3
    · rw [h3]
      decide +kernel
    simp [MayRemain, remainsAfter, mergedSwaps, trackSwap, sampleSwap, h1, Ne.symm h1, Ne.symm h2,
      Ne.symm h3, Ne.symm htoken]
  given h := absurd h (by decide +kernel)

theorem sameTrade_iff_merged :
    Validated toString .asListed (sampleToken 1) (sampleToken 4) mergedSwaps ∧
      SameTrade (sampleToken 1) (sampleToken 4) mergedSwaps := by
  have h : Validated toString .asListed (sampleToken 1) (sampleToken 4) mergedSwaps :=
    ⟨by decide +kernel, .inl (by decide +kernel)⟩
  exact ⟨h, (sameTrade_iff h).1.mpr (.inr mergeable_mergedSwaps)⟩

end TokenFlow

end Tycho
