import Tycho.Encoding.TokenFlow

/-! What can be left of a token after swaps one by one, and that it is left for some pools. -/
namespace Tycho
open List Nat
variable {st : FlowState} {token : Address}

variable {amountIn : Nat} {swaps : List Swap}

namespace TokenFlow

/-- What can remain of a token: of the amount given at the start, and of the outputs of swaps. -/
structure Remains where
  own : Bool
  gained : Bool
deriving DecidableEq

/-- The split 0 takes all that remains of a token, and the whole split all there was of it; outputs
in the given token are not counted there. -/
def Remains.consumed (r : Remains) (isGiven : Bool) (split : Nat) : Remains :=
  if split = 0 then ⟨false, false⟩
  else if split = MAX_UINT24 then ⟨false, r.gained && isGiven⟩
  else r

def trackSwap (givenToken token : Address) (r : Remains) (swap : Swap) : Remains :=
  let r := if swap.tokenIn = token then
    r.consumed (token = givenToken) (percentageToUint24 swap.split) else r
  if swap.tokenOut = token then { r with gained := true } else r

def remainsAfter (givenToken token : Address) (swaps : List Swap) : Remains :=
  swaps.foldl (trackSwap givenToken token) ⟨token = givenToken, false⟩

/-- Some of the token can be left after the swaps, for some pools and some amount. -/
def MayRemain (givenToken token : Address) (swaps : List Swap) : Prop :=
  (remainsAfter givenToken token swaps).own ∨ (remainsAfter givenToken token swaps).gained

instance (givenToken token : Address) (swaps : List Swap) :
    Decidable (MayRemain givenToken token swaps) :=
  inferInstanceAs (Decidable (_ ∨ _))

lemma remainsAfter_concat (givenToken token : Address) (swaps : List Swap) (swap : Swap) :
    remainsAfter givenToken token (swaps ++ [swap]) =
      trackSwap givenToken token (remainsAfter givenToken token swaps) swap := by
  rw [remainsAfter, foldl_append]
  rfl

variable {givenToken : Address} {pools : Nat → Nat → Nat}

/-- What remains of a token is bounded by what can remain of its two parts. -/
structure Bounded (givenToken : Address) (amountIn : Nat) (token : Address) (r : Remains)
    (st : FlowState) : Prop where
  parts : ∃ n, st.remaining token ≤ (if r.own then amountIn else 0) + n ∧
    (r.gained = false → n = 0) ∧ (token = givenToken → n ≤ st.cyclicSwapAmountOut)
  given : token = givenToken → st.amounts token = amountIn
  other : token ≠ givenToken → r.own = false ∧ st.remaining token ≤ st.amounts token

lemma bounded_start (amountIn : Nat) (token : Address) :
    Bounded givenToken amountIn token ⟨token = givenToken, false⟩ (start givenToken amountIn) := by
  by_cases htoken : token = givenToken
  · subst htoken
    exact ⟨⟨0, by simp [start], fun _ => rfl, fun _ => zero_le _⟩, fun _ => by simp [start],
      fun h => absurd rfl h⟩
  · have hzero : (start givenToken amountIn).remaining token = 0 := by simp [start, htoken]
    refine ⟨⟨0, by simp [hzero], fun _ => rfl, fun _ => zero_le _⟩,
      fun h => absurd h htoken, fun _ => ⟨by simp [htoken], by simp [hzero]⟩⟩

/-- The hop's input token. -/
lemma Bounded.consumed {r : Remains} {st' : FlowState}
    (h : Bounded givenToken amountIn token r st) (split : Nat) (hremains : st'.remaining token =
      st.remaining token - splitInput split (st.amounts token) (st.remaining token))
    (hamounts : st'.amounts token = st.amounts token)
    (hcyclic : st.cyclicSwapAmountOut ≤ st'.cyclicSwapAmountOut) :
    Bounded givenToken amountIn token (r.consumed (token = givenToken) split) st' := by
  obtain ⟨n, hn, hgained, hpaid⟩ := h.parts
  have hcyclic' : token = givenToken → n ≤ st'.cyclicSwapAmountOut :=
    fun htoken => (hpaid htoken).trans hcyclic
  unfold splitInput at hremains
  unfold Remains.consumed
  split_ifs with hzero hwhole
  · rw [if_neg (by omega), Nat.sub_self] at hremains
    exact ⟨⟨0, by simp [hremains], fun _ => rfl, fun _ => Nat.zero_le _⟩,
      fun htoken => hamounts.trans (h.given htoken), fun _ => ⟨rfl, by omega⟩⟩
  · rw [if_pos (by omega), hwhole, Nat.mul_div_cancel _ (by decide)] at hremains
    by_cases htoken : token = givenToken
    · have hamount := h.given htoken
      refine ⟨⟨n, ?_, by simpa [htoken] using hgained, hcyclic'⟩,
        fun _ => hamounts.trans hamount, fun hne => absurd htoken hne⟩
      have hle : (if r.own then amountIn else 0) ≤ amountIn := by split_ifs <;> omega
      simp only [Bool.false_eq_true, if_false]
      omega
    · have hle := (h.other htoken).2
      exact ⟨⟨0, by simp; omega, fun _ => rfl, fun _ => zero_le _⟩,
        fun hgiven => absurd hgiven htoken, fun _ => ⟨rfl, by omega⟩⟩
  · refine ⟨⟨n, by omega, hgained, hcyclic'⟩, fun htoken => hamounts.trans (h.given htoken),
      fun htoken => ?_⟩
    obtain ⟨hown, hle⟩ := h.other htoken
    exact ⟨hown, by omega⟩

lemma Bounded.executeHop {r : Remains} {st' : FlowState} {swap : Swap}
    (h : Bounded givenToken amountIn token r st)
    (hhop : executeHop givenToken pools st (alone swap) = some st') :
    Bounded givenToken amountIn token (trackSwap givenToken token r swap) st' := by
  have hne : swap.tokenIn ≠ swap.tokenOut := (executeHop_eq_some.mp hhop).1
  have hhopped := hopped_of_executeHop hhop
  have hcyclic : st.cyclicSwapAmountOut ≤ st'.cyclicSwapAmountOut := by
    by_cases hgiven : swap.tokenOut = givenToken
    · exact (hhopped.cyclic_given hgiven).symm ▸ le_add_right _ _
    · exact (hhopped.cyclic_other hgiven).ge
  unfold trackSwap
  by_cases hin : swap.tokenIn = token
  · subst hin
    rw [if_pos rfl, if_neg hne.symm]
    exact h.consumed _ hhopped.remaining_in (hhopped.amounts_other _ (.inl hne)) hcyclic
  rw [if_neg hin]
  obtain ⟨n, hn, hgained, hpaid⟩ := h.parts
  by_cases hout : swap.tokenOut = token
  · subst hout
    generalize hopOutput pools st (alone swap) = out at hhopped
    have hremains : st'.remaining swap.tokenOut = st.remaining swap.tokenOut + out :=
      hhopped.remaining_out
    rw [if_pos rfl]
    refine ⟨⟨n + out, by dsimp only; omega, nofun, fun hgiven => ?_⟩, fun hgiven => ?_,
      fun hgiven => ?_⟩
    · have := hhopped.cyclic_given hgiven
      have := hpaid hgiven
      omega
    · exact (hhopped.amounts_other _ (.inr hgiven)).trans (h.given hgiven)
    · obtain ⟨hown, hle⟩ := h.other hgiven
      have hamounts : st'.amounts swap.tokenOut = st.amounts swap.tokenOut + out :=
        hhopped.amounts_out hgiven
      exact ⟨hown, by omega⟩
  · rw [if_neg hout]
    have hremains := hhopped.remaining_other token (Ne.symm hin) (Ne.symm hout)
    have hamounts := hhopped.amounts_other token (.inl (Ne.symm hout))
    exact ⟨⟨n, hremains ▸ hn, hgained, fun hgiven => (hpaid hgiven).trans hcyclic⟩,
      fun hgiven => hamounts.trans (h.given hgiven),
      fun hgiven => by rw [hremains, hamounts]; exact h.other hgiven⟩

section
variable (h : execute givenToken pools (swaps.map alone) (start givenToken amountIn) = some st)
include h

/-- The bound holds after every run of the swaps one by one. -/
lemma bounded_of_execute (token : Address) :
    Bounded givenToken amountIn token (remainsAfter givenToken token swaps) st := by
  induction swaps using List.reverseRecOn generalizing st with
  | nil =>
    cases h
    exact bounded_start amountIn token
  | append_singleton _ _ ih =>
    rw [map_append, execute_append, Option.bind_eq_some_iff] at h
    obtain ⟨st₁, hrun, hhop⟩ := h
    rw [map_singleton, execute_singleton] at hhop
    rw [remainsAfter_concat]
    exact (ih hrun).executeHop hhop

lemma remaining_eq_zero (hnone : ¬ MayRemain givenToken token swaps) : st.remaining token = 0 := by
  obtain ⟨hown, hgained⟩ := not_or.mp hnone
  obtain ⟨n, hn, hzero, -⟩ := (bounded_of_execute h token).parts
  rw [if_neg hown, hzero (by simpa using hgained)] at hn
  exact le_zero.mp hn

end

/-- Pools that put nothing out, but one unit in the source. -/
def unitPools : Option Nat → Nat → Nat → Nat
  | none, _, _ => 0
  | some source, n, _ => if n = source then 1 else 0

lemma unitPools_of_ne {source n : Nat} (h : n ≠ source) (amount : Nat) :
    unitPools (some source) n amount = 0 :=
  if_neg h

lemma unitPools_self (source amount : Nat) : unitPools (some source) source amount = 1 :=
  if_pos rfl

/-- There was one unit of the token and of no other, and it may still be held. -/
structure OneUnit (token : Address) (held : Bool) (st : FlowState) : Prop where
  remaining : ∀ t, st.remaining t = if held ∧ t = token then 1 else 0
  amounts_other : ∀ t, t ≠ token → st.amounts t = 0
  amounts_le : st.amounts token ≤ 1

section
variable {held : Bool} {swap : Swap}

def Passes (token : Address) (held : Bool) (st : FlowState) (swap : Swap) : Prop :=
  swap.tokenIn = token → (held → percentageToUint24 swap.split ≠ 0) ∧
    (percentageToUint24 swap.split = MAX_UINT24 → st.amounts token = 0)

lemma OneUnit.hopInput_eq_zero (h : OneUnit token held st)
    (hmax : percentageToUint24 swap.split ≤ MAX_UINT24) (hpass : Passes token held st swap) :
    hopInput st (alone swap) = 0 := by
  change splitInput (percentageToUint24 swap.split) (st.amounts swap.tokenIn)
    (st.remaining swap.tokenIn) = 0
  by_cases hin : swap.tokenIn = token
  · obtain ⟨hzero, hwhole⟩ := hpass hin
    rw [hin, h.remaining, splitInput]
    split_ifs with hpos hheld
    · obtain hlt | heq := hmax.lt_or_eq
      · have hle := mul_le_mul_right (percentageToUint24 swap.split) h.amounts_le
        exact div_eq_of_lt (by omega)
      · rw [hwhole heq, Nat.zero_mul, Nat.zero_div]
    · exact absurd (Nat.pos_of_ne_zero (hzero hheld.1)) hpos
    · rfl
  · rw [h.amounts_other _ hin, h.remaining, if_neg fun hheld => hin hheld.2, splitInput]
    simp

variable (givenToken) (pools)

/-- A hop whose pool pays nothing moves its input only. -/
lemma OneUnit.executeHop_quiet (h : OneUnit token held st) (hne : swap.tokenIn ≠ swap.tokenOut)
    (hpool : ∀ n, pools st.inputs.length n = 0)
    (hle : hopInput st (alone swap) ≤ st.remaining swap.tokenIn) {held' : Bool}
    (hheld : ∀ t, (if t = swap.tokenIn then st.remaining t - hopInput st (alone swap)
      else st.remaining t) = if held' = true ∧ t = token then 1 else 0) :
    ∃ st', executeHop givenToken pools st (alone swap) = some st' ∧ OneUnit token held' st' ∧
      st'.amounts = st.amounts ∧ st'.cyclicSwapAmountOut = st.cyclicSwapAmountOut ∧
      st'.inputs = st.inputs ++ [hopInput st (alone swap)] := by
  have houtput : hopOutput pools st (alone swap) = 0 := hpool _
  have hhopped : Hopped givenToken st (alone swap) _ _ := hopped_afterHop givenToken pools st hne
  rw [houtput] at hhopped
  obtain ⟨hremains, hamounts, hcyclic⟩ := hhopped.quiet
  exact ⟨_, executeHop_eq_some.mpr ⟨hne, hle, rfl⟩, ⟨fun t => (hremains t).trans (hheld t),
    hamounts ▸ h.amounts_other, hamounts ▸ h.amounts_le⟩, hamounts, hcyclic, rfl⟩

lemma OneUnit.executeHop_pass (h : OneUnit token held st) (hne : swap.tokenIn ≠ swap.tokenOut)
    (hmax : percentageToUint24 swap.split ≤ MAX_UINT24) (hpass : Passes token held st swap)
    (hpool : ∀ n, pools st.inputs.length n = 0) :
    ∃ st', executeHop givenToken pools st (alone swap) = some st' ∧ OneUnit token held st' ∧
      st'.amounts = st.amounts ∧ st'.cyclicSwapAmountOut = st.cyclicSwapAmountOut ∧
      st'.inputs = st.inputs ++ [0] := by
  have hinput := h.hopInput_eq_zero hmax hpass
  rw [← hinput]
  refine h.executeHop_quiet givenToken pools hne hpool (hinput ▸ zero_le _) fun t => ?_
  rw [hinput, Nat.sub_zero, ite_self]
  exact h.remaining t

lemma OneUnit.execute_pass (h : OneUnit token held st)
    (hne : ∀ swap ∈ swaps, swap.tokenIn ≠ swap.tokenOut)
    (hmax : ∀ swap ∈ swaps, percentageToUint24 swap.split ≤ MAX_UINT24)
    (hpass : ∀ swap ∈ swaps, Passes token held st swap)
    (hpools : ∀ i, st.inputs.length ≤ i → i < st.inputs.length + swaps.length → ∀ n, pools i n = 0)
      :
    ∃ st', execute givenToken pools (swaps.map alone) st = some st' ∧ OneUnit token held st' ∧
      st'.amounts = st.amounts ∧ st'.cyclicSwapAmountOut = st.cyclicSwapAmountOut ∧
      st'.inputs = st.inputs ++ List.replicate swaps.length 0 := by
  induction swaps generalizing st with
  | nil => exact ⟨st, rfl, h, rfl, rfl, by simp⟩
  | cons swap _ ih =>
    rw [length_cons] at hpools
    obtain ⟨st₁, hhop, h₁, hamounts, hcyclic, hinputs⟩ := h.executeHop_pass
      givenToken pools (hne swap mem_cons_self) (hmax swap mem_cons_self)
      (hpass swap mem_cons_self)
      (hpools _ le_rfl (by omega))
    have hlen : st₁.inputs.length = st.inputs.length + 1 := by simp [hinputs]
    obtain ⟨st₂, hrun, h₂, hamounts₂, hcyclic₂, hinputs₂⟩ := ih h₁
      (fun x hx => hne x (mem_cons_of_mem swap hx))
      (fun x hx => hmax x (mem_cons_of_mem swap hx))
      (fun x hx => by
        unfold Passes
        rw [hamounts]
        exact hpass x (mem_cons_of_mem swap hx))
      (fun i hi hlt => hpools i (by omega) (by omega))
    refine ⟨st₂, ?_, h₂, hamounts₂.trans hamounts, hcyclic₂.trans hcyclic, ?_⟩
    · rw [map_cons, execute_cons, hhop]
      exact hrun
    · rw [hinputs₂, hinputs, length_cons, replicate_succ, append_assoc]
      rfl

lemma OneUnit.executeHop_drain (h : OneUnit token true st) (hne : swap.tokenIn ≠ swap.tokenOut)
    (hin : swap.tokenIn = token)
    (hzero : percentageToUint24 swap.split = 0) (hpool : ∀ n, pools st.inputs.length n = 0) :
    ∃ st', executeHop givenToken pools st (alone swap) = some st' ∧ OneUnit token false st' ∧
      st'.amounts = st.amounts ∧ st'.cyclicSwapAmountOut = st.cyclicSwapAmountOut ∧
      st'.inputs = st.inputs ++ [1] := by
  subst hin
  have hheld : st.remaining swap.tokenIn = 1 := (h.remaining _).trans (if_pos ⟨rfl, rfl⟩)
  have hinput : hopInput st (alone swap) = 1 := by
    simp [hopInput, alone, splitInput, hzero, hheld]
  rw [← hinput]
  refine h.executeHop_quiet givenToken pools hne hpool (hinput ▸ hheld.ge) fun t => ?_
  rw [hinput, if_neg (by simp : ¬(false = true ∧ t = swap.tokenIn))]
  split_ifs with ht
  · rw [ht, hheld]
  · rw [h.remaining, if_neg fun hheld => ht hheld.2]

lemma OneUnit.executeHop_source (h : OneUnit token false st) (hamount : st.amounts token = 0)
    (hne : swap.tokenIn ≠ swap.tokenOut) (hout : swap.tokenOut = token)
    (hmax : percentageToUint24 swap.split ≤ MAX_UINT24)
    (hpool : ∀ n, pools st.inputs.length n = 1) :
    ∃ st', executeHop givenToken pools st (alone swap) = some st' ∧ OneUnit token true st' ∧
      st'.amounts token = (if token = givenToken then 0 else 1) ∧
      st'.cyclicSwapAmountOut = st.cyclicSwapAmountOut + (if token = givenToken then 1 else 0) ∧
      st'.inputs = st.inputs ++ [0] := by
  subst hout
  have hinput := h.hopInput_eq_zero hmax fun hin => absurd hin hne
  have houtput : hopOutput pools st (alone swap) = 1 := hpool _
  have hnot : ∀ t, st.remaining t = 0 := fun t => (h.remaining t).trans (by simp)
  have hhopped : Hopped givenToken st (alone swap) _ _ := hopped_afterHop givenToken pools st hne
  rw [houtput] at hhopped
  have hamounts : (afterHop givenToken pools st (alone swap)).amounts swap.tokenOut =
      if swap.tokenOut = givenToken then 0 else 1 := by
    split_ifs with hgiven
    · exact (hhopped.amounts_other _ (.inr hgiven)).trans hamount
    · refine (hhopped.amounts_out hgiven).trans ?_
      change st.amounts swap.tokenOut + 1 = 1
      rw [hamount]
  refine ⟨_, executeHop_eq_some.mpr ⟨hne, by rw [hinput]; exact zero_le _, rfl⟩,
    ⟨fun t => ?_, fun t ht => ?_, ?_⟩, hamounts, ?_, ?_⟩
  · by_cases ht : t = swap.tokenOut
    · rw [ht, if_pos ⟨rfl, rfl⟩]
      exact hhopped.remaining_out.trans (by rw [hnot])
    · rw [if_neg fun hheld => ht hheld.2]
      by_cases hin : t = swap.tokenIn
      · rw [hin]
        exact hhopped.remaining_in.trans (by rw [hnot, Nat.zero_sub])
      · exact (hhopped.remaining_other t hin ht).trans (hnot t)
  · exact (hhopped.amounts_other t (.inl ht)).trans (h.amounts_other t ht)
  · rw [hamounts]
    split_ifs <;> omega
  · split_ifs with hgiven
    · exact hhopped.cyclic_given hgiven
    · exact hhopped.cyclic_other hgiven
  · change st.inputs ++ [hopInput st (alone swap)] = _
    rw [hinput]

end

/-- What is left of the amount given at the start is left by every swap. -/
lemma own_remainsAfter (h : (remainsAfter givenToken token swaps).own) :
    token = givenToken ∧ ∀ swap ∈ swaps, swap.tokenIn = token →
      percentageToUint24 swap.split ≠ 0 ∧ percentageToUint24 swap.split ≠ MAX_UINT24 := by
  induction swaps using List.reverseRecOn with
  | nil => exact ⟨by simpa [remainsAfter] using h, by simp⟩
  | append_singleton swaps swap ih =>
    have hstep : (remainsAfter givenToken token swaps).own ∧ (swap.tokenIn = token →
        percentageToUint24 swap.split ≠ 0 ∧ percentageToUint24 swap.split ≠ MAX_UINT24) := by
      rw [remainsAfter_concat] at h
      unfold trackSwap Remains.consumed at h
      split_ifs at h <;> simp_all
    obtain ⟨htoken, hpass⟩ := ih hstep.1
    exact ⟨htoken, forall_mem_append.mpr ⟨hpass, forall_mem_singleton.mpr hstep.2⟩⟩

/-- What is left of the outputs is left of one of them by every later swap. -/
lemma gained_remainsAfter (h : (remainsAfter givenToken token swaps).gained) :
    ∃ p swap q, swaps = p ++ swap :: q ∧ swap.tokenOut = token ∧
      ∀ x ∈ q, x.tokenIn = token → percentageToUint24 x.split ≠ 0 ∧
        (percentageToUint24 x.split = MAX_UINT24 → token = givenToken) := by
  induction swaps using List.reverseRecOn with
  | nil => simp [remainsAfter] at h
  | append_singleton swaps swap ih =>
    by_cases hout : swap.tokenOut = token
    · exact ⟨swaps, swap, [], rfl, hout, by simp⟩
    have hstep : (remainsAfter givenToken token swaps).gained ∧ (swap.tokenIn = token →
        percentageToUint24 swap.split ≠ 0 ∧
          (percentageToUint24 swap.split = MAX_UINT24 → token = givenToken)) := by
      rw [remainsAfter_concat, trackSwap, if_neg hout] at h
      by_cases hin : swap.tokenIn = token
      · rw [if_pos hin, Remains.consumed] at h
        split_ifs at h with hzero hwhole
        · rw [Bool.and_eq_true, decide_eq_true_iff] at h
          exact ⟨h.1, fun _ => ⟨hzero, fun _ => h.2⟩⟩
        · exact ⟨h, fun _ => ⟨hzero, fun hw => absurd hw hwhole⟩⟩
      · rw [if_neg hin] at h
        exact ⟨h, fun h' => absurd h' hin⟩
    obtain ⟨p, source, q, rfl, hsource, hpass⟩ := ih hstep.1
    exact ⟨p, source, q ++ [swap], by simp, hsource,
      forall_mem_append.mpr ⟨hpass, forall_mem_singleton.mpr hstep.2⟩⟩

/-- The unit after the source: before it all pools put nothing out. -/
lemma exists_oneUnit_source {p : List Swap} {source : Swap}
    (hne : ∀ swap ∈ p ++ [source], swap.tokenIn ≠ swap.tokenOut)
    (hmax : ∀ swap ∈ p ++ [source], percentageToUint24 swap.split ≤ MAX_UINT24) :
    ∃ st, execute givenToken (unitPools (some p.length)) ((p ++ [source]).map alone)
        (start givenToken 0) = some st ∧ OneUnit source.tokenOut true st ∧
      st.amounts source.tokenOut = (if source.tokenOut = givenToken then 0 else 1) ∧
      st.cyclicSwapAmountOut = (if source.tokenOut = givenToken then 1 else 0) ∧
      st.inputs.length = p.length + 1 := by
  have hzero : ∀ t, Function.update (0 : Address → Nat) givenToken 0 t = 0 := by
    intro t
    simp [Function.update_apply]
  have hstart : OneUnit source.tokenOut false (start givenToken 0) :=
    ⟨fun t => (hzero t).trans (by simp), fun t _ => hzero t, (hzero _).le.trans (by omega)⟩
  obtain ⟨st, hrun, hunit, hamounts, hcyclic, hinputs⟩ := hstart.execute_pass
    givenToken (unitPools (some p.length)) (fun x hx => hne x (mem_append_left _ hx))
    (fun x hx => hmax x (mem_append_left _ hx))
    (fun x _ _ => ⟨nofun, fun _ => hzero _⟩)
    (fun i _ hlt => unitPools_of_ne (by simpa [start] using hlt.ne))
  have hlen : st.inputs.length = p.length := by simp [hinputs, start]
  obtain ⟨st', hhop, hunit', hamounts', hcyclic', hinputs'⟩ := hunit.executeHop_source
    givenToken (unitPools (some p.length)) (by rw [hamounts]; exact hzero _)
    (hne source (by simp)) rfl (hmax source (by simp))
    (hlen ▸ unitPools_self _)
  refine ⟨st', ?_, hunit', hamounts', ?_, by simp [hinputs', hlen]⟩
  · rw [map_append, execute_append, hrun, map_singleton]
    exact (execute_singleton _ _).trans hhop
  · rw [hcyclic', hcyclic]
    simp [start]

lemma oneUnit_start (givenToken : Address) : OneUnit givenToken true (start givenToken 1) :=
  ⟨fun t => by simp [start, Function.update_apply], fun t ht => by simp [start, ht],
    by simp [start]⟩

/-- What can remain does so for some pools and some amount. -/
lemma exists_oneUnit (h : MayRemain givenToken token swaps)
    (hne : ∀ swap ∈ swaps, swap.tokenIn ≠ swap.tokenOut)
    (hmax : ∀ swap ∈ swaps, percentageToUint24 swap.split ≤ MAX_UINT24) :
    ∃ source amountIn st, (∀ n ∈ source, n < swaps.length) ∧
      execute givenToken (unitPools source) (swaps.map alone) (start givenToken amountIn) =
        some st ∧ OneUnit token true st := by
  obtain hown | hgained := h
  · obtain ⟨rfl, hpass⟩ := own_remainsAfter hown
    obtain ⟨st, hrun, hst, -⟩ := (oneUnit_start token).execute_pass token (unitPools none) hne hmax
      (fun swap hswap hin => ⟨fun _ => (hpass swap hswap hin).1,
        fun hwhole => absurd hwhole (hpass swap hswap hin).2⟩) (fun _ _ _ _ => rfl)
    exact ⟨none, 1, st, nofun, hrun, hst⟩
  · obtain ⟨p, source, q, rfl, rfl, hpass⟩ := gained_remainsAfter hgained
    rw [append_cons] at hne hmax ⊢
    obtain ⟨st, hrun, hunit, hamounts, -, hlen⟩ := exists_oneUnit_source
      (fun x hx => hne x (mem_append_left _ hx))
      (fun x hx => hmax x (mem_append_left _ hx))
    obtain ⟨st', hrun', hunit', -⟩ := hunit.execute_pass givenToken
      (unitPools (some p.length)) (fun x hx => hne x (mem_append_right _ hx))
      (fun x hx => hmax x (mem_append_right _ hx))
      (fun x hx hin => ⟨fun _ => (hpass x hx hin).1,
        fun hwhole => hamounts.trans (if_pos ((hpass x hx hin).2 hwhole))⟩)
      (fun i hle _ => unitPools_of_ne (by omega))
    refine ⟨some p.length, 0, st', by simp, ?_, hunit'⟩
    rw [map_append, execute_append, hrun]
    exact hrun'

end TokenFlow

end Tycho
