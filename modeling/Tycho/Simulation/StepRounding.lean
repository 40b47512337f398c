import Tycho.Simulation.SwapMath

/-! Where the price of a step can end, and who the rounding of a step favours. The amounts of a step
are compared with the exact amounts for the move of its price. -/
namespace Tycho
open Nat

variable {current target liquidity amount feePips next r : Nat} {amountRemaining : Int}
  {step : SwapStep}

lemma Q96_pos : 0 < Q96 := Nat.two_pow_pos 96

/-- An input without its fee covers an amount when the input covers the amount and the fee on
it. -/
lemma gross_le_iff (hfee : feePips < 1000000) : r ≤ amount * (1000000 - feePips) / 1000000 ↔
      r + (r * feePips) ⌈/⌉ (1000000 - feePips) ≤ amount := by
  obtain ⟨rest, hrest⟩ : ∃ rest, rest = 1000000 - feePips := ⟨_, rfl⟩
  have hpos : 0 < rest := by omega
  have hwhole : r * 1000000 = r * rest + r * feePips := by
    rw [← mul_add]
    congr 1
    omega
  rw [← hrest, le_div_iff_mul_le (by decide), hwhole]
  constructor
  · intro h
    have hle : r ≤ amount := le_of_mul_le_mul_right (by omega) hpos
    have hceil : (r * feePips) ⌈/⌉ rest ≤ amount - r := by
      rw [ceilDiv_le_iff_le_mul hpos, Nat.mul_sub, Nat.mul_comm rest, Nat.mul_comm rest]
      omega
    omega
  · intro h
    have hceil : (r * feePips) ⌈/⌉ rest ≤ amount - r := by omega
    rw [ceilDiv_le_iff_le_mul hpos, Nat.mul_sub, Nat.mul_comm rest, Nat.mul_comm rest] at hceil
    have hle : r * rest ≤ amount * rest := Nat.mul_le_mul_right rest (by omega)
    omega

/-- A falling price does not reach the target by an input smaller than what the target takes. -/
lemma input_falls (hdown : target ≤ current)
    (hreach : amountInDelta true current target liquidity = .ok r) (hless : amount < r)
    (h : getNextSqrtPriceFromInput current liquidity amount true = .ok next) :
    target < next ∧ next ≤ current ∧
      ∀ taken, amountInDelta true current next liquidity = .ok taken → taken ≤ amount := by
  rw [amountInDelta_true] at hreach
  obtain ⟨htarget, rfl⟩ := getAmount0Delta_up hdown hreach
  have hcur : 0 < current := htarget.trans_le hdown
  obtain ⟨-, h⟩ := getNextSqrtPriceFromInput_ok h
  rw [if_pos rfl] at h
  obtain ⟨hnext, hexact⟩ := fromAmount0_add_ok hcur h
  have hsmall : current * target * amount < liquidity * Q96 * (current - target) := by
    by_contra hle
    exact hless.not_ge ((ceilDiv_le_iff_le_mul (mul_pos hcur htarget)).mpr (Nat.le_of_not_lt hle))
  have hsplit : liquidity * Q96 * (current - target) + liquidity * Q96 * target =
      liquidity * Q96 * current := by
    rw [← Nat.mul_add, Nat.sub_add_cancel hdown]
  have habove : target < next := by
    by_contra hle
    have hmono : next * (liquidity * Q96 + amount * current) ≤
      target * (liquidity * Q96 + amount * current) :=
      Nat.mul_le_mul_right _ (Nat.le_of_not_lt hle)
    have hexpand : target * (liquidity * Q96 + amount * current) =
        liquidity * Q96 * target + current * target * amount := by ring
    omega
  refine ⟨habove, hnext, ?_⟩
  intro taken htaken
  rw [amountInDelta_true] at htaken
  obtain ⟨hpos, rfl⟩ := getAmount0Delta_up hnext htaken
  rw [ceilDiv_le_iff_le_mul (Nat.mul_pos hcur hpos), Nat.mul_sub]
  have hexpand : next * (liquidity * Q96 + amount * current) =
      liquidity * Q96 * next + current * next * amount := by ring
  omega

/-- A rising price does not reach the target by an input smaller than what the target takes. -/
lemma input_rises (hup : current < target)
    (hreach : amountInDelta false current target liquidity = .ok r) (hless : amount < r)
    (h : getNextSqrtPriceFromInput current liquidity amount false = .ok next) :
    next = current + amount * Q96 / liquidity ∧ next < target ∧
      ∀ taken, amountInDelta false current next liquidity = .ok taken → taken ≤ amount := by
  rw [amountInDelta_false] at hreach
  have hr := getAmount1Delta_up hup.le hreach
  obtain ⟨-, h⟩ := getNextSqrtPriceFromInput_ok h
  rw [if_neg Bool.false_ne_true] at h
  obtain ⟨hpos, rfl⟩ := fromAmount1_add_ok h
  have hsmall : Q96 * amount < liquidity * (target - current) := by
    by_contra hle
    rw [hr] at hless
    exact hless.not_ge ((ceilDiv_le_iff_le_mul Q96_pos).mpr (Nat.le_of_not_lt hle))
  have hquotient : amount * Q96 / liquidity < target - current := by
    rw [Nat.div_lt_iff_lt_mul hpos, Nat.mul_comm amount, Nat.mul_comm (target - current)]
    exact hsmall
  refine ⟨rfl, by omega, ?_⟩
  intro taken htaken
  rw [amountInDelta_false] at htaken
  rw [getAmount1Delta_up (le_add_right _ _) htaken, ceilDiv_le_iff_le_mul Q96_pos,
    Nat.add_sub_cancel_left, Nat.mul_comm Q96]
  exact Nat.mul_div_le _ _

/-- A falling price does not pass the target by an output that the target gives, and gives all of
it. -/
lemma output_falls (hdown : target ≤ current)
    (hreach : amountOutDelta true current target liquidity = .ok r) (hle : amount ≤ r)
    (h : getNextSqrtPriceFromOutput current liquidity amount true = .ok next) :
    target ≤ next ∧ next ≤ current ∧
      ∀ given, amountOutDelta true current next liquidity = .ok given → amount ≤ given := by
  rw [amountOutDelta_true] at hreach
  have hr := getAmount1Delta_down hdown hreach
  obtain ⟨-, -, h⟩ := getNextSqrtPriceFromOutput_ok h
  rw [if_pos rfl] at h
  obtain ⟨hpos, hbelow, rfl⟩ := fromAmount1_sub_ok h
  rw [hr, le_div_iff_mul_le Q96_pos] at hle
  have hquotient : (amount * Q96) ⌈/⌉ liquidity ≤ current - target :=
    (ceilDiv_le_iff_le_mul hpos).mpr hle
  refine ⟨by omega, sub_le _ _, ?_⟩
  intro given hgiven
  rw [amountOutDelta_true] at hgiven
  rw [getAmount1Delta_down (sub_le _ _) hgiven, le_div_iff_mul_le Q96_pos,
    Nat.sub_sub_self hbelow.le]
  exact (ceilDiv_le_iff_le_mul hpos).mp le_rfl

/-- A price that rises by an output gives all of it, and stays below those up to which the exact
output is no smaller. -/
lemma output_rises (h : getNextSqrtPriceFromOutput current liquidity amount false = .ok next) :
    amount * current < liquidity * Q96 ∧ current ≤ next ∧ (∀ price, next ≤ price ↔
        liquidity * Q96 * current + price * current * amount ≤ liquidity * Q96 * price) ∧
      ∀ given, amountOutDelta false current next liquidity = .ok given → amount ≤ given := by
  obtain ⟨hcur, hliquidity, h⟩ := getNextSqrtPriceFromOutput_ok h
  rw [if_neg Bool.false_ne_true] at h
  obtain ⟨hfits, rfl⟩ := fromAmount0_sub_ok hliquidity h
  have hle : ∀ price, (liquidity * Q96 * current) ⌈/⌉ (liquidity * Q96 - amount * current) ≤ price ↔
      liquidity * Q96 * current + price * current * amount ≤ liquidity * Q96 * price := by
    intro price
    rw [ceilDiv_le_iff_le_mul (by omega), Nat.sub_mul]
    have hmul : amount * current * price ≤ liquidity * Q96 * price :=
      Nat.mul_le_mul_right price hfits.le
    have hcomm : price * current * amount = amount * current * price := by ring
    omega
  have hself := (hle _).mp le_rfl
  have hrise : current ≤ (liquidity * Q96 * current) ⌈/⌉ (liquidity * Q96 - amount * current) :=
    le_of_mul_le_mul_left (by omega : liquidity * Q96 * current ≤ liquidity * Q96 * _) (by omega)
  refine ⟨hfits, hrise, hle, ?_⟩
  intro given hgiven
  rw [amountOutDelta_false] at hgiven
  obtain ⟨-, rfl⟩ := getAmount0Delta_down hrise hgiven
  generalize (liquidity * Q96 * current) ⌈/⌉ (liquidity * Q96 - amount * current) = next at *
  have hnext : 0 < next := hcur.trans_le hrise
  have hup : liquidity * Q96 * (next - current) ≤
      next * ((liquidity * Q96 * (next - current)) ⌈/⌉ next) :=
    (ceilDiv_le_iff_le_mul hnext).mp le_rfl
  rw [le_div_iff_mul_le hcur]
  apply le_of_mul_le_mul_left _ hnext
  have hcomm : next * (amount * current) = next * current * amount := by ring
  have hsub : liquidity * Q96 * (next - current) = liquidity * Q96 * next - liquidity * Q96 *
    current :=
    Nat.mul_sub _ _ _
  omega

section
variable (h : Stepped current target liquidity amountRemaining feePips step)
include h

/-- A step with an input either reaches the target and can pay for it, or spends all of the input
before the target. -/
lemma Stepped.input_cases (hsign : 0 ≤ amountRemaining) :
    (step.sqrtRatioNext = target ∧ step.amountIn + step.feeAmount ≤ amountRemaining.natAbs) ∨
    (step.sqrtRatioNext ≠ target ∧ step.amountIn + step.feeAmount = amountRemaining.natAbs ∧
      min current target ≤ step.sqrtRatioNext ∧ step.sqrtRatioNext ≤ max current target) := by
  obtain ⟨reach, hreach, hnext⟩ := h.fromInput hsign
  have hin := h.amountIn
  have hpaid := h.fee
  rcases hnext with ⟨hle, htarget⟩ | ⟨hless, hfrom⟩
  · rw [htarget, hreach] at hin
    cases hin
    rcases hpaid with ⟨-, hne, -⟩ | ⟨-, hpaid⟩
    · exact absurd htarget hne
    · obtain ⟨hfee, -, hpaid⟩ := mulDivRoundingUp_eq_ok.mp hpaid
      refine .inl ⟨htarget, ?_⟩
      rw [← hpaid]
      exact (gross_le_iff (by omega)).mp hle
  · have hbetween : step.sqrtRatioNext ≠ target ∧ min current target ≤ step.sqrtRatioNext ∧
        step.sqrtRatioNext ≤ max current target := by
      by_cases hdown : current ≥ target
      · rw [decide_eq_true hdown] at hreach hfrom
        obtain ⟨habove, hbelow, -⟩ := input_falls hdown hreach hless hfrom
        omega
      · rw [decide_eq_false hdown] at hreach hfrom
        obtain ⟨heq, hbelow, -⟩ := input_rises (by omega) hreach hless hfrom
        have habove : current ≤ step.sqrtRatioNext := heq ▸ le_add_right _ _
        omega
    rcases hpaid with ⟨-, -, hle, hpaid⟩ | ⟨hnot, -⟩
    · exact .inr ⟨hbetween.1, by omega, hbetween.2⟩
    · exact absurd ⟨hsign, hbetween.1⟩ hnot

/-- A step for an output gives no more than it, and less only if it ends at the target. -/
lemma Stepped.output_cases (hsign : amountRemaining < 0) :
    (step.sqrtRatioNext = target ∧ step.amountOut ≤ amountRemaining.natAbs) ∨
      step.amountOut = amountRemaining.natAbs := by
  obtain ⟨reach, hreach, hnext⟩ := h.fromOutput hsign
  obtain ⟨given, hgiven, hout⟩ := h.amountOut
  rw [if_pos hsign] at hout
  rcases hnext with ⟨hless, htarget⟩ | ⟨hle, hfrom⟩
  · exact .inl ⟨htarget, by omega⟩
  · right
    suffices hall : amountRemaining.natAbs ≤ given by omega
    by_cases hdown : current ≥ target
    · rw [decide_eq_true hdown] at hreach hfrom hgiven
      exact (output_falls hdown hreach hle hfrom).2.2 given hgiven
    · rw [decide_eq_false hdown] at hreach hfrom hgiven
      exact (output_rises hfrom).2.2.2 given hgiven

lemma Stepped.between_of_falls (hdown : target ≤ current) :
    target ≤ step.sqrtRatioNext ∧ step.sqrtRatioNext ≤ current := by
  by_cases hsign : 0 ≤ amountRemaining
  · have hcases := h.input_cases hsign
    omega
  · obtain ⟨reach, hreach, ⟨-, htarget⟩ | ⟨hle, hfrom⟩⟩ := h.fromOutput (by omega)
    · omega
    · rw [decide_eq_true hdown] at hreach hfrom
      obtain ⟨habove, hbelow, -⟩ := output_falls hdown hreach hle hfrom
      exact ⟨habove, hbelow⟩

/-- A rising price does not fall. -/
lemma Stepped.le_of_rises (hup : current < target) : current ≤ step.sqrtRatioNext := by
  by_cases hsign : 0 ≤ amountRemaining
  · have hcases := h.input_cases hsign
    omega
  · obtain ⟨reach, hreach, ⟨-, htarget⟩ | ⟨hle, hfrom⟩⟩ := h.fromOutput (by omega)
    · omega
    · rw [decide_eq_false (by omega)] at hfrom
      exact (output_rises hfrom).2.1

end

def exactAmount0 (liquidity a b : Nat) : ℚ := liquidity * Q96 * |(a : ℚ) - b| / (a * b)

def exactAmount1 (liquidity a b : Nat) : ℚ := liquidity * |(a : ℚ) - b| / Q96

/-- The exact input of a step towards a target that has moved the price to `next`. -/
def exactInput (current target liquidity next : Nat) : ℚ :=
  if current ≥ target then exactAmount0 liquidity current next
  else exactAmount1 liquidity current next

def exactOutput (current target liquidity next : Nat) : ℚ :=
  if current ≥ target then exactAmount1 liquidity current next
  else exactAmount0 liquidity current next

/-- The trader gets nothing from the rounding of a step. -/
structure NeverFavours (current target liquidity : Nat) (amountRemaining : Int) (step : SwapStep) :
    Prop where
  between : min current target ≤ step.sqrtRatioNext ∧ step.sqrtRatioNext ≤ max current target
  amountIn_ge : exactInput current target liquidity step.sqrtRatioNext ≤ step.amountIn
  amountOut_le : step.amountOut ≤ exactOutput current target liquidity step.sqrtRatioNext
  spent_le : 0 ≤ amountRemaining → (step.amountIn + step.feeAmount : Int) ≤ amountRemaining
  spent_eq : 0 ≤ amountRemaining → step.sqrtRatioNext ≠ target →
    (step.amountIn + step.feeAmount : Int) = amountRemaining
  requested : amountRemaining < 0 → (step.amountOut : Int) ≤ -amountRemaining

/-- The output of the first token between these prices is rounded up: the inner division is not
exact, and its rounding makes the outer one exact. -/
def OutputRoundsUp (liquidity a b : Nat) : Prop :=
  ¬ b ∣ liquidity * Q96 * (b - a) ∧ a ∣ liquidity * Q96 * (b - a) / b + 1

instance (liquidity a b : Nat) : Decidable (OutputRoundsUp liquidity a b) :=
  inferInstanceAs (Decidable (_ ∧ _))

/-- The price to which an input of the second token moves. -/
def inputPrice (current target liquidity amount feePips : Nat) : Nat :=
  let lessFee := amount * (1000000 - feePips) / 1000000
  if (liquidity * (target - current)) ⌈/⌉ Q96 ≤ lessFee then target
  else current + lessFee * Q96 / liquidity

/-- The steps whose rounding is in the trader's favour: the price rises, and the output of the first
token up to the price where an input ends, or up to the target of an output no smaller than it, is
rounded up. -/
def RoundsForTrader (current target liquidity : Nat) (amountRemaining : Int) (feePips : Nat) :
    Prop :=
  current < target ∧ if 0 ≤ amountRemaining then
      OutputRoundsUp liquidity current
        (inputPrice current target liquidity amountRemaining.natAbs feePips)
    else
      OutputRoundsUp liquidity current target ∧
        (liquidity * Q96 * (target - current)) ⌈/⌉ target / current ≤ amountRemaining.natAbs

instance (current target liquidity : Nat) (amountRemaining : Int) (feePips : Nat) :
    Decidable (RoundsForTrader current target liquidity amountRemaining feePips) :=
  inferInstanceAs (Decidable (_ ∧ _))

section
variable {liquidity a b n : Nat}

lemma abs_sub_eq_of_le (h : a ≤ b) : |(a : ℚ) - b| = (b - a : Nat) := by
  rw [abs_sub_comm, cast_sub h, abs_of_nonneg]
  exact sub_nonneg.mpr (cast_le.mpr h)

lemma exactAmount0_comm (liquidity a b : Nat) :
    exactAmount0 liquidity a b = exactAmount0 liquidity b a := by
  rw [exactAmount0, exactAmount0, abs_sub_comm, mul_comm (a : ℚ)]

lemma exactAmount1_comm (liquidity a b : Nat) :
    exactAmount1 liquidity a b = exactAmount1 liquidity b a := by
  rw [exactAmount1, exactAmount1, abs_sub_comm]

lemma exactAmount0_eq (h : a ≤ b) :
    exactAmount0 liquidity a b = ((liquidity * Q96 * (b - a) : Nat) : ℚ) / (b * a : Nat) := by
  rw [exactAmount0, abs_sub_eq_of_le h]
  push_cast
  rw [mul_comm (a : ℚ)]

lemma exactAmount0_le_iff (ha : 0 < a) (h : a ≤ b) :
    exactAmount0 liquidity a b ≤ n ↔ liquidity * Q96 * (b - a) ≤ b * a * n := by
  have hpos : (0 : ℚ) < (b * a : Nat) := by
    exact_mod_cast mul_pos (ha.trans_le h) ha
  rw [exactAmount0_eq h, div_le_iff₀' hpos]
  norm_cast

lemma le_exactAmount0_iff (ha : 0 < a) (h : a ≤ b) :
    (n : ℚ) ≤ exactAmount0 liquidity a b ↔ b * a * n ≤ liquidity * Q96 * (b - a) := by
  have hpos : (0 : ℚ) < (b * a : Nat) := by
    exact_mod_cast mul_pos (ha.trans_le h) ha
  rw [exactAmount0_eq h, le_div_iff₀' hpos]
  norm_cast

lemma exactAmount1_eq (h : a ≤ b) :
    exactAmount1 liquidity a b = ((liquidity * (b - a) : Nat) : ℚ) / (Q96 : Nat) := by
  rw [exactAmount1, abs_sub_eq_of_le h]
  push_cast
  rfl

lemma exactAmount1_le_iff (h : a ≤ b) :
    exactAmount1 liquidity a b ≤ n ↔ liquidity * (b - a) ≤ Q96 * n := by
  have hpos : (0 : ℚ) < (Q96 : Nat) := by exact_mod_cast Q96_pos
  rw [exactAmount1_eq h, div_le_iff₀' hpos]
  norm_cast

lemma le_exactAmount1_iff (h : a ≤ b) :
    (n : ℚ) ≤ exactAmount1 liquidity a b ↔ Q96 * n ≤ liquidity * (b - a) := by
  have hpos : (0 : ℚ) < (Q96 : Nat) := by exact_mod_cast Q96_pos
  rw [exactAmount1_eq h, le_div_iff₀' hpos]
  norm_cast

/-- An amount up to the output of the first token is no more than the exact output, unless it is all
of an output that was rounded up. -/
lemma le_exactAmount0_iff_of_down {r : Nat} (hab : a ≤ b)
    (h : getAmount0Delta a b liquidity false = .ok r) (hn : n ≤ r) :
    (n : ℚ) ≤ exactAmount0 liquidity a b ↔ ¬ (OutputRoundsUp liquidity a b ∧ n = r) := by
  obtain ⟨ha, rfl⟩ := getAmount0Delta_down hab h
  have hb : 0 < b := ha.trans_le hab
  rw [le_exactAmount0_iff ha hab, OutputRoundsUp]
  generalize liquidity * Q96 * (b - a) = x at *
  have hfloor : b * a * n ≤ x ↔ n * a ≤ x / b := by
    rw [le_div_iff_mul_le hb]
    have hcomm : b * a * n = n * a * b := by ring
    rw [hcomm]
  rw [hfloor]
  have hceil := ceilDiv_eq_of_mod x hb
  rw [← hceil] at hn ⊢
  rw [dvd_iff_mod_eq_zero]
  by_cases hexact : x % b = 0
  · rw [if_neg (by omega)] at hn
    have hle := (le_div_iff_mul_le ha).mp hn
    exact iff_of_true hle fun hup => hup.1.1 hexact
  · rw [if_pos hexact] at hn ⊢
    have hle := (le_div_iff_mul_le ha).mp hn
    constructor
    · rintro hsmall ⟨⟨-, hdvd⟩, rfl⟩
      rw [Nat.div_mul_cancel hdvd] at hsmall
      omega
    · intro hnot
      by_contra hlarge
      have heq : n * a = x / b + 1 := by omega
      exact hnot ⟨⟨hexact, n, by rw [Nat.mul_comm, heq]⟩, by rw [← heq, Nat.mul_div_cancel _ ha]⟩

end

section
variable {current target liquidity feePips : Nat} {amountRemaining : Int} {step : SwapStep}

section
variable (h : Stepped current target liquidity amountRemaining feePips step)
include h

/-- An input is never rounded in the trader's favour. -/
lemma Stepped.exactInput_le :
    exactInput current target liquidity step.sqrtRatioNext ≤ step.amountIn := by
  have hin := h.amountIn
  unfold exactInput
  by_cases hdown : current ≥ target
  · rw [decide_eq_true hdown, amountInDelta_true] at hin
    have hle := (h.between_of_falls hdown).2
    obtain ⟨hpos, heq⟩ := getAmount0Delta_up hle hin
    rw [if_pos hdown, exactAmount0_comm, exactAmount0_le_iff hpos hle, heq]
    exact (ceilDiv_le_iff_le_mul (mul_pos (hpos.trans_le hle) hpos)).mp le_rfl
  · rw [decide_eq_false hdown, amountInDelta_false] at hin
    have hle := h.le_of_rises (Nat.lt_of_not_le hdown)
    rw [if_neg hdown, exactAmount1_le_iff hle, getAmount1Delta_up hle hin]
    exact (ceilDiv_le_iff_le_mul Q96_pos).mp le_rfl

/-- Only the next price and the output of a step can be in the trader's favour. -/
lemma Stepped.neverFavours_of (hmax : step.sqrtRatioNext ≤ max current target)
    (hout : step.amountOut ≤ exactOutput current target liquidity step.sqrtRatioNext) :
    NeverFavours current target liquidity amountRemaining step where
  between := by
    refine ⟨?_, hmax⟩
    by_cases hdown : target ≤ current
    · have hle := h.between_of_falls hdown
      omega
    · have hle := h.le_of_rises (Nat.lt_of_not_le hdown)
      omega
  amountIn_ge := h.exactInput_le
  amountOut_le := hout
  spent_le := by
    intro hsign
    have hcases := h.input_cases hsign
    omega
  spent_eq := by
    intro hsign hne
    have hcases := h.input_cases hsign
    omega
  requested := by
    intro hsign
    have hcases := h.output_cases hsign
    omega

lemma Stepped.neverFavours_of_falls (hdown : target ≤ current) :
    NeverFavours current target liquidity amountRemaining step := by
  have hle := (h.between_of_falls hdown).2
  apply h.neverFavours_of (by omega)
  obtain ⟨given, hgiven, hout⟩ := h.amountOut
  rw [decide_eq_true hdown, amountOutDelta_true] at hgiven
  have hgiven := getAmount1Delta_down hle hgiven
  rw [exactOutput, if_pos hdown, exactAmount1_comm, le_exactAmount1_iff hle]
  have hfloor : Q96 * given ≤ liquidity * (current - step.sqrtRatioNext) := by
    rw [hgiven]
    exact mul_div_le _ _
  have hsmall : step.amountOut ≤ given := by
    split at hout <;> omega
  exact (mul_le_mul_left Q96 hsmall).trans hfloor

section
variable (hup : current < target) (hsign : 0 ≤ amountRemaining)
include hup hsign

/-- A rising price ends an input where `inputPrice` says. -/
lemma Stepped.next_eq_inputPrice :
    step.sqrtRatioNext = inputPrice current target liquidity amountRemaining.natAbs feePips := by
  obtain ⟨reach, hreach, hnext⟩ := h.fromInput hsign
  rw [decide_eq_false (by omega)] at hreach hnext
  have hamount := hreach
  rw [amountInDelta_false] at hamount
  rw [inputPrice, ← getAmount1Delta_up hup.le hamount]
  rcases hnext with ⟨hle, htarget⟩ | ⟨hless, hfrom⟩
  · rw [if_pos hle, htarget]
  · rw [if_neg (by omega), (input_rises hup hreach hless hfrom).1]

lemma Stepped.neverFavours_iff_of_input :
    NeverFavours current target liquidity amountRemaining step ↔ ¬ OutputRoundsUp liquidity current
        (inputPrice current target liquidity amountRemaining.natAbs feePips) := by
  obtain ⟨given, hgiven, hout⟩ := h.amountOut
  rw [if_neg (by omega)] at hout
  rw [decide_eq_false (by omega), amountOutDelta_false, ← hout] at hgiven
  have hiff := le_exactAmount0_iff_of_down (h.le_of_rises hup) hgiven le_rfl
  have hexact : exactOutput current target liquidity step.sqrtRatioNext =
      exactAmount0 liquidity current step.sqrtRatioNext := if_neg (by omega)
  rw [← h.next_eq_inputPrice hup hsign]
  constructor
  · intro hnever hrounds
    rw [← hexact] at hiff
    exact hiff.mp hnever.amountOut_le ⟨hrounds, rfl⟩
  · intro hrounds
    have hcases := h.input_cases hsign
    apply h.neverFavours_of (by omega)
    rw [hexact]
    exact hiff.mpr fun hup => hrounds hup.1

end

lemma Stepped.neverFavours_iff_of_output (hup : current < target) (hsign : amountRemaining < 0) :
    NeverFavours current target liquidity amountRemaining step ↔
      ¬ (OutputRoundsUp liquidity current target ∧
        (liquidity * Q96 * (target - current)) ⌈/⌉ target / current ≤ amountRemaining.natAbs) := by
  obtain ⟨reach, hreach, hnext⟩ := h.fromOutput hsign
  obtain ⟨given, hgiven, hout⟩ := h.amountOut
  rw [if_pos hsign] at hout
  rw [decide_eq_false (by omega), amountOutDelta_false] at hreach hgiven
  rw [decide_eq_false (by omega)] at hnext
  obtain ⟨hcur, hr⟩ := getAmount0Delta_down hup.le hreach
  rw [← hr]
  have hexact : ∀ next, exactOutput current target liquidity next =
      exactAmount0 liquidity current next := fun next => if_neg (by omega)
  rcases hnext with ⟨hless, htarget⟩ | ⟨hle, hfrom⟩
  · -- the target is reached: all of the output up to it is given
    rw [htarget, hreach] at hgiven
    cases hgiven
    have hall : step.amountOut = reach := by omega
    have hiff := le_exactAmount0_iff_of_down hup.le hreach le_rfl
    constructor
    · intro hnever hrounds
      have hle := hnever.amountOut_le
      rw [hexact, htarget, hall] at hle
      exact hiff.mp hle ⟨hrounds.1, rfl⟩
    · intro hrounds
      apply h.neverFavours_of (by omega)
      rw [hexact, htarget, hall]
      exact hiff.mpr fun hup => hrounds ⟨hup.1, hless.le⟩
  · -- the output ends before the target, unless rounding up has made it too large for it
    obtain ⟨-, hrise, hbelow, hgives⟩ := output_rises hfrom
    have hiff := le_exactAmount0_iff_of_down hup.le hreach hle
    have htarget : step.sqrtRatioNext ≤ target ↔
        ¬ (OutputRoundsUp liquidity current target ∧ reach ≤ amountRemaining.natAbs) := by
      rw [hbelow target, ← Nat.le_sub_iff_add_le' (Nat.mul_le_mul_left _ hup.le), ← Nat.mul_sub,
        ← le_exactAmount0_iff hcur hup.le, hiff]
      constructor
      · rintro hnot ⟨hrounds, hge⟩
        exact hnot ⟨hrounds, le_antisymm hle hge⟩
      · rintro hnot ⟨hrounds, heq⟩
        exact hnot ⟨hrounds, heq.ge⟩
    rw [← htarget]
    constructor
    · intro hnever
      have hmax := hnever.between.2
      omega
    · intro hle
      apply h.neverFavours_of (by omega)
      have hall : step.amountOut ≤ amountRemaining.natAbs := by omega
      have hself := (hbelow step.sqrtRatioNext).mp le_rfl
      rw [hexact, le_exactAmount0_iff hcur hrise, Nat.mul_sub]
      have hmono : step.sqrtRatioNext * current * step.amountOut ≤
          step.sqrtRatioNext * current * amountRemaining.natAbs := Nat.mul_le_mul_left _ hall
      omega

end

/-- A step is in the trader's favour exactly where `RoundsForTrader` says. -/
theorem neverFavours_iff
    (h : computeSwapStep current target liquidity amountRemaining feePips = .ok step) :
    NeverFavours current target liquidity amountRemaining step ↔
      ¬ RoundsForTrader current target liquidity amountRemaining feePips := by
  have hstep := computeSwapStep_ok h
  rw [RoundsForTrader]
  by_cases hup : current < target
  · simp only [hup, true_and]
    by_cases hsign : 0 ≤ amountRemaining
    · rw [if_pos hsign]
      exact hstep.neverFavours_iff_of_input hup hsign
    · rw [if_neg hsign]
      exact hstep.neverFavours_iff_of_output hup (by omega)
  · exact iff_of_true (hstep.neverFavours_of_falls (by omega)) fun h => hup h.1

/-- An input of 1000 that moves the price up from one is not in the trader's favour. -/
theorem neverFavours_iff_rising : computeSwapStep (2 ^ 96) (2 ^ 97) (2 ^ 64) 1000 3000 =
        .ok ⟨2 ^ 96 + 4282082394112, 997, 996, 3⟩ ∧
      NeverFavours (2 ^ 96) (2 ^ 97) (2 ^ 64) 1000 ⟨2 ^ 96 + 4282082394112, 997, 996, 3⟩ := by
  have hstep : computeSwapStep (2 ^ 96) (2 ^ 97) (2 ^ 64) 1000 3000 =
      .ok ⟨2 ^ 96 + 4282082394112, 997, 996, 3⟩ := by decide +kernel
  exact ⟨hstep, (neverFavours_iff hstep).mpr (by decide +kernel)⟩

/-- A step to the next price pays a whole unit of the first token for a little less. -/
theorem not_neverFavours_rounded :
    computeSwapStep (2 ^ 96) (2 ^ 96 + 1) (2 ^ 96) 2 3000 = .ok ⟨2 ^ 96 + 1, 1, 1, 1⟩ ∧
      ¬ NeverFavours (2 ^ 96) (2 ^ 96 + 1) (2 ^ 96) 2 ⟨2 ^ 96 + 1, 1, 1, 1⟩ := by
  have hstep : computeSwapStep (2 ^ 96) (2 ^ 96 + 1) (2 ^ 96) 2 3000 =
      .ok ⟨2 ^ 96 + 1, 1, 1, 1⟩ := by decide +kernel
  refine ⟨hstep, fun hnever => ?_⟩
  have hiff := (computeSwapStep_ok hstep).neverFavours_iff_of_input (by decide) (by decide)
  exact hiff.mp hnever (by decide +kernel)

end

end Tycho
