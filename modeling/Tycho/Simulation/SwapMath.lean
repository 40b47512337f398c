import Tycho.Simulation.SolidityMath

/-! The amounts that move a square root price, the price that an amount moves it to, and one step of
a swap, which moves the price towards a target at constant liquidity. -/
namespace Tycho
open Collections Nat

def Q96 : Nat := 2 ^ 96

def RESOLUTION : Nat := 96

def U160_MAX : Nat := 2 ^ 160 - 1

def maybeFlipRatios (a b : Nat) : Nat × Nat :=
  if a > b then (b, a) else (a, b)

def divRoundingUp (a b : Nat) : Except SimulationError Nat := do
  let (result, rest) ← divModU256 a b
  if rest > 0 then safeAddU256 result 1 else .ok result

def getAmount0Delta (a b liquidity : Nat) (roundUp : Bool) : Except SimulationError Nat := do
  let (sqrtRatioA, sqrtRatioB) := maybeFlipRatios a b
  if sqrtRatioA = 0 then
    throw (.fatalError "sqrt_ratio_a must be greater than zero")
  let numerator1 := liquidity <<< RESOLUTION
  let numerator2 := sqrtRatioB - sqrtRatioA
  if roundUp then
    divRoundingUp (← mulDivRoundingUp numerator1 numerator2 sqrtRatioB) sqrtRatioA
  else
    -- the inner division is rounded up here too
    safeDivU256 (← mulDivRoundingUp numerator1 numerator2 sqrtRatioB) sqrtRatioA

def getAmount1Delta (a b liquidity : Nat) (roundUp : Bool) : Except SimulationError Nat := do
  let (sqrtRatioA, sqrtRatioB) := maybeFlipRatios a b
  if roundUp then
    mulDivRoundingUp liquidity (sqrtRatioB - sqrtRatioA) Q96
  else
    safeDivU256 (← safeMulU256 liquidity (← safeSubU256 sqrtRatioB sqrtRatioA)) Q96

def getNextSqrtPriceFromAmount0RoundingUp (sqrtPrice liquidity amount : Nat) (add : Bool) :
    Except SimulationError Nat := do
  if amount = 0 then
    return sqrtPrice
  let numerator1 := liquidity <<< RESOLUTION
  let product := amount * sqrtPrice % 2 ^ 256
  if add then
    if product / amount = sqrtPrice then
      let denominator ← safeAddU256 numerator1 product
      if denominator ≥ numerator1 then
        return ← mulDivRoundingUp numerator1 sqrtPrice denominator
    divRoundingUp numerator1 (← safeAddU256 (← safeDivU256 numerator1 sqrtPrice) amount)
  else
    if (← safeDivU256 product amount) ≠ sqrtPrice ∨ numerator1 ≤ product then
      throw (.fatalError "sqrt_price_math: overflow in get_next_sqrt_price_from_amount0")
    let denominator ← safeSubU256 numerator1 product
    mulDivRoundingUp numerator1 sqrtPrice denominator

def getNextSqrtPriceFromAmount1RoundingDown (sqrtPrice liquidity amount : Nat) (add : Bool) :
    Except SimulationError Nat := do
  if add then
    let quotient ← (if amount ≤ U160_MAX then safeDivU256 (amount <<< RESOLUTION) liquidity
      else mulDiv amount Q96 liquidity)
    safeAddU256 sqrtPrice quotient
  else
    let quotient ← (if amount ≤ U160_MAX then divRoundingUp (amount <<< RESOLUTION) liquidity
      else mulDivRoundingUp amount Q96 liquidity)
    if sqrtPrice ≤ quotient then
      throw (.fatalError
        "sqrt_price_math: sqrt_price underflow in get_next_sqrt_price_from_amount1")
    safeSubU256 sqrtPrice quotient

def getNextSqrtPriceFromInput (sqrtPrice liquidity amountIn : Nat) (zeroForOne : Bool) :
    Except SimulationError Nat := do
  if sqrtPrice = 0 then
    throw (.fatalError "sqrt_price must be greater than zero")
  if zeroForOne then
    getNextSqrtPriceFromAmount0RoundingUp sqrtPrice liquidity amountIn true
  else
    getNextSqrtPriceFromAmount1RoundingDown sqrtPrice liquidity amountIn true

def getNextSqrtPriceFromOutput (sqrtPrice liquidity amountOut : Nat) (zeroForOne : Bool) :
    Except SimulationError Nat := do
  if sqrtPrice = 0 then
    throw (.fatalError "sqrt_price must be greater than zero")
  if liquidity = 0 then
    throw (.fatalError "liquidity must be greater than zero")
  if zeroForOne then
    getNextSqrtPriceFromAmount1RoundingDown sqrtPrice liquidity amountOut false
  else
    getNextSqrtPriceFromAmount0RoundingUp sqrtPrice liquidity amountOut false

section
variable {a b liquidity amount price q r : Nat}

lemma ceilDiv_ceilDiv (x : Nat) (ha : 0 < a) (hb : 0 < b) : x ⌈/⌉ a ⌈/⌉ b = x ⌈/⌉ (a * b) := by
  have hiff : ∀ c, x ⌈/⌉ a ⌈/⌉ b ≤ c ↔ x ⌈/⌉ (a * b) ≤ c := by
    intro c
    rw [ceilDiv_le_iff_le_mul hb, ceilDiv_le_iff_le_mul ha,
      ceilDiv_le_iff_le_mul (mul_pos ha hb), mul_assoc]
  exact le_antisymm ((hiff _).mpr le_rfl) ((hiff _).mp le_rfl)

lemma divRoundingUp_ok (h : divRoundingUp a b = .ok r) : 0 < b ∧ r = a ⌈/⌉ b := by
  unfold divRoundingUp divModU256 at h
  split at h
  case isTrue => cases h
  case isFalse hb =>
    have hpos : 0 < b := pos_of_ne_zero hb
    refine ⟨hpos, ?_⟩
    rw [ok_bind] at h
    rw [← ceilDiv_eq_of_mod a hpos]
    show r = _
    dsimp only at h
    split at h
    case isTrue hrest =>
      obtain ⟨-, rfl⟩ := safeAddU256_eq_ok.mp h
      rw [if_pos (pos_iff_ne_zero.mp hrest)]
    case isFalse hrest =>
      cases h
      rw [if_neg (by omega)]

/-- Rounded up, the amount of the first token is the exact amount rounded up once. -/
lemma getAmount0Delta_up (hab : a ≤ b) (h : getAmount0Delta a b liquidity true = .ok r) :
    0 < a ∧ r = (liquidity * Q96 * (b - a)) ⌈/⌉ (b * a) := by
  unfold getAmount0Delta maybeFlipRatios at h
  rw [if_neg (by omega)] at h
  dsimp only at h
  split at h
  case isTrue => cases h
  case isFalse ha =>
    simp only [if_true] at h
    obtain ⟨inner, hinner, hr⟩ := ok_of_bind_ok h
    obtain ⟨hb, -, rfl⟩ := mulDivRoundingUp_eq_ok.mp hinner
    obtain ⟨hpos, rfl⟩ := divRoundingUp_ok hr
    refine ⟨hpos, ?_⟩
    rw [ceilDiv_ceilDiv _ hb hpos, shiftLeft_eq]
    rfl

/-- Rounded down, the amount of the first token is rounded up by its inner division. -/
lemma getAmount0Delta_down (hab : a ≤ b) (h : getAmount0Delta a b liquidity false = .ok r) :
    0 < a ∧ r = (liquidity * Q96 * (b - a)) ⌈/⌉ b / a := by
  unfold getAmount0Delta maybeFlipRatios at h
  rw [if_neg (by omega)] at h
  dsimp only at h
  split at h
  case isTrue => cases h
  case isFalse ha =>
    simp only [Bool.false_eq_true, if_false] at h
    obtain ⟨inner, hinner, hr⟩ := ok_of_bind_ok h
    obtain ⟨-, -, rfl⟩ := mulDivRoundingUp_eq_ok.mp hinner
    obtain ⟨hpos, rfl⟩ := safeDivU256_eq_ok.mp hr
    refine ⟨hpos, ?_⟩
    rw [shiftLeft_eq]
    rfl

lemma getAmount1Delta_up (hab : a ≤ b) (h : getAmount1Delta a b liquidity true = .ok r) :
    r = (liquidity * (b - a)) ⌈/⌉ Q96 := by
  unfold getAmount1Delta maybeFlipRatios at h
  rw [if_neg (by omega)] at h
  obtain ⟨-, -, rfl⟩ := mulDivRoundingUp_eq_ok.mp h
  rfl

lemma getAmount1Delta_down (hab : a ≤ b) (h : getAmount1Delta a b liquidity false = .ok r) :
    r = liquidity * (b - a) / Q96 := by
  unfold getAmount1Delta maybeFlipRatios at h
  rw [if_neg (by omega)] at h
  obtain ⟨difference, hsub, h⟩ := ok_of_bind_ok h
  obtain ⟨product, hmul, hdiv⟩ := ok_of_bind_ok h
  obtain ⟨-, rfl⟩ := safeSubU256_eq_ok.mp hsub
  obtain ⟨-, rfl⟩ := safeMulU256_eq_ok.mp hmul
  obtain ⟨-, rfl⟩ := safeDivU256_eq_ok.mp hdiv
  rfl

/-- The division that tests a wrapped product finds every overflow. -/
lemma product_fits_iff (hamount : 0 < amount) :
    amount * price % 2 ^ 256 / amount = price ↔ amount * price < 2 ^ 256 := by
  constructor
  · intro h
    by_contra hlarge
    have hmod := Nat.mod_lt (amount * price) (Nat.two_pow_pos 256)
    have hless : amount * price % 2 ^ 256 < price * amount := by
      rw [Nat.mul_comm price]
      omega
    have hdiv := (div_lt_iff_lt_mul hamount).mpr hless
    omega
  · intro h
    rw [Nat.mod_eq_of_lt h, Nat.mul_div_cancel_left _ hamount]

lemma shiftLeft_RESOLUTION (n : Nat) : n <<< RESOLUTION = n * Q96 := Nat.shiftLeft_eq _ _

/-- The price that an input of the first token moves to is no lower than the exact one. -/
lemma fromAmount0_add_ok (hprice : 0 < price)
    (h : getNextSqrtPriceFromAmount0RoundingUp price liquidity amount true = .ok q) :
    q ≤ price ∧ liquidity * Q96 * price ≤ q * (liquidity * Q96 + amount * price) := by
  unfold getNextSqrtPriceFromAmount0RoundingUp at h
  split at h
  case isTrue hzero =>
    cases h
    subst hzero
    exact ⟨le_rfl, by rw [zero_mul, add_zero, mul_comm]⟩
  case isFalse hzero =>
    have hpos : 0 < amount := pos_of_ne_zero hzero
    simp only [if_true, product_fits_iff hpos, shiftLeft_RESOLUTION] at h
    generalize liquidity * Q96 = numerator at *
    split at h
    case isTrue hfits =>
      rw [mod_eq_of_lt hfits] at h
      obtain ⟨denominator, hadd, h⟩ := ok_of_bind_ok h
      obtain ⟨-, rfl⟩ := safeAddU256_eq_ok.mp hadd
      rw [if_pos (le_add_right _ _)] at h
      obtain ⟨hdenom, -, rfl⟩ := mulDivRoundingUp_eq_ok.mp h
      constructor
      · rw [ceilDiv_le_iff_le_mul hdenom]
        exact mul_le_mul_right price (le_add_right _ _)
      · rw [mul_comm _ (numerator + amount * price)]
        exact (ceilDiv_le_iff_le_mul hdenom).mp le_rfl
    case isFalse hover =>
      -- the product overflows: the quotient by the price is taken first
      obtain ⟨quotient, hdiv, h⟩ := ok_of_bind_ok h
      obtain ⟨denominator, hadd, h⟩ := ok_of_bind_ok h
      obtain ⟨-, rfl⟩ := safeDivU256_eq_ok.mp hdiv
      obtain ⟨-, rfl⟩ := safeAddU256_eq_ok.mp hadd
      obtain ⟨hdenom, rfl⟩ := divRoundingUp_ok h
      have hup : numerator ≤ (numerator / price + amount) *
          (numerator ⌈/⌉ (numerator / price + amount)) := (ceilDiv_le_iff_le_mul hdenom).mp le_rfl
      constructor
      · rw [ceilDiv_le_iff_le_mul hdenom]
        have hlt := lt_div_mul_add (a := numerator) hprice
        have hone : 1 * price ≤ amount * price := mul_le_mul_right price hpos
        rw [add_mul]
        omega
      · have hfloor := div_mul_le_self numerator price
        generalize numerator ⌈/⌉ (numerator / price + amount) = q at *
        calc numerator * price ≤ (numerator / price + amount) * q * price :=
              mul_le_mul_right price hup
          _ = q * (numerator / price * price + amount * price) := by ring
          _ ≤ q * (numerator + amount * price) :=
              Nat.mul_le_mul_left q (Nat.add_le_add_right hfloor _)

/-- The price that an output of the first token moves to is the exact one rounded up. -/
lemma fromAmount0_sub_ok (hliquidity : 0 < liquidity)
    (h : getNextSqrtPriceFromAmount0RoundingUp price liquidity amount false = .ok q) :
    amount * price < liquidity * Q96 ∧
      q = (liquidity * Q96 * price) ⌈/⌉ (liquidity * Q96 - amount * price) := by
  have hnum : 0 < liquidity * Q96 := Nat.mul_pos hliquidity (Nat.two_pow_pos 96)
  unfold getNextSqrtPriceFromAmount0RoundingUp at h
  split at h
  case isTrue hzero =>
    cases h
    subst hzero
    rw [Nat.zero_mul, Nat.sub_zero]
    exact ⟨hnum, (smul_ceilDiv hnum _).symm⟩
  case isFalse hzero =>
    have hpos : 0 < amount := Nat.pos_of_ne_zero hzero
    simp only [Bool.false_eq_true, if_false, shiftLeft_RESOLUTION] at h
    obtain ⟨back, hback, h⟩ := ok_of_bind_ok h
    obtain ⟨-, rfl⟩ := safeDivU256_eq_ok.mp hback
    split at h
    case isTrue => cases h
    case isFalse hfits =>
      rw [not_or, not_not, product_fits_iff hpos] at hfits
      obtain ⟨hfits, hless⟩ := hfits
      rw [mod_eq_of_lt hfits] at h hless
      obtain ⟨denominator, hsub, h⟩ := ok_of_bind_ok h
      obtain ⟨-, rfl⟩ := safeSubU256_eq_ok.mp hsub
      obtain ⟨-, -, rfl⟩ := mulDivRoundingUp_eq_ok.mp h
      exact ⟨Nat.lt_of_not_le hless, rfl⟩

lemma fromAmount1_add_ok
    (h : getNextSqrtPriceFromAmount1RoundingDown price liquidity amount true = .ok q) :
    0 < liquidity ∧ q = price + amount * Q96 / liquidity := by
  unfold getNextSqrtPriceFromAmount1RoundingDown at h
  simp only [if_true, shiftLeft_RESOLUTION] at h
  obtain ⟨quotient, hquotient, h⟩ := ok_of_bind_ok h
  obtain ⟨-, rfl⟩ := safeAddU256_eq_ok.mp h
  split at hquotient
  case isTrue =>
    obtain ⟨hpos, rfl⟩ := safeDivU256_eq_ok.mp hquotient
    exact ⟨hpos, rfl⟩
  case isFalse =>
    obtain ⟨hpos, -, rfl⟩ := mulDiv_eq_ok.mp hquotient
    exact ⟨hpos, rfl⟩

lemma fromAmount1_sub_ok
    (h : getNextSqrtPriceFromAmount1RoundingDown price liquidity amount false = .ok q) :
    0 < liquidity ∧ (amount * Q96) ⌈/⌉ liquidity < price ∧
      q = price - (amount * Q96) ⌈/⌉ liquidity := by
  unfold getNextSqrtPriceFromAmount1RoundingDown at h
  simp only [Bool.false_eq_true, if_false, shiftLeft_RESOLUTION] at h
  obtain ⟨quotient, hquotient, h⟩ := ok_of_bind_ok h
  have hceil : 0 < liquidity ∧ quotient = (amount * Q96) ⌈/⌉ liquidity := by
    split at hquotient
    case isTrue => exact divRoundingUp_ok hquotient
    case isFalse =>
      obtain ⟨hpos, -, rfl⟩ := mulDivRoundingUp_eq_ok.mp hquotient
      exact ⟨hpos, rfl⟩
  obtain ⟨hpos, rfl⟩ := hceil
  split at h
  case isTrue => cases h
  case isFalse hless =>
    obtain ⟨-, rfl⟩ := safeSubU256_eq_ok.mp h
    exact ⟨hpos, Nat.lt_of_not_le hless, rfl⟩

lemma getNextSqrtPriceFromInput_ok {zeroForOne : Bool}
    (h : getNextSqrtPriceFromInput price liquidity amount zeroForOne = .ok q) :
    0 < price ∧ (if zeroForOne then
        getNextSqrtPriceFromAmount0RoundingUp price liquidity amount true
      else getNextSqrtPriceFromAmount1RoundingDown price liquidity amount true) = .ok q := by
  unfold getNextSqrtPriceFromInput at h
  by_cases hprice : price = 0
  · rw [if_pos hprice] at h
    cases h
  · rw [if_neg hprice] at h
    exact ⟨pos_of_ne_zero hprice, h⟩

lemma getNextSqrtPriceFromOutput_ok {zeroForOne : Bool}
    (h : getNextSqrtPriceFromOutput price liquidity amount zeroForOne = .ok q) :
    0 < price ∧ 0 < liquidity ∧ (if zeroForOne then
        getNextSqrtPriceFromAmount1RoundingDown price liquidity amount false
      else getNextSqrtPriceFromAmount0RoundingUp price liquidity amount false) = .ok q := by
  unfold getNextSqrtPriceFromOutput at h
  by_cases hprice : price = 0
  · rw [if_pos hprice] at h
    cases h
  · by_cases hliquidity : liquidity = 0
    · rw [if_neg hprice, if_pos hliquidity] at h
      cases h
    · rw [if_neg hprice, if_neg hliquidity] at h
      exact ⟨pos_of_ne_zero hprice, pos_of_ne_zero hliquidity, h⟩

end

structure SwapStep where
  sqrtRatioNext : Nat
  amountIn : Nat
  amountOut : Nat
  feeAmount : Nat
  deriving DecidableEq

def amountInDelta (zeroForOne : Bool) (current next liquidity : Nat) : Except SimulationError Nat :=
  if zeroForOne then getAmount0Delta next current liquidity true
  else getAmount1Delta current next liquidity true

/-- The output between two prices, to be rounded down. -/
def amountOutDelta (zeroForOne : Bool) (current next liquidity : Nat) :
    Except SimulationError Nat :=
  if zeroForOne then getAmount1Delta next current liquidity false
  else getAmount0Delta current next liquidity false

section
variable (current next liquidity : Nat)
include current next liquidity

@[simp] lemma amountInDelta_true :
    amountInDelta true current next liquidity = getAmount0Delta next current liquidity true := rfl

@[simp] lemma amountInDelta_false :
    amountInDelta false current next liquidity = getAmount1Delta current next liquidity true := rfl

@[simp] lemma amountOutDelta_true :
    amountOutDelta true current next liquidity = getAmount1Delta next current liquidity false := rfl

@[simp] lemma amountOutDelta_false :
    amountOutDelta false current next liquidity = getAmount0Delta current next liquidity false :=
      rfl

end

/-- The remaining amount is an input when it is not negative, and an output to be given
otherwise. The fee is at most the whole input. -/
def computeSwapStep (current target liquidity : Nat) (amountRemaining : Int) (feePips : Nat) :
    Except SimulationError SwapStep := do
  let zeroForOne : Bool := current ≥ target
  let exactIn : Bool := amountRemaining ≥ 0
  let amount := amountRemaining.natAbs
  let (next, amountIn, amountOut) ← (if exactIn then do
      let amountRemainingLessFee ← mulDiv amount (1000000 - feePips) 1000000
      let amountIn ← amountInDelta zeroForOne current target liquidity
      let next ← (if amountRemainingLessFee ≥ amountIn then pure target
        else getNextSqrtPriceFromInput current liquidity amountRemainingLessFee zeroForOne)
      pure (next, amountIn, 0)
    else do
      let amountOut ← amountOutDelta zeroForOne current target liquidity
      let next ← (if amount > amountOut then pure target
        else getNextSqrtPriceFromOutput current liquidity amount zeroForOne)
      pure (next, 0, amountOut))
  let max : Bool := target = next
  let amountIn ← (if max && exactIn then pure amountIn
    else amountInDelta zeroForOne current next liquidity)
  let amountOut ← (if max && !exactIn then pure amountOut
    else amountOutDelta zeroForOne current next liquidity)
  let amountOut := if !exactIn && amountOut > amount then amount else amountOut
  let feeAmount ← (if exactIn && next ≠ target then safeSubU256 amount amountIn
    else mulDivRoundingUp amountIn feePips (1000000 - feePips))
  pure ⟨next, amountIn, amountOut, feeAmount⟩

variable {current target liquidity feePips : Nat} {amountRemaining : Int} {step : SwapStep}

def StepsFromInput (current target liquidity amount feePips next : Nat) : Prop :=
  ∃ amountIn, amountInDelta (decide (current ≥ target)) current target liquidity = .ok amountIn ∧
    ((amountIn ≤ amount * (1000000 - feePips) / 1000000 ∧ next = target) ∨
      (amount * (1000000 - feePips) / 1000000 < amountIn ∧
        getNextSqrtPriceFromInput current liquidity (amount * (1000000 - feePips) / 1000000)
          (decide (current ≥ target)) = .ok next))

def StepsFromOutput (current target liquidity amount next : Nat) : Prop :=
  ∃ amountOut, amountOutDelta (decide (current ≥ target)) current target liquidity = .ok amountOut ∧
    ((amountOut < amount ∧ next = target) ∨
      (amount ≤ amountOut ∧ getNextSqrtPriceFromOutput current liquidity amount
        (decide (current ≥ target)) = .ok next))

structure Stepped (current target liquidity : Nat) (amountRemaining : Int) (feePips : Nat)
    (step : SwapStep) : Prop where
  fromInput : 0 ≤ amountRemaining →
    StepsFromInput current target liquidity amountRemaining.natAbs feePips step.sqrtRatioNext
  fromOutput : amountRemaining < 0 →
    StepsFromOutput current target liquidity amountRemaining.natAbs step.sqrtRatioNext
  amountIn : amountInDelta (decide (current ≥ target)) current step.sqrtRatioNext liquidity =
    .ok step.amountIn
  amountOut : ∃ amountOut, amountOutDelta (decide (current ≥ target)) current step.sqrtRatioNext
      liquidity = .ok amountOut ∧
    step.amountOut = if amountRemaining < 0 then min amountOut amountRemaining.natAbs else amountOut
  fee : (0 ≤ amountRemaining ∧ step.sqrtRatioNext ≠ target ∧
      step.amountIn ≤ amountRemaining.natAbs ∧
      step.feeAmount = amountRemaining.natAbs - step.amountIn) ∨
    (¬ (0 ≤ amountRemaining ∧ step.sqrtRatioNext ≠ target) ∧
      mulDivRoundingUp step.amountIn feePips (1000000 - feePips) = .ok step.feeAmount)

lemma computeSwapStep_ok
    (h : computeSwapStep current target liquidity amountRemaining feePips = .ok step) :
    Stepped current target liquidity amountRemaining feePips step := by
  unfold computeSwapStep at h
  obtain ⟨⟨next, amountIn, amountOut⟩, hnext, h⟩ := ok_of_bind_ok h
  obtain ⟨stepIn, hin, h⟩ := ok_of_bind_ok h
  obtain ⟨stepOut, hout, h⟩ := ok_of_bind_ok h
  obtain ⟨feeAmount, hfee, h⟩ := ok_of_bind_ok h
  cases h
  by_cases hsign : 0 ≤ amountRemaining
  · simp only [ge_iff_le, hsign, decide_true, if_true, Bool.and_true, decide_eq_true_eq,
      Bool.not_true, Bool.and_false, Bool.false_eq_true, if_false, Bool.true_and]
      at hnext hin hout hfee
    obtain ⟨lessFee, hles, hnext⟩ := ok_of_bind_ok hnext
    obtain ⟨-, -, rfl⟩ := mulDiv_eq_ok.mp hles
    obtain ⟨reachIn, hreach, hnext⟩ := ok_of_bind_ok hnext
    obtain ⟨next', hfrom, hnext⟩ := ok_of_bind_ok hnext
    cases hnext
    constructor
    · intro _
      refine ⟨amountIn, hreach, ?_⟩
      split at hfrom
      case isTrue hle =>
        cases hfrom
        exact .inl ⟨hle, rfl⟩
      case isFalse hlt => exact .inr ⟨Nat.lt_of_not_le hlt, hfrom⟩
    · intro hneg
      omega
    · split at hin
      case isTrue heq =>
        cases hin
        exact heq ▸ hreach
      case isFalse => exact hin
    · exact ⟨stepOut, hout, by simp [hsign]⟩
    · show (_ ∧ next ≠ target ∧ _) ∨ _
      by_cases hmax : next = target
      · simp only [hmax, ne_eq, not_true, if_false] at hfee
        exact .inr ⟨fun h => h.2 hmax, hfee⟩
      · simp only [ne_eq, hmax, not_false_iff, if_true] at hfee
        obtain ⟨hle, rfl⟩ := safeSubU256_eq_ok.mp hfee
        exact .inl ⟨hsign, hmax, hle, rfl⟩
  · simp only [ge_iff_le, hsign, decide_false, Bool.false_eq_true, if_false, Bool.and_false,
      Bool.not_false, Bool.and_true, decide_eq_true_eq, Bool.false_and] at hnext hin hout hfee
    obtain ⟨reachOut, hreach, hnext⟩ := ok_of_bind_ok hnext
    obtain ⟨next', hfrom, hnext⟩ := ok_of_bind_ok hnext
    cases hnext
    constructor
    · intro hpos
      exact absurd hpos hsign
    · intro _
      refine ⟨amountOut, hreach, ?_⟩
      split at hfrom
      case isTrue hlt =>
        cases hfrom
        exact .inl ⟨hlt, rfl⟩
      case isFalse hle => exact .inr ⟨Nat.le_of_not_lt hle, hfrom⟩
    · exact hin
    · refine ⟨stepOut, ?_, ?_⟩
      · split at hout
        case isTrue heq =>
          cases hout
          exact heq ▸ hreach
        case isFalse => exact hout
      · simp only [ge_iff_le, hsign, decide_false, Bool.not_false, Bool.true_and, decide_eq_true_eq,
          if_pos (Int.lt_of_not_ge hsign)]
        split <;> omega
    · exact .inr ⟨fun h => hsign h.1, hfee⟩

end Tycho
