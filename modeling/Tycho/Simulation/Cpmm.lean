import Tycho.Simulation.SolidityMath

/-! Quotes of constant-product pools, and the limits that are reported for them. The order of the
tokens' addresses is given as the direction `zeroForOne`. -/
namespace Tycho
open Collections Nat

/-- The part of the input that is traded, as a fraction. -/
structure ProtocolFee where
  numerator : Nat
  precision : Nat

def cpmmGetAmountOut (amountIn reserveIn reserveOut : Nat) (fee : ProtocolFee) :
    Except SimulationError Nat := do
  if amountIn = 0 then throw (.invalidInput "Amount in cannot be zero" none)
  if reserveIn = 0 ∨ reserveOut = 0 then throw (.recoverableError "No liquidity")
  let amountInWithFee ← safeMulU256 amountIn fee.numerator
  let numerator ← safeMulU256 amountInWithFee reserveOut
  let denominator ← safeAddU256 (← safeMulU256 reserveIn fee.precision) amountInWithFee
  safeDivU256 numerator denominator

def reservesInOut (zeroForOne : Bool) (reserve0 reserve1 : Nat) : Nat × Nat :=
  if zeroForOne then (reserve0, reserve1) else (reserve1, reserve0)

def cpmmGetLimits (zeroForOne : Bool) (reserve0 reserve1 feeBps : Nat) :
    Except SimulationError (Nat × Nat) := do
  if reserve0 = 0 ∨ reserve1 = 0 then return (0, 0)
  let (reserveIn, reserveOut) := reservesInOut zeroForOne reserve0 reserve1
  let amountIn ← mulDiv reserveIn 2162 1000
  -- a difference of `u32`
  let feeMultiplier := (10000 + 2 ^ 32 - feeBps) % 2 ^ 32
  let amountInWithFee ← safeMulU256 amountIn feeMultiplier
  let amountOut ← mulDiv reserveOut amountInWithFee (← safeAddU256 reserveIn amountIn)
  return (amountIn, amountOut)

/-- The largest input is quoted with the largest output, which the pool has, and quotes grow with
the input up to there. -/
structure LimitsAgree (limits : Nat × Nat) (quote : Nat → Except SimulationError Nat)
    (reserveOut : Nat) : Prop where
  quote_max : quote limits.1 = .ok limits.2
  below : limits.2 < reserveOut
  monotone : ∀ a b, 1 ≤ a → a ≤ b → b ≤ limits.1 →
    ∃ x y, quote a = .ok x ∧ quote b = .ok y ∧ x ≤ y
  within : ∀ a, 1 ≤ a → a ≤ limits.1 → ∃ x, quote a = .ok x ∧ x ≤ limits.2

section
variable {a b reserveIn reserveOut k : Nat}

lemma cpmmGetAmountOut_eq_ok {n p out : Nat} :
    cpmmGetAmountOut a reserveIn reserveOut ⟨n, p⟩ = .ok out ↔
      (0 < a ∧ 0 < reserveIn ∧ 0 < reserveOut) ∧
      (a * n * reserveOut < 2 ^ 256 ∧ reserveIn * p + a * n < 2 ^ 256) ∧
      0 < reserveIn * p + a * n ∧ a * n * reserveOut / (reserveIn * p + a * n) = out := by
  by_cases ha : a = 0
  · rw [cpmmGetAmountOut, if_pos ha]
    exact iff_of_false (fun h => by cases h) (by omega)
  by_cases hzero : reserveIn = 0 ∨ reserveOut = 0
  · simp only [cpmmGetAmountOut, if_neg ha, if_pos hzero]
    exact iff_of_false (fun h => by cases h) (by omega)
  simp only [cpmmGetAmountOut, if_neg ha, if_neg hzero]
  constructor
  · intro h
    obtain ⟨b, hb, h⟩ := ok_of_bind_ok h
    obtain ⟨u, hu, h⟩ := ok_of_bind_ok h
    obtain ⟨v, hv, h⟩ := ok_of_bind_ok h
    obtain ⟨d, hd, h⟩ := ok_of_bind_ok h
    obtain ⟨-, rfl⟩ := safeMulU256_eq_ok.mp hb
    obtain ⟨hmul, rfl⟩ := safeMulU256_eq_ok.mp hu
    obtain ⟨-, rfl⟩ := safeMulU256_eq_ok.mp hv
    obtain ⟨hadd, rfl⟩ := safeAddU256_eq_ok.mp hd
    exact ⟨by omega, ⟨hmul, hadd⟩, safeDivU256_eq_ok.mp h⟩
  · rintro ⟨hpos, ⟨hmul, hadd⟩, hdiv⟩
    have hfee : a * n < 2 ^ 256 := (Nat.le_mul_of_pos_right _ hpos.2.2).trans_lt hmul
    rw [safeMulU256_eq_ok.mpr ⟨hfee, rfl⟩, ok_bind, safeMulU256_eq_ok.mpr ⟨hmul, rfl⟩, ok_bind,
      safeMulU256_eq_ok.mpr ⟨by omega, rfl⟩, ok_bind, safeAddU256_eq_ok.mpr ⟨hadd, rfl⟩, ok_bind]
    exact safeDivU256_eq_ok.mpr hdiv

lemma quote_le_quote (hin : 0 < reserveIn) (hab : a ≤ b) :
    a * k * reserveOut / (reserveIn * 10000 + a * k) ≤
      b * k * reserveOut / (reserveIn * 10000 + b * k) := by
  have hle : a * k ≤ b * k := mul_le_mul_right k hab
  rw [le_div_iff_mul_le (by omega)]
  generalize a * k = x at *
  generalize b * k = y at *
  obtain ⟨d, rfl⟩ := Nat.exists_eq_add_of_le hle
  have hquote := Nat.div_mul_le_self (x * reserveOut) (reserveIn * 10000 + x)
  have hpaid : x * reserveOut / (reserveIn * 10000 + x) ≤ reserveOut := by
    apply Nat.div_le_of_le_mul
    exact mul_le_mul_right _ (le_add_left x _)
  have hmore := mul_le_mul_right d hpaid
  generalize x * reserveOut / (reserveIn * 10000 + x) = q at *
  calc q * (reserveIn * 10000 + (x + d)) = q * (reserveIn * 10000 + x) + q * d := by ring
    _ ≤ x * reserveOut + reserveOut * d := Nat.add_le_add hquote hmore
    _ = (x + d) * reserveOut := by ring

end

section
variable {a out x y n p : Nat} (h : out * (x * p + a * n) ≤ a * n * y)
include h

lemma quote_lt (hx : 0 < x * p) (hy : 0 < y) : out < y := by
  by_contra hle
  have hmul := Nat.mul_le_mul_right (x * p + a * n) (Nat.not_lt.mp hle)
  have hpos := Nat.mul_pos hy hx
  rw [Nat.mul_comm (a * n)] at h
  rw [Nat.mul_add] at hmul
  omega

lemma product_le (hp : 0 < p) (hn : n ≤ p) (hle : out ≤ y) : x * y ≤ (x + a) * (y - out) := by
  obtain ⟨r, rfl⟩ := Nat.exists_eq_add_of_le hle
  rw [Nat.add_sub_cancel_left]
  have hpaid : p * (x * out) ≤ n * (a * r) := by linarith
  have hkey := Nat.le_of_mul_le_mul_left (hpaid.trans (Nat.mul_le_mul_right _ hn)) hp
  linarith

end

variable {reserveIn reserveOut : Nat}

/-- The output limit is not divided by the precision of the fee, so that it is a quote only where
both are zero. -/
lemma limit_eq_quote_iff {k m : Nat} (hin : 0 < reserveIn) (hout : 0 < reserveOut) (hk : 0 < k)
    (hlow : 2 * reserveIn ≤ m) (hhigh : m ≤ 3 * reserveIn) :
    m * k * reserveOut / (reserveIn * 10000 + m * k) = reserveOut * (m * k) / (reserveIn + m) ↔
      reserveOut = 1 ∧ k = 1 := by
  constructor
  · intro heq
    by_contra hne
    have htwo : 2 ≤ k * reserveOut := by
      by_contra hlt
      have hone : k * reserveOut = 1 := by
        have := mul_pos hk hout
        omega
      exact hne ⟨eq_one_of_mul_eq_one_left hone, eq_one_of_mul_eq_one_right hone⟩
    have hproduct : reserveIn + m ≤ m * k * reserveOut := by
      have := mul_le_mul_left m htwo
      rw [mul_assoc]
      omega
    rw [mul_comm reserveOut] at heq
    have hquote := div_mul_le_self (m * k * reserveOut) (reserveIn * 10000 + m * k)
    have hlimit := lt_div_mul_add (a := m * k * reserveOut) (show 0 < reserveIn + m by omega)
    have hpos : 1 ≤ m * k * reserveOut / (reserveIn + m) :=
      (one_le_div_iff (by omega)).mpr hproduct
    rw [heq] at hquote
    generalize m * k * reserveOut / (reserveIn + m) = q at *
    -- the quote's denominator is more than twice as large
    have hlarge : q * (reserveIn * 10000) ≤ q * (reserveIn * 10000 + m * k) :=
      mul_le_mul_left q (le_add_right _ _)
    nlinarith
  · rintro ⟨rfl, rfl⟩
    rw [mul_one, mul_one, one_mul, div_eq_of_lt (by omega), div_eq_of_lt (by omega)]

section
variable {zeroForOne : Bool} {reserve0 reserve1 feeBps : Nat}

section
variable (h0 : 0 < reserve0) (h1 : 0 < reserve1) (h0' : reserve0 < 2 ^ 112)
  (h1' : reserve1 < 2 ^ 112)
include h0 h1 h0' h1'

lemma reservesInOut_bounds
    (hsides : reservesInOut zeroForOne reserve0 reserve1 = (reserveIn, reserveOut)) :
    0 < reserveIn ∧ 0 < reserveOut ∧ reserveIn < 2 ^ 112 ∧ reserveOut < 2 ^ 112 := by
  cases zeroForOne <;> cases hsides <;> omega

lemma cpmmGetLimits_eq (hfee : feeBps < 10000)
    (hsides : reservesInOut zeroForOne reserve0 reserve1 = (reserveIn, reserveOut)) :
    cpmmGetLimits zeroForOne reserve0 reserve1 feeBps =
      .ok (reserveIn * 2162 / 1000, reserveOut * (reserveIn * 2162 / 1000 * (10000 - feeBps)) /
        (reserveIn + reserveIn * 2162 / 1000)) := by
  obtain ⟨hin, -, hin', hout'⟩ := reservesInOut_bounds h0 h1 h0' h1' hsides
  have hmax : mulDiv reserveIn 2162 1000 = .ok (reserveIn * 2162 / 1000) :=
    mulDiv_eq_ok.mpr ⟨by omega, by omega, rfl⟩
  have hm : reserveIn * 2162 / 1000 < 2 ^ 114 := by omega
  generalize reserveIn * 2162 / 1000 = m at *
  have hmultiplier : (10000 + 2 ^ 32 - feeBps) % 2 ^ 32 = 10000 - feeBps := by omega
  have hk : 10000 - feeBps ≤ 10000 := sub_le _ _
  generalize 10000 - feeBps = k at *
  have hscaled : m * k ≤ 2 ^ 114 * 10000 := Nat.mul_le_mul hm.le hk
  have hmul : safeMulU256 m k = .ok (m * k) := safeMulU256_eq_ok.mpr ⟨by omega, rfl⟩
  have hadd : safeAddU256 reserveIn m = .ok (reserveIn + m) :=
    safeAddU256_eq_ok.mpr ⟨by omega, rfl⟩
  have hquotient : reserveOut * (m * k) / (reserveIn + m) < 2 ^ 256 := by
    have hproduct := mul_le_mul hout'.le hscaled
    exact lt_of_le_of_lt (div_le_self _ _) (by omega)
  have hdiv : mulDiv reserveOut (m * k) (reserveIn + m) =
      .ok (reserveOut * (m * k) / (reserveIn + m)) :=
    mulDiv_eq_ok.mpr ⟨by omega, hquotient, rfl⟩
  have hpositive : ¬ (reserve0 = 0 ∨ reserve1 = 0) := by omega
  simp only [cpmmGetLimits, hpositive, if_false, hsides, hmax, ok_bind, hmultiplier, hmul, hadd,
    hdiv]
  rfl

end

theorem limitsAgree_iff (h0 : 0 < reserve0) (h1 : 0 < reserve1) (h0' : reserve0 < 2 ^ 112)
    (h1' : reserve1 < 2 ^ 112) (hfee : feeBps < 10000) {limits : Nat × Nat}
    (hlimits : cpmmGetLimits zeroForOne reserve0 reserve1 feeBps = .ok limits) :
    LimitsAgree limits (fun a => cpmmGetAmountOut a (reservesInOut zeroForOne reserve0 reserve1).1
        (reservesInOut zeroForOne reserve0 reserve1).2 ⟨10000 - feeBps, 10000⟩)
        (reservesInOut zeroForOne reserve0 reserve1).2 ↔
      (reservesInOut zeroForOne reserve0 reserve1).2 = 1 ∧ feeBps = 9999 := by
  obtain ⟨reserveIn, reserveOut, hsides⟩ :
      ∃ i o, reservesInOut zeroForOne reserve0 reserve1 = (i, o) := ⟨_, _, rfl⟩
  rw [cpmmGetLimits_eq h0 h1 h0' h1' hfee hsides] at hlimits
  cases hlimits
  obtain ⟨hin, hout, hin', hout'⟩ := reservesInOut_bounds h0 h1 h0' h1' hsides
  rw [hsides]
  have hlow : 2 * reserveIn ≤ reserveIn * 2162 / 1000 := by omega
  have hhigh : reserveIn * 2162 / 1000 ≤ 3 * reserveIn := by omega
  generalize reserveIn * 2162 / 1000 = m at *
  obtain ⟨k, hk⟩ : ∃ k, 10000 - feeBps = k := ⟨_, rfl⟩
  rw [hk]
  have hquote : ∀ a, 1 ≤ a → a ≤ m → cpmmGetAmountOut a reserveIn reserveOut ⟨k, 10000⟩ =
      .ok (a * k * reserveOut / (reserveIn * 10000 + a * k)) := by
    intro a hone ha
    have hfee : a * k ≤ 2 ^ 114 * 10000 := Nat.mul_le_mul (by omega) (by omega)
    have hproduct : a * k * reserveOut ≤ 2 ^ 114 * 10000 * 2 ^ 112 := Nat.mul_le_mul hfee hout'.le
    exact cpmmGetAmountOut_eq_ok.mpr ⟨⟨hone, hin, hout⟩, ⟨by omega, by omega⟩, by omega, rfl⟩
  have hagree := limit_eq_quote_iff (k := k) hin hout (by omega) hlow hhigh
  have hmonotone : ∀ a b, 1 ≤ a → a ≤ b → b ≤ m →
      ∃ x y, cpmmGetAmountOut a reserveIn reserveOut ⟨k, 10000⟩ = .ok x ∧
        cpmmGetAmountOut b reserveIn reserveOut ⟨k, 10000⟩ = .ok y ∧ x ≤ y := by
    intro a b hone hab hb
    exact ⟨_, _, hquote a hone (hab.trans hb), hquote b (hone.trans hab) hb, quote_le_quote hin hab⟩
  constructor
  · intro h
    have hmax := (hquote m (by omega) le_rfl).symm.trans h.quote_max
    obtain ⟨hone, hk'⟩ := hagree.mp (Except.ok.inj hmax)
    exact ⟨hone, by omega⟩
  · intro ⟨hone, hnine⟩
    have hmax := hagree.mpr ⟨hone, by omega⟩
    have hlast := hquote m (by omega) le_rfl
    rw [hmax] at hlast
    refine ⟨hlast, ?_, hmonotone, ?_⟩
    · subst hone
      obtain rfl : k = 1 := by omega
      simp only [mul_one, one_mul]
      rw [div_eq_of_lt (by omega)]
      exact one_pos
    · intro a hone ha
      obtain ⟨x, y, hx, hy, hle⟩ := hmonotone a m hone ha le_rfl
      cases hlast.symm.trans hy
      exact ⟨x, hx, hle⟩

theorem limitsAgree_one : cpmmGetLimits true 1 1 9999 = .ok (2, 0) ∧
    LimitsAgree (2, 0) (fun a => cpmmGetAmountOut a 1 1 ⟨1, 10000⟩) 1 := by
  have hlimits : cpmmGetLimits true 1 1 9999 = .ok (2, 0) := by decide +kernel
  refine ⟨hlimits, ?_⟩
  exact (limitsAgree_iff (by decide) (by decide) (by decide) (by decide) (by decide) hlimits).mpr
    ⟨rfl, rfl⟩

/-- Reserves of 1000 and the fee of Uniswap V2. -/
theorem not_limitsAgree_thousand : cpmmGetLimits true 1000 1000 30 = .ok (2162, 6816932) ∧
    cpmmGetAmountOut 2162 1000 1000 ⟨9970, 10000⟩ = .ok 683 ∧
    ¬ LimitsAgree (2162, 6816932) (fun a => cpmmGetAmountOut a 1000 1000 ⟨9970, 10000⟩) 1000 := by
  refine ⟨by decide +kernel, by decide +kernel, ?_⟩
  intro h
  exact absurd h.below (by decide)

end

end Tycho
