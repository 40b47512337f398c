import Mathlib
import Tycho.Collections.Fallible

/-! Swaps of Fluid pools, which are split between the collateral and the debt pool. The operators of
`U256` wrap around, and a division by zero panics. -/
namespace Tycho.Fluid
open Collections Nat

abbrev U256 := BitVec 256

namespace U256

def max : U256 := BitVec.allOnes 256

def saturatingAdd (a b : U256) : U256 := if a.toNat + b.toNat < 2 ^ 256 then a + b else max

def saturatingSub (a b : U256) : U256 := if b ≤ a then a - b else 0

def saturatingMul (a b : U256) : U256 := if a.toNat * b.toNat < 2 ^ 256 then a * b else max

def sqrt (a : U256) : U256 := .ofNat 256 a.toNat.sqrt

end U256

/-- The fields of `CollateralReserves`, and of `DebtReserves`. -/
structure Reserves where
  token0RealReserves : U256
  token1RealReserves : U256
  token0ImaginaryReserves : U256
  token1ImaginaryReserves : U256
  deriving DecidableEq

structure TokenLimit where
  available : U256
  expandsTo : U256
  expandDuration : U256
  deriving DecidableEq

structure DexLimits where
  borrowableToken0 : TokenLimit
  borrowableToken1 : TokenLimit
  withdrawableToken0 : TokenLimit
  withdrawableToken1 : TokenLimit
  deriving DecidableEq

inductive SwapError where
  | insufficientReserve
  | insufficientBorrowable
  | insufficientWithdrawable
  | insufficientMaxPrice
  | verifyReservesRatiosInvalid
  | noPoolsEnabled
  /-- A division by zero. -/
  | panicked
  deriving DecidableEq

def MAX_PRICE_DIFF : U256 := 5
def MIN_SWAP_LIQUIDITY : U256 := 8500
def TWO_DECIMALS : U256 := 100
def B_I1E18 : U256 := 1000000000000000000
def B_I1E27 : U256 := 1000000000000000000000000000
def DEX_AMOUNT_DECIMALS : Int := 12

def div (a b : U256) : Except SwapError U256 := if b = 0 then .error .panicked else .ok (a / b)

def swapRoutingIn (t x y x2 y2 : U256) : Except SwapError U256 :=
  let xyRoot := U256.sqrt (x * y * B_I1E18)
  let x2y2Root := U256.sqrt (x2 * y2 * B_I1E18)
  let numerator := y2 * xyRoot + t * xyRoot - y * x2y2Root
  div numerator (xyRoot + x2y2Root)

def getAmountOut (amountIn iReserveIn iReserveOut : U256) : Except SwapError U256 :=
  div (amountIn * iReserveOut) (iReserveIn + amountIn)

def tenPow (v : Int) : U256 := .ofNat 256 (10 ^ v.toNat)

def toAdjustedAmount (amount : U256) (decimals : Int) : Except SwapError U256 :=
  let diff := decimals - DEX_AMOUNT_DECIMALS
  if diff = 0 then .ok amount
  else if diff > 0 then div amount (tenPow diff)
  else .ok (amount * tenPow (-diff))

def fromAdjustedAmount (adjustedAmount : U256) (decimals : Int) : Except SwapError U256 :=
  let diff := decimals - DEX_AMOUNT_DECIMALS
  if diff = 0 then .ok adjustedAmount
  else if diff < 0 then div adjustedAmount (tenPow (-diff))
  else .ok (adjustedAmount * tenPow diff)

def verifyToken0Reserves (token0Reserves token1Reserves price : U256) : Bool :=
  let denominator := price.saturatingMul MIN_SWAP_LIQUIDITY
  (if denominator = 0 then 0 else token1Reserves.saturatingMul B_I1E27 / denominator) ≤
    token0Reserves

def verifyToken1Reserves (token0Reserves token1Reserves price : U256) : Bool :=
  token0Reserves.saturatingMul price / B_I1E27.saturatingMul MIN_SWAP_LIQUIDITY ≤ token1Reserves

/-- The times are in seconds. -/
def getExpandedLimit (currentTime syncTime : Nat) (limit : TokenLimit) : U256 :=
  let elapsed := currentTime - syncTime
  if elapsed < 10 then limit.available
  else if limit.expandDuration.toNat ≤ elapsed then limit.expandsTo
  else
    let delta := limit.expandsTo.saturatingSub limit.available
    limit.available.saturatingAdd (delta.saturatingMul (.ofNat 256 elapsed) / limit.expandDuration)

/-- The reserves of one pool by the direction of the swap. -/
structure Sides where
  reserveIn : U256
  reserveOut : U256
  iReserveIn : U256
  iReserveOut : U256

namespace Reserves
variable (r : Reserves) (swap0To1 : Bool)

def sides : Sides :=
  if swap0To1 then
    ⟨r.token0RealReserves, r.token1RealReserves, r.token0ImaginaryReserves,
      r.token1ImaginaryReserves⟩
  else
    ⟨r.token1RealReserves, r.token0RealReserves, r.token1ImaginaryReserves,
      r.token0ImaginaryReserves⟩

def enabled : Bool :=
  0 < r.token0RealReserves ∧ 0 < r.token1RealReserves ∧ 0 < r.token0ImaginaryReserves ∧
    0 < r.token1ImaginaryReserves

def update (add sub : U256 → U256 → U256) (amountIn amountOut : U256) : Reserves :=
  if swap0To1 then
    ⟨add r.token0RealReserves amountIn, sub r.token1RealReserves amountOut,
      add r.token0ImaginaryReserves amountIn, sub r.token1ImaginaryReserves amountOut⟩
  else
    ⟨sub r.token0RealReserves amountOut, add r.token1RealReserves amountIn,
      sub r.token0ImaginaryReserves amountOut, add r.token1ImaginaryReserves amountIn⟩

end Reserves

def TokenLimit.spend (sub : U256 → U256 → U256) (limit : TokenLimit) (amount : U256) : TokenLimit :=
  { limit with available := sub limit.available amount, expandsTo := sub limit.expandsTo amount }

def updateCollateralReservesAndLimits (swap0To1 : Bool) (amountIn amountOut : U256)
    (col : Reserves) (limits : DexLimits) (outDecimals : Int) :
    Except SwapError (Reserves × DexLimits) := do
  let unadjusted ← fromAdjustedAmount amountOut outDecimals
  let spend := fun limit => TokenLimit.spend U256.saturatingSub limit unadjusted
  return (col.update swap0To1 U256.saturatingAdd U256.saturatingSub amountIn amountOut,
    if swap0To1 then { limits with withdrawableToken1 := spend limits.withdrawableToken1 }
    else { limits with withdrawableToken0 := spend limits.withdrawableToken0 })

def updateDebtReservesAndLimits (swap0To1 : Bool) (amountIn amountOut : U256)
    (debt : Reserves) (limits : DexLimits) (outDecimals : Int) :
    Except SwapError (Reserves × DexLimits) := do
  let unadjusted ← fromAdjustedAmount amountOut outDecimals
  let spend := fun limit => TokenLimit.spend (· - ·) limit unadjusted
  return (debt.update swap0To1 (· + ·) (· - ·) amountIn amountOut,
    if swap0To1 then { limits with borrowableToken1 := spend limits.borrowableToken1 }
    else { limits with borrowableToken0 := spend limits.borrowableToken0 })

structure Routed where
  amountInCollateral : U256
  amountOutCollateral : U256
  amountInDebt : U256
  amountOutDebt : U256
  deriving DecidableEq

/-- The amounts of `swap_in_adjusted`, of which `a` goes through the collateral pool. -/
def routeAmounts (a amountToSwap : U256) (col debt : Sides) : Except SwapError Routed := do
  if a = 0 ∨ a = U256.max then
    return ⟨0, 0, amountToSwap, ← getAmountOut amountToSwap debt.iReserveIn debt.iReserveOut⟩
  else if a ≥ amountToSwap then
    return ⟨amountToSwap, ← getAmountOut amountToSwap col.iReserveIn col.iReserveOut, 0, 0⟩
  else
    let amountInDebt := amountToSwap - a
    let amountOutDebt ← getAmountOut amountInDebt debt.iReserveIn debt.iReserveOut
    return ⟨a, ← getAmountOut a col.iReserveIn col.iReserveOut, amountInDebt, amountOutDebt⟩

/-- The first part of `swap_in_adjusted`. -/
def routeSwap (swap0To1 : Bool) (amountToSwap : U256) (col debt : Reserves) :
    Except SwapError Routed := do
  let c := col.sides swap0To1
  let d := debt.sides swap0To1
  let a ← (if col.enabled ∧ debt.enabled then
      swapRoutingIn amountToSwap c.iReserveOut c.iReserveIn d.iReserveOut d.iReserveIn
    else if debt.enabled then .ok U256.max
    else if col.enabled then .ok (amountToSwap + 1)
    else .error .noPoolsEnabled)
  routeAmounts a amountToSwap c d

def ratioValid (swap0To1 : Bool) (s : Sides) (amountIn amountOut centerPrice : U256) : Bool :=
  if swap0To1 then
    verifyToken1Reserves (s.reserveIn + amountIn) (s.reserveOut - amountOut) centerPrice
  else verifyToken0Reserves (s.reserveOut - amountOut) (s.reserveIn + amountIn) centerPrice

def prices (swap0To1 : Bool) (s : Sides) (amountIn amountOut : U256) :
    Except SwapError (U256 × U256) := do
  if swap0To1 then
    return (← div (s.iReserveOut * B_I1E27) s.iReserveIn,
      ← div ((s.iReserveOut - amountOut) * B_I1E27) (s.iReserveIn + amountIn))
  else
    return (← div (s.iReserveIn * B_I1E27) s.iReserveOut,
      ← div ((s.iReserveIn + amountIn) * B_I1E27) (s.iReserveOut - amountOut))

def swapInAdjusted (currentTime : Nat) (swap0To1 : Bool) (amountToSwap : U256)
    (col debt : Reserves) (outDecimals : Int) (limits : DexLimits) (centerPrice : U256)
    (syncTime : Nat) : Except SwapError (U256 × Reserves × Reserves × DexLimits) := do
  let c := col.sides swap0To1
  let d := debt.sides swap0To1
  let borrowable := getExpandedLimit currentTime syncTime
    (if swap0To1 then limits.borrowableToken1 else limits.borrowableToken0)
  let withdrawable := getExpandedLimit currentTime syncTime
    (if swap0To1 then limits.withdrawableToken1 else limits.withdrawableToken0)
  let borrowable ← toAdjustedAmount borrowable outDecimals
  let withdrawable ← toAdjustedAmount withdrawable outDecimals
  let r ← routeSwap swap0To1 amountToSwap col debt
  if r.amountOutDebt > d.reserveOut then throw .insufficientReserve
  if r.amountOutCollateral > c.reserveOut then throw .insufficientReserve
  if r.amountOutDebt > borrowable then throw .insufficientBorrowable
  if r.amountOutCollateral > withdrawable then throw .insufficientWithdrawable
  if r.amountInCollateral > 0 ∧
      ¬ ratioValid swap0To1 c r.amountInCollateral r.amountOutCollateral centerPrice then
    throw .verifyReservesRatiosInvalid
  if r.amountInDebt > 0 ∧ ¬ ratioValid swap0To1 d r.amountInDebt r.amountOutDebt centerPrice then
    throw .verifyReservesRatiosInvalid
  let (oldPrice, newPrice) ← (if r.amountInCollateral > r.amountInDebt then
      prices swap0To1 c r.amountInCollateral r.amountOutCollateral
    else prices swap0To1 d r.amountInDebt r.amountOutDebt)
  let priceDiff := if newPrice ≤ oldPrice then oldPrice - newPrice else newPrice - oldPrice
  if priceDiff > oldPrice * MAX_PRICE_DIFF / TWO_DECIMALS then throw .insufficientMaxPrice
  let (col, limits) ← (if r.amountInCollateral > 0 then
      updateCollateralReservesAndLimits swap0To1 r.amountInCollateral r.amountOutCollateral col
        limits outDecimals
    else .ok (col, limits))
  let (debt, limits) ← (if r.amountInDebt > 0 then
      updateDebtReservesAndLimits swap0To1 r.amountInDebt r.amountOutDebt debt limits outDecimals
    else .ok (debt, limits))
  return (← fromAdjustedAmount (r.amountOutCollateral + r.amountOutDebt) outDecimals, col, debt,
    limits)

def Sides.root (s : Sides) : Nat := (s.iReserveOut.toNat * s.iReserveIn.toNat * 10 ^ 18).sqrt

/-- The signed numerator of the part that belongs to the collateral pool. -/
def numerator (t : U256) (c d : Sides) : Int :=
  d.iReserveIn.toNat * c.root + t.toNat * c.root - c.iReserveIn.toNat * d.root

/-- What goes into the collateral and into the debt pool, by the signed quotient. -/
def intended (t : U256) (c d : Sides) : U256 × U256 :=
  let quotient := numerator t c d / (c.root + d.root)
  if numerator t c d ≤ 0 ∨ quotient = 0 then (0, t)
  else if t.toNat ≤ quotient then (t, 0)
  else (.ofInt 256 quotient, t - .ofInt 256 quotient)

/-- No product of the routing exceeds 256 bits. -/
structure Fits (t : U256) (c d : Sides) : Prop where
  col : c.iReserveOut.toNat * c.iReserveIn.toNat * 10 ^ 18 < 2 ^ 256
  debt : d.iReserveOut.toNat * d.iReserveIn.toNat * 10 ^ 18 < 2 ^ 256
  debt_in : d.iReserveIn.toNat * c.root < 2 ^ 256
  amount : t.toNat * c.root < 2 ^ 256
  col_in : c.iReserveIn.toNat * d.root < 2 ^ 256

section
variable {t a : U256} {s c d : Sides}

lemma toNat_sqrt (h : s.iReserveOut.toNat * s.iReserveIn.toNat * 10 ^ 18 < 2 ^ 256) :
    (U256.sqrt (s.iReserveOut * s.iReserveIn * B_I1E18)).toNat = s.root := by
  have hscale : (B_I1E18).toNat = 10 ^ 18 := by decide
  have hproduct : s.iReserveOut.toNat * s.iReserveIn.toNat < 2 ^ 256 :=
    lt_of_le_of_lt (Nat.le_mul_of_pos_right _ (by positivity)) h
  have harg : (s.iReserveOut * s.iReserveIn * B_I1E18).toNat =
      s.iReserveOut.toNat * s.iReserveIn.toNat * 10 ^ 18 := by
    rw [BitVec.toNat_mul, BitVec.toNat_mul, hscale, Nat.mod_eq_of_lt hproduct, Nat.mod_eq_of_lt h]
  have hroot := lt_of_le_of_lt (sqrt_le_self _) h
  rw [U256.sqrt, BitVec.toNat_ofNat, harg, mod_eq_of_lt hroot, Sides.root]

lemma root_bounds (hout : 0 < s.iReserveOut) (hin : 0 < s.iReserveIn)
    (h : s.iReserveOut.toNat * s.iReserveIn.toNat * 10 ^ 18 < 2 ^ 256) :
    10 ^ 9 ≤ s.root ∧ s.root < 2 ^ 128 := by
  have hpos : 0 < s.iReserveOut.toNat * s.iReserveIn.toNat :=
    mul_pos (by bv_omega) (by bv_omega)
  constructor
  · rw [Sides.root, le_sqrt]
    omega
  · rw [Sides.root, sqrt_lt]
    exact h

/-- The difference wraps around, so that the quotient is that of the remainder. -/
lemma swapRoutingIn_eq (hfits : Fits t c d) (hc : 10 ^ 9 ≤ c.root ∧ c.root < 2 ^ 128)
    (hd : 10 ^ 9 ≤ d.root ∧ d.root < 2 ^ 128) :
    ∃ a, swapRoutingIn t c.iReserveOut c.iReserveIn d.iReserveOut d.iReserveIn = .ok a ∧
      (a.toNat : Int) = numerator t c d % 2 ^ 256 / (c.root + d.root) := by
  have hcol := toNat_sqrt hfits.col
  have hdebt := toNat_sqrt hfits.debt
  unfold swapRoutingIn
  generalize U256.sqrt (c.iReserveOut * c.iReserveIn * B_I1E18) = r at *
  generalize U256.sqrt (d.iReserveOut * d.iReserveIn * B_I1E18) = r2 at *
  have hsum : (r + r2).toNat = c.root + d.root := by
    rw [BitVec.toNat_add, hcol, hdebt]
    exact mod_eq_of_lt (by omega)
  have hpos : r + r2 ≠ 0 := by
    intro hzero
    rw [hzero] at hsum
    simp at hsum
    omega
  refine ⟨_, if_neg hpos, ?_⟩
  have hnum : ((d.iReserveIn * r + t * r - c.iReserveIn * r2).toNat : Int) =
      numerator t c d % 2 ^ 256 := by
    have hdin := hfits.debt_in
    have hamount := hfits.amount
    have hcin := hfits.col_in
    rw [BitVec.toNat_sub, BitVec.toNat_add, BitVec.toNat_mul, BitVec.toNat_mul, BitVec.toNat_mul,
      hcol, hdebt, mod_eq_of_lt hdin, mod_eq_of_lt hamount, mod_eq_of_lt hcin, numerator]
    simp only [← cast_mul]
    generalize d.iReserveIn.toNat * c.root = u at *
    generalize t.toNat * c.root = v at *
    generalize c.iReserveIn.toNat * d.root = w at *
    omega
  rw [BitVec.toNat_udiv, hsum, Int.natCast_ediv, hnum, cast_add]

def Routed.ins (r : Routed) : U256 × U256 := (r.amountInCollateral, r.amountInDebt)

lemma exists_getAmountOut {amount r : U256} (out : U256) (hr : 0 < r)
    (hsum : r.toNat + amount.toNat < 2 ^ 256) : ∃ o, getAmountOut amount r out = .ok o := by
  have hpos : r + amount ≠ 0 := by bv_omega
  exact ⟨_, if_neg hpos⟩

lemma routeAmounts_ins (hc : 0 < c.iReserveIn) (hd : 0 < d.iReserveIn)
    (hct : c.iReserveIn.toNat + t.toNat < 2 ^ 256) (hdt : d.iReserveIn.toNat + t.toNat < 2 ^ 256) :
    (routeAmounts a t c d).map Routed.ins = .ok (if a = 0 ∨ a = U256.max then (0, t)
      else if a ≥ t then (t, 0) else (a, t - a)) := by
  unfold routeAmounts
  split_ifs with hdebt hcol
  · obtain ⟨o, ho⟩ := exists_getAmountOut d.iReserveOut hd hdt
    rw [ho]
    rfl
  · obtain ⟨o, ho⟩ := exists_getAmountOut c.iReserveOut hc hct
    rw [ho]
    rfl
  · have hrest : d.iReserveIn.toNat + (t - a).toNat < 2 ^ 256 := by bv_omega
    have hpart : c.iReserveIn.toNat + a.toNat < 2 ^ 256 := by bv_omega
    obtain ⟨o, ho⟩ := exists_getAmountOut d.iReserveOut hd hrest
    obtain ⟨o', ho'⟩ := exists_getAmountOut c.iReserveOut hc hpart
    dsimp only
    rw [ho, ok_bind, ho']
    rfl

/-- The routes by the quotient of the remainder and by the signed quotient. -/
lemma split_eq_intended_iff {n D : Int} (ha : (a.toNat : Int) = n % 2 ^ 256 / D) (hD : 2 ≤ D)
    (hD' : D ≤ 2 ^ 256) (hlow : -2 ^ 256 < n) (hhigh : n < 2 * 2 ^ 256)
    (hless : n < 2 ^ 256 + t.toNat * D) :
    (if a = 0 ∨ a = U256.max then (0, t) else if a ≥ t then (t, 0) else (a, t - a)) =
      (if n ≤ 0 ∨ n / D = 0 then (0, t) else if (t.toNat : Int) ≤ n / D then (t, 0)
        else (.ofInt 256 (n / D), t - .ofInt 256 (n / D))) ↔
      t = 0 ∨ (0 ≤ n ∧ n < 2 ^ 256) ∨ (n < 0 ∧ n + 2 ^ 256 < D) := by
  have hlt : ∀ m b : Int, m / D < b ↔ m < b * D := fun m b => Int.ediv_lt_iff_lt_mul (by omega)
  have hmax : a ≠ U256.max := by
    have hhalf := (hlt (n % 2 ^ 256) (2 ^ 255)).mpr (by omega)
    intro h
    subst h
    have : (U256.max).toNat = 2 ^ 256 - 1 := by decide
    omega
  have hquotient : 0 ≤ n → 0 ≤ n / D := fun hn => Int.ediv_nonneg hn (by omega)
  simp only [hmax, or_false]
  by_cases ht : t = 0
  · subst ht
    have hcode : ∀ x : U256, x ≥ 0 := by bv_omega
    simp only [hcode, true_or, if_true, ite_self, iff_true]
    split_ifs with hdebt hcol
    · rfl
    · rfl
    · exact absurd (hquotient (by omega)) (by simpa using hcol)
  simp only [ht, false_or]
  rcases lt_or_ge n 0 with hneg | hnonneg
  · -- a negative numerator belongs to the debt pool
    have hwrap : n % 2 ^ 256 = n + 2 ^ 256 := by omega
    have hone := hlt (n + 2 ^ 256) 1
    rw [hwrap] at ha
    have hzero : a = 0 ↔ n + 2 ^ 256 < D := by
      rw [← one_mul D, ← hone, ← ha]
      bv_omega
    have hdebt : (0 ≤ n ∧ n < 2 ^ 256 ∨ n < 0 ∧ n + 2 ^ 256 < D) ↔ a = 0 := by
      rw [hzero]
      omega
    rw [if_pos (Or.inl hneg.le), hdebt]
    constructor
    · intro h
      by_contra hne
      rw [if_neg hne] at h
      split at h
      · exact ht (congrArg Prod.fst h)
      · exact hne (congrArg Prod.fst h)
    · intro h
      rw [if_pos h]
  rcases lt_or_ge n (2 ^ 256) with hfits | hlarge
  · have hsame : n % 2 ^ 256 = n := by omega
    rw [hsame] at ha
    simp only [hnonneg, hfits, and_self, true_or, iff_true]
    rw [← ha]
    have hzero : a = 0 ↔ n ≤ 0 ∨ (a.toNat : Int) = 0 := by
      constructor
      · intro h
        exact .inr (by simp [h])
      · rintro (h | h)
        · obtain rfl : n = 0 := by omega
          have : a.toNat = 0 := by simpa using ha
          bv_omega
        · bv_omega
    have hofInt : BitVec.ofInt 256 (a.toNat : Int) = a := by simp
    have hle : a ≥ t ↔ (t.toNat : Int) ≤ a.toNat := by
      rw [cast_le]
      exact Iff.rfl
    simp only [hzero, hofInt, hle]
  · -- the quotient that is used is too small
    have hwrap : n % 2 ^ 256 = n - 2 ^ 256 := by omega
    rw [hwrap] at ha
    have hpart := (hlt (n - 2 ^ 256) t.toNat).mpr (by omega)
    have hmore : (n - 2 ^ 256) / D < n / D := by
      have hshift := Int.add_mul_ediv_right (n - 2 ^ 256) 1 (show D ≠ 0 by omega)
      have hmono := Int.ediv_le_ediv (show 0 < D by omega) (show n - 2 ^ 256 + 1 * D ≤ n by omega)
      omega
    have hfirst : (if a = 0 then (0, t) else if a ≥ t then (t, 0) else (a, t - a)).1 = a := by
      split_ifs with hdebt hcol
      · exact hdebt.symm
      · bv_omega
      · rfl
    have hnot : ¬ (0 ≤ n ∧ n < 2 ^ 256 ∨ n < 0 ∧ n + 2 ^ 256 < D) := by omega
    simp only [hnot, iff_false]
    intro h
    rw [h, if_neg (by omega)] at hfirst
    split at hfirst
    · bv_omega
    · have hback := congrArg BitVec.toNat hfirst
      rw [BitVec.toNat_ofInt] at hback
      omega

lemma sides_pos {r : Reserves} (hr : r.enabled) (swap0To1 : Bool) :
    0 < (r.sides swap0To1).iReserveOut ∧ 0 < (r.sides swap0To1).iReserveIn := by
  obtain ⟨-, -, h0, h1⟩ : 0 < r.token0RealReserves ∧ 0 < r.token1RealReserves ∧
      0 < r.token0ImaginaryReserves ∧ 0 < r.token1ImaginaryReserves := of_decide_eq_true hr
  cases swap0To1
  · exact ⟨h0, h1⟩
  · exact ⟨h1, h0⟩

theorem routes_intended_iff {col debt : Reserves} {swap0To1 : Bool} (hcol : col.enabled)
    (hdebt : debt.enabled) (hfits : Fits t (col.sides swap0To1) (debt.sides swap0To1)) :
    (routeSwap swap0To1 t col debt).map Routed.ins =
        .ok (intended t (col.sides swap0To1) (debt.sides swap0To1)) ↔
      t = 0 ∨ (0 ≤ numerator t (col.sides swap0To1) (debt.sides swap0To1) ∧
          numerator t (col.sides swap0To1) (debt.sides swap0To1) < 2 ^ 256) ∨
        (numerator t (col.sides swap0To1) (debt.sides swap0To1) < 0 ∧
          numerator t (col.sides swap0To1) (debt.sides swap0To1) + 2 ^ 256 <
            (col.sides swap0To1).root + (debt.sides swap0To1).root) := by
  have hc := sides_pos hcol swap0To1
  have hd := sides_pos hdebt swap0To1
  unfold routeSwap
  have hboth : col.enabled = true ∧ debt.enabled = true := ⟨hcol, hdebt⟩
  simp only [hboth, and_self, if_true]
  generalize col.sides swap0To1 = c at *
  generalize debt.sides swap0To1 = d at *
  have hcroot := root_bounds hc.1 hc.2 hfits.col
  have hdroot := root_bounds hd.1 hd.2 hfits.debt
  obtain ⟨a, ha, hquotient⟩ := swapRoutingIn_eq hfits hcroot hdroot
  rw [ha, ok_bind]
  obtain ⟨-, -, hdin, hamount, hcin⟩ := hfits
  have hsmall : ∀ m r : Nat, 10 ^ 9 ≤ r → m * r < 2 ^ 256 → m < 2 ^ 255 := by
    intro m r hr hm
    have := mul_le_mul_left m hr
    omega
  have ht := hsmall _ _ hcroot.1 hamount
  have hcin' := hsmall _ _ hdroot.1 hcin
  have hdin' := hsmall _ _ hcroot.1 hdin
  rw [routeAmounts_ins hc.2 hd.2 (by omega) (by omega), Except.ok.injEq]
  have hroots : (t.toNat * c.root : Int) ≤ t.toNat * (c.root + d.root : Int) :=
    mul_le_mul_of_nonneg_left (by omega) (by omega)
  unfold intended numerator at *
  simp only [← cast_mul] at *
  apply split_eq_intended_iff hquotient <;> omega

end

/-- A pool that pays a quarter of the input, and one that pays four times the input. -/
def cheap : Reserves := ⟨1000000000000000, 1000000000000000, 4000000000000000, 1000000000000000⟩
def dear : Reserves := ⟨1000000000000000, 1000000000000000, 1000000000000000, 4000000000000000⟩

def wide : DexLimits :=
  let limit : TokenLimit := ⟨1000000000000000, 1000000000000000, 1⟩
  ⟨limit, limit, limit, limit⟩

theorem routes_intended_equal : (routeSwap true 1000000000 dear dear).map Routed.ins =
      .ok (intended 1000000000 (dear.sides true) (dear.sides true)) := by
  have hfits : Fits 1000000000 (dear.sides true) (dear.sides true) :=
    ⟨by decide +kernel, by decide +kernel, by decide +kernel, by decide +kernel, by decide +kernel⟩
  exact (routes_intended_iff (by decide) (by decide) hfits).mpr (.inr (.inl (by decide +kernel)))

/-- The debt pool should be used, but all goes through the collateral pool. -/
theorem not_routes_intended_cheap :
    (swapInAdjusted 0 true 1000000000 cheap dear 12 wide 1000000000000000000000000000
      0).toOption.map
        (fun r => (r.1, r.2.1.token0RealReserves, r.2.2.1)) =
      some (249999937, 1000001000000000, dear) ∧
    (routeSwap true 1000000000 cheap dear).map Routed.ins = .ok (1000000000, 0) ∧
    intended 1000000000 (cheap.sides true) (dear.sides true) = (0, 1000000000) ∧
    Fits 1000000000 (cheap.sides true) (dear.sides true) := by
  refine ⟨by decide +kernel, by decide +kernel, by decide +kernel, ?_⟩
  constructor <;> decide +kernel

end Tycho.Fluid
