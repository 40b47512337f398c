import Tycho.Simulation.Cpmm

/-! The swap that moves a constant-product pool to a price. Operations on `U512` wrap around, and
a call that panics or does not end has no result. -/
namespace Tycho
open Collections

/-- The loop of `sqrt_u512`, with a bound on its rounds. -/
def sqrtU512Loop (value : Nat) : Nat → Nat → Bool → Option Nat
  | 0, _, _ => none
  | rounds + 1, result, decreasing =>
    if result = 0 then none
    else
      let iter := (value / result + result) % 2 ^ 512 / 2
      if iter = result then some result
      else if iter > result then
        if decreasing then some result
        else
          let double := result * 2 % 2 ^ 512
          sqrtU512Loop value rounds (if iter > double then double else iter) false
      else sqrtU512Loop value rounds iter true

def sqrtU512 (rounds value : Nat) : Option Nat :=
  if value = 0 then some 0
  else if value = 1 then some 1
  else sqrtU512Loop value rounds (2 ^ (value.size / 2)) false

structure Price where
  numerator : Nat
  denominator : Nat

def cpmmSwapToPrice (rounds reserveIn reserveOut : Nat) (target : Price) (fee : ProtocolFee) :
    Option (Except SimulationError (Nat × Nat)) :=
  let num := target.denominator
  let den := target.numerator
  if reserveIn = 0 ∨ reserveOut = 0 then some (.error (.fatalError "Reserves cannot be zero"))
  else if 2 ^ 256 ≤ num ∨ 2 ^ 256 ≤ den then none
  else if 2 ^ 512 ≤ num * reserveOut * fee.numerator ∨ 2 ^ 512 ≤ den * reserveIn *
    fee.precision then
    some (.error (.fatalError "Overflow in price check"))
  else if num * reserveOut * fee.numerator < den * reserveIn * fee.precision then
    some (.error (.invalidInput
      "Target price is unreachable (already below current spot price)" none))
  else if den * fee.precision = 0 then none
  else
    (sqrtU512 rounds (reserveIn * reserveOut * num * fee.numerator % 2 ^ 512 /
      (den * fee.precision))).map fun root =>
        let xPrime := root % 2 ^ 256
        if xPrime ≤ reserveIn then .ok (0, 0)
        else do
          let amountIn ← safeSubU256 xPrime reserveIn
          if amountIn = 0 then return (0, 0)
          return (amountIn, ← mulDiv amountIn den num)

/-- The loop is left with a value that its step does not lower. -/
lemma sqrtU512Loop_sq_le {v n x r : Nat} {d : Bool} (h : sqrtU512Loop v n x d = some r) :
    r * r ≤ v := by
  induction n generalizing x d with
  | zero => cases h
  | succ n ih =>
    have hexit : x ≠ 0 → x ≤ (v / x + x) % 2 ^ 512 / 2 → x * x ≤ v := by
      intro hx hle
      have hmod := Nat.mod_le (v / x + x) (2 ^ 512)
      exact (Nat.le_div_iff_mul_le (Nat.pos_of_ne_zero hx)).mp (by omega)
    simp only [sqrtU512Loop] at h
    split_ifs at h with hx heq hgt hd
    · cases h
      exact hexit hx heq.ge
    · cases h
      exact hexit hx hgt.le
    all_goals exact ih h

lemma sqrtU512_sq_le {n v r : Nat} (h : sqrtU512 n v = some r) : r * r ≤ v := by
  unfold sqrtU512 at h
  split_ifs at h with hzero hone
  · cases h
    omega
  · cases h
    omega
  · exact sqrtU512Loop_sq_le h

section
variable {x y a num den f p out : Nat} (hx : 0 < x) (hp : 0 < p) (hf : f ≤ p)
  (hroot : (x + a) * (x + a) * (den * p) ≤ x * y * num * f)
include hx hp hf hroot

lemma price_after_le (hle : out ≤ y) (hpaid : out * (x * p + a * f) ≤ a * f * y) :
    den * (x + a) * p ≤ num * (y - out) * f := by
  apply Nat.le_of_mul_le_mul_left _ (show 0 < x + a by omega)
  calc (x + a) * (den * (x + a) * p) ≤ x * y * num * f := by linarith
    _ ≤ (x + a) * (y - out) * num * f :=
      Nat.mul_le_mul_right f (Nat.mul_le_mul_right num (product_le hpaid hp hf hle))
    _ = (x + a) * (num * (y - out) * f) := by ring

lemma implied_le_quote : a * den / num ≤ a * f * y / (x * p + a * f) := by
  have hprice := price_after_le hx hp hf hroot (Nat.zero_le y) (by simp)
  rw [Nat.sub_zero] at hprice
  have hfee : den * (a * f) ≤ den * (a * p) := by gcongr
  rw [Nat.le_div_iff_mul_le (by positivity), Nat.mul_comm]
  refine (Nat.mul_div_le_mul_div_assoc _ _ _).trans (Nat.div_le_of_le_mul ?_)
  calc (x * p + a * f) * (a * den) = a * (den * (x * p + a * f)) := by ring
    _ ≤ a * (num * y * f) := Nat.mul_le_mul_left a (by linarith)
    _ = num * (a * f * y) := by ring

end

variable {n x y a o : Nat} {target : Price} {fee : ProtocolFee}

lemma cpmmSwapToPrice_ok (h : cpmmSwapToPrice n x y target fee = some (.ok (a, o))) (ha : 0 < a) :
    (0 < x ∧ 0 < y ∧ 0 < fee.precision) ∧ (x + a) * (x + a) * (target.numerator * fee.precision) ≤
        x * y * target.denominator * fee.numerator ∧
      a * target.numerator / target.denominator = o := by
  unfold cpmmSwapToPrice at h
  dsimp only at h
  split_ifs at h with hres hfit hover hreach hzero
  · cases h
  · cases h
  · cases h
  obtain ⟨root, hroot, h⟩ := Option.map_eq_some_iff.mp h
  split_ifs at h with hle
  · cases h
    omega
  rw [safeSubU256_eq_ok.mpr ⟨by omega, rfl⟩, ok_bind, if_neg (by omega)] at h
  obtain ⟨implied, himp, h⟩ := ok_of_bind_ok h
  cases h
  obtain ⟨-, -, hdiv⟩ := mulDiv_eq_ok.mp himp
  have hsq := sqrtU512_sq_le hroot
  rw [Nat.le_div_iff_mul_le (Nat.pos_of_ne_zero hzero)] at hsq
  have hlow := Nat.mod_le root (2 ^ 256)
  have hx' : x + (root % 2 ^ 256 - x) = root % 2 ^ 256 := by omega
  refine ⟨⟨by omega, by omega, Nat.pos_of_ne_zero (right_ne_zero_of_mul hzero)⟩, ?_, hdiv⟩
  rw [hx']
  exact (Nat.mul_le_mul_right _ (Nat.mul_le_mul hlow hlow)).trans (hsq.trans (Nat.mod_le _ _))

/-- Where the quote of the amount does not overflow, it is at least the implied one, and the price
of the pool does not pass the target. -/
theorem swapToPrice_quoted_iff (hfee : fee.numerator ≤ fee.precision)
    (h : cpmmSwapToPrice n x y target fee = some (.ok (a, o))) (ha : 0 < a) :
    (∃ out, cpmmGetAmountOut a x y fee = .ok out ∧ o ≤ out ∧
        target.numerator * (x + a) * fee.precision ≤
          target.denominator * (y - out) * fee.numerator) ↔
      a * fee.numerator * y < 2 ^ 256 ∧ x * fee.precision + a * fee.numerator < 2 ^ 256 := by
  obtain ⟨⟨hx, hy, hp⟩, hroot, rfl⟩ := cpmmSwapToPrice_ok h ha
  have hpos := Nat.mul_pos hx hp
  have hpaid := Nat.div_mul_le_self (a * fee.numerator * y) (x * fee.precision + a * fee.numerator)
  have hlt := quote_lt hpaid hpos hy
  constructor
  · rintro ⟨out, hout, -⟩
    exact (cpmmGetAmountOut_eq_ok.mp hout).2.1
  · intro hfit
    refine ⟨_, cpmmGetAmountOut_eq_ok.mpr ⟨⟨ha, hx, hy⟩, hfit, by omega, rfl⟩, ?_, ?_⟩
    · exact implied_le_quote hx hp hfee hroot
    · exact price_after_le hx hp hfee hroot hlt.le hpaid

theorem swapToPrice_quoted_hundred :
    cpmmSwapToPrice 9 100 100 ⟨1, 4⟩ ⟨1, 1⟩ = some (.ok (100, 25)) ∧
      ∃ out, cpmmGetAmountOut 100 100 100 ⟨1, 1⟩ = .ok out ∧ 25 ≤ out ∧
        1 * (100 + 100) * 1 ≤ 4 * (100 - out) * 1 := by
  have h : cpmmSwapToPrice 9 100 100 ⟨1, 4⟩ ⟨1, 1⟩ = some (.ok (100, 25)) := by decide +kernel
  exact ⟨h, (swapToPrice_quoted_iff le_rfl h (by decide)).mpr (by decide)⟩

/-- The traded amount times the reserve has more than 256 bits. -/
theorem swapToPrice_not_quoted : cpmmSwapToPrice 1 (2 ^ 100) (2 ^ 100) ⟨1, 2 ^ 120⟩ ⟨1, 1⟩ =
      some (.ok (2 ^ 160 - 2 ^ 100, 2 ^ 40 - 1)) ∧
    cpmmGetAmountOut (2 ^ 160 - 2 ^ 100) (2 ^ 100) (2 ^ 100) ⟨1, 1⟩ =
      .error (.fatalError "U256 arithmetic overflow") := by
  decide +kernel

end Tycho
