import Tycho.Collections.Fallible
import Tycho.Simulation.PoolState

/-! Arithmetic on `U256` that reports its overflows, and the products divided in 512 bits. -/
namespace Tycho
open Collections
variable {a b denom r : Nat}

def constructResultU256 (value : Nat) : Except SimulationError Nat :=
  if value < 2 ^ 256 then .ok value else .error (.fatalError "U256 arithmetic overflow")

def safeMulU256 (a b : Nat) : Except SimulationError Nat := constructResultU256 (a * b)

def safeAddU256 (a b : Nat) : Except SimulationError Nat := constructResultU256 (a + b)

def safeSubU256 (a b : Nat) : Except SimulationError Nat :=
  if b ≤ a then .ok (a - b) else .error (.fatalError "U256 arithmetic overflow")

def safeDivU256 (a b : Nat) : Except SimulationError Nat :=
  if b = 0 then .error (.fatalError "Division by zero") else .ok (a / b)

def divModU256 (a b : Nat) : Except SimulationError (Nat × Nat) :=
  if b = 0 then .error (.fatalError "Division by zero") else .ok (a / b, a % b)

def truncateToU256 (value : Nat) : Except SimulationError Nat :=
  if value < 2 ^ 256 then .ok value else .error (.fatalError "Overflow: Value exceeds 256 bits")

/-- The product of two `U256` is a `U512`, and so is the quotient rounded up. -/
def mulDivRoundingUp (a b denom : Nat) : Except SimulationError Nat := do
  let (result, rest) ← divModU256 (a * b) denom
  truncateToU256 (if rest ≠ 0 then result + 1 else result)

def mulDiv (a b denom : Nat) : Except SimulationError Nat := do
  let result ← safeDivU256 (a * b) denom
  truncateToU256 result

lemma constructResultU256_eq_ok : constructResultU256 a = .ok r ↔ a < 2 ^ 256 ∧ a = r := by
  unfold constructResultU256
  split <;> simp_all

lemma safeMulU256_eq_ok : safeMulU256 a b = .ok r ↔ a * b < 2 ^ 256 ∧ a * b = r :=
  constructResultU256_eq_ok

lemma safeAddU256_eq_ok : safeAddU256 a b = .ok r ↔ a + b < 2 ^ 256 ∧ a + b = r :=
  constructResultU256_eq_ok

lemma safeSubU256_eq_ok : safeSubU256 a b = .ok r ↔ b ≤ a ∧ a - b = r := by
  unfold safeSubU256
  split <;> simp_all

lemma safeDivU256_eq_ok : safeDivU256 a b = .ok r ↔ 0 < b ∧ a / b = r := by
  unfold safeDivU256
  split <;> simp_all [Nat.pos_iff_ne_zero]

lemma truncateToU256_eq_ok : truncateToU256 a = .ok r ↔ a < 2 ^ 256 ∧ a = r := by
  unfold truncateToU256
  split <;> simp_all

/-- The quotient, with one more where there is a remainder, is the quotient rounded up. -/
lemma ceilDiv_eq_of_mod (a : Nat) {b : Nat} (hb : 0 < b) :
    (if a % b ≠ 0 then a / b + 1 else a / b) = a ⌈/⌉ b := by
  have hdiv := Nat.mod_add_div a b
  have hlt := Nat.mod_lt a hb
  have hsum : a + b - 1 = a % b + b - 1 + b * (a / b) := by omega
  rw [Nat.ceilDiv_eq_add_pred_div, hsum, Nat.add_mul_div_left _ _ hb]
  split
  case isTrue hrest =>
    have hone : (a % b + b - 1) / b = 1 := Nat.div_eq_of_lt_le (by omega) (by omega)
    rw [hone, Nat.add_comm]
  case isFalse hrest =>
    have hzero : (a % b + b - 1) / b = 0 := Nat.div_eq_of_lt (by omega)
    rw [hzero, Nat.zero_add]

lemma mulDivRoundingUp_eq_ok : mulDivRoundingUp a b denom = .ok r ↔
      0 < denom ∧ (a * b) ⌈/⌉ denom < 2 ^ 256 ∧ (a * b) ⌈/⌉ denom = r := by
  unfold mulDivRoundingUp divModU256
  by_cases hzero : denom = 0
  · rw [if_pos hzero]
    constructor
    · intro h
      cases h
    · rintro ⟨hpos, -⟩
      omega
  · have hpos : 0 < denom := Nat.pos_of_ne_zero hzero
    rw [if_neg hzero, ok_bind]
    show truncateToU256 _ = _ ↔ _
    rw [ceilDiv_eq_of_mod _ hpos, truncateToU256_eq_ok]
    exact ⟨fun h => ⟨hpos, h⟩, fun h => h.2⟩

lemma mulDiv_eq_ok :
    mulDiv a b denom = .ok r ↔ 0 < denom ∧ a * b / denom < 2 ^ 256 ∧ a * b / denom = r := by
  unfold mulDiv
  constructor
  · intro h
    obtain ⟨q, hq, hr⟩ := ok_of_bind_ok h
    obtain ⟨hpos, rfl⟩ := safeDivU256_eq_ok.mp hq
    exact ⟨hpos, truncateToU256_eq_ok.mp hr⟩
  · rintro ⟨hpos, hr⟩
    rw [safeDivU256_eq_ok.mpr ⟨hpos, rfl⟩, ok_bind]
    exact truncateToU256_eq_ok.mpr hr

end Tycho
