import Tycho.Simulation.Cpmm

/-! Uniswap V2 pools on which amounts are quoted one after another. -/
namespace Tycho
open Collections

structure UniswapV2State where
  reserve0 : Nat
  reserve1 : Nat
  deriving DecidableEq

namespace UniswapV2State

def sides (zero2one : Bool) (s : UniswapV2State) : Nat × Nat :=
  reservesInOut zero2one s.reserve0 s.reserve1

/-- The quote and the state after it. The source fixes the fee to 9970 / 10000. -/
def getAmountOut (fee : ProtocolFee) (zero2one : Bool) (s : UniswapV2State) (amountIn : Nat) :
    Except SimulationError (Nat × UniswapV2State) := do
  let (reserveIn, reserveOut) := s.sides zero2one
  let amountOut ← cpmmGetAmountOut amountIn reserveIn reserveOut fee
  if zero2one then
    let reserve0 ← safeAddU256 s.reserve0 amountIn
    let reserve1 ← safeSubU256 s.reserve1 amountOut
    return (amountOut, ⟨reserve0, reserve1⟩)
  else
    let reserve0 ← safeSubU256 s.reserve0 amountOut
    let reserve1 ← safeAddU256 s.reserve1 amountIn
    return (amountOut, ⟨reserve0, reserve1⟩)

/-- Each amount is quoted on the state that the quote before it returned. -/
def quoteAll (fee : ProtocolFee) (zero2one : Bool) (s : UniswapV2State) :
    List Nat → Except SimulationError (Nat × UniswapV2State)
  | [] => .ok (0, s)
  | a :: amounts => do
    let (out, s) ← s.getAmountOut fee zero2one a
    let (total, s) ← s.quoteAll fee zero2one amounts
    return (out + total, s)

variable {fee : ProtocolFee} {z : Bool} {s s' : UniswapV2State} {a out total : Nat}

@[simp]
lemma sides_true : s.sides true = (s.reserve0, s.reserve1) := rfl

@[simp]
lemma sides_false : s.sides false = (s.reserve1, s.reserve0) := rfl

lemma getAmountOut_ok (h : s.getAmountOut fee z a = .ok (out, s')) :
    s'.sides z = ((s.sides z).1 + a, (s.sides z).2 - out) ∧ (s.sides z).1 + a < 2 ^ 256 ∧
      cpmmGetAmountOut a (s.sides z).1 (s.sides z).2 fee = .ok out := by
  obtain ⟨out', hout, h⟩ := ok_of_bind_ok h
  cases z
  all_goals
    obtain ⟨r0, h0, h⟩ := ok_of_bind_ok h
    obtain ⟨r1, h1, h⟩ := ok_of_bind_ok h
    cases h
    simp only [safeAddU256_eq_ok, safeSubU256_eq_ok] at h0 h1
    refine ⟨by simp [← h0.2, ← h1.2], ?_, hout⟩
    simp only [sides_true, sides_false]
    omega

/-- The reserves after a quote are in range if the amount fits on top of the reserve. -/
lemma exists_getAmountOut_ok
    (hquote : cpmmGetAmountOut a (s.sides z).1 (s.sides z).2 fee = .ok out)
    (hadd : (s.sides z).1 + a < 2 ^ 256) (hle : out ≤ (s.sides z).2) :
    ∃ t, s.getAmountOut fee z a = .ok (out, t) := by
  have hrun : s.getAmountOut fee z a = cpmmGetAmountOut a (s.sides z).1 (s.sides z).2 fee >>= _ :=
    rfl
  rw [hrun, hquote, ok_bind]
  cases z
  all_goals simp only [sides_true, sides_false] at hadd hle
  · rw [if_neg Bool.false_ne_true, safeSubU256_eq_ok.mpr ⟨hle, rfl⟩, ok_bind,
      safeAddU256_eq_ok.mpr ⟨hadd, rfl⟩, ok_bind]
    exact ⟨_, rfl⟩
  · rw [if_pos rfl, safeAddU256_eq_ok.mpr ⟨hadd, rfl⟩, ok_bind,
      safeSubU256_eq_ok.mpr ⟨hle, rfl⟩, ok_bind]
    exact ⟨_, rfl⟩

/-- What is paid in stays in the pool and fits into the reserve. -/
lemma sides_of_quoteAll {amounts : List Nat} (h : s.quoteAll fee z amounts = .ok (total, s')) :
    (s'.sides z).1 = (s.sides z).1 + amounts.sum ∧
      (amounts ≠ [] → 0 < amounts.sum ∧ (s'.sides z).1 < 2 ^ 256) := by
  induction amounts generalizing s total with
  | nil =>
    cases h
    exact ⟨rfl, fun hne => absurd rfl hne⟩
  | cons a amounts ih =>
    obtain ⟨⟨out, t⟩, ha, h⟩ := ok_of_bind_ok h
    obtain ⟨⟨rest, s''⟩, hrest, h⟩ := ok_of_bind_ok h
    cases h
    obtain ⟨hsides, hadd, hquote⟩ := getAmountOut_ok ha
    obtain ⟨⟨hpos, -, -⟩, -⟩ := cpmmGetAmountOut_eq_ok.mp hquote
    obtain ⟨hsum, hbound⟩ := ih hrest
    rw [hsides] at hsum
    rw [List.sum_cons]
    refine ⟨by omega, fun _ => ⟨by omega, ?_⟩⟩
    by_cases hnil : amounts = []
    · subst hnil
      rw [hsum, List.sum_nil]
      exact hadd
    · exact (hbound hnil).2

lemma quoteAll_spec {amounts : List Nat} {B : Nat} (hn : fee.numerator ≤ fee.precision)
    (hp : 0 < fee.precision) (hx : 0 < (s.sides z).1) (hy : 0 < (s.sides z).2)
    (hB : B ≤ (s.sides z).1 * fee.precision) (h : s.quoteAll fee z amounts = .ok (total, s')) :
    total * (B + amounts.sum * fee.numerator) ≤ amounts.sum * fee.numerator * (s.sides z).2 ∧
      (s.sides z).1 * (s.sides z).2 ≤ (s'.sides z).1 * (s'.sides z).2 ∧ 0 < (s'.sides z).2 := by
  induction amounts generalizing s total B with
  | nil =>
    cases h
    exact ⟨by simp, le_rfl, hy⟩
  | cons a amounts ih =>
    obtain ⟨⟨out, t⟩, ha, h⟩ := ok_of_bind_ok h
    obtain ⟨⟨rest, s''⟩, hrest, h⟩ := ok_of_bind_ok h
    cases h
    obtain ⟨hsides, -, hquote⟩ := getAmountOut_ok ha
    obtain ⟨-, -, -, hdiv⟩ := cpmmGetAmountOut_eq_ok.mp hquote
    have hpaid : out * ((s.sides z).1 * fee.precision + a * fee.numerator) ≤
        a * fee.numerator * (s.sides z).2 := by
      rw [← hdiv]
      exact Nat.div_mul_le_self _ _
    have hlt := quote_lt hpaid (Nat.mul_pos hx hp) hy
    have hproduct := product_le hpaid hp hn hlt.le
    have ih := @ih t rest (B + a * fee.numerator)
    rw [hsides] at ih
    obtain ⟨hsum, hmore, hpos⟩ := ih (by omega) (by omega) (by nlinarith) hrest
    refine ⟨?_, hproduct.trans hmore, hpos⟩
    obtain ⟨r, hr⟩ := Nat.exists_eq_add_of_le hlt.le
    rw [hr] at hpaid hsum ⊢
    rw [Nat.add_sub_cancel_left] at hsum
    rw [List.sum_cons]
    have := Nat.mul_le_mul_left out hB
    nlinarith

/-- Amounts that are quoted one after another give at most what their sum gives, which is quoted if
and only if its products and sums fit into 256 bits. -/
theorem split_le_single_iff {amounts : List Nat} (hn : fee.numerator ≤ fee.precision)
    (hp : 0 < fee.precision) (h0 : 0 < s.reserve0) (h1 : 0 < s.reserve1) (hne : amounts ≠ [])
    (h : s.quoteAll fee z amounts = .ok (total, s')) :
    ((∃ out t, s.getAmountOut fee z amounts.sum = .ok (out, t) ∧ total ≤ out) ↔
      amounts.sum * fee.numerator * (s.sides z).2 < 2 ^ 256 ∧
        (s.sides z).1 * fee.precision + amounts.sum * fee.numerator < 2 ^ 256) ∧
    s.reserve0 * s.reserve1 ≤ s'.reserve0 * s'.reserve1 ∧ 0 < (s'.sides z).2 := by
  have hreserves : ∀ s : UniswapV2State, (s.sides z).1 * (s.sides z).2 =
      s.reserve0 * s.reserve1 := by
    intro s
    cases z
    · exact Nat.mul_comm _ _
    · rfl
  have hpos : 0 < (s.sides z).1 ∧ 0 < (s.sides z).2 := by
    cases z <;> exact ⟨by assumption, by assumption⟩
  obtain ⟨hsum, hproduct, hout⟩ := quoteAll_spec hn hp hpos.1 hpos.2 le_rfl h
  rw [hreserves, hreserves] at hproduct
  refine ⟨⟨?_, fun hwords => ?_⟩, hproduct, hout⟩
  · rintro ⟨out, t, hone, -⟩
    exact (cpmmGetAmountOut_eq_ok.mp (getAmountOut_ok hone).2.2).2.1
  · -- the parts have been paid in, so their sum fits on top of the reserve
    obtain ⟨hin, hfits⟩ := sides_of_quoteAll h
    obtain ⟨hsome, hadd⟩ := hfits hne
    have hdenom : 0 < (s.sides z).1 * fee.precision + amounts.sum * fee.numerator :=
      Nat.add_pos_left (Nat.mul_pos hpos.1 hp) _
    have hquote := cpmmGetAmountOut_eq_ok.mpr ⟨⟨hsome, hpos⟩, hwords, hdenom, rfl⟩
    have hlt := quote_lt (Nat.div_mul_le_self (amounts.sum * fee.numerator * (s.sides z).2) _)
      (Nat.mul_pos hpos.1 hp) hpos.2
    obtain ⟨t, hone⟩ := exists_getAmountOut_ok hquote (by omega) hlt.le
    exact ⟨_, t, hone, (Nat.le_div_iff_mul_le hdenom).mpr hsum⟩

theorem split_le_single_iff_thousand :
    quoteAll ⟨9970, 10000⟩ true ⟨1000, 1000⟩ [100, 200] = .ok (229, ⟨1300, 771⟩) ∧
      ∃ out t, getAmountOut ⟨9970, 10000⟩ true ⟨1000, 1000⟩ 300 = .ok (out, t) ∧ 229 ≤ out := by
  have hrun : quoteAll ⟨9970, 10000⟩ true ⟨1000, 1000⟩ [100, 200] = .ok (229, ⟨1300, 771⟩) := by
    decide +kernel
  exact ⟨hrun, (split_le_single_iff (by decide) (by decide) (by decide) (by decide) (by decide)
    hrun).1.mpr (by decide)⟩

/-- Both halves are quoted, and their sum has too many bits. -/
theorem split_not_quoted :
    (quoteAll ⟨9970, 10000⟩ true ⟨2 ^ 111, 2 ^ 111⟩ [2 ^ 131, 2 ^ 131]).isOk ∧
      getAmountOut ⟨9970, 10000⟩ true ⟨2 ^ 111, 2 ^ 111⟩ [2 ^ 131, 2 ^ 131].sum =
        .error (.fatalError "U256 arithmetic overflow") := by
  decide +kernel

lemma product_le_of_quote (hn : fee.numerator ≤ fee.precision) (hp : 0 < fee.precision)
    (h : s.getAmountOut fee z a = .ok (out, s')) :
    s.reserve0 * s.reserve1 ≤ s'.reserve0 * s'.reserve1 := by
  obtain ⟨⟨-, hx, hy⟩, -⟩ := cpmmGetAmountOut_eq_ok.mp (getAmountOut_ok h).2.2
  have hone : s.quoteAll fee z [a] = .ok (out, s') := by
    rw [quoteAll, h]
    rfl
  have hproduct := (quoteAll_spec hn hp hx hy le_rfl hone).2.1
  cases z
  · simpa [Nat.mul_comm] using hproduct
  · exact hproduct

/-- Trades in any order and direction never lower the product of the reserves. -/
theorem product_le_of_trades {trades : List (Bool × Nat)} (hn : fee.numerator ≤ fee.precision)
    (hp : 0 < fee.precision)
    (h : trades.foldlM (fun s t => Prod.snd <$> s.getAmountOut fee t.1 t.2) s = .ok s') :
    s.reserve0 * s.reserve1 ≤ s'.reserve0 * s'.reserve1 := by
  refine foldlM_ok_invariant (P := fun t => s.reserve0 * s.reserve1 ≤ t.reserve0 * t.reserve1)
    (fun _ _ _ _ hle ht => ?_) le_rfl h
  obtain ⟨⟨out, _⟩, hout, rfl⟩ := ok_of_map_ok ht
  exact hle.trans (product_le_of_quote hn hp hout)

theorem product_le_of_trades_back :
    [(true, 100), (false, 90)].foldlM (fun s t => Prod.snd <$> getAmountOut ⟨9970, 10000⟩ t.1 s t.2)
      ⟨1000, 1000⟩ = .ok ⟨1002, 1000⟩ ∧ 1000 * 1000 ≤ 1002 * 1000 := by
  refine ⟨?h, product_le_of_trades (by decide) (by decide) ?h⟩
  decide +kernel

end UniswapV2State
end Tycho
