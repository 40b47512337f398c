import Mathlib

/-! The states of the Uniswap V3 and V4 pools that are simulated, and what a simulation can answer
or fail with. A V4 pool is one without hooks. -/
namespace Tycho

def MIN_TICK : Int := -887272

def MAX_TICK : Int := 887272

/-- An initialised tick. Its price is the ratio at its index, which exists for no other index. -/
structure TickInfo where
  index : Int
  /-- An `i128`. -/
  netLiquidity : Int
  min_le : MIN_TICK ≤ index
  le_max : index ≤ MAX_TICK
  net_ge : -2 ^ 127 ≤ netLiquidity
  net_lt : netLiquidity < 2 ^ 127
  deriving DecidableEq

structure TickList where
  tickSpacing : Nat
  ticks : List TickInfo
  spacing_pos : 0 < tickSpacing

instance : DecidableEq TickList := fun a b =>
  decidable_of_iff (a.tickSpacing = b.tickSpacing ∧ a.ticks = b.ticks)
    ⟨fun h => by cases a; cases b; simpa using h, fun h => by rw [h]; exact ⟨rfl, rfl⟩⟩

inductive FeeAmount where
  | lowest
  | lowest2
  | lowest3
  | lowest4
  | low
  | mediumLow
  | medium
  | mediumHigh
  | high
  deriving DecidableEq

structure UniswapV3State where
  liquidity : Nat
  sqrtPrice : Nat
  fee : FeeAmount
  tick : Int
  ticks : TickList
  deriving DecidableEq

def DYNAMIC_FEE_FLAG : Nat := 0x800000

/-- The protocol's fee in each direction and the fee of the liquidity providers, none of them above
the whole input. -/
structure UniswapV4Fees where
  zeroForOne : Nat
  oneForZero : Nat
  lpFee : Nat
  zeroForOne_le : zeroForOne ≤ 1000000
  oneForZero_le : oneForZero ≤ 1000000
  lpFee_le : lpFee ≤ 1000000 ∨ lpFee = DYNAMIC_FEE_FLAG
  deriving DecidableEq

structure UniswapV4State where
  liquidity : Nat
  sqrtPrice : Nat
  fees : UniswapV4Fees
  tick : Int
  ticks : TickList
  deriving DecidableEq

inductive ProtocolSim where
  | uniswapV3 (state : UniswapV3State)
  | uniswapV4 (state : UniswapV4State)
  deriving DecidableEq

structure GetAmountOutResult where
  amount : Nat
  gas : Nat
  newState : ProtocolSim
  deriving DecidableEq

inductive SimulationError where
  | fatalError (message : String)
  | recoverableError (message : String)
  | invalidInput (message : String) (partialResult : Option GetAmountOutResult)
  /-- An index out of bounds or an `unwrap` of nothing. -/
  | panicked
  deriving DecidableEq

end Tycho
