import Mathlib
import Tycho.Common.Basic
import Tycho.Replay.Program

/-! The vault of the router: the balances of its users, and the deltas that a swap keeps in
transient storage. Tokens and accounts are addresses; the native token has an address of its own.
-/
namespace Tycho
open Collections Replay Replay.Program

def addressZero : Address := ⟨List.replicate 20 0⟩

def ETH_ADDRESS : Address := ⟨List.replicate 20 0xEE⟩

inductive RouterError where
  | insufficientBalance (user token : Address) (requested available : Nat)
  | amountZero
  | vaultAddressZero
  | unexpectedNonZeroCount (nonZeroCount : Nat)
  | unexpectedInputDelta (inputDelta : Int)
  | erc6909InsufficientBalance (owner : Address) (balance needed : Nat) (token : Address)
  | erc6909InsufficientAllowance (spender : Address) (allowance needed : Nat) (token : Address)
  | erc6909InvalidSender (sender : Address)
  | erc6909InvalidReceiver (receiver : Address)
  | exceededTransferFromAllowance (allowedAmount amountAttempted : Nat)
  | differentTokenIn (tokenIn tokenInStorage : Address)
  | unapprovedExecutor (executor : Address)
  | executorIsTimelocked (executor : Address)
  | unsupportedSingleHopCycle (token : Address)
  | feeTooHigh
  | zeroInput
  | routerAddressZero
  | undefinedMinAmountOut
  | emptySwaps
  | negativeSlippage (amount minAmount : Nat)
  | negativeOutputDelta (outputDelta : Int)
  | msgValueDoesNotMatchAmountIn (value amountIn : Nat)
  | expiredClientSignature (deadline timestamp : Nat)
  | invalidClientSignature
  | reason (text : String)
  | enforcedPause
  | reentrantCall
  /-- Checked arithmetic or an array access out of bounds. -/
  | panic
  /-- A token, a protocol or another contract that was called has reverted. -/
  | external
deriving DecidableEq

/-- A part of the calldata; offsets are counted from the start of the signed swaps. -/
structure Slice where
  offset : Nat
  length : Nat
deriving DecidableEq

/-- A hop that was executed: what the executor was called with, and its output. `amountIn` is what
the transfer of the input has returned. `isOutput` tells the hops whose output is the output of the
swap. -/
structure HopRecord where
  executor : Address
  protocolData : List UInt8
  amountIn : Nat
  receiver : Address
  tokenOut : Address
  amountOut : Nat
  isOutput : Bool
deriving DecidableEq

/-- What the router does with tokens in a call. It is not part of the contract's storage. -/
inductive RouterEvent where
  /-- Entries of the delta accounting: `msg.value`, input of a hop, fees, a contribution of the
  client to the output, and the output that is settled. -/
  | native (amount : Nat)
  | taken (token : Address) (amount : Nat)
  | fee (token : Address) (amount : Nat)
  | contributed (token : Address) (amount : Nat)
  | settled (token : Address) (amount : Nat)
  /-- A hop, whose output is an entry if the receiver is the router. -/
  | hop (r : HopRecord)
  /-- What an account got from the router at the end of a swap, measured as the code does. -/
  | paid (token receiver : Address) (amount : Nat)
  /-- Output that the caller's vault balance is credited with, and input that it is debited. -/
  | credited (token : Address) (amount : Nat)
  | debited (token : Address) (amount : Nat)
  /-- Tokens pulled out of a wallet, and a contribution debited from the client's vault balance. -/
  | pulled (token owner : Address) (amount : Nat)
  | charged (client token : Address) (amount : Nat)
  /-- An ERC6909 transfer. -/
  | transferred (src token : Address) (amount : Nat)
deriving DecidableEq

structure RouterState where
  /-- The real balances, by token and owner. -/
  balances : Address → Address → Nat
  /-- `_vaultBalances`, by token and user. -/
  vaultBalances : Address → Ledger Address
  /-- The status of the reentrancy guard. -/
  entered : Bool
  delta : Address → Int
  nonZeroDeltaCount : Nat
  useVault : Bool
  tokenIn : Address
  amountAllowed : Nat
  isPermit2 : Bool
  sender : Address
  currentlySwappingExecutor : Address
  isFirstSwap : Bool
  isSplitSwap : Bool
  swapInputAmount : Nat
  swapInputToken : Address
  /-- What the executor of the current hop may still take from the router. -/
  accounted : Nat
  log : List RouterEvent

abbrev RouterM (A : Type) := Program RouterError RouterState A

namespace RouterState

def setDelta (s : RouterState) (token : Address) (delta : Int) : RouterState :=
  { s with delta := fun t => if t = token then delta else s.delta t }

def setVaultBalance (s : RouterState) (user token : Address) (amount : Nat) : RouterState :=
  { s with vaultBalances := fun t =>
      if t = token then (s.vaultBalances t).setBalance user amount else s.vaultBalances t }

def move (s : RouterState) (token src dst : Address) (amount : Nat) : RouterState :=
  { s with balances := fun t o =>
      if t = token then
        (if o = src then s.balances t o - amount else s.balances t o) +
          if o = dst then amount else 0
      else s.balances t o }

def emit (s : RouterState) (e : RouterEvent) : RouterState := { s with log := s.log ++ [e] }

/-- `balanceOf` of a token or of the native token, a word. -/
def balanceOf (s : RouterState) (token owner : Address) : Nat := s.balances token owner % 2 ^ 256

end RouterState

def checkedUint256 (n : Nat) : RouterM Nat := do
  require (n < 2 ^ 256) .panic
  return n

def checkedSub (n m : Nat) : RouterM Nat := do
  require (m ≤ n) .panic
  return n - m

def checkedInt256 (z : Int) : RouterM Int := do
  require (-2 ^ 255 ≤ z ∧ z < 2 ^ 255) .panic
  return z

/-- The conversion `int256(amount)` is not checked. -/
def int256 (amount : Nat) : Int := (amount : Int).bmod (2 ^ 256)

def negInt256 (amount : Nat) : RouterM Int := checkedInt256 (-int256 amount)

def moveToken (token src dst : Address) (amount : Nat) : RouterM Unit := do
  let s ← get
  require (amount ≤ s.balances token src) .external
  set (s.move token src dst amount)

def emit (e : RouterEvent) : RouterM Unit := modify fun s => s.emit e

def nonReentrant {A : Type} (body : RouterM A) : RouterM A := do
  let s ← get
  require (s.entered = false) .reentrantCall
  set { s with entered := true }
  let a ← body
  modify fun s => { s with entered := false }
  return a

namespace Vault

/-- The first half of `_updateWithoutEvent`. -/
def decrease (src token : Address) (amount : Nat) : RouterM Unit := do
  let s ← get
  let fromBalance := (s.vaultBalances token).balance src
  require (amount ≤ fromBalance) (.erc6909InsufficientBalance src fromBalance amount token)
  set (s.setVaultBalance src token (fromBalance - amount))

/-- The second half of `_updateWithoutEvent`. -/
def increase (dst token : Address) (amount : Nat) : RouterM Unit := do
  let s ← get
  let toBalance ← checkedUint256 ((s.vaultBalances token).balance dst + amount)
  set (s.setVaultBalance dst token toBalance)

def updateWithoutEvent (src dst token : Address) (amount : Nat) : RouterM Unit := do
  onlyIf (src ≠ addressZero) (decrease src token amount)
  onlyIf (dst ≠ addressZero) (increase dst token amount)

/-- `_mint` and `_mintWithoutEvent`, which differ in the event only. -/
def mint (dst token : Address) (amount : Nat) : RouterM Unit := do
  require (dst ≠ addressZero) (.erc6909InvalidReceiver addressZero)
  updateWithoutEvent addressZero dst token amount

def burn (src token : Address) (amount : Nat) : RouterM Unit := do
  require (src ≠ addressZero) (.erc6909InvalidSender addressZero)
  updateWithoutEvent src addressZero token amount

/-- The `transfer` and the `transferFrom` of the ERC6909 interface, called by `spender`. The
`allowance` is what `src` has granted to it, the greatest number for an operator. -/
def transfer (spender src dst token : Address) (allowance amount : Nat) : RouterM Unit := do
  require (spender = src ∨ amount ≤ allowance)
    (.erc6909InsufficientAllowance spender allowance amount token)
  require (src ≠ addressZero) (.erc6909InvalidSender addressZero)
  require (dst ≠ addressZero) (.erc6909InvalidReceiver addressZero)
  updateWithoutEvent src dst token amount
  emit (.transferred src token amount)

/-- The value of a payable call has arrived before its code is executed. -/
def deposit (self caller : Address) (paused : Bool) (msgValue : Nat) (token : Address)
    (amount : Nat) : RouterM Unit := do
  moveToken ETH_ADDRESS caller self msgValue
  require (paused = false) .enforcedPause
  nonReentrant do
    require (token ≠ addressZero) .vaultAddressZero
    require (amount ≠ 0) .amountZero
    if token = ETH_ADDRESS then
      require (msgValue = amount) (.reason "Value mismatch")
      mint caller token amount
    else
      require (msgValue = 0) (.reason "ETH not accepted for ERC20 deposit")
      let balanceBefore := (← get).balanceOf token self
      moveToken token caller self amount
      let received ← checkedSub ((← get).balanceOf token self) balanceBefore
      mint caller token received

/-- `onReceive` is what the code of the caller does when it is sent the native token. -/
def withdraw (self caller token : Address) (amount : Nat) (onReceive : RouterM Unit) :
    RouterM Unit :=
  nonReentrant do
    require (token ≠ addressZero) .vaultAddressZero
    require (amount ≠ 0) .amountZero
    let balance := ((← get).vaultBalances token).balance caller
    require (amount ≤ balance) (.insufficientBalance caller token amount balance)
    burn caller token amount
    moveToken token self caller amount
    onlyIf (token = ETH_ADDRESS) onReceive

/-- A change from zero or to zero is counted. -/
def updateDeltaAccounting (token : Address) (deltaChange : Int) : RouterM Unit :=
  if deltaChange = 0 then pure () else do
    let s ← get
    let oldDelta := s.delta token
    let newDelta ← checkedInt256 (oldDelta + deltaChange)
    if oldDelta ≠ 0 ∧ newDelta = 0 then
      let count ← checkedSub s.nonZeroDeltaCount 1
      set { s.setDelta token newDelta with nonZeroDeltaCount := count }
    else if oldDelta = 0 ∧ newDelta ≠ 0 then
      let count ← checkedUint256 (s.nonZeroDeltaCount + 1)
      set { s.setDelta token newDelta with nonZeroDeltaCount := count }
    else set (s.setDelta token newDelta)

def debitVault (user token : Address) (amount : Nat) : RouterM Unit :=
  if amount = 0 then pure () else do
    let balance := ((← get).vaultBalances token).balance user
    require (amount ≤ balance) (.insufficientBalance user token amount balance)
    burn user token amount

/-- `_creditVault` and `_creditVaultForFees`, which differ in the event only. -/
def creditVault (user token : Address) (amount : Nat) : RouterM Unit :=
  if amount = 0 then pure () else mint user token amount

def finalizeBalances (user inputToken : Address) (inputAmount : Nat) : RouterM Unit := do
  let s ← get
  if s.useVault then
    require (s.nonZeroDeltaCount ≤ 1) (.unexpectedNonZeroCount s.nonZeroDeltaCount)
    if s.nonZeroDeltaCount = 1 then
      let inputDelta := s.delta inputToken
      require (inputDelta ≠ 0) (.unexpectedInputDelta inputDelta)
      let expected ← negInt256 inputAmount
      require (inputDelta = expected) (.unexpectedInputDelta inputDelta)
      burn user inputToken inputAmount
      modify fun s => { s.setDelta inputToken 0 with nonZeroDeltaCount := 0 }
      emit (.debited inputToken inputAmount)
    else pure ()
  else require (s.nonZeroDeltaCount = 0) (.unexpectedNonZeroCount s.nonZeroDeltaCount)

end Vault
end Tycho
