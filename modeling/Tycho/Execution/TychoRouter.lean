import Tycho.Execution.Dispatcher
import Tycho.Replay.Run

/-! The entry points of the router. -/
namespace Tycho
open Replay Replay.Program TransferManager Vault Dispatcher LibPrefixLengthEncodedByteArray LibSwap

/-- `recoveredSigner` is what `ECDSA.recover` returns for the signature. -/
structure ClientFeeParams where
  clientFeeBps : Nat
  clientFeeReceiver : Address
  maxClientContribution : Nat
  deadline : Nat
  recoveredSigner : Address
deriving DecidableEq

/-- The parameters of a swap but for its hops. `onContribution` and `onPaid` are what the receiver
does when it is sent the native token. -/
structure SwapParams where
  amountIn : Nat
  tokenIn : Address
  tokenOut : Address
  minAmountOut : Nat
  receiver : Address
  clientFeeParams : ClientFeeParams
  onContribution : Script
  onPaid : Script
  amountIn_lt : amountIn < 2 ^ 256
deriving DecidableEq

inductive RouteKind where
  | single
  | sequential
  | split (nTokens : Nat)
deriving DecidableEq

/-- The hops of a call: their encoding, and what happens outside of the router in each. -/
structure Route where
  kind : RouteKind
  calldata : Calldata
  world : Nat → HopWorld

/-- Where the input comes from. Permit2 may refuse the permit. -/
inductive Funding where
  | wallet (msgValue : Nat)
  | vault
  | permit2 (permitted : Bool)
deriving DecidableEq

def Funding.msgValue : Funding → Nat
  | .wallet msgValue => msgValue
  | _ => 0

/-- The arrays of a split swap, by the index of the token. -/
structure SplitAmounts where
  amounts : Nat → Nat
  remainingAmounts : Nat → Nat
  cyclicSwapAmountOut : Nat

namespace TychoRouter
variable (env : RouterEnv)

def NoFees (p : SwapParams) : Prop :=
  p.clientFeeParams.clientFeeBps = 0 ∧
    FeeCalculator.getEffectiveRouterFeeOnOutput env p.clientFeeParams.clientFeeReceiver = 0

instance (p : SwapParams) : Decidable (NoFees env p) := inferInstanceAs (Decidable (_ ∧ _))

def finalReceiver (p : SwapParams) : Address := if NoFees env p then p.receiver else env.self

def splitAmountIn (st : SplitAmounts) (args : SplitArgs) : RouterM Nat :=
  if 0 < args.split then do
    let product ← checkedUint256 (st.amounts args.tokenInIndex * args.split)
    return product / 0xffffff
  else return st.remainingAmounts args.tokenInIndex

def isOutputIndex (nTokens : Nat) (isCyclical : Bool) (tokenOutIndex : Nat) : Bool :=
  (tokenOutIndex = nTokens - 1 ∧ !isCyclical) ∨ (isCyclical ∧ tokenOutIndex = 0)

def cyclicAmount (st : SplitAmounts) (args : SplitArgs) (amountOut : Nat) : RouterM Nat :=
  if args.tokenOutIndex = 0 then checkedUint256 (st.cyclicSwapAmountOut + amountOut)
  else pure st.cyclicSwapAmountOut

def indexAmount (st : SplitAmounts) (args : SplitArgs) (amountOut : Nat) : RouterM Nat :=
  if args.tokenOutIndex = 0 then pure (st.amounts 0)
  else checkedUint256 (st.amounts args.tokenOutIndex + amountOut)

def recordHop (st : SplitAmounts) (nTokens : Nat) (args : SplitArgs) (amountIn amountOut : Nat) :
    RouterM SplitAmounts := do
  require (args.tokenOutIndex < nTokens) .panic
  let cyclicSwapAmountOut ← cyclicAmount st args amountOut
  let amount ← indexAmount st args amountOut
  let increased ← checkedUint256 (st.remainingAmounts args.tokenOutIndex + amountOut)
  let remaining := Function.update st.remainingAmounts args.tokenOutIndex increased
  let decreased ← checkedSub (remaining args.tokenInIndex) amountIn
  return ⟨Function.update st.amounts args.tokenOutIndex amount,
    Function.update remaining args.tokenInIndex decreased, cyclicSwapAmountOut⟩

def splitHop (route : Route) (nTokens : Nat) (receiver : Address) (isCyclical : Bool) (i : Nat)
    (st : SplitAmounts) (element : Slice) : RouterM SplitAmounts := do
  let decoded ← decodeSplitSwap route.calldata element
  let args := decoded.1
  require (args.tokenInIndex < nTokens) .panic
  let currentAmountIn ← splitAmountIn st args
  let isOutput := isOutputIndex nTokens isCyclical args.tokenOutIndex
  let swapReceiver := if isOutput then receiver else env.self
  let currentAmountOut ← callSwapOnExecutor env decoded.2 (route.world i) currentAmountIn
    (args.tokenInIndex = 0) true swapReceiver isOutput
  recordHop st nTokens args currentAmountIn currentAmountOut

def splitHops (route : Route) (nTokens : Nat) (receiver : Address) (isCyclical : Bool) :
    Nat → SplitAmounts → List Slice → RouterM SplitAmounts
  | _, st, [] => return st
  | i, st, element :: elements => do
    let st ← splitHop env route nTokens receiver isCyclical i st element
    splitHops route nTokens receiver isCyclical (i + 1) st elements

/-- The elements that the loop of `_splitSwap` meets. An element after the end of the calldata is
empty and cannot be decoded, so there are no more than this. -/
def splitElements (c : Calldata) : List Slice :=
  takeAll c (c.swaps.length + c.rest.length + 1) c.swapsSlice

def splitSwapHops (amountIn nTokens : Nat) (route : Route) (receiver : Address)
    (isCyclical : Bool) : RouterM Nat := do
  require (route.calldata.swaps.length ≠ 0) .emptySwaps
  require (nTokens ≠ 0) .panic
  let first : Nat → Nat := fun i => if i = 0 then amountIn else 0
  let st ← splitHops env route nTokens receiver isCyclical 0 ⟨first, first, 0⟩
    (splitElements route.calldata)
  return if isCyclical then st.cyclicSwapAmountOut else st.amounts (nTokens - 1)

def sequentialHops (route : Route) (receiver : Address) : Nat → Nat → List Slice → RouterM Nat
  | _, calculatedAmount, [] => return calculatedAmount
  | i, calculatedAmount, [element] => do
    let swap ← decodeSequentialSwap route.calldata element
    callSwapOnExecutor env swap (route.world i) calculatedAmount (i = 0) false receiver true
  | i, calculatedAmount, element :: next :: elements => do
    let swap ← decodeSequentialSwap route.calldata element
    let nextSwap ← decodeSequentialSwap route.calldata next
    let expected ← callFundsExpectedAddress env nextSwap (route.world (i + 1))
    let amountOut ← callSwapOnExecutor env swap (route.world i) calculatedAmount (i = 0)
      false expected false
    sequentialHops route receiver (i + 1) amountOut (next :: elements)

def sequentialElements (c : Calldata) : List Slice :=
  take c (size c c.swapsSlice) c.swapsSlice

def sequentialSwapHops (amountIn : Nat) (route : Route) (receiver : Address) : RouterM Nat :=
  sequentialHops env route receiver 0 amountIn (sequentialElements route.calldata)

def takeFee (token : Address) (fee : FeeRecipient) : RouterM Unit :=
  if 0 < fee.feeAmount then do
    updateDeltaAccounting token (← negInt256 fee.feeAmount)
    emit (.fee token fee.feeAmount)
    creditVault fee.recipient token fee.feeAmount
  else pure ()

def takeFees (token : Address) (amountIn clientFeeBps : Nat) (client : Address) : RouterM Nat := do
  let fees ← FeeCalculator.calculateFee env amountIn client clientFeeBps
  fees.2.forM (takeFee token)
  return fees.1

def afterFees (p : SwapParams) (amountOutBeforeFees : Nat) : RouterM Nat :=
  if NoFees env p then pure amountOutBeforeFees
  else takeFees env p.tokenOut amountOutBeforeFees p.clientFeeParams.clientFeeBps
    p.clientFeeParams.clientFeeReceiver

/-- The contribution to an output that has already left the router. -/
def payContribution (caller : Address) (p : SwapParams) (amountOut required : Nat) : RouterM Nat :=
  if p.receiver = env.self then do
    creditVault caller p.tokenOut required
    emit (.credited p.tokenOut required)
    return p.minAmountOut
  else if p.tokenOut = ETH_ADDRESS then do
    moveToken ETH_ADDRESS env.self p.receiver required
    play env p.onContribution
    emit (.paid p.tokenOut p.receiver required)
    return p.minAmountOut
  else do
    let actualContribution ←
      transferOut env.self p.tokenOut p.receiver required (pure ())
    emit (.paid p.tokenOut p.receiver actualContribution)
    checkedUint256 (amountOut + actualContribution)

/-- The contribution is added to an output that is still in the router. -/
def addContribution (caller : Address) (p : SwapParams) (amountOut required : Nat) :
    RouterM Nat := do
  let outputDelta := (← get).delta p.tokenOut
  if 0 < outputDelta then
    updateDeltaAccounting p.tokenOut (int256 required)
    emit (.contributed p.tokenOut required)
    return p.minAmountOut
  else if outputDelta = 0 then payContribution env caller p amountOut required
  else revert (.negativeOutputDelta outputDelta)

def maybeAddClientContribution (caller : Address) (p : SwapParams) (amountOut : Nat) :
    RouterM Nat :=
  if amountOut < p.minAmountOut then do
    let required := p.minAmountOut - amountOut
    require (required ≤ p.clientFeeParams.maxClientContribution)
      (.negativeSlippage amountOut p.minAmountOut)
    debitVault p.clientFeeParams.clientFeeReceiver p.tokenOut required
    emit (.charged p.clientFeeParams.clientFeeReceiver p.tokenOut required)
    addContribution env caller p amountOut required
  else return amountOut

/-- Send or credit an output that is still in the router. -/
def payOutput (caller : Address) (p : SwapParams) (amountOut : Nat) : RouterM Nat := do
  updateDeltaAccounting p.tokenOut (← negInt256 amountOut)
  emit (.settled p.tokenOut amountOut)
  if p.receiver = env.self then
    creditVault caller p.tokenOut amountOut
    emit (.credited p.tokenOut amountOut)
    return amountOut
  else
    let sent ← transferOut env.self p.tokenOut p.receiver amountOut (play env p.onPaid)
    emit (.paid p.tokenOut p.receiver sent)
    return sent

/-- An output delta that is not positive means that the output has left the router. -/
def payRemaining (caller : Address) (p : SwapParams) (amountOut : Nat) : RouterM Nat := do
  let outputDelta := (← get).delta p.tokenOut
  if 0 < outputDelta then payOutput env caller p amountOut else pure amountOut

def settleOutput (caller : Address) (p : SwapParams) (amountOut : Nat) : RouterM Nat := do
  let amountOut ← payRemaining env caller p amountOut
  finalizeBalances caller p.tokenIn p.amountIn
  require (p.minAmountOut ≤ amountOut) (.negativeSlippage amountOut p.minAmountOut)
  return amountOut

/-- The body of the three swaps, which differ in how the hops are executed. -/
def swapChecked (caller : Address) (p : SwapParams) (hops : Address → RouterM Nat) :
    RouterM Nat := do
  require (p.amountIn ≠ 0) .zeroInput
  require (p.receiver ≠ addressZero ∧ p.tokenIn ≠ addressZero ∧ p.tokenOut ≠ addressZero)
    .routerAddressZero
  require (p.minAmountOut ≠ 0) .undefinedMinAmountOut
  let amountOutBeforeFees ← hops (finalReceiver env p)
  let amountOut ← afterFees env p amountOutBeforeFees
  let amountOut ← maybeAddClientContribution env caller p amountOut
  settleOutput env caller p amountOut

def splitSwapChecked (caller : Address) (p : SwapParams) (route : Route) (nTokens : Nat) :
    RouterM Nat :=
  swapChecked env caller p fun receiver =>
    splitSwapHops env p.amountIn nTokens route receiver (p.tokenIn = p.tokenOut)

def singleSwapChecked (caller : Address) (p : SwapParams) (route : Route) : RouterM Nat :=
  swapChecked env caller p fun receiver => do
    let swap ← decodeSingleSwap route.calldata route.calldata.swapsSlice
    callSwapOnExecutor env swap (route.world 0) p.amountIn true false receiver true

def sequentialSwapChecked (caller : Address) (p : SwapParams) (route : Route) : RouterM Nat :=
  swapChecked env caller p fun receiver => do
    require (route.calldata.swaps.length ≠ 0) .emptySwaps
    sequentialSwapHops env p.amountIn route receiver

def verifyClientSignature (p : ClientFeeParams) : RouterM Unit :=
  if p.clientFeeReceiver = addressZero then
    require (p.maxClientContribution = 0 ∧ p.clientFeeBps = 0) .routerAddressZero
  else do
    require (env.timestamp ≤ p.deadline) (.expiredClientSignature p.deadline env.timestamp)
    require (p.recoveredSigner = p.clientFeeReceiver) .invalidClientSignature

def updateNativeDeltaAccounting (msgValue amountIn : Nat) : RouterM Unit :=
  if 0 < msgValue then do
    require (msgValue = amountIn) (.msgValueDoesNotMatchAmountIn msgValue amountIn)
    updateDeltaAccounting ETH_ADDRESS (int256 msgValue)
    emit (.native msgValue)
  else pure ()

def storeInput (caller : Address) (p : SwapParams) : Funding → RouterM Unit
  | .wallet msgValue => do
    updateNativeDeltaAccounting msgValue p.amountIn
    tstoreTransferFromInfo caller p.tokenIn p.amountIn false false
  | .vault => tstoreTransferFromInfo caller p.tokenIn p.amountIn false true
  | .permit2 permitted => do
    require (p.tokenIn = ETH_ADDRESS ∨ permitted) .external
    tstoreTransferFromInfo caller p.tokenIn p.amountIn true false

/-- The entry points, which differ in where the input comes from. -/
def enter (caller : Address) (funding : Funding) (p : SwapParams) (swap : RouterM Nat) :
    RouterM Nat := do
  moveToken ETH_ADDRESS caller env.self funding.msgValue
  require (env.paused = false) .enforcedPause
  nonReentrant do
    verifyClientSignature env p.clientFeeParams
    storeInput caller p funding
    swap

section
variable (caller : Address) (p : SwapParams) (route : Route)

def splitSwap (msgValue nTokens : Nat) : RouterM Nat :=
  enter env caller (.wallet msgValue) p (splitSwapChecked env caller p route nTokens)

def splitSwapUsingVault (nTokens : Nat) : RouterM Nat :=
  enter env caller .vault p (splitSwapChecked env caller p route nTokens)

def splitSwapPermit2 (permitted : Bool) (nTokens : Nat) : RouterM Nat :=
  enter env caller (.permit2 permitted) p (splitSwapChecked env caller p route nTokens)

def sequentialSwap (msgValue : Nat) : RouterM Nat :=
  enter env caller (.wallet msgValue) p (sequentialSwapChecked env caller p route)

def sequentialSwapUsingVault : RouterM Nat :=
  enter env caller .vault p (sequentialSwapChecked env caller p route)

def sequentialSwapPermit2 (permitted : Bool) : RouterM Nat :=
  enter env caller (.permit2 permitted) p (sequentialSwapChecked env caller p route)

def singleSwap (msgValue : Nat) : RouterM Nat :=
  enter env caller (.wallet msgValue) p (singleSwapChecked env caller p route)

def singleSwapUsingVault : RouterM Nat :=
  enter env caller .vault p (singleSwapChecked env caller p route)

def singleSwapPermit2 (permitted : Bool) : RouterM Nat :=
  enter env caller (.permit2 permitted) p (singleSwapChecked env caller p route)

def swap (funding : Funding) : RouterM Nat :=
  match route.kind, funding with
  | .single, .wallet msgValue => singleSwap env caller p route msgValue
  | .single, .vault => singleSwapUsingVault env caller p route
  | .single, .permit2 permitted => singleSwapPermit2 env caller p route permitted
  | .sequential, .wallet msgValue => sequentialSwap env caller p route msgValue
  | .sequential, .vault => sequentialSwapUsingVault env caller p route
  | .sequential, .permit2 permitted => sequentialSwapPermit2 env caller p route permitted
  | .split nTokens, .wallet msgValue => splitSwap env caller p route msgValue nTokens
  | .split nTokens, .vault => splitSwapUsingVault env caller p route nTokens
  | .split nTokens, .permit2 permitted => splitSwapPermit2 env caller p route permitted nTokens

end
end TychoRouter

/-- A transaction, or a part of one that no call of the router contains. -/
inductive RouterCall where
  | deposit (caller token : Address) (amount msgValue : Nat)
  | withdraw (caller token : Address) (amount : Nat) (onReceive : Script)
  | swap (caller : Address) (funding : Funding) (p : SwapParams) (route : Route)
  /-- ERC6909 transfers, calls of the fallback function, and what does not call the router. -/
  | outside (script : Script)

namespace RouterCall

/-- The router makes no call of its own. -/
def caller? : RouterCall → Option Address
  | .deposit caller .. => some caller
  | .withdraw caller .. => some caller
  | .swap caller .. => some caller
  | .outside _ => none

/-- The output is that of a swap. -/
def execute (env : RouterEnv) : RouterCall → RouterM (Option Nat)
  | .deposit caller token amount msgValue => do
    Vault.deposit env.self caller env.paused msgValue token amount
    return none
  | .withdraw caller token amount onReceive => do
    Vault.withdraw env.self caller token amount (play env onReceive)
    return none
  | .swap caller funding p route => some <$> TychoRouter.swap env caller p route funding
  | .outside script => do
    play env script
    return none

end RouterCall

namespace TychoRouter

structure Output where
  returned : Option (Option Nat)
  log : List RouterEvent
deriving DecidableEq

/-- A call that reverts changes nothing. A run that looks at the state during a call ends there, or
goes on with what happens outside of the router. -/
def step (self : Address) (s : RouterState) (e : RouterEnv × RouterCall) :
    Option (Output × RouterState) :=
  if e.1.self = self ∧ e.2.caller? ≠ some self then
    match e.2.execute e.1 { s with log := [] } with
    | .ok (r, s') => some (⟨some r, s'.log⟩, s')
    | .error (.observed s') => some (⟨none, s'.log⟩, s')
    | .error (.reverted _) => some (⟨none, []⟩, s)
  else none

def deployed (balances : Address → Address → Nat) : RouterState where
  balances := balances
  vaultBalances := fun _ => ∅
  entered := false
  delta := fun _ => 0
  nonZeroDeltaCount := 0
  useVault := false
  tokenIn := addressZero
  amountAllowed := 0
  isPermit2 := false
  sender := addressZero
  currentlySwappingExecutor := addressZero
  isFirstSwap := false
  isSplitSwap := false
  swapInputAmount := 0
  swapInputToken := addressZero
  accounted := 0
  log := []

/-! Values for runs on fixed inputs. -/

def account (n : UInt8) : Address := ⟨List.replicate 20 n⟩

def sampleEnv : RouterEnv where
  self := account 1
  timestamp := 1
  txOrigin := account 2
  paused := false
  executorsActivationTimestamp := fun a => if a = account 3 ∨ a = account 4 then 1 else 0
  activation_zero := by decide
  routerFeeOnOutputBps := 0
  routerFeeOnClientFeeBps := 0
  routerFeeReceiver := account 5
  customRouterFees := fun _ => ⟨false, 0, false, 0⟩

/-- A hop to whose pool the input is sent, and in which `during` happens. -/
def sampleHop (tokenIn tokenOut : Address) (during : Script) : HopWorld :=
  ⟨account 6, .transfer, account 6, tokenIn, tokenOut, false, .done, during, .done⟩

def singleRoute (executor : UInt8) (hop : HopWorld) : Route where
  kind := .single
  calldata := ⟨List.replicate 20 executor, [], by rw [List.length_replicate]; decide⟩
  world := fun _ => hop

/-- A swap of 7 for at least 4, with a client who has signed. -/
def helpedSwap (maxClientContribution : Nat) : SwapParams where
  amountIn := 7
  tokenIn := account 10
  tokenOut := account 11
  minAmountOut := 4
  receiver := account 21
  clientFeeParams := ⟨0, account 22, maxClientContribution, 9, account 22⟩
  onContribution := .done
  onPaid := .done
  amountIn_lt := by decide

/-- After the hop the receiver has this much. -/
def helpedRoute (amount : Nat) : Route :=
  singleRoute 3 (sampleHop (account 10) (account 11) (.set (account 11) (account 21) amount .done))

end TychoRouter
end Tycho
