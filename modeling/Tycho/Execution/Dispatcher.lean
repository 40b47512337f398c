import Tycho.Execution.Vault

/-! The contracts below the router: the encoding of the hops in the calldata, the transfers of
tokens, the calls of executors and their callbacks, and the fees on the output. What executors,
protocols, tokens and receivers do while the router waits for them is given by scripts. -/
namespace Tycho
open Collections Replay Replay.Program

/-- The signed swaps and what follows them in the calldata, which is zero after its end. A
transaction has no room for more. -/
structure Calldata where
  swaps : List UInt8
  rest : List UInt8
  length_lt : swaps.length + rest.length < 2 ^ 64
deriving DecidableEq

namespace Calldata
variable (c : Calldata)

def byteAt (offset : Nat) : UInt8 := (c.swaps ++ c.rest).getD offset 0

def read (s : Slice) : List UInt8 := (List.range s.length).map fun i => c.byteAt (s.offset + i)

def readAddress (offset : Nat) : Address := ⟨c.read ⟨offset, 20⟩⟩

def swapsSlice : Slice := ⟨0, c.swaps.length⟩

end Calldata

namespace LibPrefixLengthEncodedByteArray
variable (c : Calldata)

def lengthAt (offset : Nat) : Nat := (c.byteAt offset).toNat * 256 + (c.byteAt (offset + 1)).toNat

/-- The length that remains is a word, and is not checked. -/
def next (encoded : Slice) : Slice × Slice :=
  if encoded.length = 0 then (⟨0, 0⟩, ⟨0, 0⟩)
  else
    let l := lengthAt c encoded.offset
    (⟨encoded.offset + 2, l⟩,
      ⟨encoded.offset + 2 + l, (2 ^ 256 + encoded.length - l - 2) % 2 ^ 256⟩)

/-- One round of the loop for each unit of `fuel`, of which the length of the array is enough. -/
def sizeFrom (fuel offset finish : Nat) : Nat :=
  match fuel with
  | 0 => 0
  | fuel + 1 =>
    if offset < finish then sizeFrom fuel (offset + (lengthAt c offset + 2)) finish + 1 else 0

def size (encoded : Slice) : Nat :=
  sizeFrom c encoded.length encoded.offset (encoded.offset + encoded.length)

def take : Nat → Slice → List Slice
  | 0, _ => []
  | n + 1, encoded => (next c encoded).1 :: take n (next c encoded).2

/-- The elements until nothing remains, at most `fuel` of them. -/
def takeAll : Nat → Slice → List Slice
  | 0, _ => []
  | fuel + 1, encoded =>
    if encoded.length = 0 then [] else (next c encoded).1 :: takeAll fuel (next c encoded).2

end LibPrefixLengthEncodedByteArray

/-- The arguments of a split swap but for the executor's. -/
structure SplitArgs where
  tokenInIndex : Nat
  tokenOutIndex : Nat
  split : Nat
deriving DecidableEq

structure DecodedSwap where
  executor : Address
  protocolData : List UInt8
deriving DecidableEq

namespace LibSwap
variable (c : Calldata)

/-- Executor and protocol data from an offset in the element on. Slices are checked against the
length of the element. -/
def decodeFrom (skip : Nat) (element : Slice) : RouterM DecodedSwap := do
  require (skip + 20 ≤ element.length) .panic
  return ⟨c.readAddress (element.offset + skip),
    c.read ⟨element.offset + skip + 20, element.length - skip - 20⟩⟩

def decodeSingleSwap (element : Slice) : RouterM DecodedSwap := decodeFrom c 0 element

def decodeSequentialSwap (element : Slice) : RouterM DecodedSwap := decodeFrom c 0 element

def decodeSplitSwap (element : Slice) : RouterM (SplitArgs × DecodedSwap) := do
  let swap ← decodeFrom c 5 element
  let at_ := fun i => (c.byteAt (element.offset + i)).toNat
  return (⟨at_ 0, at_ 1, at_ 2 * 65536 + at_ 3 * 256 + at_ 4⟩, swap)

end LibSwap

inductive TransferType where
  | transfer
  | transferNativeInExecutor
  | protocolWillDebit
  | none
deriving DecidableEq

namespace TransferManager

def tstoreTransferFromInfo (caller tokenIn : Address) (amountIn : Nat) (isPermit2 useVault : Bool) :
    RouterM Unit :=
  modify fun s => { s with
    tokenIn := tokenIn
    amountAllowed := if useVault then 0 else amountIn
    isPermit2 := isPermit2
    sender := caller
    useVault := useVault }

/-- Permit2 is given `uint160(amount)`, and succeeds without a transfer for an address that has no
code, as that of the native token. -/
def moveFromUser (isPermit2 : Bool) (token src dst : Address) (amount : Nat) : RouterM Unit :=
  if isPermit2 ∧ token = ETH_ADDRESS then pure ()
  else do
    require (token ≠ ETH_ADDRESS) .external
    let moved := if isPermit2 then amount % 2 ^ 160 else amount
    moveToken token src dst moved
    emit (.pulled token src moved)

/-- What the router itself receives can be taken by the executor. -/
def transferFromUser (self token receiver : Address) (amount : Nat) : RouterM Nat := do
  let s ← get
  require (amount ≤ s.amountAllowed) (.exceededTransferFromAllowance s.amountAllowed amount)
  require (token = s.tokenIn) (.differentTokenIn token s.tokenIn)
  set { s with amountAllowed := s.amountAllowed - amount }
  let balanceBefore := s.balanceOf token receiver
  moveFromUser s.isPermit2 token s.sender receiver amount
  let received ← checkedSub ((← get).balanceOf token receiver) balanceBefore
  onlyIf (receiver = self) (modify fun s => { s with accounted := s.accounted + received })
  return received

/-- `onReceive` is what the code of the receiver does when it is sent the native token. -/
def transferOut (self token receiver : Address) (amount : Nat) (onReceive : RouterM Unit) :
    RouterM Nat := do
  let balanceBefore := (← get).balanceOf token receiver
  moveToken token self receiver amount
  onlyIf (token = ETH_ADDRESS) onReceive
  checkedSub ((← get).balanceOf token receiver) balanceBefore

/-- An approval of the native token fails: its address has no code. -/
def approveIfNeeded (self token receiver : Address) : RouterM Unit :=
  require (receiver = self ∨ token ≠ ETH_ADDRESS) .external

/-- Account for the input of a hop. What stays in the router can be taken by the executor. -/
def takeInput (token : Address) (amount : Nat) (stays : Bool) : RouterM Unit := do
  Vault.updateDeltaAccounting token (← negInt256 amount)
  modify fun s => { s.emit (.taken token amount) with
    accounted := if stays then s.accounted + amount else s.accounted }

def transfer (self receiver : Address) (transferType : TransferType) (tokenIn : Address)
    (amount : Nat) (isFirstSwap isSplitSwap inCallback : Bool) (onReceive : RouterM Unit) :
    RouterM Nat := do
  let needsTransferFromUser := isFirstSwap && !(← get).useVault
  match transferType with
  | .none => return amount
  | .transferNativeInExecutor =>
    takeInput tokenIn amount true
    return amount
  | .protocolWillDebit =>
    if needsTransferFromUser then
      let received ← transferFromUser self tokenIn self amount
      approveIfNeeded self tokenIn receiver
      return received
    else
      takeInput tokenIn amount true
      approveIfNeeded self tokenIn receiver
      return amount
  | .transfer =>
    -- the previous swap has sent the tokens to the pool
    if !isFirstSwap && !isSplitSwap && !inCallback then
      return amount
    else if needsTransferFromUser then
      transferFromUser self tokenIn receiver amount
    else
      takeInput tokenIn amount (receiver = self)
      transferOut self tokenIn receiver amount onReceive

end TransferManager

open TransferManager

/-- What happens outside of the router during a call. Calls back into functions with a reentrancy
guard fail and are left out. -/
inductive Script where
  | done
  /-- Look at the state of the router at this point. -/
  | observe
  | fail
  /-- The balance of an account other than the router changes. -/
  | set (token owner : Address) (amount : Nat) (next : Script)
  /-- The router is sent tokens. -/
  | give (token : Address) (amount : Nat) (next : Script)
  /-- The executor takes input of its hop from the router, at most what was accounted for. -/
  | take (amount : Nat) (next : Script)
  /-- An ERC6909 transfer of vault balances. -/
  | vaultTransfer (spender src dst token : Address) (allowance amount : Nat) (next : Script)
  /-- The fallback function is called; `transferType` and `receiver` are the answer of the
  executor. `onTransfer` is what the receiver does when it is sent the native token, `during` what
  happens in `handleCallback`. -/
  | callback (transferType : TransferType) (receiver : Address) (onTransfer during next : Script)
deriving DecidableEq

structure CustomFees where
  hasCustomFeeOnOutput : Bool
  feeBpsOnOutput : Nat
  hasCustomFeeOnClientFee : Bool
  feeBpsOnClientFee : Nat
deriving DecidableEq

/-- What a call reads but does not change. An address without code is not approved as an
executor. -/
structure RouterEnv where
  self : Address
  timestamp : Nat
  txOrigin : Address
  paused : Bool
  executorsActivationTimestamp : Address → Nat
  activation_zero : executorsActivationTimestamp addressZero = 0
  routerFeeOnOutputBps : Nat
  routerFeeOnClientFeeBps : Nat
  routerFeeReceiver : Address
  customRouterFees : Address → CustomFees

/-- The answers of the executor of a hop, and what happens outside of the router during it. -/
structure HopWorld where
  fundsExpectedAddress : Address
  transferType : TransferType
  transferReceiver : Address
  tokenIn : Address
  tokenOut : Address
  outputToRouter : Bool
  onTransfer : Script
  during : Script
  onForward : Script
deriving DecidableEq

namespace RouterState

def beginHop (s : RouterState) (executor tokenIn : Address) (amount : Nat)
    (isFirstSwap isSplitSwap : Bool) : RouterState :=
  { s with
    currentlySwappingExecutor := executor
    isFirstSwap := isFirstSwap
    isSplitSwap := isSplitSwap
    swapInputAmount := amount
    swapInputToken := tokenIn
    accounted := 0 }

def endHop (s : RouterState) : RouterState := s.beginHop addressZero addressZero 0 false false

end RouterState

namespace Dispatcher
variable (env : RouterEnv)

def validateExecutor (executor : Address) : RouterM Unit := do
  let activationTimestamp := env.executorsActivationTimestamp executor
  require (activationTimestamp ≠ 0) (.unapprovedExecutor executor)
  require (activationTimestamp ≤ env.timestamp) (.executorIsTimelocked executor)

/-- `onTransfer` and `handleCallback` are the programs of the parties that are called. -/
def callHandleCallbackOnExecutor (transferType : TransferType) (receiver : Address)
    (onTransfer handleCallback : RouterM Unit) : RouterM Unit := do
  let s ← get
  validateExecutor env s.currentlySwappingExecutor
  let _ ← transfer env.self receiver transferType s.swapInputToken
    s.swapInputAmount s.isFirstSwap s.isSplitSwap true onTransfer
  handleCallback
  -- one callback only
  modify fun s => { s with
    currentlySwappingExecutor := addressZero
    isFirstSwap := false
    isSplitSwap := false }

def fallback (transferType : TransferType) (receiver : Address)
    (onTransfer handleCallback : RouterM Unit) : RouterM Unit := do
  require (env.paused = false) .enforcedPause
  callHandleCallbackOnExecutor env transferType receiver onTransfer handleCallback

/-- Reverts of the calls into the router are caught by those who make them. -/
def play : Script → RouterM Unit
  | .done => pure ()
  | .observe => observe
  | .fail => revert .external
  | .set token owner amount next => do
    require (owner ≠ env.self) .external
    modify fun s => { s with balances := fun t o =>
      if t = token ∧ o = owner then amount else s.balances t o }
    play next
  | .give token amount next => do
    modify fun s => { s with balances := fun t o =>
      if t = token ∧ o = env.self then s.balances t o + amount else s.balances t o }
    play next
  | .take amount next => do
    let s ← get
    require (amount ≤ s.accounted ∧ amount ≤ s.balances s.swapInputToken env.self) .external
    set { s with
      accounted := s.accounted - amount
      balances := fun t o =>
        if t = s.swapInputToken ∧ o = env.self then s.balances t o - amount else s.balances t o }
    play next
  | .vaultTransfer spender src dst token allowance amount next => do
    attempt (Vault.transfer spender src dst token allowance amount)
    play next
  | .callback transferType receiver onTransfer during next => do
    attempt (fallback env transferType receiver (play onTransfer) (play during))
    play next

/-- Forward an output that has landed at the router but has to go elsewhere. -/
def forwardOutput (hop : HopWorld) (receiver : Address) (amountOut : Nat) : RouterM Nat :=
  if hop.outputToRouter ∧ receiver ≠ env.self then
    transferOut env.self hop.tokenOut receiver amountOut (play env hop.onForward)
  else pure amountOut

/-- The output of a hop, as it was measured, is forwarded or accounted for. -/
def finishHop (hop : HopWorld) (receiver : Address) (measured : Nat) (record : Nat → HopRecord) :
    RouterM Nat := do
  let amountOut ← forwardOutput env hop receiver measured
  onlyIf (receiver = env.self) (Vault.updateDeltaAccounting hop.tokenOut (int256 amountOut))
  emit (.hop (record amountOut))
  return amountOut

/-- The part of `_callSwapOnExecutor` after its checks. The executor is called with what the
transfer has returned. -/
def executeHop (executor : Address) (hop : HopWorld) (amount : Nat) (isFirstSwap isSplitSwap : Bool)
    (receiver : Address) (record : Nat → Nat → HopRecord) : RouterM Nat := do
  modify fun s => s.beginHop executor hop.tokenIn amount isFirstSwap isSplitSwap
  let measureAt := if hop.outputToRouter then env.self else receiver
  let balanceBeforeSwap := (← get).balanceOf hop.tokenOut measureAt
  let received ← transfer env.self hop.transferReceiver hop.transferType hop.tokenIn
    amount isFirstSwap isSplitSwap false (play env hop.onTransfer)
  play env hop.during
  modify RouterState.endHop
  let measured ← checkedSub ((← get).balanceOf hop.tokenOut measureAt) balanceBeforeSwap
  finishHop env hop receiver measured (record received)

/-- `isOutput` is noted in the log only. -/
def callSwapOnExecutor (swap : DecodedSwap) (hop : HopWorld) (amount : Nat)
    (isFirstSwap isSplitSwap : Bool) (receiver : Address) (isOutput : Bool) : RouterM Nat := do
  validateExecutor env swap.executor
  require (hop.tokenIn ≠ hop.tokenOut) (.unsupportedSingleHopCycle hop.tokenIn)
  executeHop env swap.executor hop amount isFirstSwap isSplitSwap receiver
    fun received amountOut => ⟨swap.executor, swap.protocolData, received, receiver, hop.tokenOut,
      amountOut, isOutput⟩

def callFundsExpectedAddress (swap : DecodedSwap) (hop : HopWorld) : RouterM Address := do
  validateExecutor env swap.executor
  return hop.fundsExpectedAddress

end Dispatcher

structure FeeRecipient where
  recipient : Address
  feeAmount : Nat
deriving DecidableEq

namespace FeeCalculator

def MAX_FEE_BPS : Nat := 100000000

def MAX_FEE_BPS_SQUARED : Nat := 10000000000000000

variable (env : RouterEnv)

def resolveClient (client : Address) : Address :=
  if client = addressZero then env.txOrigin else client

/-- The router fees on the output and on the client fee. -/
def getFeeInfo (client : Address) : Nat × Nat :=
  let customFees := env.customRouterFees client
  (if customFees.hasCustomFeeOnOutput then customFees.feeBpsOnOutput else env.routerFeeOnOutputBps,
    if customFees.hasCustomFeeOnClientFee then customFees.feeBpsOnClientFee
    else env.routerFeeOnClientFeeBps)

/-- In the legacy scale, at least 1 for a fee that is not zero. -/
def getEffectiveRouterFeeOnOutput (client : Address) : Nat :=
  let fee := (getFeeInfo env (resolveClient env client)).1
  if fee = 0 then 0
  else (if 0 < fee / 10000 then fee / 10000 else 1) % 2 ^ 16

def routerFeeOnClientFee (clientFeeNumerator routerFeeOnClientFeeBps : Nat) : RouterM Nat :=
  if 0 < routerFeeOnClientFeeBps then do
    let product ← checkedUint256 (clientFeeNumerator * routerFeeOnClientFeeBps)
    return product / MAX_FEE_BPS_SQUARED
  else return 0

def splitClientFee (amountOut scaledClientFeeBps routerFeeOnClientFeeBps : Nat) :
    RouterM (Nat × Nat) :=
  if 0 < scaledClientFeeBps then do
    let clientFeeNumerator ← checkedUint256 (amountOut * scaledClientFeeBps)
    let cut ← routerFeeOnClientFee clientFeeNumerator routerFeeOnClientFeeBps
    let clientPortion ← checkedSub (clientFeeNumerator / MAX_FEE_BPS) cut
    return (clientPortion, cut)
  else return (0, 0)

def routerFeeOnOutput (amountOut routerFeeOnOutputBps : Nat) : RouterM Nat :=
  if 0 < routerFeeOnOutputBps then do
    let product ← checkedUint256 (amountOut * routerFeeOnOutputBps)
    return product / MAX_FEE_BPS
  else return 0

def calculateFee (amountIn : Nat) (client : Address) (clientFeeBps : Nat) :
    RouterM (Nat × List FeeRecipient) := do
  let feeInfo := getFeeInfo env (resolveClient env client)
  let scaledClientFeeBps := clientFeeBps * 10000
  require (scaledClientFeeBps + feeInfo.1 ≤ MAX_FEE_BPS ∧ feeInfo.2 ≤ MAX_FEE_BPS) .feeTooHigh
  let clientFee ← splitClientFee amountIn scaledClientFeeBps feeInfo.2
  let onOutput ← routerFeeOnOutput amountIn feeInfo.1
  let totalRouterFee ← checkedUint256 (clientFee.2 + onOutput)
  let fees ← checkedUint256 (clientFee.1 + totalRouterFee)
  let amountOut ← checkedSub amountIn fees
  return (amountOut, [⟨env.routerFeeReceiver, totalRouterFee⟩, ⟨client, clientFee.1⟩])

end FeeCalculator

end Tycho
