import Mathlib.Data.List.Sort
import Mathlib.Data.Rat.Floor
import Tycho.Collections.Group
import Tycho.Common.Basic

/-! Solutions and what the encoder makes of their swaps before it encodes them. Splits are exact
rationals. -/
namespace Tycho
open Collections

/-- `panicked` is no error of the code: a number does not fit where it is converted. -/
inductive EncodingError where
  | invalidInput (text : String)
  | fatalError (text : String)
  | recoverableError (text : String)
  | notImplementedError (text : String)
  | panicked
deriving DecidableEq

structure Swap where
  component : ComponentId
  protocolSystem : String
  tokenIn : Address
  tokenOut : Address
  split : ℚ
  userData : Option Bytes
deriving DecidableEq

inductive UserTransferType where
  | transferFromPermit2
  | transferFrom
  | useVaultsFunds
deriving DecidableEq

structure Solution where
  tokenIn : Address
  tokenOut : Address
  swaps : List Swap
  userTransferType : UserTransferType
deriving DecidableEq

/-- The native token of a chain and its wrapped counterpart. -/
structure NativeTokens where
  nativeToken : Address
  wrappedNativeToken : Address
deriving DecidableEq

namespace Solution

/-- The tokens of the swaps, with those already considered for a split. -/
def considerSwap (st : List Address × HashSet Address) (swap : Swap) :
    List Address × HashSet Address :=
  if swap.split ≠ 0 then
    if swap.tokenIn ∈ st.2 then st else (st.1 ++ [swap.tokenIn], st.2.insert swap.tokenIn)
  -- it might be the last swap of the split or a regular swap
  else if swap.tokenIn ∈ st.2 then st else (st.1 ++ [swap.tokenIn], st.2)

def solutionTokens (swaps : List Swap) : List Address :=
  (swaps.foldl considerSwap ([], ∅)).1 ++ (swaps.getLast?.map Swap.tokenOut).toList

def validateSolution (solution : Solution) : Except EncodingError Unit :=
  match solution.swaps.head?, solution.swaps.getLast? with
  | some first, some last =>
    let tokens := solutionTokens solution.swaps
    if tokens.length ≠ tokens.dedup.length ∧ first.tokenIn ≠ last.tokenOut then
      .error (.fatalError
        "Cyclical swaps are only allowed if they are the first and last token of a solution")
    else .ok ()
  | _, _ => .error (.fatalError "No swaps found in solution")

def wrappingBridge (chain : NativeTokens) (tokenA tokenB : Address) : Option Swap :=
  if tokenA = chain.wrappedNativeToken ∧ tokenB = chain.nativeToken then
    some ⟨"", "native_wrapper", chain.wrappedNativeToken, chain.nativeToken, 0, none⟩
  else if tokenA = chain.nativeToken ∧ tokenB = chain.wrappedNativeToken then
    some ⟨"", "native_wrapper", chain.nativeToken, chain.wrappedNativeToken, 0, none⟩
  else none

/-- The swaps from one on, with the bridges after each. -/
def bridgeSwaps (chain : NativeTokens) (tokenOut : Address) : List Swap → List Swap
  | [] => []
  | [swap] => swap :: (wrappingBridge chain swap.tokenOut tokenOut).toList
  | swap :: next :: swaps =>
    swap :: ((wrappingBridge chain swap.tokenOut next.tokenIn).toList ++
      bridgeSwaps chain tokenOut (next :: swaps))

def addNativeWrapSwaps (solution : Solution) (chain : NativeTokens) : Solution :=
  { solution with
    swaps :=
      (solution.swaps.head?.bind fun first =>
        wrappingBridge chain solution.tokenIn first.tokenIn).toList ++
      bridgeSwaps chain solution.tokenOut solution.swaps }

end Solution

def GROUPABLE_PROTOCOLS : List String :=
  ["uniswap_v4", "uniswap_v4_hooks", "vm:balancer_v3", "ekubo_v2", "ekubo_v3"]

def NON_PLE_ENCODED_PROTOCOLS : List String := ["ekubo_v2", "ekubo_v3"]

structure SwapGroup where
  tokenIn : Address
  tokenOut : Address
  protocolSystem : String
  swaps : List Swap
  split : ℚ
deriving DecidableEq

structure Grouping where
  groupedSwaps : List SwapGroup
  currentGroup : Option SwapGroup
  lastSwapProtocol : String
  lastSwapOutToken : Address

namespace Grouping

def start : Grouping := ⟨[], none, "", .new⟩

/-- `uniswap_v4_hooks` uses the same pool manager as `uniswap_v4`. -/
def normalizedProtocol (swap : Swap) : String :=
  if swap.protocolSystem = "uniswap_v4_hooks" then "uniswap_v4" else swap.protocolSystem

/-- The swap goes on with what the swap before it has put out, and the group does not end where it
begins. -/
def merges (st : Grouping) (swap : Swap) : Bool :=
  normalizedProtocol swap = st.lastSwapProtocol ∧ normalizedProtocol swap ∈ GROUPABLE_PROTOCOLS ∧
    (swap.split = 0 ∧ swap.tokenIn = st.lastSwapOutToken) ∧
    st.currentGroup.all fun g => swap.tokenOut ≠ g.tokenIn

def addSwap (st : Grouping) (swap : Swap) : Grouping :=
  if st.merges swap then
    { st with
      currentGroup := st.currentGroup.map fun g =>
        { g with swaps := g.swaps ++ [swap], tokenOut := swap.tokenOut }
      lastSwapProtocol := normalizedProtocol swap
      lastSwapOutToken := swap.tokenOut }
  else
    { groupedSwaps := st.groupedSwaps ++ st.currentGroup.toList
      currentGroup := some ⟨swap.tokenIn, swap.tokenOut, normalizedProtocol swap, [swap],
        swap.split⟩
      lastSwapProtocol := normalizedProtocol swap
      lastSwapOutToken := swap.tokenOut }

end Grouping

def groupSwaps (swaps : List Swap) : List SwapGroup :=
  let st := swaps.foldl Grouping.addSwap .start
  st.groupedSwaps ++ st.currentGroup.toList

def MAX_UINT24 : Nat := 16777215

/-- To the nearest integer, ties up, for a percentage that is not negative. -/
def percentageToUint24 (decimal : ℚ) : Nat := (⌊decimal * MAX_UINT24 + 1 / 2⌋).toNat

/-- The position is converted to a byte. -/
def getTokenPosition (tokens : List Address) (token : Address) : Except EncodingError UInt8 :=
  match tokens.idxOf? token with
  | some position => if position < 256 then .ok (UInt8.ofNat position) else .error .panicked
  | none => .error (.invalidInput ("Token " ++ token.toString ++ " not found in tokens array"))

/-- The length of each part in front of it, of which two bytes are kept. -/
def pleEncode (actionDataArray : List (List UInt8)) : List UInt8 :=
  actionDataArray.foldl (fun encoded actionData =>
    encoded ++ [UInt8.ofNat (actionData.length / 256), UInt8.ofNat actionData.length] ++ actionData)
    []

end Tycho
