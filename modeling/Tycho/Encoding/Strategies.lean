import Tycho.Encoding.Solution

/-! The three strategies, their checks and the encoder that chooses between them. The encoders of
the protocols, the order in which the maps are visited and the text of a number are parameters;
estimates of gas are left out. -/
namespace Tycho
open Collections

/-- The tokens reached from those in the queue, `none` where `stop` ends the search. -/
def searchTokens (next : Address → List Address) (stop : Address → List Address → Bool) :
    Nat → List Address → List Address → Option (List Address)
  | 0, _, visited => some visited
  | _ + 1, [], visited => some visited
  | fuel + 1, token :: queue, visited =>
    if token ∈ visited then searchTokens next stop fuel queue visited
    else if stop token (token :: visited) then none
    else searchTokens next stop fuel
      (queue ++ (next token).filter fun t => t ∉ token :: visited) (token :: visited)

namespace SwapValidator

def tokenGraph (swaps : List Swap) : HashMap Address (HashSet Address) :=
  groupSets (swaps.map fun swap => (swap.tokenIn, swap.tokenOut))

def allTokens (swaps : List Swap) : List Address :=
  (swaps.flatMap fun swap => [swap.tokenIn, swap.tokenOut]).dedup

variable (order : VisitOrder)

/-- Every swap puts its output token into the queue at most once, so the fuel is enough. -/
def visitedTokens (swaps : List Swap) (givenToken checkedToken : Address) : Option (List Address) :=
  searchTokens (fun token => order.visit (((tokenGraph swaps).lookup token).getD ∅).keys)
    (fun token visited => token = checkedToken ∧ visited.length = (allTokens swaps).length)
    (swaps.length + 2) [givenToken] []

def validateSwapPath (swaps : List Swap) (givenToken checkedToken : Address) :
    Except EncodingError Unit :=
  match visitedTokens order swaps givenToken checkedToken with
  | none => .ok ()
  | some visited =>
    if checkedToken ∈ visited ∧ visited.length = (allTokens swaps).length then .ok ()
    else if checkedToken ∉ visited then
      .error (.invalidInput "Checked token is not reachable through swap path")
    else .error (.invalidInput "Some tokens are not connected to the main path")

end SwapValidator

namespace SplitSwapValidator

/-- Whether the last of the swaps is the remainder, and the total of the others. -/
def scanSplits (token : Address) : ℚ → List Swap → Except EncodingError (Bool × ℚ)
  | total, [] => .ok (false, total)
  | total, swap :: rest =>
    if swap.split = 0 then
      if rest = [] then .ok (true, total)
      else .error (.invalidInput
        ("The 0% split for token " ++ token.toString ++ " must be the last swap"))
    else if swap.split < 0 then
      .error (.invalidInput ("All splits must be >= 0% for token " ++ token.toString))
    else scanSplits token (total + swap.split) rest

variable (showF64 : ℚ → String)

def validateTokenSplits (token : Address) : List Swap → Except EncodingError Unit
  | [swap] =>
    if swap.split ≠ 0 then
      .error (.invalidInput ("Single swap must have 0% split for token " ++ token.toString))
    else .ok ()
  | tokenSwaps => do
    let (foundZeroSplit, totalPercentage) ← scanSplits token 0 tokenSwaps
    if ¬ foundZeroSplit then
      .error (.invalidInput ("Token " ++ token.toString ++
        " must have exactly one 0% split for remainder handling"))
    else if 1 ≤ totalPercentage then
      .error (.invalidInput ("Total of non-remainder splits for token Bytes(" ++ token.toString ++
        ") must be <100%, got " ++ showF64 (totalPercentage * 100) ++ "%"))
    else .ok ()

def swapsByToken (swaps : List Swap) : HashMap Address (List Swap) :=
  group (swaps.map fun swap => (swap.tokenIn, swap))

def validateSplitPercentages (order : VisitOrder) (swaps : List Swap) : Except EncodingError Unit :=
  match swaps.find? fun swap => 1 ≤ swap.split with
  | some swap => .error (.invalidInput
      ("Split percentage must be less than 1 (100%), got " ++ showF64 swap.split))
  | none => (order.visit (swapsByToken swaps).toList).forM fun e =>
      validateTokenSplits showF64 e.1 e.2

end SplitSwapValidator

structure EncodingContext where
  routerAddress : Option Bytes
  groupTokenIn : Address
  groupTokenOut : Address

structure SwapEncoder where
  executorAddress : Bytes
  encodeSwap : Swap → EncodingContext → Except EncodingError (List UInt8)

structure EncodedSolution where
  swaps : List UInt8
  interactingWith : Bytes
  functionSignature : String
  nTokens : Nat
deriving DecidableEq

structure TychoRouterEncoder where
  chain : NativeTokens
  swapEncoderRegistry : String → Option SwapEncoder
  routerAddress : Bytes

namespace TychoRouterEncoder
variable (self : TychoRouterEncoder)

/-- The data of the swap that takes the group's input token, and those of the others. -/
def groupData (encoder : SwapEncoder) (context : EncodingContext) (swaps : List Swap) :
    Except EncodingError (List UInt8 × List (List UInt8)) :=
  swaps.foldlM (fun (initial, grouped) swap => do
    let protocolData ← encoder.encodeSwap swap context
    if context.groupTokenIn = swap.tokenIn then return (protocolData, grouped)
    else return (initial, grouped ++ [protocolData])) ([], [])

def joinGroupData (protocolSystem : String) (initial : List UInt8) (grouped : List (List UInt8)) :
    List UInt8 :=
  if grouped = [] then initial
  else if protocolSystem ∈ NON_PLE_ENCODED_PROTOCOLS then initial ++ grouped.flatten
  else initial ++ pleEncode grouped

def encodeGroup (groupedSwap : SwapGroup) : Except EncodingError (Bytes × List UInt8) := do
  match self.swapEncoderRegistry groupedSwap.protocolSystem with
  | none => .error (.invalidInput
      ("Swap encoder not found for protocol: " ++ groupedSwap.protocolSystem))
  | some encoder =>
    let (initial, grouped) ← groupData encoder
      ⟨some self.routerAddress, groupedSwap.tokenIn, groupedSwap.tokenOut⟩ groupedSwap.swaps
    return (encoder.executorAddress, joinGroupData groupedSwap.protocolSystem initial grouped)

def encodeSwapHeader (executorAddress : Bytes) (protocolData : List UInt8) : List UInt8 :=
  executorAddress.data ++ protocolData

def encodeSplitSwapHeader (tokenIn tokenOut : UInt8) (split : Nat) (executorAddress : Bytes)
    (protocolData : List UInt8) : List UInt8 :=
  [tokenIn, tokenOut, UInt8.ofNat (split / 65536), UInt8.ofNat (split / 256), UInt8.ofNat split] ++
    executorAddress.data ++ protocolData

/-- The signature of a swap function, with the parameters that only split swaps have. -/
def functionSignature (strategy splitParams : String) : UserTransferType → String
  | .transferFromPermit2 => strategy ++ "Permit2(uint256,address,address,uint256," ++ splitParams ++
      "address,(uint16,address,uint256,uint256,bytes)," ++
      "((address,uint160,uint48,uint48),address,uint256),bytes,bytes)"
  | .transferFrom => strategy ++ "(uint256,address,address,uint256," ++ splitParams ++
      "address,(uint16,address,uint256,uint256,bytes),bytes)"
  | .useVaultsFunds => strategy ++ "UsingVault(uint256,address,address,uint256," ++ splitParams ++
      "address,(uint16,address,uint256,uint256,bytes),bytes)"

def encodeSingle (solution : Solution) : Except EncodingError EncodedSolution :=
  match groupSwaps solution.swaps with
  | [groupedSwap] =>
    if groupedSwap.split ≠ 0 then
      .error (.invalidInput "Splits not supported for single swaps.")
    else do
      let (executor, data) ← self.encodeGroup groupedSwap
      return ⟨encodeSwapHeader executor data, self.routerAddress,
        functionSignature "singleSwap" "" solution.userTransferType, 0⟩
  | groups => .error (.invalidInput
      ("Single strategy only supports exactly one swap for non-groupable protocols. Found " ++
        toString groups.length))

variable (order : VisitOrder) (showF64 : ℚ → String)

def encodeSequential (solution : Solution) : Except EncodingError EncodedSolution := do
  SwapValidator.validateSwapPath order solution.swaps solution.tokenIn solution.tokenOut
  let swaps ← (groupSwaps solution.swaps).mapM fun groupedSwap => do
    let (executor, data) ← self.encodeGroup groupedSwap
    return encodeSwapHeader executor data
  return ⟨pleEncode swaps, self.routerAddress,
    functionSignature "sequentialSwap" "" solution.userTransferType, 0⟩

def intermediaryTokens (solution : Solution) (groups : List SwapGroup) : List Address :=
  (((groups.flatMap fun g => [g.tokenIn, g.tokenOut]).dedup).filter fun t =>
    t ≠ solution.tokenIn ∧ t ≠ solution.tokenOut).insertionSort fun a b => a.data ≤ b.data

/-- The contract expects the given token first and the checked token last. -/
def tokensOf (solution : Solution) (groups : List SwapGroup) : List Address :=
  solution.tokenIn :: (intermediaryTokens solution groups ++ [solution.tokenOut])

def encodeSplit (solution : Solution) : Except EncodingError EncodedSolution := do
  SplitSwapValidator.validateSplitPercentages showF64 order solution.swaps
  SwapValidator.validateSwapPath order solution.swaps solution.tokenIn solution.tokenOut
  let groupedSwaps := groupSwaps solution.swaps
  let tokens := tokensOf solution groupedSwaps
  let swaps ← groupedSwaps.mapM fun groupedSwap => do
    let (executor, data) ← self.encodeGroup groupedSwap
    let tokenIn ← getTokenPosition tokens groupedSwap.tokenIn
    let tokenOut ← getTokenPosition tokens groupedSwap.tokenOut
    return encodeSplitSwapHeader tokenIn tokenOut (percentageToUint24 groupedSwap.split) executor
      data
  return ⟨pleEncode swaps, self.routerAddress,
    functionSignature "splitSwap" "uint256," solution.userTransferType,
    if solution.tokenIn = solution.tokenOut then tokens.length - 1 else tokens.length⟩

inductive Strategy where
  | single
  | sequential
  | split
deriving DecidableEq

def strategyOf (solution : Solution) : Strategy :=
  if (groupSwaps solution.swaps).length = 1 then .single
  else if solution.swaps.all fun swap => swap.split = 0 then .sequential
  else .split

def encodeStrategy (solution : Solution) : Except EncodingError EncodedSolution :=
  match strategyOf solution with
  | .single => self.encodeSingle solution
  | .sequential => self.encodeSequential order solution
  | .split => self.encodeSplit order showF64 solution

def encodeSolution (solution : Solution) : Except EncodingError EncodedSolution := do
  solution.validateSolution
  self.encodeStrategy order showF64 (solution.addNativeWrapSwaps self.chain)

end TychoRouterEncoder

def sampleToken (n : UInt8) : Address := ⟨List.replicate 19 0 ++ [n]⟩

def sampleSwap (protocolSystem : String) (tokenIn tokenOut : UInt8) (split : ℚ) : Swap :=
  ⟨"pool", protocolSystem, sampleToken tokenIn, sampleToken tokenOut, split, none⟩

end Tycho
