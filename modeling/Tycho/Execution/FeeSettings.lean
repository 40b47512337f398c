import Tycho.Execution.Settlement

/-! How the fees of the router are set, and what is taken under every such setting. -/
namespace Tycho
open Replay.Program

inductive FeeError where
  | accessControlUnauthorizedAccount (account : Address)
  | feeTooHigh
  | addressZero
deriving DecidableEq

inductive FeeSetter where
  | setRouterFeeOnOutput (feeBps : Nat)
  | setCustomRouterFeeOnOutput (client : Address) (feeBps : Nat)
  | removeCustomRouterFeeOnOutput (client : Address)
  | setRouterFeeOnClientFee (feeBps : Nat)
  | setCustomRouterFeeOnClientFee (client : Address) (feeBps : Nat)
  | removeCustomRouterFeeOnClientFee (client : Address)
  | setRouterFeeReceiver (routerFeeReceiver : Address)

/-- Who holds the role of a fee setter at the time of a call is up to those who hold it before. -/
structure FeeCall where
  sender : Address
  hasRole : Bool
  setter : FeeSetter

namespace FeeCalculator
section
variable (env : RouterEnv)

/-- The settings after the constructor. -/
def deployed (sender : Address) : RouterEnv :=
  { env with
    routerFeeOnOutputBps := 0
    routerFeeOnClientFeeBps := 0
    routerFeeReceiver := sender
    customRouterFees := fun _ => ⟨false, 0, false, 0⟩ }

def checkFee (feeBps : Nat) (updated : RouterEnv) : Except FeeError RouterEnv :=
  if MAX_FEE_BPS < feeBps then .error .feeTooHigh else .ok updated

def storeCustomFees (client : Address) (customFees : CustomFees) : RouterEnv :=
  { env with customRouterFees := Function.update env.customRouterFees client customFees }

def setRouterFeeOnOutput (feeBps : Nat) : Except FeeError RouterEnv :=
  checkFee feeBps { env with routerFeeOnOutputBps := feeBps }

def setCustomRouterFeeOnOutput (client : Address) (feeBps : Nat) : Except FeeError RouterEnv :=
  checkFee feeBps (storeCustomFees env client
    { env.customRouterFees client with feeBpsOnOutput := feeBps, hasCustomFeeOnOutput := true })

def removeCustomRouterFeeOnOutput (client : Address) : RouterEnv :=
  storeCustomFees env client
    { env.customRouterFees client with hasCustomFeeOnOutput := false, feeBpsOnOutput := 0 }

def setRouterFeeOnClientFee (feeBps : Nat) : Except FeeError RouterEnv :=
  checkFee feeBps { env with routerFeeOnClientFeeBps := feeBps }

def setCustomRouterFeeOnClientFee (client : Address) (feeBps : Nat) : Except FeeError RouterEnv :=
  checkFee feeBps (storeCustomFees env client { env.customRouterFees client with
      feeBpsOnClientFee := feeBps, hasCustomFeeOnClientFee := true })

def removeCustomRouterFeeOnClientFee (client : Address) : RouterEnv :=
  storeCustomFees env client
    { env.customRouterFees client with hasCustomFeeOnClientFee := false, feeBpsOnClientFee := 0 }

def setRouterFeeReceiver (routerFeeReceiver : Address) : Except FeeError RouterEnv :=
  if routerFeeReceiver = addressZero then .error .addressZero
  else .ok { env with routerFeeReceiver := routerFeeReceiver }

def execute (call : FeeCall) : Except FeeError RouterEnv :=
  if call.hasRole then
    match call.setter with
    | .setRouterFeeOnOutput feeBps => setRouterFeeOnOutput env feeBps
    | .setCustomRouterFeeOnOutput client feeBps => setCustomRouterFeeOnOutput env client feeBps
    | .removeCustomRouterFeeOnOutput client => .ok (removeCustomRouterFeeOnOutput env client)
    | .setRouterFeeOnClientFee feeBps => setRouterFeeOnClientFee env feeBps
    | .setCustomRouterFeeOnClientFee client feeBps =>
      setCustomRouterFeeOnClientFee env client feeBps
    | .removeCustomRouterFeeOnClientFee client => .ok (removeCustomRouterFeeOnClientFee env client)
    | .setRouterFeeReceiver routerFeeReceiver => setRouterFeeReceiver env routerFeeReceiver
  else .error (.accessControlUnauthorizedAccount call.sender)

/-- A call that reverts changes nothing. -/
def configure (call : FeeCall) : RouterEnv :=
  match execute env call with
  | .ok updated => updated
  | .error _ => env

def configured (deployer : Address) (calls : List FeeCall) : RouterEnv :=
  calls.foldl configure (deployed env deployer)

/-- No fee is above the whole. -/
structure WithinBounds : Prop where
  onOutput : env.routerFeeOnOutputBps ≤ MAX_FEE_BPS
  onClientFee : env.routerFeeOnClientFeeBps ≤ MAX_FEE_BPS
  custom : ∀ client, (env.customRouterFees client).feeBpsOnOutput ≤ MAX_FEE_BPS ∧
    (env.customRouterFees client).feeBpsOnClientFee ≤ MAX_FEE_BPS

end

variable {env env' : RouterEnv}

lemma checkFee_eq_ok {feeBps : Nat} :
    checkFee feeBps env = .ok env' ↔ feeBps ≤ MAX_FEE_BPS ∧ env = env' := by
  unfold checkFee
  split_ifs with h
  · simp [h]
  · simp [Nat.le_of_not_lt h]

lemma WithinBounds.store (h : WithinBounds env) (client : Address) {fees : CustomFees}
    (hout : fees.feeBpsOnOutput ≤ MAX_FEE_BPS)
    (hclient : fees.feeBpsOnClientFee ≤ MAX_FEE_BPS) :
    WithinBounds (storeCustomFees env client fees) := by
  refine ⟨h.onOutput, h.onClientFee, fun c => ?_⟩
  rcases eq_or_ne c client with rfl | hne
  · simp [storeCustomFees, hout, hclient]
  · simpa [storeCustomFees, hne] using h.custom c

lemma WithinBounds.of_execute {call : FeeCall} (h : WithinBounds env)
    (hok : execute env call = .ok env') : WithinBounds env' := by
  obtain ⟨sender, hasRole, setter⟩ := call
  unfold execute at hok
  split_ifs at hok with hrole
  cases setter with
  | setRouterFeeOnOutput feeBps =>
    obtain ⟨hle, rfl⟩ := checkFee_eq_ok.mp hok
    exact ⟨hle, h.onClientFee, h.custom⟩
  | setCustomRouterFeeOnOutput client feeBps =>
    obtain ⟨hle, rfl⟩ := checkFee_eq_ok.mp hok
    exact h.store client hle (h.custom client).2
  | removeCustomRouterFeeOnOutput client =>
    cases hok
    exact h.store client (Nat.zero_le _) (h.custom client).2
  | setRouterFeeOnClientFee feeBps =>
    obtain ⟨hle, rfl⟩ := checkFee_eq_ok.mp hok
    exact ⟨h.onOutput, hle, h.custom⟩
  | setCustomRouterFeeOnClientFee client feeBps =>
    obtain ⟨hle, rfl⟩ := checkFee_eq_ok.mp hok
    exact h.store client (h.custom client).1 hle
  | removeCustomRouterFeeOnClientFee client =>
    cases hok
    exact h.store client (h.custom client).1 (Nat.zero_le _)
  | setRouterFeeReceiver receiver =>
    simp only [setRouterFeeReceiver] at hok
    split_ifs at hok
    cases hok
    exact ⟨h.onOutput, h.onClientFee, h.custom⟩

lemma WithinBounds.step (h : WithinBounds env) (call : FeeCall) :
    WithinBounds (configure env call) := by
  unfold configure
  split
  · exact h.of_execute ‹_›
  · exact h

lemma withinBounds_configured (env : RouterEnv) (deployer : Address) (calls : List FeeCall) :
    WithinBounds (configured env deployer calls) := by
  have hdeployed : WithinBounds (deployed env deployer) :=
    ⟨Nat.zero_le _, Nat.zero_le _, fun _ => ⟨Nat.zero_le _, Nat.zero_le _⟩⟩
  exact calls.foldlRecOn configure hdeployed fun _ h call _ => h.step call

lemma WithinBounds.getFeeInfo_le (h : WithinBounds env) (client : Address) :
    (getFeeInfo env client).1 ≤ MAX_FEE_BPS ∧ (getFeeInfo env client).2 ≤ MAX_FEE_BPS := by
  unfold getFeeInfo
  dsimp only
  constructor <;> split_ifs
  · exact (h.custom client).1
  · exact h.onOutput
  · exact (h.custom client).2
  · exact h.onClientFee

/-! What is taken from an amount that is not too large. -/

section
variable {amountIn scaled cutBps : Nat} (hamount : amountIn < 2 ^ 200)
  (hscaled : scaled ≤ MAX_FEE_BPS)
  (s : RouterState)
include hamount hscaled

lemma mul_fee_lt : amountIn * scaled < 2 ^ 256 :=
  calc amountIn * scaled ≤ 2 ^ 200 * MAX_FEE_BPS := Nat.mul_le_mul hamount.le hscaled
    _ < 2 ^ 256 := by decide

lemma routerFeeOnOutput_eq_ok :
    routerFeeOnOutput amountIn scaled s = .ok (amountIn * scaled / MAX_FEE_BPS, s) := by
  unfold routerFeeOnOutput
  split_ifs with hpos
  · exact bind_eq_ok.mpr ⟨_, s, checkedUint256_eq_ok.mpr ⟨mul_fee_lt hamount hscaled, rfl, rfl⟩,
      rfl⟩
  · obtain rfl : scaled = 0 := by omega
    simp

/-- The share of the router is cut from the fee of the client and does not exceed it. -/
lemma splitClientFee_eq_ok (hcut : cutBps ≤ MAX_FEE_BPS) :
    ∃ share ≤ amountIn * scaled / MAX_FEE_BPS, splitClientFee amountIn scaled cutBps s =
      .ok ((amountIn * scaled / MAX_FEE_BPS - share, share), s) := by
  have hproduct : amountIn * scaled * cutBps < 2 ^ 256 :=
    calc amountIn * scaled * cutBps ≤ 2 ^ 200 * MAX_FEE_BPS * MAX_FEE_BPS :=
          Nat.mul_le_mul (Nat.mul_le_mul hamount.le hscaled) hcut
      _ < 2 ^ 256 := by decide
  have hshare : amountIn * scaled * cutBps / MAX_FEE_BPS_SQUARED ≤ amountIn * scaled /
    MAX_FEE_BPS :=
    calc amountIn * scaled * cutBps / MAX_FEE_BPS_SQUARED
        ≤ amountIn * scaled * MAX_FEE_BPS / (MAX_FEE_BPS * MAX_FEE_BPS) :=
          Nat.div_le_div_right (Nat.mul_le_mul_left _ hcut)
      _ = amountIn * scaled / MAX_FEE_BPS := Nat.mul_div_mul_right _ _ (by decide)
  have hrun : routerFeeOnClientFee (amountIn * scaled) cutBps s =
      .ok (amountIn * scaled * cutBps / MAX_FEE_BPS_SQUARED, s) := by
    unfold routerFeeOnClientFee
    split_ifs with hpos
    · exact bind_eq_ok.mpr ⟨_, s, checkedUint256_eq_ok.mpr ⟨hproduct, rfl, rfl⟩, rfl⟩
    · obtain rfl : cutBps = 0 := by omega
      simp
  refine ⟨_, hshare, ?_⟩
  unfold splitClientFee
  split_ifs with hpos
  · simp only [bind_eq_ok, checkedUint256_eq_ok, checkedSub_eq_ok]
    exact ⟨_, s, ⟨mul_fee_lt hamount hscaled, rfl, rfl⟩, _, s, hrun, _, s, ⟨hshare, rfl, rfl⟩, rfl⟩
  · obtain rfl : scaled = 0 := by omega
    simp

end

section
variable {amountIn clientFeeBps : Nat} {client : Address}

lemma calculateFee_eq_error
    (h : MAX_FEE_BPS < clientFeeBps * 10000 + (getFeeInfo env (resolveClient env client)).1)
    (s : RouterState) :
    calculateFee env amountIn client clientFeeBps s = .error (.reverted .feeTooHigh) := by
  simp only [calculateFee, bind_apply, require]
  rw [if_neg fun hfees => absurd hfees.1 (Nat.not_le.mpr h)]
  rfl

/-- Accepted fees are split without an overflow, and with what is left they make up the amount. -/
lemma WithinBounds.calculateFee_eq_ok (h : WithinBounds env) (hamount : amountIn < 2 ^ 200)
    (hfees : clientFeeBps * 10000 + (getFeeInfo env (resolveClient env client)).1 ≤ MAX_FEE_BPS)
    (s : RouterState) :
    ∃ amountOut routerFee share clientFee,
      calculateFee env amountIn client clientFeeBps s =
        .ok ((amountOut, [⟨env.routerFeeReceiver, routerFee⟩, ⟨client, clientFee⟩]), s) ∧
      amountOut + (routerFee + clientFee) = amountIn ∧
      splitClientFee amountIn (clientFeeBps * 10000)
        (getFeeInfo env (resolveClient env client)).2 s = .ok ((clientFee, share), s) ∧
      share ≤ amountIn * (clientFeeBps * 10000) / MAX_FEE_BPS := by
  obtain ⟨hout, hclient⟩ := h.getFeeInfo_le (resolveClient env client)
  generalize hinfo : getFeeInfo env (resolveClient env client) = feeInfo at *
  obtain ⟨share, hshare, hsplit⟩ :=
    splitClientFee_eq_ok hamount (Nat.le_trans (Nat.le_add_right _ _) hfees) s hclient
  have htaken : amountIn * (clientFeeBps * 10000) / MAX_FEE_BPS +
      amountIn * feeInfo.1 / MAX_FEE_BPS ≤ amountIn :=
    calc _ ≤ (amountIn * (clientFeeBps * 10000) + amountIn * feeInfo.1) / MAX_FEE_BPS :=
          Nat.div_add_div_le_add_div
      _ = amountIn * (clientFeeBps * 10000 + feeInfo.1) / MAX_FEE_BPS := by rw [Nat.mul_add]
      _ ≤ amountIn * MAX_FEE_BPS / MAX_FEE_BPS :=
          Nat.div_le_div_right (Nat.mul_le_mul_left _ hfees)
      _ = amountIn := Nat.mul_div_cancel _ (by decide)
  have hrouter := routerFeeOnOutput_eq_ok hamount hout s
  have hfits : ∀ n ≤ amountIn, n < 2 ^ 256 := fun n hn => by omega
  generalize amountIn * (clientFeeBps * 10000) / MAX_FEE_BPS = total at *
  generalize amountIn * feeInfo.1 / MAX_FEE_BPS = onOutput at *
  refine ⟨amountIn - (total - share + (share + onOutput)), share + onOutput, share, total - share,
    ?_, by omega, hsplit, hshare⟩
  simp only [calculateFee, hinfo, bind_eq_ok, require_eq_ok, checkedUint256_eq_ok, checkedSub_eq_ok]
  exact ⟨(), s, ⟨⟨hfees, hclient⟩, rfl⟩, _, s, hsplit, _, s, hrouter, _, s,
    ⟨hfits _ (by omega), rfl, rfl⟩, _, s, ⟨hfits _ (by omega), rfl, rfl⟩, _, s,
    ⟨by omega, rfl, rfl⟩, rfl⟩

end

/-- The rounded fee shows every fee. -/
lemma WithinBounds.onOutput_eq_zero (h : WithinBounds env) {client : Address}
    (hnone : getEffectiveRouterFeeOnOutput env client = 0) :
    (getFeeInfo env (resolveClient env client)).1 = 0 := by
  have hle := (h.getFeeInfo_le (resolveClient env client)).1
  unfold getEffectiveRouterFeeOnOutput at hnone
  generalize (getFeeInfo env (resolveClient env client)).1 = fee at *
  simp only [MAX_FEE_BPS] at hle
  dsimp only at hnone
  split_ifs at hnone <;> omega

lemma calculateFee_of_none {client : Address}
    (hout : (getFeeInfo env (resolveClient env client)).1 = 0)
    (hcut : (getFeeInfo env (resolveClient env client)).2 ≤ MAX_FEE_BPS) (amountIn : Nat)
    (s : RouterState) : calculateFee env amountIn client 0 s =
      .ok ((amountIn, [⟨env.routerFeeReceiver, 0⟩, ⟨client, 0⟩]), s) := by
  simp only [calculateFee, bind_eq_ok, require_eq_ok, checkedUint256_eq_ok, checkedSub_eq_ok]
  rw [hout]
  exact ⟨(), s, ⟨⟨Nat.zero_le _, hcut⟩, rfl⟩, (0, 0), s, rfl, 0, s, rfl, 0, s,
    ⟨by decide, rfl, rfl⟩, 0, s, ⟨by decide, rfl, rfl⟩, _, s, ⟨Nat.zero_le _, rfl, rfl⟩, rfl⟩

end FeeCalculator

namespace TychoRouter
open FeeCalculator

/-- Whatever was set: fees that are not refused as too high add up with what is left to the whole
output, a client without an address gets nothing, and there are no fees on an output that goes
straight to its receiver. -/
theorem calculateFee_of_verified (env : RouterEnv) (deployer : Address) (calls : List FeeCall)
    (p : SwapParams) {s s' : RouterState} {u : Unit}
    (hverified : verifyClientSignature (configured env deployer calls) p.clientFeeParams s =
      .ok (u, s')) :
    let env' := configured env deployer calls
    let fees := p.clientFeeParams
    let calculate := fun amountIn =>
      calculateFee env' amountIn fees.clientFeeReceiver fees.clientFeeBps
    let feeInfo := getFeeInfo env' (resolveClient env' fees.clientFeeReceiver)
    (∀ amountIn < 2 ^ 200, ∀ t, MAX_FEE_BPS < fees.clientFeeBps * 10000 + feeInfo.1 ∧
        calculate amountIn t = .error (.reverted .feeTooHigh) ∨
      ∃ amountOut routerFee share clientFee,
        calculate amountIn t = .ok ((amountOut, [⟨env'.routerFeeReceiver, routerFee⟩,
          ⟨fees.clientFeeReceiver, clientFee⟩]), t) ∧
        amountOut + (routerFee + clientFee) = amountIn ∧
        splitClientFee amountIn (fees.clientFeeBps * 10000) feeInfo.2 t =
          .ok ((clientFee, share), t) ∧
        share ≤ amountIn * (fees.clientFeeBps * 10000) / MAX_FEE_BPS ∧
        (fees.clientFeeReceiver = addressZero → clientFee = 0)) ∧
    (NoFees env' p → ∀ amountIn t, calculate amountIn t =
      .ok ((amountIn, [⟨env'.routerFeeReceiver, 0⟩, ⟨fees.clientFeeReceiver, 0⟩]), t)) := by
  intro env' fees calculate feeInfo
  have hbounds : WithinBounds env' := withinBounds_configured env deployer calls
  constructor
  · intro amountIn hamount t
    rcases Nat.lt_or_ge MAX_FEE_BPS (fees.clientFeeBps * 10000 + feeInfo.1) with hhigh | hfees
    · exact .inl ⟨hhigh, calculateFee_eq_error hhigh t⟩
    obtain ⟨amountOut, routerFee, share, clientFee, hrun, hsum, hsplit, hshare⟩ :=
      hbounds.calculateFee_eq_ok hamount hfees t
    refine .inr ⟨amountOut, routerFee, share, clientFee, hrun, hsum, hsplit, hshare, ?_⟩
    intro hzero
    have hnone : fees.clientFeeBps = 0 := ((verified_of_ok hverified).1.unsigned hzero).2
    have hclient := (of_splitClientFee_ok hsplit).1
    simp only [hnone, Nat.zero_mul, Nat.mul_zero, Nat.zero_div] at hclient
    omega
  · rintro ⟨hclient, hrouter⟩ amountIn t
    have hcut := (hbounds.getFeeInfo_le (resolveClient env' fees.clientFeeReceiver)).2
    change calculateFee env' amountIn _ p.clientFeeParams.clientFeeBps t = _
    rw [hclient]
    exact calculateFee_of_none (hbounds.onOutput_eq_zero hrouter) hcut amountIn t

/-- A fee of 1 % for the client, of which the router gets a fifth, and 0.01 % for the router. -/
def feeCalls : List FeeCall :=
  [⟨account 7, true, .setRouterFeeOnOutput 10000⟩,
    ⟨account 7, true, .setCustomRouterFeeOnClientFee (account 22) 20000000⟩]

def chargedSwap : SwapParams :=
  { helpedSwap 0 with clientFeeParams := ⟨100, account 22, 0, 9, account 22⟩ }

theorem calculateFee_of_verified_charged :
    let t := TychoRouter.deployed fun _ _ => 0
    ∃ amountOut routerFee clientFee,
      calculateFee (configured sampleEnv (account 5) feeCalls) 1000000 (account 22) 100 t =
        .ok ((amountOut, [⟨account 5, routerFee⟩, ⟨account 22, clientFee⟩]), t) ∧
      amountOut + (routerFee + clientFee) = 1000000 := by
  intro t
  have hsplit := (calculateFee_of_verified sampleEnv (account 5) feeCalls chargedSwap
    (s := t) rfl).1 1000000 (by decide) t
  rcases hsplit with ⟨hhigh, -⟩ | ⟨amountOut, routerFee, _, clientFee, hrun, hsum, -⟩
  · exact absurd hhigh (by decide)
  · exact ⟨amountOut, routerFee, clientFee, hrun, hsum⟩

end TychoRouter
end Tycho
