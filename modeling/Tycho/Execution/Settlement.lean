import Tycho.Execution.Hops

/-! What a swap does before and after its hops. -/
namespace Tycho
open Replay.Program List Vault Triple Quiet FeeCalculator TransferManager
variable {s s' : RouterState} {u : Unit} {n m : Nat} {env : RouterEnv}

namespace TychoRouter
variable (env : RouterEnv) (caller : Address) (funding : Funding) (p : SwapParams)

/-- The client of a swap and what it has signed. -/
structure Verified : Prop where
  signed : p.clientFeeParams.clientFeeReceiver ≠ addressZero →
    env.timestamp ≤ p.clientFeeParams.deadline ∧
      p.clientFeeParams.recoveredSigner = p.clientFeeParams.clientFeeReceiver
  unsigned : p.clientFeeParams.clientFeeReceiver = addressZero →
    p.clientFeeParams.maxClientContribution = 0 ∧ p.clientFeeParams.clientFeeBps = 0

def stored (isPermit2 useVault : Bool) (s : RouterState) : RouterState :=
  { s with
    tokenIn := p.tokenIn
    amountAllowed := if useVault then 0 else p.amountIn
    isPermit2 := isPermit2
    sender := caller
    useVault := useVault }

/-- The state before the call, with the value of the call in the router and the guard set. -/
def guarded (s : RouterState) : RouterState :=
  { s.move ETH_ADDRESS caller env.self funding.msgValue with entered := true }

/-- What is stored about the input, and what is accounted for of the value of the call. -/
inductive Stored (s : RouterState) : Funding → RouterState → Prop
  | wallet : Stored s (.wallet 0) (stored caller p false false s)
  | native {msgValue : Nat} {t : RouterState} (hpos : 0 < msgValue) (hvalue : msgValue = p.amountIn)
      (haccounted : Vault.Accounted s ETH_ADDRESS (int256 msgValue) t) :
      Stored s (.wallet msgValue) (stored caller p false false (t.emit (.native msgValue)))
  | vault : Stored s .vault (stored caller p false true s)
  | permit2 (permitted : Bool) : Stored s (.permit2 permitted) (stored caller p true false s)

structure Entered (s s₁ : RouterState) : Prop where
  value : funding.msgValue ≤ s.balances ETH_ADDRESS caller
  free : s.entered = false
  verified : Verified env p
  input : p.amountIn ≠ 0
  receiver : p.receiver ≠ addressZero
  minimum : p.minAmountOut ≠ 0
  stored : Stored caller p (guarded env caller funding s) funding s₁

/-- Every fee that is not zero is taken out of the output and credited to its recipient. -/
inductive FeesTaken (token : Address) : List FeeRecipient → RouterState → RouterState → Prop
  | nil (s : RouterState) : FeesTaken token [] s s
  | none {fee : FeeRecipient} {fees : List FeeRecipient} {s s' : RouterState}
      (hzero : fee.feeAmount = 0) (hrest : FeesTaken token fees s s') :
      FeesTaken token (fee :: fees) s s'
  | some {fee : FeeRecipient} {fees : List FeeRecipient} {s t s' : RouterState}
      (hpos : 0 < fee.feeAmount)
      (haccounted : Vault.Accounted s token (-int256 fee.feeAmount) t)
      (hrest : FeesTaken token fees
        ((t.emit (.fee token fee.feeAmount)).credit fee.recipient token fee.feeAmount) s') :
      FeesTaken token (fee :: fees) s s'

def netOutput (amountOut : Nat) : Nat :=
  if NoFees env p then amountOut
  else
    let fee := (getFeeInfo env (resolveClient env p.clientFeeParams.clientFeeReceiver)).1
    amountOut - (amountOut * (p.clientFeeParams.clientFeeBps * 10000) / FeeCalculator.MAX_FEE_BPS +
      amountOut * fee / FeeCalculator.MAX_FEE_BPS)

/-- The output after fees, with the state in which they are taken. -/
structure AfterFees (amountOut : Nat) (s : RouterState) (net : Nat) (s' : RouterState) : Prop where
  net_eq : net = netOutput env p amountOut
  taken : ∃ fees, net + (fees.map FeeRecipient.feeAmount).sum = amountOut ∧
    (NoFees env p → fees = []) ∧ FeesTaken p.tokenOut fees s s'

def charge (required : Nat) (s : RouterState) : RouterState :=
  (s.debit p.clientFeeParams.clientFeeReceiver p.tokenOut required).emit
    (.charged p.clientFeeParams.clientFeeReceiver p.tokenOut required)

/-- A contribution is needed, the client has agreed to it and has it in the vault. -/
structure Charged (amountOut : Nat) (s : RouterState) : Prop where
  needed : amountOut < p.minAmountOut
  agreed : p.minAmountOut - amountOut ≤ p.clientFeeParams.maxClientContribution
  enough : p.minAmountOut - amountOut ≤ s.vaultOf p.clientFeeParams.clientFeeReceiver p.tokenOut

inductive Contribution (amountOut : Nat) (s : RouterState) : Nat → RouterState → Prop
  | none (henough : p.minAmountOut ≤ amountOut) : Contribution amountOut s amountOut s
  | added {t : RouterState} (hcharged : Charged p amountOut s) (hdelta : 0 < s.delta p.tokenOut)
      (haccounted : Vault.Accounted (charge p (p.minAmountOut - amountOut) s) p.tokenOut
        (int256 (p.minAmountOut - amountOut)) t) :
      Contribution amountOut s p.minAmountOut
        (t.emit (.contributed p.tokenOut (p.minAmountOut - amountOut)))
  | credited (hcharged : Charged p amountOut s) (hdelta : s.delta p.tokenOut = 0)
      (hreceiver : p.receiver = env.self) :
      Contribution amountOut s p.minAmountOut
        (((charge p (p.minAmountOut - amountOut) s).credit caller p.tokenOut
          (p.minAmountOut - amountOut)).emit (.credited p.tokenOut (p.minAmountOut - amountOut)))
  | sent {t : RouterState} {sent result : Nat} (hcharged : Charged p amountOut s)
      (hdelta : s.delta p.tokenOut = 0) (hreceiver : p.receiver ≠ env.self)
      (hbalance : p.minAmountOut - amountOut ≤ s.balances p.tokenOut env.self)
      (hwaits : Waits env.self ((charge p (p.minAmountOut - amountOut) s).move p.tokenOut env.self
        p.receiver (p.minAmountOut - amountOut)) t)
      (hresult : result = amountOut + sent) :
      Contribution amountOut s result (t.emit (.paid p.tokenOut p.receiver sent))

structure ContributionSeen (amountOut : Nat) (s t : RouterState) : Prop where
  charged : Charged p amountOut s
  balance : p.minAmountOut - amountOut ≤ s.balances p.tokenOut env.self
  receiver : p.receiver ≠ env.self
  waits : Waits env.self ((charge p (p.minAmountOut - amountOut) s).move p.tokenOut env.self
    p.receiver (p.minAmountOut - amountOut)) t

inductive Payment (amountOut : Nat) (s : RouterState) : Nat → RouterState → Prop
  | none (hdelta : s.delta p.tokenOut ≤ 0) : Payment amountOut s amountOut s
  | credited {t t' : RouterState} (hdelta : 0 < s.delta p.tokenOut)
      (hreceiver : p.receiver = env.self)
      (haccounted : Vault.Accounted s p.tokenOut (-int256 amountOut) t)
      (hcredited : amountOut = 0 ∧ t' = t.emit (.settled p.tokenOut amountOut) ∨
        t' = (t.emit (.settled p.tokenOut amountOut)).credit caller p.tokenOut amountOut) :
      Payment amountOut s amountOut (t'.emit (.credited p.tokenOut amountOut))
  | sent {t t' : RouterState} {sent : Nat} (hdelta : 0 < s.delta p.tokenOut)
      (hreceiver : p.receiver ≠ env.self)
      (haccounted : Vault.Accounted s p.tokenOut (-int256 amountOut) t)
      (hbalance : amountOut ≤ s.balances p.tokenOut env.self)
      (hwaits : Waits env.self ((t.emit (.settled p.tokenOut amountOut)).move p.tokenOut env.self
        p.receiver amountOut) t') :
      Payment amountOut s sent (t'.emit (.paid p.tokenOut p.receiver sent))

inductive PaymentSeen (amountOut : Nat) (s t' : RouterState) : Prop
  | intro {t : RouterState} (hreceiver : p.receiver ≠ env.self)
      (haccounted : Vault.Accounted s p.tokenOut (-int256 amountOut) t)
      (hbalance : amountOut ≤ s.balances p.tokenOut env.self)
      (hwaits : Waits env.self ((t.emit (.settled p.tokenOut amountOut)).move p.tokenOut env.self
        p.receiver amountOut) t')

/-- The deltas at the end: none, or that of the input that the vault pays for. -/
inductive Finalized (s : RouterState) : RouterState → Prop
  | none (hcount : s.nonZeroDeltaCount = 0) : Finalized s s
  | burned (huse : s.useVault = true) (hcount : s.nonZeroDeltaCount = 1)
      (hdelta : s.delta p.tokenIn ≠ 0) (hinput : s.delta p.tokenIn = -int256 p.amountIn)
      (henough : p.amountIn ≤ s.vaultOf caller p.tokenIn) :
      Finalized s ({ (s.debit caller p.tokenIn p.amountIn).setDelta p.tokenIn 0 with
        nonZeroDeltaCount := 0 }.emit (.debited p.tokenIn p.amountIn))

/-- From the end of the hops, with their output, to the end of the swap. -/
inductive Finished (amountOut : Nat) (s : RouterState) : Nat → RouterState → Prop
  | intro {net contributed result : Nat} {s₁ s₂ s₃ s' : RouterState}
      (hfees : AfterFees env p amountOut s net s₁)
      (hcontribution : Contribution env caller p net s₁ contributed s₂)
      (hpayment : Payment env caller p contributed s₂ result s₃)
      (hfinal : Finalized caller p s₃ s') (hminimum : p.minAmountOut ≤ result) :
      Finished amountOut s result { s' with entered := false }

inductive FinishSeen (amountOut : Nat) (s t : RouterState) : Prop
  | contribution {net : Nat} {s₁ : RouterState} (hfees : AfterFees env p amountOut s net s₁)
      (hseen : ContributionSeen env p net s₁ t)
  | payment {net contributed : Nat} {s₁ s₂ : RouterState}
      (hfees : AfterFees env p amountOut s net s₁)
      (hcontribution : Contribution env caller p net s₁ contributed s₂)
      (hseen : PaymentSeen env p contributed s₂ t)

section
variable {env caller funding p}

lemma verified_of_ok (h : verifyClientSignature env p.clientFeeParams s = .ok (u, s')) :
    Verified env p ∧ s = s' := by
  unfold verifyClientSignature at h
  split_ifs at h with hclient
  · obtain ⟨hunsigned, rfl⟩ := require_eq_ok.mp h
    exact ⟨⟨fun hne => absurd hclient hne, fun _ => hunsigned⟩, rfl⟩
  · simp only [bind_eq_ok, require_eq_ok] at h
    obtain ⟨_, _, ⟨hdeadline, rfl⟩, hsigner, rfl⟩ := h
    exact ⟨⟨fun _ => ⟨hdeadline, hsigner⟩, fun heq => absurd heq hclient⟩, rfl⟩

lemma quiet_verifyClientSignature (fees : ClientFeeParams) :
    Quiet (verifyClientSignature env fees) :=
  quiet_ite quiet_require (quiet_require.bind fun _ => quiet_require)

lemma stored_of_ok (h : storeInput caller p funding s = .ok (u, s')) :
    Stored caller p s funding s' := by
  cases funding with
  | wallet msgValue =>
    simp only [storeInput, bind_eq_ok, tstoreTransferFromInfo, modify_eq_ok] at h
    obtain ⟨_, t, hnative, rfl⟩ := h
    unfold updateNativeDeltaAccounting at hnative
    split_ifs at hnative with hpos
    · simp only [bind_eq_ok, require_eq_ok, emit_eq_ok] at hnative
      obtain ⟨_, _, ⟨hvalue, rfl⟩, _, t', hupdate, rfl⟩ := hnative
      exact .native hpos hvalue (accounted_of_ok hupdate)
    · obtain ⟨-, rfl⟩ := pure_eq_ok.mp hnative
      obtain rfl : msgValue = 0 := by omega
      exact .wallet
  | vault =>
    simp only [storeInput, tstoreTransferFromInfo, modify_eq_ok] at h
    subst h
    exact .vault
  | permit2 permitted =>
    simp only [storeInput, bind_eq_ok, require_eq_ok, tstoreTransferFromInfo, modify_eq_ok] at h
    obtain ⟨_, _, ⟨-, rfl⟩, rfl⟩ := h
    exact .permit2 permitted

lemma quiet_storeInput : Quiet (storeInput caller p funding) := by
  cases funding with
  | wallet =>
    refine bind (quiet_ite ?_ (quiet_pure _)) fun _ => quiet_modify _
    exact quiet_require.bind fun _ => (quiet_updateDeltaAccounting _ _).bind fun _ =>
      quiet_emit _
  | vault => exact quiet_modify _
  | permit2 => exact quiet_require.bind fun _ => quiet_modify _

lemma feesTaken_of_ok {token : Address} {fees : List FeeRecipient}
    (h : fees.forM (takeFee token) s = .ok (u, s')) : FeesTaken token fees s s' := by
  induction fees generalizing s with
  | nil =>
    obtain ⟨-, rfl⟩ := pure_eq_ok.mp h
    exact .nil s
  | cons _ _ ih =>
    rw [forM_eq_forM, forM_cons, bind_eq_ok] at h
    obtain ⟨_, t, hfee, hrest⟩ := h
    unfold takeFee at hfee
    split_ifs at hfee with hpos
    · simp only [bind_eq_ok, negInt256_eq_ok, emit_eq_ok] at hfee
      obtain ⟨_, _, ⟨-, rfl, rfl⟩, _, t', hupdate, _, _, rfl, hcredit⟩ := hfee
      rcases of_creditVault_ok hcredit with ⟨hzero, -⟩ | rfl
      · omega
      · exact .some hpos (accounted_of_ok hupdate) (ih hrest)
    · obtain ⟨-, rfl⟩ := pure_eq_ok.mp hfee
      exact .none (by omega) (ih hrest)

lemma quiet_takeFee (token : Address) (fee : FeeRecipient) : Quiet (takeFee token fee) :=
  quiet_ite ((quiet_checkedInt256 _).bind fun _ => (quiet_updateDeltaAccounting _ _).bind
    fun _ => (quiet_emit _).bind fun _ => quiet_creditVault _ _ _) (quiet_pure _)

lemma quiet_forM_takeFee (token : Address) (fees : List FeeRecipient) :
    Quiet (fees.forM (takeFee token)) := by
  induction fees with
  | nil => exact quiet_pure _
  | cons fee _ ih => exact (quiet_takeFee token fee).bind fun _ => ih

end
end TychoRouter

namespace FeeCalculator
lemma of_splitClientFee_ok {amountOut scaled cutBps : Nat} {fee : Nat × Nat}
    (h : splitClientFee amountOut scaled cutBps s = .ok (fee, s')) :
    fee.1 + fee.2 = amountOut * scaled / MAX_FEE_BPS ∧ s = s' := by
  unfold splitClientFee at h
  split_ifs at h with hpos
  · simp only [bind_eq_ok, checkedUint256_eq_ok, checkedSub_eq_ok, pure_eq_ok] at h
    obtain ⟨_, _, ⟨-, rfl, rfl⟩, cut, t, hcut, _, _, ⟨hle, rfl, rfl⟩, rfl, rfl⟩ := h
    refine ⟨Nat.sub_add_cancel hle, ?_⟩
    unfold routerFeeOnClientFee at hcut
    split_ifs at hcut
    · simp only [bind_eq_ok, checkedUint256_eq_ok, pure_eq_ok] at hcut
      obtain ⟨_, _, ⟨-, -, rfl⟩, -, rfl⟩ := hcut
      rfl
    · exact (pure_eq_ok.mp hcut).2
  · obtain ⟨rfl, rfl⟩ := pure_eq_ok.mp h
    obtain rfl : scaled = 0 := by omega
    exact ⟨by simp, rfl⟩

lemma of_routerFeeOnOutput_ok {amountOut bps fee : Nat}
    (h : routerFeeOnOutput amountOut bps s = .ok (fee, s')) :
    fee = amountOut * bps / MAX_FEE_BPS ∧ s = s' := by
  unfold routerFeeOnOutput at h
  split_ifs at h with hpos
  · simp only [bind_eq_ok, checkedUint256_eq_ok, pure_eq_ok] at h
    obtain ⟨_, _, ⟨-, rfl, rfl⟩, rfl, rfl⟩ := h
    exact ⟨rfl, rfl⟩
  · obtain ⟨rfl, rfl⟩ := pure_eq_ok.mp h
    obtain rfl : bps = 0 := by omega
    exact ⟨by simp, rfl⟩

/-- The fees and what is left of the output add up to it. -/
lemma of_calculateFee_ok {amountIn clientFeeBps : Nat} {client : Address}
    {r : Nat × List FeeRecipient}
    (h : calculateFee env amountIn client clientFeeBps s = .ok (r, s')) :
    r.1 + (r.2.map FeeRecipient.feeAmount).sum = amountIn ∧
      r.1 = amountIn - (amountIn * (clientFeeBps * 10000) / MAX_FEE_BPS +
        amountIn * (getFeeInfo env (resolveClient env client)).1 / MAX_FEE_BPS) ∧ s = s' := by
  simp only [calculateFee, bind_eq_ok, require_eq_ok, checkedUint256_eq_ok, checkedSub_eq_ok,
    pure_eq_ok] at h
  obtain ⟨_, _, ⟨-, rfl⟩, fee, _, hfee, onOutput, _, hout, _, _, ⟨-, rfl, rfl⟩, _, _,
    ⟨-, rfl, rfl⟩, _, _, ⟨hle, rfl, rfl⟩, rfl, rfl⟩ := h
  obtain ⟨hsum, rfl⟩ := of_splitClientFee_ok hfee
  obtain ⟨rfl, rfl⟩ := of_routerFeeOnOutput_ok hout
  refine ⟨?_, ?_, rfl⟩
  · simp only [map_cons, map_nil, sum_cons, sum_nil]
    omega
  · change amountIn - _ = amountIn - _
    omega

lemma quiet_calculateFee (amountIn : Nat) (client : Address) (clientFeeBps : Nat) :
    Quiet (calculateFee env amountIn client clientFeeBps) := by
  have hcut : ∀ a b, Quiet (routerFeeOnClientFee a b) := fun _ _ =>
    quiet_ite ((quiet_checkedUint256 _).bind fun _ => quiet_pure _) (quiet_pure _)
  have hclient : ∀ a b c, Quiet (splitClientFee a b c) := fun _ _ _ =>
    quiet_ite ((quiet_checkedUint256 _).bind fun _ => (hcut _ _).bind fun _ =>
      (quiet_checkedSub _ _).bind fun _ => quiet_pure _) (quiet_pure _)
  have hout : ∀ a b, Quiet (routerFeeOnOutput a b) := fun _ _ =>
    quiet_ite ((quiet_checkedUint256 _).bind fun _ => quiet_pure _) (quiet_pure _)
  exact quiet_require.bind fun _ => (hclient _ _ _).bind fun _ => (hout _ _).bind fun _ =>
    (quiet_checkedUint256 _).bind fun _ => (quiet_checkedUint256 _).bind fun _ =>
      (quiet_checkedSub _ _).bind fun _ => quiet_pure _

end FeeCalculator

variable {O : RouterState → Prop} {Q : Nat → RouterState → Prop}

variable {P : RouterState → Prop} {s₀ : RouterState}

namespace TychoRouter
variable {caller : Address} {funding : Funding} {p : SwapParams}
lemma afterFees_of_ok (h : afterFees env p n s = .ok (m, s')) : AfterFees env p n s m s' := by
  unfold afterFees at h
  split_ifs at h with hfees
  · obtain ⟨rfl, rfl⟩ := pure_eq_ok.mp h
    exact ⟨by rw [netOutput, if_pos hfees], [], rfl, fun _ => rfl, .nil s⟩
  · simp only [takeFees, bind_eq_ok, pure_eq_ok] at h
    obtain ⟨r, _, hcalculate, _, t, htaken, rfl, rfl⟩ := h
    obtain ⟨hsum, hnet, rfl⟩ := of_calculateFee_ok hcalculate
    refine ⟨?_, r.2, hsum, fun hno => absurd hno hfees, feesTaken_of_ok htaken⟩
    rw [netOutput, if_neg hfees]
    exact hnet

lemma quiet_afterFees : Quiet (afterFees env p n) :=
  quiet_ite (quiet_pure _) ((quiet_calculateFee _ _ _).bind fun _ =>
    (quiet_forM_takeFee _ _).bind fun _ => quiet_pure _)

lemma finalized_of_ok (h : finalizeBalances caller p.tokenIn p.amountIn s = .ok (u, s')) :
    Finalized caller p s s' := by
  simp only [finalizeBalances, bind_eq_ok, get_eq_ok] at h
  obtain ⟨_, _, ⟨rfl, rfl⟩, h⟩ := h
  by_cases huse : s.useVault
  · rw [if_pos huse] at h
    simp only [bind_eq_ok, require_eq_ok] at h
    obtain ⟨_, _, ⟨hle, rfl⟩, h⟩ := h
    split_ifs at h with hone
    · simp only [bind_eq_ok, require_eq_ok, negInt256_eq_ok, burn_eq_ok,
        modify_eq_ok, emit_eq_ok] at h
      obtain ⟨_, _, ⟨hdelta, rfl⟩, _, _, ⟨-, rfl, rfl⟩, _, _, ⟨hinput, rfl⟩, _, _,
        ⟨-, henough, rfl⟩, _, _, rfl, rfl⟩ := h
      exact .burned huse hone hdelta hinput henough
    · obtain ⟨-, rfl⟩ := pure_eq_ok.mp h
      exact .none (by omega)
  · rw [if_neg huse] at h
    obtain ⟨hzero, rfl⟩ := require_eq_ok.mp h
    exact .none hzero

lemma quiet_finalizeBalances (user inputToken : Address) (inputAmount : Nat) :
    Quiet (finalizeBalances user inputToken inputAmount) := by
  refine quiet_get.bind fun _ => quiet_ite ?_ quiet_require
  refine quiet_require.bind fun _ => quiet_ite ?_ (quiet_pure _)
  exact quiet_require.bind fun _ => (quiet_checkedInt256 _).bind fun _ => quiet_require.bind
    fun _ => (quiet_burn _ _ _).bind fun _ => (quiet_modify _).bind fun _ => quiet_emit _

section
variable {required : Nat}

lemma charged_of_ok (hneeded : n < p.minAmountOut) (hrequired : required = p.minAmountOut - n)
    (hagreed : required ≤ p.clientFeeParams.maxClientContribution)
    (h : debitVault p.clientFeeParams.clientFeeReceiver p.tokenOut required s = .ok (u, s')) :
    Charged p n s ∧ s'.emit
      (.charged p.clientFeeParams.clientFeeReceiver p.tokenOut required) = charge p required s := by
  subst hrequired
  obtain ⟨henough, hdebit⟩ := of_debitVault_ok h
  refine ⟨⟨hneeded, hagreed, henough⟩, ?_⟩
  rcases hdebit with ⟨hzero, -⟩ | rfl
  · omega
  · rfl

lemma triple_emit_pure {x : RouterM Unit} {e : RouterEvent} {Q : Nat → RouterState → Prop}
    {O : RouterState → Prop} (hx : Quiet x) (h : ∀ t, x s = .ok ((), t) → Q n (t.emit e)) :
    Triple (fun t => t = s) (do x; emit e; pure n) Q O := by
  refine triple (hx.bind fun _ => (quiet_emit _).bind fun _ => quiet_pure _) ?_
  rintro _ _ _ rfl hrun
  simp only [bind_eq_ok, emit_eq_ok, pure_eq_ok] at hrun
  obtain ⟨_, t, hrun, _, _, rfl, rfl, rfl⟩ := hrun
  exact h t hrun

/-- The contribution of the client from the state in which its vault balance is debited. -/
lemma triple_addContribution (hcharged : Charged p n s) (hrequired : required = p.minAmountOut - n)
    :
    Triple (fun t => t = charge p required s) (addContribution env caller p n required)
      (Contribution env caller p n s) (ContributionSeen env p n s) := by
  subst hrequired
  apply triple_get_bind
  rintro _ rfl
  apply triple_ite <;> intro hdelta
  · refine triple_emit_pure (quiet_updateDeltaAccounting _ _) fun t hupdate => ?_
    exact .added hcharged hdelta (accounted_of_ok hupdate)
  apply triple_ite <;> intro hzero
  swap
  · exact triple_revert _
  unfold payContribution
  apply triple_ite <;> intro hreceiver
  · refine triple_emit_pure (quiet_creditVault _ _ _) fun t hcredit => ?_
    rcases of_creditVault_ok hcredit with ⟨hnone, -⟩ | rfl
    · have hneeded := hcharged.needed
      omega
    · exact .credited hcharged hzero hreceiver
  apply triple_ite <;> intro hnative
  · refine bind (Q := fun _ t => p.minAmountOut - n ≤ s.balances p.tokenOut env.self ∧
      t = (charge p (p.minAmountOut - n) s).move p.tokenOut env.self p.receiver
        (p.minAmountOut - n)) ?_ fun _ => triple_of_forall ?_
    · refine (quiet_moveToken _ _ _ _).triple ?_
      rintro _ _ t rfl hrun
      rw [← hnative] at hrun
      obtain ⟨hbalance, rfl⟩ := moveToken_eq_ok.mp hrun
      exact ⟨hbalance, rfl⟩
    · rintro _ ⟨hbalance, rfl⟩
      refine bind (Q := fun _ => Waits env.self ((charge p (p.minAmountOut - n) s).move
        p.tokenOut env.self p.receiver (p.minAmountOut - n))) ?_ fun _ => ?_
      · exact (onlyWaits_play env p.onContribution _).mono (fun _ h => h ▸ .refl) (fun _ _ h => h)
          fun t h => ⟨hcharged, hbalance, hreceiver, h⟩
      · refine triple ((quiet_emit _).bind fun _ => quiet_pure _) ?_
        intro t m t' hwaits hrun
        simp only [bind_eq_ok, emit_eq_ok, pure_eq_ok] at hrun
        obtain ⟨_, _, rfl, rfl, rfl⟩ := hrun
        refine .sent hcharged hzero hreceiver hbalance hwaits ?_
        have hneeded := hcharged.needed
        omega
  · refine bind (Q := fun _ t => p.minAmountOut - n ≤ s.balances p.tokenOut env.self ∧
      Waits env.self ((charge p (p.minAmountOut - n) s).move p.tokenOut env.self p.receiver
        (p.minAmountOut - n)) t) ?_ fun sent => ?_
    · apply triple_transferOut
      rintro _ rfl hbalance
      rw [onlyIf, if_neg hnative]
      refine triple_pure () ?_
      rintro _ rfl m - -
      exact ⟨hbalance, .refl⟩
    · refine triple ((quiet_emit _).bind fun _ => quiet_checkedUint256 _) ?_
      rintro t m t' ⟨hbalance, hwaits⟩ hrun
      simp only [bind_eq_ok, emit_eq_ok, checkedUint256_eq_ok] at hrun
      obtain ⟨_, _, rfl, -, rfl, rfl⟩ := hrun
      exact .sent hcharged hzero hreceiver hbalance hwaits rfl

lemma triple_maybeAddClientContribution :
    Triple (fun t => t = s) (maybeAddClientContribution env caller p n)
      (Contribution env caller p n s) (ContributionSeen env p n s) := by
  apply triple_ite <;> intro hneeded
  swap
  · refine triple_pure n ?_
    rintro _ rfl
    exact .none (by omega)
  refine triple_require.bind fun _ => triple_of_forall ?_
  rintro s ⟨rfl, hagreed⟩
  refine bind (Q := fun _ t => Charged p n s ∧ t.emit
    (.charged p.clientFeeParams.clientFeeReceiver p.tokenOut (p.minAmountOut - n)) =
      charge p (p.minAmountOut - n) s) ?_ fun _ => triple_of_forall ?_
  · refine (quiet_debitVault _ _ _).triple ?_
    rintro _ _ t rfl hrun
    exact charged_of_ok hneeded rfl hagreed hrun
  · rintro t ⟨hcharged, ht⟩
    refine bind (Q := fun _ t' => t' = charge p (p.minAmountOut - n) s) ?_ fun _ =>
      triple_addContribution hcharged rfl
    refine (quiet_emit _).triple ?_
    rintro _ _ t' rfl hrun
    exact (emit_eq_ok.mp hrun).symm.trans ht

end

lemma triple_payRemaining :
    Triple (fun t => t = s) (payRemaining env caller p n) (Payment env caller p n s)
      (PaymentSeen env p n s) := by
  apply triple_get_bind
  rintro s rfl
  apply triple_ite <;> intro hdelta
  swap
  · refine triple_pure n ?_
    rintro _ rfl
    exact .none (by omega)
  refine bind (Q := fun z t => z = -int256 n ∧ t = s) ?_ fun z => triple_of_forall ?_
  · refine (quiet_checkedInt256 _).triple ?_
    rintro _ _ t rfl hrun
    obtain ⟨-, hz, rfl⟩ := negInt256_eq_ok.mp hrun
    exact ⟨hz.symm, rfl⟩
  rintro s ⟨hz, rfl⟩
  rw [hz]
  refine bind (Q := fun _ t => Vault.Accounted s p.tokenOut (-int256 n) t) ?_ fun _ =>
    triple_of_forall fun t haccounted => ?_
  · refine (quiet_updateDeltaAccounting _ _).triple ?_
    rintro _ _ t rfl hrun
    exact accounted_of_ok hrun
  refine bind (Q := fun _ t' => t' = t.emit (.settled p.tokenOut n)) ?_ fun _ => ?_
  · refine (quiet_emit _).triple ?_
    rintro _ _ t' rfl hrun
    exact (emit_eq_ok.mp hrun).symm
  apply triple_ite <;> intro hreceiver
  · refine triple_emit_pure (quiet_creditVault _ _ _) fun t' hcredit => ?_
    exact .credited hdelta hreceiver haccounted (of_creditVault_ok hcredit)
  · have hsame : t.balances = s.balances := by
      obtain ⟨d, c, rfl⟩ := haccounted.exists
      rfl
    refine bind (Q := fun _ t' => n ≤ s.balances p.tokenOut env.self ∧
      Waits env.self ((t.emit (.settled p.tokenOut n)).move p.tokenOut env.self p.receiver n) t')
      ?_ fun sent => ?_
    · apply triple_transferOut
      rintro _ rfl hbalance
      change n ≤ t.balances p.tokenOut env.self at hbalance
      rw [hsame] at hbalance
      have hhook := (onlyWaits_play env p.onPaid).onlyIf (c := p.tokenOut = ETH_ADDRESS)
        ((t.emit (.settled p.tokenOut n)).move p.tokenOut env.self p.receiver n)
      exact hhook.mono (fun _ h => h ▸ .refl) (fun _ _ h m _ _ => ⟨hbalance, h⟩)
        fun t' h => ⟨hreceiver, haccounted, hbalance, h⟩
    · refine triple ((quiet_emit _).bind fun _ => quiet_pure _) ?_
      rintro t' m t'' ⟨hbalance, hwaits⟩ hrun
      simp only [bind_eq_ok, emit_eq_ok, pure_eq_ok] at hrun
      obtain ⟨_, _, rfl, rfl, rfl⟩ := hrun
      exact .sent hdelta hreceiver haccounted hbalance hwaits

/-- From the end of the hops to the end of the guarded part of the call. -/
lemma triple_settle
    (hfinish : ∀ s m t, P s → Finished env caller p n s m { t with entered := false } → Q m t)
    (hseen : ∀ s t, P s → FinishSeen env caller p n s t → O t) :
    Triple P (afterFees env p n >>= fun net =>
      maybeAddClientContribution env caller p net >>= settleOutput env caller p) Q O := by
  apply triple_of_forall
  intro s hs
  refine bind (Q := fun net t => AfterFees env p n s net t) ?_ fun net =>
    triple_of_forall fun s₁ hfees => ?_
  · refine quiet_afterFees.triple ?_
    rintro _ net t rfl hrun
    exact afterFees_of_ok hrun
  refine (triple_maybeAddClientContribution.mono (fun _ h => h) (fun _ _ h => h)
    fun t h => hseen s t hs (.contribution hfees h)).bind fun contributed =>
      triple_of_forall fun s₂ hcontribution => ?_
  refine (triple_payRemaining.mono (fun _ h => h) (fun _ _ h => h)
    fun t h => hseen s t hs (.payment hfees hcontribution h)).bind fun result =>
      triple_of_forall fun s₃ hpayment => ?_
  refine triple ((quiet_finalizeBalances _ _ _).bind fun _ => quiet_require.bind
    fun _ => quiet_pure _) ?_
  rintro _ m t rfl hrun
  simp only [bind_eq_ok, require_eq_ok, pure_eq_ok] at hrun
  obtain ⟨_, t', hfinal, _, _, ⟨hminimum, rfl⟩, rfl, rfl⟩ := hrun
  exact hfinish s _ _ hs (.intro hfees hcontribution hpayment (finalized_of_ok hfinal) hminimum)

/-- What is shown of the hops carries over to the swap, by what happens before and after them. -/
lemma triple_swap_of_hops {R : Nat → RouterState → Prop} (route : Route)
    (hstart : ∀ s, Entered env caller funding p s₀ s → P s)
    (hhops : Triple P (hopsOf env p route (finalReceiver env p)) R O)
    (hfinish : ∀ n s m t, R n s → Finished env caller p n s m t → Q m t)
    (hseen : ∀ n s t, R n s → FinishSeen env caller p n s t → O t) :
    Triple (fun s => s = s₀) (swap env caller p route funding) Q O := by
  rw [swap_eq_enter]
  refine bind (Q := fun _ s => funding.msgValue ≤ s₀.balances ETH_ADDRESS caller ∧
    s = s₀.move ETH_ADDRESS caller env.self funding.msgValue) ?_ fun _ => ?_
  · refine (quiet_moveToken _ _ _ _).triple ?_
    rintro _ _ t rfl hrun
    exact ⟨(moveToken_eq_ok.mp hrun).1, (moveToken_eq_ok.mp hrun).2.symm⟩
  refine triple_require.bind fun _ => triple_get_bind ?_
  rintro _ ⟨⟨hvalue, rfl⟩, -⟩
  refine triple_require.bind fun _ => triple_of_forall ?_
  rintro _ ⟨rfl, hfree⟩
  refine bind (Q := fun _ s => s = guarded env caller funding s₀)
    (triple_set _ fun _ _ => rfl) fun _ => ?_
  -- the guarded part, whose end is followed by the release of the guard
  refine bind (Q := fun m t => Q m { t with entered := false }) ?_ fun m => ?_
  swap
  · refine triple ((quiet_modify _).bind fun _ => quiet_pure m) ?_
    intro t m' t' ht hrun
    simp only [bind_eq_ok, modify_eq_ok, pure_eq_ok] at hrun
    obtain ⟨_, _, rfl, rfl, rfl⟩ := hrun
    exact ht
  refine bind (Q := fun _ s => Verified env p ∧ s = guarded env caller funding s₀) ?_ fun _ => ?_
  · refine (quiet_verifyClientSignature _).triple ?_
    rintro _ _ t rfl hrun
    obtain ⟨hverified, rfl⟩ := verified_of_ok hrun
    exact ⟨hverified, rfl⟩
  refine bind (Q := fun _ s => Verified env p ∧
    Stored caller p (guarded env caller funding s₀) funding s) ?_ fun _ => ?_
  · refine quiet_storeInput.triple ?_
    rintro _ _ t ⟨hverified, rfl⟩ hrun
    exact ⟨hverified, stored_of_ok hrun⟩
  refine triple_require.bind fun _ => triple_require.bind fun _ => triple_require.bind fun _ => ?_
  refine mono ?_ (P := P) ?_ (fun _ _ h => h) fun _ h => h
  · refine hhops.bind fun n => ?_
    exact triple_settle (Q := fun m t => Q m { t with entered := false })
      (fun s m t hs => hfinish n s m _ hs) (hseen n)
  · rintro s ⟨⟨⟨⟨hverified, hstored⟩, hinput⟩, hreceiver, -⟩, hminimum⟩
    exact hstart s ⟨hvalue, hfree, hverified, hinput, hreceiver, hminimum, hstored⟩

/-- To show something of a swap it is enough to find what its hops keep, to show it when they
begin, and to look at what happens after them. -/
lemma triple_swap {J : Nat → RouterState → Prop} (route : Route)
    (hstart : ∀ s, Entered env caller funding p s₀ s → J 0 s)
    (hhop : HopKeeps env (finalReceiver env p) J O)
    (hfinish : ∀ x n s m t, (¬Degenerate p route → x = n) → J x s → Finished env caller p n s m t →
      Q m t) (hseen : ∀ x n s t, J x s → FinishSeen env caller p n s t → O t) :
    Triple (fun s => s = s₀) (swap env caller p route funding) Q O := by
  refine triple_swap_of_hops route hstart (triple_hopsOf hhop p route) ?_ ?_
  · rintro n s m t ⟨x, hx, hs⟩ hfind
    exact hfinish x n s m t hx hs hfind
  · rintro n s t ⟨x, -, hs⟩ hseen'
    exact hseen x n s t hs hseen'

end TychoRouter
end Tycho
