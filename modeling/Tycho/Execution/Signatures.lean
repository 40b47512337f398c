import Tycho.Collections.Fallible
import Tycho.Execution.Log

/-! What a client signature allows over a run of the router. -/
namespace Tycho
open Replay Replay.Program List RouterEvent Nat

/-- What the digest of a client signature covers. -/
structure SignedPayload where
  clientFeeBps : Nat
  clientFeeReceiver : Address
  maxClientContribution : Nat
  deadline : Nat
  amountIn : Nat
  tokenIn : Address
  tokenOut : Address
  minAmountOut : Nat
  receiver : Address
  swaps : List UInt8
deriving DecidableEq

def SwapParams.payload (p : SwapParams) (c : Calldata) : SignedPayload where
  clientFeeBps := p.clientFeeParams.clientFeeBps
  clientFeeReceiver := p.clientFeeParams.clientFeeReceiver
  maxClientContribution := p.clientFeeParams.maxClientContribution
  deadline := p.clientFeeParams.deadline
  amountIn := p.amountIn
  tokenIn := p.tokenIn
  tokenOut := p.tokenOut
  minAmountOut := p.minAmountOut
  receiver := p.receiver
  swaps := c.swaps

/-- The call carries the client's signature of the payload. -/
def RouterCall.Carries (signed : SignedPayload) : RouterCall → Prop
  | .swap _ _ p route => p.payload route.calldata = signed ∧
      p.clientFeeParams.recoveredSigner = signed.clientFeeReceiver
  | _ => False

instance (signed : SignedPayload) : DecidablePred (RouterCall.Carries signed)
  | .swap .. => inferInstanceAs (Decidable (_ ∧ _))
  | .deposit .. => inferInstanceAs (Decidable False)
  | .withdraw .. => inferInstanceAs (Decidable False)
  | .outside .. => inferInstanceAs (Decidable False)

/-- The contribution that is debited from a vault balance. -/
def RouterEvent.chargedTo (client token : Address) : RouterEvent → Nat
  | .charged c t amount => if c = client ∧ t = token then amount else 0
  | _ => 0

namespace TychoRouter

abbrev CallTrace := List ((RouterEnv × RouterCall) × Output)

def carried (signed : SignedPayload) (trace : CallTrace) : Nat :=
  trace.countP fun x => x.1.2.Carries signed

/-- What one call that carries the signature takes as contribution. -/
def spentBy (signed : SignedPayload) (x : (RouterEnv × RouterCall) × Output) : Nat :=
  if x.1.2.Carries signed then
    tally (chargedTo signed.clientFeeReceiver signed.tokenOut) x.2.log
  else 0

def spent (signed : SignedPayload) (trace : CallTrace) : Nat := (trace.map (spentBy signed)).sum

section
variable (signed : SignedPayload) (trace : CallTrace) (x : (RouterEnv × RouterCall) × Output)
include signed trace x

lemma carried_append_singleton : carried signed (trace ++ [x]) =
      carried signed trace + if x.1.2.Carries signed then 1 else 0 := by
  unfold carried
  rw [countP_append, countP_singleton]
  simp

lemma spent_append_singleton :
    spent signed (trace ++ [x]) = spent signed trace + spentBy signed x := by
  unfold spent
  rw [map_append, List.sum_append, map_singleton, sum_singleton]

end

end TychoRouter

namespace RouterEvent

def Unbilled : RouterEvent → Prop
  | .charged .. => False
  | _ => True

variable {e : RouterEvent}

lemma OfHops.unbilled (h : e.OfHops) : e.Unbilled := by
  cases e <;> trivial

lemma OfPayment.unbilled (h : e.OfPayment) : e.Unbilled := by
  cases e <;> trivial

lemma OfFees.unbilled (h : e.OfFees) : e.Unbilled := by
  cases e <;> trivial

lemma Unbilled.chargedTo_eq (h : e.Unbilled) (client token : Address) :
    e.chargedTo client token = 0 := by
  cases e <;> first | rfl | exact h.elim

end RouterEvent

variable {self : Address} {trace : CallTrace}

namespace TychoRouter
variable {env : RouterEnv} {caller : Address} {p : SwapParams} {s s' : RouterState} {n m : Nat}

lemma unbilled_of_waits (h : Waits self s s') : LogGrows RouterEvent.Unbilled s s' :=
  (logGrows_of_waits h).mono fun _ he => he.ofHops.unbilled

lemma PaymentSeen.unbilled (h : PaymentSeen env p n s s') : LogGrows RouterEvent.Unbilled s s' := by
  cases h with
  | intro _ haccount _ hwaits =>
    have hsent := (ofPayment_of_settled haccount).mono fun _ he => he.unbilled
    exact hsent.append (unbilled_of_waits hwaits) rfl

def billed (client token : Address) (s : RouterState) : Nat :=
  tally (chargedTo client token) s.log

lemma billed_eq (client token : Address) (h : LogGrows RouterEvent.Unbilled s s') :
    billed client token s' = billed client token s :=
  h.tally_eq fun _ he => he.chargedTo_eq client token

/-- The most that one call can take as contribution. -/
def contributionCap (p : SwapParams) : Nat :=
  min p.clientFeeParams.maxClientContribution p.minAmountOut

lemma billed_charge_le (client token : Address) (h : Charged p n s) :
    billed client token (charge p (p.minAmountOut - n) s) ≤
      billed client token s + contributionCap p := by
  have hagreed := h.agreed
  have hone : chargedTo client token (.charged p.clientFeeParams.clientFeeReceiver
      p.tokenOut (p.minAmountOut - n)) ≤ contributionCap p := by
    rw [chargedTo, contributionCap]
    split_ifs <;> omega
  unfold billed
  change tally _ (s.log ++ [_]) ≤ _
  rw [tally_append, tally_singleton]
  omega

lemma Contribution.billed_le (client token : Address) (h : Contribution env caller p n s m s') :
    billed client token s' ≤ billed client token s + contributionCap p := by
  have hafter : Charged p n s → LogGrows RouterEvent.Unbilled (charge p (p.minAmountOut - n) s) s' →
      billed client token s' ≤ billed client token s + contributionCap p := by
    intro hcharged hgrows
    rw [billed_eq client token hgrows]
    exact billed_charge_le client token hcharged
  cases h with
  | none => exact le_add_right _ _
  | added hcharged _ haccount =>
    exact hafter hcharged ((LogGrows.of_eq haccount.log_eq).trans (.of_emit rfl trivial))
  | credited hcharged => exact hafter hcharged (.of_emit rfl trivial)
  | sent hcharged _ _ _ hwaits =>
    have hsent : LogGrows RouterEvent.Unbilled (charge p (p.minAmountOut - n) s) _ :=
      (unbilled_of_waits hwaits).of_log_eq rfl
    exact hafter hcharged (hsent.trans (.of_emit rfl trivial))

/-- What a call can charge, whether it is still going on or not. -/
lemma billed_le_of_reaches (client token : Address) (route : Route) (funding : Funding)
    (hlog : s.log = []) (h : Reaches (swap env caller p route funding) s s') :
    billed client token s' ≤ contributionCap p := by
  have hhops : ∀ {t : RouterState}, (∀ e ∈ t.log, e.OfHops) → billed client token t = 0 :=
    fun ht => tally_eq_zero fun e he => (ht e he).unbilled.chargedTo_eq client token
  have hnet : ∀ {t t' : RouterState} {n net : Nat}, (∀ e ∈ t.log, e.OfHops) →
      AfterFees env p n t net t' → billed client token t' = 0 := by
    intro t t' n net ht hfees
    obtain ⟨fees, -, -, htaken⟩ := hfees.taken
    rw [billed_eq client token (htaken.logGrows.mono fun _ he => he.unbilled), hhops ht]
  have hhop : HopKeeps env (finalReceiver env p) (fun _ t => ∀ e ∈ t.log, e.OfHops)
      (fun t => billed client token t ≤ contributionCap p) := by
    intro x swap hop amount isFirstSwap isSplitSwap receiver isOutput _
    refine triple_callSwapOnExecutor env swap hop amount isFirstSwap isSplitSwap receiver isOutput
      ?_ ?_
    · intro t _ n t' ht _ _ hhopped
      have hgrows := hhopped.logGrows.mono fun _ he => he.ofHops
      exact LogGrows.forall_mem (.of_emit rfl trivial) (hgrows.forall_mem ht)
    · intro t t' ht _ _ hseen
      have hgrows := hseen.logGrows.mono fun _ he => he.ofHops
      rw [hhops (hgrows.forall_mem ht)]
      exact zero_le _
  refine Triple.reaches (P := fun t => t = s)
    (Q := fun t => billed client token t ≤ contributionCap p) ?_ rfl h
  refine triple_swap route (fun t hentered => hentered.ofHops hlog) hhop ?_ ?_
  · intro x n t m t' _ ht hfinal
    cases hfinal with
    | intro hfees hcontrib hpay hfinal =>
      have hbilled := hcontrib.billed_le client token
      have hend := billed_eq client token
        ((hpay.logGrows.trans hfinal.logGrows).mono fun _ he => he.unbilled)
      rw [hnet ht hfees, zero_add] at hbilled
      exact le_trans (le_of_eq hend) hbilled
  · intro x n t t' ht hseen
    cases hseen with
    | contribution hfees hseen =>
      have hbilled := billed_charge_le client token hseen.charged
      have hend := billed_eq client token (unbilled_of_waits hseen.waits)
      rw [hnet ht hfees, zero_add] at hbilled
      exact le_trans (le_of_eq hend) hbilled
    | payment hfees hcontrib hseen =>
      have hbilled := hcontrib.billed_le client token
      have hend := billed_eq client token hseen.unbilled
      rw [hnet ht hfees, zero_add] at hbilled
      exact le_trans (le_of_eq hend) hbilled

/-- What one step can charge under a signature. -/
lemma spentBy_le (signed : SignedPayload) {e : RouterEnv × RouterCall} {o : Output}
    (h : step self s e = some (o, s')) :
    spentBy signed (e, o) ≤ if e.2.Carries signed then
      min signed.maxClientContribution signed.minAmountOut else 0 := by
  obtain ⟨env, call⟩ := e
  unfold spentBy
  split_ifs with hcarries
  · cases call with
    | deposit => exact hcarries.elim
    | withdraw => exact hcarries.elim
    | outside => exact hcarries.elim
    | swap caller funding p route =>
      obtain ⟨rfl, -⟩ := hcarries
      have hreached : ∀ t, Reaches (swap env caller p route funding) { s with log := [] } t →
          billed p.clientFeeParams.clientFeeReceiver p.tokenOut t ≤ contributionCap p :=
        fun t => billed_le_of_reaches _ _ route funding rfl
      obtain ⟨-, -, ⟨hreach, hlog⟩ | ⟨-, hlog⟩⟩ := of_step h
      · rw [hlog]
        exact hreached s' hreach.of_map
      · rw [hlog]
        exact zero_le _
  · exact le_refl 0

lemma spent_le_of_run (signed : SignedPayload)
    {guard : RouterState → RouterEnv × RouterCall → Prop} (h : Run (step self) guard s trace s') :
    spent signed trace ≤
      carried signed trace * min signed.maxClientContribution signed.minAmountOut := by
  refine h.invariant (P := fun trace _ => spent signed trace ≤
    carried signed trace * min signed.maxClientContribution signed.minAmountOut) (zero_le _) ?_
  intro trace t e o t' ih _ hstep
  have hspent := spentBy_le signed hstep
  rw [spent_append_singleton, carried_append_singleton]
  change _ ≤ if e.2.Carries signed then _ else 0 at hspent
  split_ifs at hspent ⊢ with hcarries
  · rw [add_mul, one_mul]
    omega
  · rw [add_zero]
    omega

/-- Every call that carries the signature is the first one, or the client would afford the minimum
amount in each of them. -/
def Sparing (signed : SignedPayload) (trace : CallTrace) : Prop :=
  ∀ earlier x, earlier ++ [x] <+: trace → x.1.2.Carries signed → carried signed earlier = 0 ∨
      (carried signed earlier + 1) * signed.minAmountOut ≤ signed.maxClientContribution

lemma carried_of_sparing {signed : SignedPayload} (h : Sparing signed trace) :
    carried signed trace ≤ 1 ∨
      carried signed trace * signed.minAmountOut ≤ signed.maxClientContribution := by
  -- the last call that carries the signature decides
  induction trace using List.reverseRecOn with
  | nil => exact .inl (zero_le 1)
  | append_singleton trace x ih =>
    rw [carried_append_singleton]
    by_cases hcarries : x.1.2.Carries signed
    · rw [if_pos hcarries]
      rcases h trace x (prefix_refl _) hcarries with hfirst | hmany
      · exact .inl (by omega)
      · exact .inr hmany
    · rw [if_neg hcarries, add_zero]
      exact ih fun earlier y hearlier =>
        h earlier y (hearlier.trans (prefix_append trace [x]))

/-- A signature that is used sparingly costs the client no more than was signed. -/
theorem spent_le_of_sparing (signed : SignedPayload) {self : Address} {s s' : RouterState}
    {trace : CallTrace} (hrun : Run (step self) (fun _ _ => True) s trace s')
    (hsparing : Sparing signed trace) : spent signed trace ≤ signed.maxClientContribution := by
  have hspent := spent_le_of_run signed hrun
  rcases carried_of_sparing hsparing with hone | hmany
  · calc spent signed trace ≤ carried signed trace *
          min signed.maxClientContribution signed.minAmountOut := hspent
      _ ≤ 1 * min signed.maxClientContribution signed.minAmountOut :=
          mul_le_mul_right _ hone
      _ ≤ signed.maxClientContribution := by
          rw [one_mul]
          exact min_le_left _ _
  · calc spent signed trace ≤ carried signed trace *
          min signed.maxClientContribution signed.minAmountOut := hspent
      _ ≤ carried signed trace * signed.minAmountOut :=
          mul_le_mul_left _ (min_le_right _ _)
      _ ≤ signed.maxClientContribution := hmany

lemma sparing_of_carried {signed : SignedPayload} (h : carried signed trace ≤ 1) :
    Sparing signed trace := by
  intro earlier x hprefix hcarries
  have hle : carried signed (earlier ++ [x]) ≤ carried signed trace :=
    hprefix.sublist.countP_le
  rw [carried_append_singleton, if_pos hcarries] at hle
  exact .inl (by omega)

def clientBalances (token owner : Address) : Nat :=
  if token = account 11 ∧ owner = account 22 then 10
  else if token = account 10 ∧ (owner = account 20 ∨ owner = account 23) then 100
  else 0

def signedOne : SignedPayload := (helpedSwap 1).payload (helpedRoute 3).calldata

def clientDeposit : RouterEnv × RouterCall := (sampleEnv, .deposit (account 22) (account 11) 10 0)

/-- The caller takes the contribution; the hop leaves the receiver with this much. -/
def clientHelp (caller : UInt8) (amount : Nat) : RouterEnv × RouterCall :=
  (sampleEnv, .swap (account caller) (.wallet 0) (helpedSwap 1) (helpedRoute amount))

theorem spent_le_of_sparing_once : ∃ trace s,
    Run (step (account 1)) (fun _ _ => True) (deployed clientBalances) trace s ∧
      Sparing signedOne trace ∧ 0 < spent signedOne trace ∧
      spent signedOne trace ≤ signedOne.maxClientContribution := by
  have hcheck : (play (step (account 1)) (fun _ _ => True) (deployed clientBalances)
      [clientDeposit, clientHelp 20 3]).any fun r =>
        carried signedOne r.1 ≤ 1 ∧ 0 < spent signedOne r.1 := by
    decide +kernel
  obtain ⟨trace, s, hrun, hcarried, hspent⟩ := exists_run_of_any hcheck
  have hsparing := sparing_of_carried hcarried
  exact ⟨trace, s, hrun, hsparing, hspent, spent_le_of_sparing signedOne hrun hsparing⟩

/-- A second caller takes the contribution again: nothing tells a signature that was used. -/
theorem spent_exceeds_signed : ∃ trace s,
    Run (step (account 1)) (fun _ _ => True) (deployed clientBalances) trace s ∧
      signedOne.maxClientContribution < spent signedOne trace := by
  have hcheck : (play (step (account 1)) (fun _ _ => True) (deployed clientBalances)
      [clientDeposit, clientHelp 20 3, clientHelp 23 7]).any fun r =>
        signedOne.maxClientContribution < spent signedOne r.1 := by
    decide +kernel
  exact exists_run_of_any hcheck

end TychoRouter
end Tycho
