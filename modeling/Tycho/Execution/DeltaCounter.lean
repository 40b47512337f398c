import Tycho.Execution.Log

/-! The counter of the deltas that are not zero, over the calls of a transaction. -/
namespace Tycho
open Replay Replay.Program Vault Triple

/-- The counter is right. -/
def RouterState.Tallied (s : RouterState) : Prop := Vault.Counted s.delta s.nonZeroDeltaCount

structure RouterState.Cleared (s : RouterState) : Prop where
  delta : ∀ t, s.delta t = 0
  count : s.nonZeroDeltaCount = 0

section
variable {self receiver : Address} {hop : HopWorld} {s s₁ s' : RouterState} {n : Nat}

lemma RouterState.Cleared.tallied (h : s.Cleared) : s.Tallied :=
  ⟨[], List.nodup_nil, fun t => by simp [h.delta t], h.count.symm⟩

lemma RouterState.Tallied.cleared (h : s.Tallied) (hcount : s.nonZeroDeltaCount = 0) :
    s.Cleared := by
  obtain ⟨l, -, hmem, hlen⟩ := h
  rw [hcount, List.length_eq_zero_iff] at hlen
  subst hlen
  exact ⟨fun t => by simpa using hmem t, hcount⟩

lemma tallied_of_waits (hwaits : Waits self s s') (h : s.Tallied) : s'.Tallied := by
  induction hwaits with
  | refl => exact h
  | tail _ hact ih =>
    cases hact with
    | taken hacc => exact hacc.counted ih
    | sent _ hacc => exact hacc.counted ih
    | _ => exact ih

lemma Hopped.tallied (hhop : Hopped self hop receiver s s₁ n s') (h : s₁.Tallied) :
    s'.Tallied := by
  cases hhop with
  | kept _ hwaits _ _ hacc =>
    have hmet := tallied_of_waits hwaits h
    exact hacc.counted hmet
  | direct _ hwaits =>
    have hmet := tallied_of_waits hwaits h
    exact hmet
  | forwarded _ hwaits _ _ hforward =>
    have hmet := tallied_of_waits hwaits h
    exact tallied_of_waits hforward hmet

lemma HopSeen.tallied (hseen : HopSeen self hop receiver s s₁ s') (h : s₁.Tallied) :
    s'.Tallied := by
  cases hseen with
  | during hwaits => exact tallied_of_waits hwaits h
  | forwarding _ hwaits _ _ hforward =>
    have hmet := tallied_of_waits hwaits h
    exact tallied_of_waits hforward hmet

end

namespace TychoRouter
variable {env : RouterEnv} {caller : Address} {funding : Funding} {p : SwapParams} {n m : Nat}
  {s s' : RouterState}

lemma Entered.tallied (hentered : Entered env caller funding p s s') (h : s.Tallied) :
    s'.Tallied := by
  cases hentered.stored with
  | native _ _ hacc => exact hacc.counted h
  | wallet | vault | permit2 => exact h

lemma FeesTaken.tallied {token : Address} {fees : List FeeRecipient}
    (htaken : FeesTaken token fees s s') (h : s.Tallied) : s'.Tallied := by
  induction htaken with
  | nil => exact h
  | none _ _ ih => exact ih h
  | some _ hacc _ ih => exact ih (hacc.counted h)

lemma Contribution.tallied (hcontrib : Contribution env caller p n s m s') (h : s.Tallied) :
    s'.Tallied := by
  cases hcontrib with
  | added _ _ hacc => exact hacc.counted h
  | sent _ _ _ _ hwaits =>
    have hmet := tallied_of_waits hwaits h
    exact hmet
  | none | credited => exact h

lemma PaymentSeen.tallied (hseen : PaymentSeen env p n s s') (h : s.Tallied) : s'.Tallied := by
  cases hseen with
  | intro _ hacc _ hwaits => exact tallied_of_waits hwaits (hacc.counted h)

lemma Payment.tallied (hpay : Payment env caller p n s m s') (h : s.Tallied) :
    s'.Tallied := by
  cases hpay with
  | none => exact h
  | credited _ _ hacc hcredited =>
    rcases hcredited with ⟨-, rfl⟩ | rfl <;> exact hacc.counted h
  | sent _ _ hacc _ hwaits =>
    have hmet := tallied_of_waits hwaits (hacc.counted h)
    exact hmet

lemma Finalized.cleared (hfinal : Finalized caller p s s') (h : s.Tallied) : s'.Cleared := by
  cases hfinal with
  | none hcount => exact h.cleared hcount
  | burned _ hcount hdelta =>
    have hreset : Vault.Counted (s.setDelta p.tokenIn 0).delta (s.nonZeroDeltaCount - 1) :=
      h.erase hdelta (by simp [RouterState.setDelta]) fun t ht => by simp [RouterState.setDelta, ht]
    rw [hcount] at hreset
    have hcleared := RouterState.Tallied.cleared
      (s := { s.setDelta p.tokenIn 0 with nonZeroDeltaCount := 0 }) hreset rfl
    exact ⟨hcleared.delta, rfl⟩

/-- A swap that returns has cleared the deltas, whatever they were before. -/
lemma triple_swap_tallied (route : Route) (h : s.Tallied) :
    Triple (fun t => t = s) (swap env caller p route funding) (fun _ => RouterState.Cleared)
      RouterState.Tallied := by
  refine triple_swap (J := fun _ => RouterState.Tallied) route
    (fun t hentered => hentered.tallied h)
    ?_ ?_ ?_
  · intro x swap hop amount isFirstSwap isSplitSwap receiver isOutput _
    exact triple_callSwapOnExecutor env swap hop amount isFirstSwap isSplitSwap receiver isOutput
      (fun _ _ _ _ ht _ _ hhop => hhop.tallied ht) (fun _ _ ht _ _ hseen => hseen.tallied ht)
  · intro x n t m t' _ ht hfind
    cases hfind with
    | intro hfees hcontrib hpay hfinal =>
      obtain ⟨fees, -, -, htaken⟩ := hfees.taken
      have hpaid := hpay.tallied (hcontrib.tallied (htaken.tallied ht))
      exact ⟨(hfinal.cleared hpaid).delta, (hfinal.cleared hpaid).count⟩
  · intro x n t t' ht hseen
    cases hseen with
    | contribution hfees hseen =>
      obtain ⟨fees, -, -, htaken⟩ := hfees.taken
      exact tallied_of_waits hseen.waits (htaken.tallied ht)
    | payment hfees hcontrib hseen =>
      obtain ⟨fees, -, -, htaken⟩ := hfees.taken
      exact hseen.tallied (hcontrib.tallied (htaken.tallied ht))

/-- The counter stays right, also where others can look at it. -/
def KeepsTally {A : Type} (x : RouterM A) : Prop :=
  Triple RouterState.Tallied x (fun _ => RouterState.Tallied) RouterState.Tallied

section
variable {A B : Type} {x : RouterM A}

lemma KeepsTally.bind {f : A → RouterM B} (hx : KeepsTally x) (hf : ∀ a, KeepsTally (f a)) :
    KeepsTally (x >>= f) :=
  Triple.bind hx hf

lemma keepsTally_pure (a : A) : KeepsTally (pure a : RouterM A) := triple_pure a fun _ hs => hs

lemma keepsTally_get_bind {f : RouterState → RouterM A} (h : ∀ s, KeepsTally (f s)) :
    KeepsTally (get >>= f) := by
  refine triple_get_bind fun s hs => mono (h s) ?_ (fun _ _ ht => ht) fun _ ht => ht
  rintro _ rfl
  exact hs

lemma keepsTally_require {c : Prop} [Decidable c] {e : RouterError} :
    KeepsTally (require c e : RouterM Unit) :=
  triple_require.mono (fun _ hs => hs) (fun _ _ hs => hs.1) fun _ hs => hs

lemma KeepsTally.nonReentrant (h : KeepsTally x) : KeepsTally (nonReentrant x) := by
  refine triple_get_bind fun s hs => triple_require.bind fun _ => ?_
  refine Triple.bind (triple_set _ fun _ _ => hs) fun _ => h.bind fun a => ?_
  exact Triple.bind (triple_modify _ fun _ ht => ht) fun _ => keepsTally_pure a

lemma keepsTally_moveToken (token src dst : Address) (amount : Nat) :
    KeepsTally (moveToken token src dst amount) := by
  refine (quiet_moveToken token src dst amount).triple fun s _ s' hs hrun => ?_
  obtain ⟨-, rfl⟩ := moveToken_eq_ok.mp hrun
  exact hs

lemma keepsTally_mint (dst token : Address) (amount : Nat) :
    KeepsTally (mint dst token amount) := by
  refine (quiet_mint dst token amount).triple fun s _ s' hs hrun => ?_
  obtain ⟨-, -, rfl⟩ := mint_eq_ok.mp hrun
  exact hs

lemma keepsTally_play (script : Script) : KeepsTally (Dispatcher.play env script) := by
  refine triple_of_forall fun s hs => ?_
  refine (onlyWaits_play env script s).mono ?_ (fun _ _ ht => tallied_of_waits ht hs)
    fun _ ht => tallied_of_waits ht hs
  rintro _ rfl
  exact .refl

lemma keepsTally_deposit (self caller : Address) (paused : Bool) (msgValue : Nat)
    (token : Address) (amount : Nat) :
    KeepsTally (deposit self caller paused msgValue token amount) := by
  refine (keepsTally_moveToken _ _ _ _).bind fun _ => keepsTally_require.bind fun _ => ?_
  refine KeepsTally.nonReentrant (keepsTally_require.bind fun _ => ?_)
  refine keepsTally_require.bind fun _ => ?_
  refine triple_ite (fun _ => ?_) fun _ => ?_
  · exact keepsTally_require.bind fun _ => keepsTally_mint _ _ _
  refine keepsTally_require.bind fun _ => keepsTally_get_bind fun _ => ?_
  refine (keepsTally_moveToken _ _ _ _).bind fun _ => keepsTally_get_bind fun _ => ?_
  exact (keepsTally_require.bind fun _ => keepsTally_pure _).bind fun _ => keepsTally_mint _ _ _

lemma keepsTally_withdraw (self caller token : Address) (amount : Nat) (script : Script) :
    KeepsTally (withdraw self caller token amount (Dispatcher.play env script)) := by
  have hburn : KeepsTally (burn caller token amount) := by
    refine (quiet_burn caller token amount).triple fun s _ s' hs hrun => ?_
    obtain ⟨-, -, rfl⟩ := burn_eq_ok.mp hrun
    exact hs
  refine KeepsTally.nonReentrant (keepsTally_require.bind fun _ => ?_)
  refine keepsTally_require.bind fun _ => ?_
  refine keepsTally_get_bind fun _ => keepsTally_require.bind fun _ => hburn.bind fun _ => ?_
  refine (keepsTally_moveToken _ _ _ _).bind fun _ => ?_
  exact triple_ite (fun _ => keepsTally_play script) fun _ => keepsTally_pure ()

lemma keepsTally_execute (call : RouterCall) : KeepsTally (call.execute env) := by
  cases call with
  | deposit => exact (keepsTally_deposit _ _ _ _ _ _).bind fun _ => keepsTally_pure _
  | withdraw => exact (keepsTally_withdraw _ _ _ _ _).bind fun _ => keepsTally_pure _
  | outside script => exact (keepsTally_play script).bind fun _ => keepsTally_pure _
  | swap caller funding p route =>
    refine triple_of_forall fun s hs => ?_
    have hswap := (@triple_swap_tallied env caller funding p s route hs).mono (fun _ h => h)
      (fun _ _ h => h.tallied) fun _ h => h
    rw [RouterCall.execute, map_eq_pure_bind]
    exact hswap.bind fun _ => keepsTally_pure _

end

/-- In a run of calls that begins without deltas the counter is right at all times, and every swap
that returns leaves none. -/
theorem tallied_of_run {self : Address} {s₀ : RouterState} (hs₀ : s₀.Cleared)
    {trace : List ((RouterEnv × RouterCall) × Output)}
    (hrun : Run (step self) (fun _ _ => True) s₀ trace s) :
    s.Tallied ∧ ∀ env caller funding p route n s',
      swap env caller p route funding { s with log := [] } = .ok (n, s') → s'.Cleared := by
  have htallied : s.Tallied := by
    refine hrun.invariant (P := fun _ t => t.Tallied) hs₀.tallied ?_
    rintro _ t ⟨env, call⟩ o t' ht - hstep
    obtain ⟨-, -, ⟨hreaches, -⟩ | ⟨rfl, -⟩⟩ := of_step hstep
    · have hlog : RouterState.Tallied { t with log := [] } := ht
      exact reaches (keepsTally_execute call) hlog hreaches
    · exact ht
  refine ⟨htallied, fun env caller funding p route n s' hok => ?_⟩
  have hlog : RouterState.Tallied { s with log := [] } := htallied
  exact (triple_swap_tallied route hlog).ok rfl hok

/-- A deposit, and a swap whose output is 4. -/
theorem tallied_of_run_swapped : ∃ trace s, Run (step (account 1)) (fun _ _ => True)
    (deployed fun _ _ => 100) trace s ∧ (∀ e ∈ trace, e.2.returned.isSome) ∧ s.Tallied := by
  have hcheck : (play (step (account 1)) (fun _ _ => True) (deployed fun _ _ => 100)
      [(sampleEnv, .deposit (account 22) (account 11) 10 0),
        (sampleEnv, .swap (account 20) (.wallet 0) (helpedSwap 1) (helpedRoute 104))]).any
      fun r => ∀ e ∈ r.1, e.2.returned.isSome := by decide +kernel
  obtain ⟨trace, s, hrun, hret⟩ := exists_run_of_any hcheck
  exact ⟨trace, s, hrun, hret, (tallied_of_run ⟨fun _ => rfl, rfl⟩ hrun).1⟩

end TychoRouter
end Tycho
