import Tycho.Execution.Effects

/-! What can happen while the router waits for others: every invariant of a swap is checked against
these acts once, whatever the nesting of callbacks. -/
namespace Tycho
open Replay.Program TransferManager Vault

/-- One act: of the world outside, or of the router in a callback or before it calls an executor.
-/
inductive Act (self : Address) (s : RouterState) : RouterState → Prop
  | set (token owner : Address) (amount : Nat) (howner : owner ≠ self) :
      Act self s { s with balances := fun t o =>
        if t = token ∧ o = owner then amount else s.balances t o }
  | give (token : Address) (amount : Nat) :
      Act self s { s with balances := fun t o =>
        if t = token ∧ o = self then s.balances t o + amount else s.balances t o }
  | take (amount : Nat) (haccounted : amount ≤ s.accounted)
      (hbalance : amount ≤ s.balances s.swapInputToken self) :
      Act self s { s with
        accounted := s.accounted - amount
        balances := fun t o =>
          if t = s.swapInputToken ∧ o = self then s.balances t o - amount else s.balances t o }
  | transferred {src token : Address} (dst : Address) {amount : Nat}
      (hamount : amount ≤ s.vaultOf src token) :
      Act self s (((s.debit src token amount).credit dst token amount).emit
        (.transferred src token amount))
  /-- A part of the allowance is used. -/
  | allowed (amount : Nat) : Act self s { s with amountAllowed := s.amountAllowed - amount }
  /-- Tokens are pulled out of the wallet of the sender. The executor may take what the router
  gets, which is at most what was moved. -/
  | pulled {amount moved received : Nat} (receiver : Address)
      (hexecutor : s.currentlySwappingExecutor ≠ addressZero) (hamount : amount ≤ s.amountAllowed)
      (htoken : s.swapInputToken = s.tokenIn) (hmoved : moved ≤ amount)
      (hbalance : moved ≤ s.balances s.tokenIn s.sender)
      (hreceived : receiver = self → s.sender ≠ self → received ≤ moved) :
      Act self s { ({ s with amountAllowed := s.amountAllowed - amount }.move s.tokenIn s.sender
          receiver moved).emit (.pulled s.tokenIn s.sender moved) with
        accounted := if receiver = self then s.accounted + received else s.accounted }
  /-- The input of the hop is accounted for and stays in the router. -/
  | taken {amount : Nat} {t : RouterState}
      (haccounted : Vault.Accounted s s.swapInputToken (-int256 amount) t) :
      Act self s { t.emit (.taken s.swapInputToken amount) with
        accounted := s.accounted + amount }
  /-- The input of the hop is accounted for and sent to the receiver. -/
  | sent {amount : Nat} {t : RouterState} (receiver : Address)
      (haccounted : Vault.Accounted s s.swapInputToken (-int256 amount) t)
      (hbalance : amount ≤ s.balances s.swapInputToken self) :
      Act self s ({ t.emit (.taken s.swapInputToken amount) with
        accounted := if receiver = self then s.accounted + amount else s.accounted }.move
          s.swapInputToken self receiver amount)
  /-- The end of a callback. -/
  | cleared : Act self s { s with
      currentlySwappingExecutor := addressZero
      isFirstSwap := false
      isSplitSwap := false }

/-- The states that can be met while the router waits. -/
abbrev Waits (self : Address) : RouterState → RouterState → Prop := Relation.ReflTransGen (Act self)

def OnlyWaits (self : Address) (x : RouterM Unit) : Prop :=
  ∀ s₀, Triple (Waits self s₀) x (fun _ => Waits self s₀) (Waits self s₀)

section
variable {self token receiver : Address} {amount : Nat} {s s' : RouterState}

lemma accounted_of_takeInput {u : Unit} {stays : Bool}
    (h : takeInput token amount stays s = .ok (u, s')) :
    ∃ t, Vault.Accounted s token (-int256 amount) t ∧ s' = { t.emit (.taken token amount) with
        accounted := if stays then s.accounted + amount else s.accounted } := by
  simp only [takeInput, bind_eq_ok, negInt256_eq_ok, modify_eq_ok] at h
  obtain ⟨_, _, ⟨-, rfl, rfl⟩, _, t, hupdate, rfl⟩ := h
  have haccounted := accounted_of_ok hupdate
  refine ⟨t, haccounted, ?_⟩
  have hsame : t.accounted = s.accounted := by rw [haccounted.state]
  rw [hsame]

lemma quiet_takeInput (token : Address) (amount : Nat) (stays : Bool) :
    Quiet (takeInput token amount stays) :=
  (quiet_checkedInt256 _).bind fun _ => (quiet_updateDeltaAccounting _ _).bind fun _ =>
    quiet_modify _

lemma quiet_transferFromUser (self token receiver : Address) (amount : Nat) :
    Quiet (transferFromUser self token receiver amount) := by
  have hmoved : ∀ isPermit2 src dst,
      Quiet (moveFromUser isPermit2 token src dst amount) := fun _ _ _ =>
    quiet_ite (quiet_pure _) (quiet_require.bind fun _ => (quiet_moveToken _ _ _ _).bind fun _ =>
      quiet_emit _)
  exact quiet_get.bind fun _ => quiet_require.bind fun _ => quiet_require.bind fun _ =>
    (quiet_set _).bind fun _ => (hmoved _ _ _).bind fun _ => quiet_get.bind fun _ =>
      (quiet_checkedSub _ _).bind fun _ => (quiet_ite (quiet_modify _) (quiet_pure _)).bind fun _ =>
        quiet_pure _

/-- The balance of the receiver grows by what is moved, at most. -/
lemma received_le {t : RouterState} {src : Address} {moved received : Nat} (hne : src ≠ receiver)
    (hle : t.balanceOf token receiver ≤ (t.move token src receiver moved).balanceOf token receiver)
    (h : (t.move token src receiver moved).balanceOf token receiver - t.balanceOf token receiver =
      received) : received ≤ moved := by
  have hbalance : (t.move token src receiver moved).balances token receiver =
      t.balances token receiver + moved := by
    simp [RouterState.move, hne.symm]
  unfold RouterState.balanceOf at h hle
  rw [hbalance] at h hle
  have hmod := Nat.add_mod (t.balances token receiver) moved (2 ^ 256)
  have hsum := Nat.mod_le (t.balances token receiver % 2 ^ 256 + moved % 2 ^ 256) (2 ^ 256)
  omega

lemma waits_of_transferFromUser {n : Nat} (hexecutor : s.currentlySwappingExecutor ≠ addressZero)
    (htoken : s.swapInputToken = token)
    (h : transferFromUser self token receiver amount s = .ok (n, s')) :
    Waits self s s' := by
  simp only [transferFromUser, bind_eq_ok, get_eq_ok, require_eq_ok, set_eq_ok,
    checkedSub_eq_ok, pure_eq_ok, onlyIf_eq_ok, modify_eq_ok] at h
  obtain ⟨_, _, ⟨rfl, rfl⟩, _, _, ⟨hamount, rfl⟩, _, _, ⟨rfl, rfl⟩, _, _, rfl, _, t, hmove, _, _,
    ⟨rfl, rfl⟩, received, _, ⟨hle, hgot, rfl⟩, _, s'', haccount, rfl, rfl⟩ := h
  unfold moveFromUser at hmove
  by_cases hnative : s.isPermit2 ∧ s.tokenIn = ETH_ADDRESS
  · rw [if_pos hnative] at hmove
    -- nothing is moved, so nothing is received
    obtain ⟨-, rfl⟩ := pure_eq_ok.mp hmove
    have hzero : received = 0 := by rw [← hgot]; exact Nat.sub_self _
    subst hzero
    split_ifs at haccount <;> subst haccount <;> exact .single (.allowed amount)
  · rw [if_neg hnative] at hmove
    simp only [bind_eq_ok, require_eq_ok, moveToken_eq_ok, emit_eq_ok] at hmove
    obtain ⟨_, _, ⟨-, rfl⟩, _, _, ⟨hbalance, rfl⟩, rfl⟩ := hmove
    have hmoved : (if s.isPermit2 then amount % 2 ^ 160 else amount) ≤ amount := by
      split_ifs
      · exact Nat.mod_le amount (2 ^ 160)
      · exact Nat.le_refl amount
    generalize (if s.isPermit2 then amount % 2 ^ 160 else amount) = moved
      at hmoved hbalance hle hgot haccount
    have hbound : receiver = self → s.sender ≠ self → received ≤ moved :=
      fun hself hsender => received_le (hself ▸ hsender) hle hgot
    have hact := Act.pulled receiver hexecutor hamount htoken hmoved hbalance hbound
    split_ifs at haccount with hself
    · subst haccount
      rw [if_pos hself] at hact
      exact .single hact
    · subst haccount
      rw [if_neg hself] at hact
      exact .single hact

end

lemma OnlyWaits.pure (self : Address) : OnlyWaits self (pure ()) :=
  fun _ => triple_pure () fun _ hs => hs

variable {self : Address} {x : RouterM Unit}

lemma OnlyWaits.bind {y : RouterM Unit} (hx : OnlyWaits self x) (hy : OnlyWaits self y) :
    OnlyWaits self (x >>= fun _ => y) :=
  fun s₀ => (hx s₀).bind fun _ => hy s₀

lemma OnlyWaits.onlyIf {c : Prop} [Decidable c] (hx : OnlyWaits self x) :
    OnlyWaits self (onlyIf c x) :=
  fun s₀ => triple_ite (fun _ => hx s₀) (fun _ => OnlyWaits.pure self s₀)

/-- After an act that its program makes without being looked at. -/
lemma OnlyWaits.of_quiet (hx : Quiet x) (hact : ∀ s u s', x s = .ok (u, s') → Waits self s s') :
    OnlyWaits self x :=
  fun _ => hx.triple fun s u s' hs hrun => Relation.ReflTransGen.trans hs (hact s u s' hrun)

variable {O P : RouterState → Prop}

section
variable {self receiver tokenIn : Address} {amount : Nat} {hook : RouterM Unit} {s₀ : RouterState}

/-- A transfer to an account, from the state that the move leads to on. -/
lemma triple_transferOut {Q : Nat → RouterState → Prop} (token : Address)
    (hmoved : ∀ s, P s → amount ≤ s.balances token self →
      Triple (fun t => t = s.move token self receiver amount) (onlyIf (token = ETH_ADDRESS) hook)
        (fun _ t => ∀ n, n = t.balanceOf token receiver - s.balanceOf token receiver →
          s.balanceOf token receiver ≤ t.balanceOf token receiver → Q n t) O) :
    Triple P (transferOut self token receiver amount hook) Q O := by
  apply triple_get_bind
  intro s hs
  refine Triple.bind (Q := fun _ t => amount ≤ s.balances token self ∧
    t = s.move token self receiver amount) ?_ fun _ => ?_
  · apply (quiet_moveToken token self receiver amount).triple
    rintro _ _ t rfl hrun
    exact ⟨(moveToken_eq_ok.mp hrun).1, (moveToken_eq_ok.mp hrun).2.symm⟩
  · apply triple_of_forall
    rintro _ ⟨hbalance, rfl⟩
    refine (hmoved s hs hbalance).bind fun _ => ?_
    apply triple_get_bind
    intro t ht
    apply (quiet_checkedSub _ _).triple
    rintro _ n _ rfl hrun
    obtain ⟨hle, hn, rfl⟩ := checkedSub_eq_ok.mp hrun
    exact ht n hn.symm hle

lemma triple_approveIfNeeded (token : Address) :
    Triple P (approveIfNeeded self token receiver) (fun _ => P) O :=
  triple_require.mono (fun _ hs => hs) (fun _ _ hs => hs.1) fun _ hs => hs

lemma triple_takeInput (hs : ∀ s, s₀ = s → s.swapInputToken = tokenIn) :
    Triple (fun s => s = s₀) (takeInput tokenIn amount true)
      (fun _ => Waits self s₀) (Waits self s₀) := by
  apply (quiet_takeInput tokenIn amount true).triple
  rintro s _ s' rfl hrun
  obtain ⟨t, haccounted, rfl⟩ := accounted_of_takeInput hrun
  rw [← hs s rfl] at haccounted ⊢
  exact .single (.taken haccounted)

/-- The input of a hop is sent while the hook waits. -/
lemma triple_sendInput (hhook : OnlyWaits self hook)
    (hs : ∀ s, s₀ = s → s.swapInputToken = tokenIn) :
    Triple (fun s => s = s₀) (takeInput tokenIn amount (receiver = self) >>= fun _ =>
        transferOut self tokenIn receiver amount hook)
      (fun _ => Waits self s₀) (Waits self s₀) := by
  refine Triple.bind (Q := fun _ s => ∃ t, Vault.Accounted s₀ tokenIn (-int256 amount) t ∧
    s = { t.emit (.taken tokenIn amount) with
      accounted := if receiver = self then s₀.accounted + amount else s₀.accounted }) ?_ fun _ => ?_
  · apply (quiet_takeInput tokenIn amount (receiver = self)).triple
    rintro s _ s' rfl hrun
    simpa using accounted_of_takeInput hrun
  · apply triple_transferOut
    rintro _ ⟨t, haccounted, rfl⟩ hbalance
    have hsame : t.balances = s₀.balances := by rw [haccounted.state]
    change amount ≤ t.balances tokenIn self at hbalance
    rw [hsame] at hbalance
    rw [← hs s₀ rfl] at haccounted hbalance ⊢
    refine (hhook.onlyIf s₀).mono ?_ (fun _ _ ht _ _ _ => ht) fun _ ht => ht
    rintro _ rfl
    exact .single (.sent receiver haccounted hbalance)

/-- The transfer of the input of a hop, before the executor is called or in a callback. -/
lemma triple_transfer (receiver : Address) (amount : Nat) (hhook : OnlyWaits self hook)
    (transferType : TransferType) (isFirstSwap isSplitSwap inCallback : Bool)
    (hexecutor : s₀.currentlySwappingExecutor ≠ addressZero)
    (htoken : s₀.swapInputToken = tokenIn) :
    Triple (fun s => s = s₀)
      (transfer self receiver transferType tokenIn amount isFirstSwap isSplitSwap inCallback hook)
      (fun _ => Waits self s₀) (Waits self s₀) := by
  have hs : ∀ s, s₀ = s → s.swapInputToken = tokenIn := fun s hs => hs ▸ htoken
  have hret : ∀ {P : RouterState → Prop} {n : Nat}, (∀ s, P s → Waits self s₀ s) →
      Triple P (pure n : RouterM Nat) (fun _ => Waits self s₀) (Waits self s₀) :=
    fun hP => triple_pure _ hP
  have hpull : ∀ dst, Triple (fun s => s = s₀)
      (transferFromUser self tokenIn dst amount) (fun _ => Waits self s₀)
      (Waits self s₀) := by
    intro dst
    apply (quiet_transferFromUser self tokenIn dst amount).triple
    rintro s n s' rfl hrun
    exact waits_of_transferFromUser hexecutor htoken hrun
  apply triple_get_bind
  rintro s rfl
  cases transferType with
  | none => exact hret fun s hs => hs ▸ .refl
  | transferNativeInExecutor => exact (triple_takeInput hs).bind fun _ => hret fun _ ht => ht
  | protocolWillDebit =>
    apply triple_ite <;> intro _
    · exact (hpull self).bind fun _ => (triple_approveIfNeeded tokenIn).bind fun _ =>
        hret fun _ ht => ht
    · exact (triple_takeInput hs).bind fun _ => (triple_approveIfNeeded tokenIn).bind fun _ =>
        hret fun _ ht => ht
  | transfer =>
    apply triple_ite <;> intro _
    · exact hret fun s hs => hs ▸ .refl
    apply triple_ite <;> intro _
    · exact hpull receiver
    · exact triple_sendInput hhook hs

end

section
variable (env : RouterEnv)

lemma quiet_validateExecutor (executor : Address) :
    Quiet (Dispatcher.validateExecutor env executor) :=
  quiet_require.bind fun _ => quiet_require

lemma of_validateExecutor_ok {executor : Address} {s s' : RouterState} {u : Unit}
    (h : Dispatcher.validateExecutor env executor s = .ok (u, s')) :
    executor ≠ addressZero ∧ s = s' := by
  simp only [Dispatcher.validateExecutor, bind_eq_ok, require_eq_ok] at h
  obtain ⟨_, _, ⟨hact, rfl⟩, -, rfl⟩ := h
  refine ⟨?_, rfl⟩
  rintro rfl
  exact hact env.activation_zero

lemma onlyWaits_fallback {onTransfer handleCallback : RouterM Unit}
    (htransfer : OnlyWaits env.self onTransfer) (hcallback : OnlyWaits env.self handleCallback)
    (transferType : TransferType) (receiver : Address) :
    OnlyWaits env.self
      (Dispatcher.fallback env transferType receiver onTransfer handleCallback) := by
  intro s₀
  refine triple_require.bind fun _ => ?_
  refine Triple.mono ?_ (fun s hs => hs.1) (fun _ _ hs => hs) fun _ hs => hs
  apply triple_get_bind
  intro s hs
  refine Triple.bind (Q := fun _ t => s.currentlySwappingExecutor ≠ addressZero ∧ t = s) ?_
    fun _ => ?_
  · apply (quiet_validateExecutor env _).triple
    rintro _ _ t rfl hrun
    obtain ⟨hexecutor, rfl⟩ := of_validateExecutor_ok env hrun
    exact ⟨hexecutor, rfl⟩
  · apply triple_of_forall
    rintro t ⟨hexecutor, rfl⟩
    have hafter : ∀ t', Waits env.self t t' → Waits env.self s₀ t' :=
      fun t' ht' => Relation.ReflTransGen.trans hs ht'
    have hinput := triple_transfer receiver t.swapInputAmount htransfer transferType
      t.isFirstSwap t.isSplitSwap true hexecutor rfl
    refine (hinput.mono (fun _ h => h) (fun _ => hafter) hafter).bind fun _ => ?_
    refine (hcallback s₀).bind fun _ => triple_modify _ fun t' ht' => ?_
    exact ht'.tail .cleared

/-- Whatever a script does, the router only waits for it. -/
lemma onlyWaits_play (script : Script) : OnlyWaits env.self (Dispatcher.play env script) := by
  induction script with
  | done => exact OnlyWaits.pure env.self
  | observe => exact fun _ => triple_observe fun _ hs => hs
  | fail => exact fun _ => triple_revert _
  | set token owner amount _ ih =>
    refine fun s₀ => triple_require.bind fun _ => Triple.bind (Q := fun _ => Waits env.self s₀) ?_
      fun _ => ih s₀
    exact triple_modify _ fun s hs => hs.1.tail (.set token owner amount hs.2)
  | give token amount _ ih =>
    refine fun s₀ => Triple.bind (Q := fun _ => Waits env.self s₀) ?_ fun _ => ih s₀
    exact triple_modify _ fun s hs => hs.tail (.give token amount)
  | take amount _ ih =>
    intro s₀
    apply triple_get_bind
    intro s hs
    refine triple_require.bind fun _ => Triple.bind (Q := fun _ => Waits env.self s₀) ?_
      fun _ => ih s₀
    apply triple_of_forall
    rintro _ ⟨rfl, haccounted, hbalance⟩
    exact triple_set _ fun _ _ => hs.tail (.take amount haccounted hbalance)
  | vaultTransfer spender src dst token allowance amount _ ih =>
    refine OnlyWaits.bind (fun s₀ => triple_attempt ?_) ih
    refine OnlyWaits.of_quiet (quiet_transfer spender src dst token allowance amount) ?_ s₀
    intro s _ s' hrun
    obtain ⟨hamount, rfl⟩ := of_transfer_ok hrun
    exact .single (.transferred dst hamount)
  | callback transferType receiver _ _ _ ih₁ ih₂ ih₃ =>
    exact OnlyWaits.bind
      (fun s₀ => triple_attempt (onlyWaits_fallback env ih₁ ih₂ transferType receiver s₀)) ih₃

end
end Tycho
