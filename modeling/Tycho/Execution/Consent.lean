import Tycho.Collections.Fallible
import Tycho.Execution.Log

/-! Whose funds a swap can touch: those of its caller, and of a client who has signed. -/
namespace Tycho
open Collections Replay.Program List RouterEvent RouterState Nat

namespace RouterEvent

def pulledAmount : RouterEvent → Nat
  | .pulled _ _ amount => amount
  | _ => 0

/-- The amount that an ERC6909 transfer takes from an account. -/
def transferredFrom (user token : Address) : RouterEvent → Nat
  | .transferred src t amount => if user = src ∧ token = t then amount else 0
  | _ => 0

/-- Tokens are pulled out of the wallet of the caller only, and only the input token. -/
def PullsOnly (caller tokenIn : Address) : RouterEvent → Prop
  | .pulled token owner _ => token = tokenIn ∧ owner = caller
  | _ => True

end RouterEvent

namespace TychoRouter
variable (env : RouterEnv) (caller : Address) (funding : Funding) (p : SwapParams)

/-- The client has signed, and the signature has not expired. -/
def Signed : Prop :=
  p.clientFeeParams.clientFeeReceiver ≠ addressZero ∧ env.timestamp ≤ p.clientFeeParams.deadline ∧
    p.clientFeeParams.recoveredSigner = p.clientFeeParams.clientFeeReceiver

instance : Decidable (Signed env p) := inferInstanceAs (Decidable (_ ∧ _ ∧ _))

def clientShare (user token : Address) : Nat :=
  if user = p.clientFeeParams.clientFeeReceiver ∧ token = p.tokenOut ∧ Signed env p then
    p.clientFeeParams.maxClientContribution
  else 0

/-- The input of the caller, if the vault pays for it. -/
def callerShare (user token : Address) : Nat :=
  if user = caller ∧ token = p.tokenIn ∧ funding = .vault then p.amountIn else 0

def mayTake (user token : Address) : Nat :=
  clientShare env p user token + callerShare caller funding p user token

/-- From `s` to `s'` a swap has touched nothing but what its caller and its client agreed to; what
ERC6909 transfers have moved is not its doing. -/
structure Consented (s s' : RouterState) : Prop where
  pulls : ∀ e ∈ s'.log, e.PullsOnly caller p.tokenIn
  pulled : tally pulledAmount s'.log ≤ p.amountIn
  vault : ∀ user token, s.vaultOf user token ≤ s'.vaultOf user token +
    tally (transferredFrom user token) s'.log + mayTake env caller funding p user token

/-- In a swap the allowance is what has not been pulled, and `taken` is what has been taken out of
the vault balances. -/
structure Budgeted (s₀ : RouterState) (taken : Address → Address → Nat) (s : RouterState) :
    Prop where
  sender : s.sender = caller
  tokenIn : s.tokenIn = p.tokenIn
  useVault : s.useVault = decide (funding = .vault)
  pulls : ∀ e ∈ s.log, e.PullsOnly caller p.tokenIn
  allowed : tally pulledAmount s.log + s.amountAllowed ≤ p.amountIn
  vault : ∀ user token, s₀.vaultOf user token ≤ s.vaultOf user token +
    tally (transferredFrom user token) s.log + taken user token

end TychoRouter

/-- The event is no transfer out of a wallet or a vault balance. -/
def RouterEvent.Plain : RouterEvent → Prop
  | .pulled .. => False
  | .transferred .. => False
  | _ => True

namespace RouterEvent.Plain
variable {e : RouterEvent} (h : e.Plain)
include h

lemma pullsOnly (caller tokenIn : Address) : e.PullsOnly caller tokenIn := by
  cases e <;> trivial

lemma pulledAmount_eq : e.pulledAmount = 0 := by
  cases e <;> first | rfl | exact h.elim

lemma transferredFrom_eq (user token : Address) : e.transferredFrom user token = 0 := by
  cases e <;> first | rfl | exact h.elim

end RouterEvent.Plain

/-- What concerns the parties of a swap is the same, but for plain events. -/
structure Plainly (s s' : RouterState) : Prop where
  sender : s'.sender = s.sender
  tokenIn : s'.tokenIn = s.tokenIn
  useVault : s'.useVault = s.useVault
  vault : s'.vaultBalances = s.vaultBalances
  allowed : s'.amountAllowed ≤ s.amountAllowed
  log : LogGrows RouterEvent.Plain s s'

variable {s s' : RouterState} {token : Address}

lemma Plainly.of_log_eq (hsender : s'.sender = s.sender) (htoken : s'.tokenIn = s.tokenIn)
    (huse : s'.useVault = s.useVault) (hvault : s'.vaultBalances = s.vaultBalances)
    (hall : s'.amountAllowed ≤ s.amountAllowed) (hlog : s'.log = s.log) : Plainly s s' :=
  ⟨hsender, htoken, huse, hvault, hall, .of_eq hlog⟩

lemma plainly_emit (s : RouterState) {e : RouterEvent} (he : e.Plain) : Plainly s (s.emit e) :=
  ⟨rfl, rfl, rfl, rfl, le_refl _, .of_emit rfl he⟩

lemma plainly_move (s : RouterState) (token src dst : Address) (amount : Nat) :
    Plainly s (s.move token src dst amount) :=
  .of_log_eq rfl rfl rfl rfl (le_refl _) rfl

lemma Vault.Accounted.plainly {change : Int} (h : Vault.Accounted s token change s') :
    Plainly s s' := by
  obtain ⟨d, c, rfl⟩ := h.exists
  exact .of_log_eq rfl rfl rfl rfl (le_refl _) rfl

lemma Plainly.trans {s'' : RouterState} (h : Plainly s s') (h' : Plainly s' s'') : Plainly s s'' :=
  ⟨h'.sender.trans h.sender, h'.tokenIn.trans h.tokenIn, h'.useVault.trans h.useVault,
    h'.vault.trans h.vault, le_trans h'.allowed h.allowed, h.log.trans h'.log⟩

namespace TychoRouter
variable {env : RouterEnv} {caller : Address} {funding : Funding} {p : SwapParams}
  {s₀ s s' : RouterState} {taken taken' : Address → Address → Nat}

section
variable (h : Budgeted caller funding p s₀ taken s)
include h

lemma Budgeted.plainly (hplain : Plainly s s') : Budgeted caller funding p s₀ taken s' := by
  refine ⟨hplain.sender.trans h.sender, hplain.tokenIn.trans h.tokenIn,
    hplain.useVault.trans h.useVault, ?_, ?_, ?_⟩
  · exact (hplain.log.mono fun e he => he.pullsOnly _ _).forall_mem h.pulls
  · have hall := h.allowed
    have hless := hplain.allowed
    rw [hplain.log.tally_eq fun e he => he.pulledAmount_eq]
    omega
  · intro user token
    have hvault := h.vault user token
    have hsame : s'.vaultOf user token = s.vaultOf user token := by
      unfold vaultOf
      rw [hplain.vault]
    rw [hplain.log.tally_eq fun e he => he.transferredFrom_eq user token, hsame]
    exact hvault

lemma Budgeted.credit (user token : Address)
    (amount : Nat) : Budgeted caller funding p s₀ taken (s.credit user token amount) := by
  refine ⟨h.sender, h.tokenIn, h.useVault, h.pulls, h.allowed, ?_⟩
  intro a t
  have hvault := h.vault a t
  rw [vaultOf_credit]
  change _ ≤ _ + tally _ s.log + _
  omega

/-- Taking from a vault balance what may be taken. -/
lemma Budgeted.debit {user : Address} {amount : Nat}
    (htaken : ∀ a t, taken a t + (if a = user ∧ t = token then amount else 0) ≤ taken' a t) :
    Budgeted caller funding p s₀ taken' (s.debit user token amount) := by
  refine ⟨h.sender, h.tokenIn, h.useVault, h.pulls, h.allowed, ?_⟩
  intro a t
  have hvault := h.vault a t
  have hmore := htaken a t
  rw [vaultOf_debit]
  change _ ≤ _ + tally _ s.log + _
  omega

lemma Budgeted.mono
    (htaken : ∀ a t, taken a t ≤ taken' a t) : Budgeted caller funding p s₀ taken' s := by
  refine ⟨h.sender, h.tokenIn, h.useVault, h.pulls, h.allowed, ?_⟩
  intro a t
  have hvault := h.vault a t
  have hmore := htaken a t
  omega

lemma Budgeted.consented (htaken : ∀ a t, taken a t ≤ mayTake env caller funding p a t) :
    Consented env caller funding p s₀ s := by
  refine ⟨h.pulls, le_trans (le_add_right _ _) h.allowed, ?_⟩
  intro a t
  have hvault := h.vault a t
  have hmore := htaken a t
  omega

lemma Budgeted.act {self : Address}
    (hact : Act self s s') : Budgeted caller funding p s₀ taken s' := by
  have hsame : ∀ {t : RouterState}, t.sender = s.sender → t.tokenIn = s.tokenIn →
      t.useVault = s.useVault → t.vaultBalances = s.vaultBalances →
      t.amountAllowed ≤ s.amountAllowed → t.log = s.log → Budgeted caller funding p s₀ taken t :=
    fun h₁ h₂ h₃ h₄ h₅ h₆ => h.plainly (.of_log_eq h₁ h₂ h₃ h₄ h₅ h₆)
  cases hact with
  | set => exact hsame rfl rfl rfl rfl (le_refl _) rfl
  | give => exact hsame rfl rfl rfl rfl (le_refl _) rfl
  | take => exact hsame rfl rfl rfl rfl (le_refl _) rfl
  | cleared => exact hsame rfl rfl rfl rfl (le_refl _) rfl
  | allowed => exact hsame rfl rfl rfl rfl (sub_le _ _) rfl
  | transferred dst hamount =>
    rename_i src token amount
    refine ⟨h.sender, h.tokenIn, h.useVault, ?_, ?_, ?_⟩
    · exact forall_mem_append.mpr ⟨h.pulls, forall_mem_singleton.mpr trivial⟩
    · have hall := h.allowed
      change tally _ (s.log ++ [_]) + s.amountAllowed ≤ _
      rw [tally_append, tally_singleton]
      exact hall
    · intro a t
      have hvault := h.vault a t
      change _ ≤ ((s.debit src token amount).credit dst token amount).vaultOf a t +
        tally _ (s.log ++ [_]) + _
      rw [tally_append, tally_singleton, transferredFrom, vaultOf_credit, vaultOf_debit]
      omega
  | pulled _ hexecutor hamount htoken hmoved hbal hgot =>
    refine ⟨h.sender, h.tokenIn, h.useVault, ?_, ?_, ?_⟩
    · exact forall_mem_append.mpr ⟨h.pulls, forall_mem_singleton.mpr ⟨h.tokenIn, h.sender⟩⟩
    · have hall := h.allowed
      change tally _ (s.log ++ [_]) + (s.amountAllowed - _) ≤ _
      rw [tally_append, tally_singleton, pulledAmount]
      omega
    · intro a t
      have hvault := h.vault a t
      change _ ≤ s.vaultOf a t + tally _ (s.log ++ [_]) + _
      rw [tally_append, tally_singleton]
      exact hvault
  | taken haccount =>
    obtain ⟨d, c, rfl⟩ := haccount.exists
    exact h.plainly ⟨rfl, rfl, rfl, rfl, le_refl _, [_], rfl,
      fun _ he => mem_singleton.mp he ▸ trivial⟩
  | sent _ haccount =>
    obtain ⟨d, c, rfl⟩ := haccount.exists
    exact h.plainly ⟨rfl, rfl, rfl, rfl, le_refl _, [_], rfl,
      fun _ he => mem_singleton.mp he ▸ trivial⟩

lemma Budgeted.waits {self : Address}
    (hwaits : Waits self s s') : Budgeted caller funding p s₀ taken s' := by
  induction hwaits with
  | refl => exact h
  | tail _ hact ih => exact ih.act hact

end

lemma budgeted_of_entered (hlog : s₀.log = []) (h : Entered env caller funding p s₀ s) :
    Budgeted caller funding p s₀ (fun _ _ => 0) s := by
  have hbudget : ∀ {t : RouterState} (isPermit2 useVault : Bool),
      t.vaultBalances = s₀.vaultBalances → (∀ e ∈ t.log, e.Plain) →
        useVault = decide (funding = .vault) →
      Budgeted caller funding p s₀ (fun _ _ => 0) (stored caller p isPermit2 useVault t) := by
    intro t isPermit2 useVault hvault hplain huse
    have hpulled := tally_eq_zero fun e he => (hplain e he).pulledAmount_eq
    refine ⟨rfl, rfl, huse, fun e he => (hplain e he).pullsOnly _ _, ?_, ?_⟩
    · change tally _ t.log + (if useVault then 0 else p.amountIn) ≤ _
      rw [hpulled]
      split_ifs <;> omega
    · intro user token
      change _ ≤ t.vaultOf user token + _ + _
      unfold vaultOf
      rw [hvault]
      omega
  have hstart : ∀ e ∈ (guarded env caller funding s₀).log, e.Plain := by
    intro e he
    change e ∈ s₀.log at he
    rw [hlog] at he
    exact absurd he not_mem_nil
  cases h.stored with
  | wallet => exact hbudget false false rfl hstart rfl
  | vault => exact hbudget false true rfl hstart rfl
  | permit2 => exact hbudget true false rfl hstart rfl
  | native _ _ haccount =>
    obtain ⟨d, c, rfl⟩ := haccount.exists
    exact hbudget false false rfl (forall_mem_append.mpr ⟨hstart, forall_mem_singleton.mpr trivial⟩)
      rfl

/-- An amount is accounted for, and the log says so. -/
lemma Budgeted.accounted {change : Int} (h : Budgeted caller funding p s₀ taken s)
    (haccount : Vault.Accounted s token change s') (e : RouterEvent) (he : e.Plain) :
    Budgeted caller funding p s₀ taken (s'.emit e) :=
  h.plainly (haccount.plainly.trans (plainly_emit s' he))

section
variable {self receiver executor tokenIn : Address} {hop : HopWorld} {amount n : Nat}
  {isFirstSwap isSplitSwap : Bool}

section
variable (h : Budgeted caller funding p s₀ taken s)
include h

lemma Budgeted.beginHop : Budgeted caller funding p s₀ taken
      (s.beginHop executor tokenIn amount isFirstSwap isSplitSwap) :=
  h.plainly (.of_log_eq rfl rfl rfl rfl (le_refl _) rfl)

lemma Budgeted.endHop : Budgeted caller funding p s₀ taken s.endHop :=
  h.beginHop

lemma Budgeted.hopped (hhop : Hopped self hop receiver s
      (s.beginHop executor tokenIn amount isFirstSwap isSplitSwap) n s') :
    Budgeted caller funding p s₀ taken s' := by
  cases hhop with
  | kept _ hwaits _ _ haccount =>
    exact (h.beginHop.waits hwaits).endHop.plainly haccount.plainly
  | direct _ hwaits => exact (h.beginHop.waits hwaits).endHop
  | forwarded _ hwaits _ _ hforward =>
    exact ((h.beginHop.waits hwaits).endHop.plainly (plainly_move _ _ _ _ _)).waits hforward

lemma Budgeted.hopSeen (hseen : HopSeen self hop receiver s
      (s.beginHop executor tokenIn amount isFirstSwap isSplitSwap) s') :
    Budgeted caller funding p s₀ taken s' := by
  cases hseen with
  | during hwaits => exact h.beginHop.waits hwaits
  | forwarding _ hwaits _ _ hforward =>
    exact ((h.beginHop.waits hwaits).endHop.plainly (plainly_move _ _ _ _ _)).waits hforward

end

end

section
variable {n m : Nat}

lemma Budgeted.feesTaken {fees : List FeeRecipient} (h : Budgeted caller funding p s₀ taken s)
    (hfees : FeesTaken token fees s s') :
    Budgeted caller funding p s₀ taken s' := by
  induction hfees with
  | nil => exact h
  | none _ _ ih => exact ih h
  | some _ haccount _ ih =>
    exact ih ((h.accounted haccount _ (by trivial)).credit _ _ _)

/-- A client who is charged has signed. -/
lemma signed_of_charged (hverified : Verified env p) (hcharged : Charged p n s) : Signed env p := by
  have hneeded := hcharged.needed
  have hagreed := hcharged.agreed
  by_cases hclient : p.clientFeeParams.clientFeeReceiver = addressZero
  · have hzero := (hverified.unsigned hclient).1
    omega
  · exact ⟨hclient, hverified.signed hclient⟩

section
variable (hverified : Verified env p) (h : Budgeted caller funding p s₀ (fun _ _ => 0) s)
include hverified h

lemma Budgeted.charge (hcharged : Charged p n s) :
    Budgeted caller funding p s₀ (clientShare env p) (charge p (p.minAmountOut - n) s) := by
  refine (h.debit (fun a t => ?_)).plainly (plainly_emit _ trivial)
  have hsigned := signed_of_charged hverified hcharged
  have hagreed := hcharged.agreed
  unfold clientShare
  by_cases hat : a = p.clientFeeParams.clientFeeReceiver ∧ t = p.tokenOut
  · rw [if_pos hat, if_pos ⟨hat.1, hat.2, hsigned⟩]
    omega
  · rw [if_neg hat]
    omega

lemma Budgeted.contribution (hcontrib : Contribution env caller p n s m s') :
    Budgeted caller funding p s₀ (clientShare env p) s' := by
  cases hcontrib with
  | none => exact h.mono fun _ _ => zero_le _
  | added hcharged _ haccount =>
    exact (h.charge hverified hcharged).accounted haccount _ trivial
  | credited hcharged =>
    exact ((h.charge hverified hcharged).credit _ _ _).plainly (plainly_emit _ trivial)
  | sent hcharged _ _ _ hwaits =>
    exact (((h.charge hverified hcharged).plainly (plainly_move _ _ _ _ _)).waits hwaits).plainly
      (plainly_emit _ trivial)

end

lemma Budgeted.payment (h : Budgeted caller funding p s₀ taken s)
    (hpay : Payment env caller p n s m s') : Budgeted caller funding p s₀ taken s' := by
  cases hpay with
  | none => exact h
  | credited _ _ haccount hcredited =>
    have hset := h.accounted haccount (.settled p.tokenOut n) trivial
    rcases hcredited with ⟨-, rfl⟩ | rfl
    · exact hset.plainly (plainly_emit _ trivial)
    · exact (hset.credit _ _ _).plainly (plainly_emit _ trivial)
  | sent _ _ haccount _ hwaits =>
    have hset := h.accounted haccount (.settled p.tokenOut n) trivial
    exact ((hset.plainly (plainly_move _ _ _ _ _)).waits hwaits).plainly (plainly_emit _ trivial)

lemma Budgeted.finalized (h : Budgeted caller funding p s₀ (clientShare env p) s)
    (hfinal : Finalized caller p s s') :
    Budgeted caller funding p s₀ (mayTake env caller funding p) s' := by
  cases hfinal with
  | none => exact h.mono fun _ _ => le_add_right _ _
  | burned huse =>
    have hvault : funding = .vault := by
      rw [h.useVault] at huse
      exact of_decide_eq_true huse
    refine Budgeted.plainly (s := s.debit caller p.tokenIn p.amountIn) (h.debit fun a t => ?_)
      ⟨rfl, rfl, rfl, rfl, le_refl _, .of_emit rfl trivial⟩
    unfold mayTake callerShare
    by_cases hat : a = caller ∧ t = p.tokenIn
    · rw [if_pos hat, if_pos ⟨hat.1, hat.2, hvault⟩]
    · rw [if_neg hat]
      omega

end

/-- A swap touches nothing but what its caller and its client have agreed to, at its end and
whenever it is looked at. -/
theorem consented_of_reaches (env : RouterEnv) (caller : Address) (p : SwapParams) (route : Route)
    (funding : Funding) {s s' : RouterState}
    (h : Reaches (swap env caller p route funding) { s with log := [] } s') :
    Consented env caller funding p s s' := by
  set s₀ : RouterState := { s with log := [] }
  have hconsented : ∀ {taken t}, Budgeted caller funding p s₀ taken t →
      (∀ a b, taken a b ≤ mayTake env caller funding p a b) →
      Consented env caller funding p s t := by
    intro taken t h htaken
    have hfresh : Consented env caller funding p s₀ t := h.consented htaken
    exact ⟨hfresh.pulls, hfresh.pulled, hfresh.vault⟩
  have hnone : ∀ {t}, Budgeted caller funding p s₀ (fun _ _ => 0) t →
      Consented env caller funding p s t := fun h => hconsented h fun _ _ => zero_le _
  have hclient : ∀ {t}, Budgeted caller funding p s₀ (clientShare env p) t →
      Consented env caller funding p s t := fun h => hconsented h fun _ _ => le_add_right _ _
  refine Triple.reaches (P := fun t => t = s₀) ?_ rfl h
  refine triple_swap (J := fun _ t => Verified env p ∧
    Budgeted caller funding p s₀ (fun _ _ => 0) t) route ?_ ?_ ?_ ?_
  · exact fun t hentered => ⟨hentered.verified, budgeted_of_entered rfl hentered⟩
  · intro x swap hop amount isFirstSwap isSplitSwap receiver isOutput _
    refine triple_callSwapOnExecutor env swap hop amount isFirstSwap isSplitSwap receiver isOutput
      ?_ ?_
    · rintro t _ n t' ⟨hverified, ht⟩ - - hhop
      exact ⟨hverified, (ht.hopped hhop).plainly (plainly_emit _ trivial)⟩
    · rintro t t' ⟨-, ht⟩ - - hseen
      exact hnone (ht.hopSeen hseen)
  · rintro x n t m t' - ⟨hverified, ht⟩ hfind
    cases hfind with
    | intro hfees hcontrib hpay hfinal =>
      obtain ⟨fees, -, -, htaken⟩ := hfees.taken
      have hend := (((ht.feesTaken htaken).contribution hverified hcontrib).payment hpay).finalized
        hfinal
      exact hconsented (hend.plainly (.of_log_eq rfl rfl rfl rfl (le_refl _) rfl)) fun _ _ =>
        le_refl _
  · rintro x n t t' ⟨hverified, ht⟩ hseen
    cases hseen with
    | contribution hfees hseen =>
      obtain ⟨fees, -, -, htaken⟩ := hfees.taken
      have hcharged := (ht.feesTaken htaken).charge hverified hseen.charged
      exact hclient ((hcharged.plainly (plainly_move _ _ _ _ _)).waits hseen.waits)
    | payment hfees hcontrib hseen =>
      obtain ⟨fees, -, -, htaken⟩ := hfees.taken
      cases hseen with
      | intro _ haccount _ hwaits =>
        have hcontribution := (ht.feesTaken htaken).contribution hverified hcontrib
        rename_i contributed _ _ _ _ _
        have hset := hcontribution.accounted haccount (.settled p.tokenOut contributed) trivial
        exact hclient ((hset.plainly (plainly_move _ _ _ _ _)).waits hwaits)

/-- The owner has 10 of the output token in the vault. -/
def startWith (owner : UInt8) : RouterState :=
  (deployed fun t o => if t = account 10 ∧ o = account 20 then 100
    else if t = account 11 ∧ o = account 1 then 10 else 0).setVaultBalance (account owner)
      (account 11) 10

theorem consented_of_reaches_helped : ∃ s',
    Reaches (swap sampleEnv (account 20) (helpedSwap 5) (helpedRoute 3) (.wallet 0))
      { startWith 22 with log := [] } s' ∧
    tally pulledAmount s'.log = 7 ∧ s'.vaultOf (account 22) (account 11) = 9 ∧
    Consented sampleEnv (account 20) (.wallet 0) (helpedSwap 5) (startWith 22) s' := by
  have hcheck : (swap sampleEnv (account 20) (helpedSwap 5) (helpedRoute 3) (.wallet 0)
      { startWith 22 with log := [] }).toOption.any fun r =>
        tally pulledAmount r.2.log = 7 ∧ r.2.vaultOf (account 22) (account 11) = 9 := by
    decide +kernel
  obtain ⟨⟨n, s'⟩, hrun, hcheck⟩ := exists_ok_of_any hcheck
  obtain ⟨hpulled, hvault⟩ := of_decide_eq_true hcheck
  have hreach : Reaches (swap sampleEnv (account 20) (helpedSwap 5) (helpedRoute 3) (.wallet 0))
      { startWith 22 with log := [] } s' := .inl ⟨n, hrun⟩
  exact ⟨s', hreach, hpulled, hvault, consented_of_reaches _ _ _ _ _ hreach⟩

/-- The pool of the hop is called and moves 4 of its own vault balance to another account. -/
def movingRoute : Route :=
  singleRoute 3 (sampleHop (account 10) (account 11)
    (.vaultTransfer (account 6) (account 6) (account 31) (account 11) 0 4
      (.set (account 11) (account 21) 4 .done)))

/-- A vault balance of neither the caller nor the client is lower after the swap. -/
theorem vault_falls_of_transfer : ∃ s',
    Reaches (swap sampleEnv (account 20) (helpedSwap 5) movingRoute (.wallet 0))
      { startWith 6 with log := [] } s' ∧
    account 6 ≠ account 20 ∧ account 6 ≠ (helpedSwap 5).clientFeeParams.clientFeeReceiver ∧
    s'.vaultOf (account 6) (account 11) < (startWith 6).vaultOf (account 6) (account 11) := by
  have hcheck : (swap sampleEnv (account 20) (helpedSwap 5) movingRoute (.wallet 0)
      { startWith 6 with log := [] }).toOption.any fun r =>
        r.2.vaultOf (account 6) (account 11) < (startWith 6).vaultOf (account 6) (account 11) := by
    decide +kernel
  obtain ⟨⟨n, s'⟩, hrun, hfalls⟩ := exists_ok_of_any hcheck
  exact ⟨s', .inl ⟨n, hrun⟩, by decide, by decide, of_decide_eq_true hfalls⟩

end TychoRouter
end Tycho
