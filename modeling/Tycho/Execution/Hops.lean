import Tycho.Execution.Waiting

/-! What a hop does, and rules for the hops of a route. -/
namespace Tycho
open Replay.Program Triple Dispatcher LibPrefixLengthEncodedByteArray

/-- How a hop ends, with its output. `s₀` is the state before the hop and `s₁` that with its
transient storage. -/
inductive Hopped (self : Address) (hop : HopWorld) (receiver : Address) (s₀ s₁ : RouterState) :
    Nat → RouterState → Prop
  /-- The output stays in the router and is accounted for. -/
  | kept {s t : RouterState} {amountOut : Nat} (hreceiver : receiver = self)
      (hwaits : Waits self s₁ s)
      (hle : s₀.balanceOf hop.tokenOut self ≤ s.balanceOf hop.tokenOut self)
      (hout : amountOut = s.balanceOf hop.tokenOut self - s₀.balanceOf hop.tokenOut self)
      (haccounted : Vault.Accounted s.endHop hop.tokenOut (int256 amountOut) t) :
      Hopped self hop receiver s₀ s₁ amountOut t
  /-- The receiver gets the output from the protocol. -/
  | direct {s : RouterState} {amountOut : Nat} (hreceiver : receiver ≠ self)
      (hwaits : Waits self s₁ s) (hout : amountOut =
        s.balanceOf hop.tokenOut receiver - s₀.balanceOf hop.tokenOut receiver) :
      Hopped self hop receiver s₀ s₁ amountOut s.endHop
  /-- The router gets the output and sends it to the receiver. -/
  | forwarded {s t : RouterState} {measured amountOut : Nat} (hreceiver : receiver ≠ self)
      (hwaits : Waits self s₁ s)
      (hle : s₀.balanceOf hop.tokenOut self ≤ s.balanceOf hop.tokenOut self)
      (hmeasured : measured = s.balanceOf hop.tokenOut self - s₀.balanceOf hop.tokenOut self)
      (hforward : Waits self (s.endHop.move hop.tokenOut self receiver measured) t)
      (hout : amountOut = t.balanceOf hop.tokenOut receiver - s.balanceOf hop.tokenOut receiver) :
      Hopped self hop receiver s₀ s₁ amountOut t

/-- What others can see in a hop: before the executor returns, or when the output is sent. -/
inductive HopSeen (self : Address) (hop : HopWorld) (receiver : Address) (s₀ s₁ : RouterState) :
    RouterState → Prop
  | during {s : RouterState} (hwaits : Waits self s₁ s) : HopSeen self hop receiver s₀ s₁ s
  | forwarding {s t : RouterState} {measured : Nat} (hreceiver : receiver ≠ self)
      (hwaits : Waits self s₁ s)
      (hle : s₀.balanceOf hop.tokenOut self ≤ s.balanceOf hop.tokenOut self)
      (hmeasured : measured = s.balanceOf hop.tokenOut self - s₀.balanceOf hop.tokenOut self)
      (hforward : Waits self (s.endHop.move hop.tokenOut self receiver measured) t) :
      HopSeen self hop receiver s₀ s₁ t

section
variable (env : RouterEnv) (hop : HopWorld) (receiver : Address)
  (record : Nat → Nat → HopRecord) {s₀ s₁ s : RouterState}

def measureAt : Address := if hop.outputToRouter then env.self else receiver

/-- After a hop: its output is in the log. -/
def HopLogged (s₀ s₁ : RouterState) (n : Nat) (s : RouterState) : Prop :=
  ∃ received t, Hopped env.self hop receiver s₀ s₁ n t ∧ s = t.emit (.hop (record received n))

lemma triple_finishHop (hwaits : Waits env.self s₁ s) (received measured : Nat)
    (hle : s₀.balanceOf hop.tokenOut (measureAt env hop receiver) ≤
      s.balanceOf hop.tokenOut (measureAt env hop receiver))
    (hmeasured : measured = s.balanceOf hop.tokenOut (measureAt env hop receiver) -
      s₀.balanceOf hop.tokenOut (measureAt env hop receiver)) :
    Triple (fun t => t = s.endHop) (finishHop env hop receiver measured (record received))
      (HopLogged env hop receiver record s₀ s₁)
      (HopSeen env.self hop receiver s₀ s₁) := by
  have hlog : ∀ n, Triple (Hopped env.self hop receiver s₀ s₁ n)
      (emit (.hop (record received n)) >>= fun _ => pure n)
      (HopLogged env hop receiver record s₀ s₁)
      (HopSeen env.self hop receiver s₀ s₁) := by
    intro n
    refine ((quiet_emit _).bind fun _ => quiet_pure n).triple ?_
    intro t m t' ht hrun
    simp only [bind_eq_ok, emit_eq_ok, pure_eq_ok] at hrun
    obtain ⟨_, _, rfl, rfl, rfl⟩ := hrun
    exact ⟨received, t, ht, rfl⟩
  by_cases hreceiver : receiver = env.self
  · -- the output is measured at the router in both cases
    have hat : measureAt env hop receiver = env.self := by
      rw [measureAt, hreceiver, ite_self]
    rw [hat] at hle hmeasured
    refine bind (Q := fun n t => n = measured ∧ t = s.endHop) ?_ fun n => ?_
    · unfold forwardOutput
      rw [if_neg (fun h => h.2 hreceiver)]
      exact triple_pure measured fun t ht => ⟨rfl, ht⟩
    · refine bind (Q := fun _ => Hopped env.self hop receiver s₀ s₁ n) ?_ fun _ => hlog n
      rw [onlyIf, if_pos hreceiver]
      refine (Vault.quiet_updateDeltaAccounting hop.tokenOut (int256 n)).triple ?_
      rintro _ _ t ⟨rfl, rfl⟩ hrun
      exact .kept hreceiver hwaits hle hmeasured (Vault.accounted_of_ok hrun)
  · refine bind (Q := Hopped env.self hop receiver s₀ s₁) ?_ fun n => ?_
    · unfold forwardOutput
      by_cases houtput : hop.outputToRouter
      · rw [if_pos ⟨houtput, hreceiver⟩]
        rw [measureAt, if_pos houtput] at hle hmeasured
        apply triple_transferOut
        rintro _ rfl -
        have hhook := (onlyWaits_play env hop.onForward).onlyIf (c := hop.tokenOut = ETH_ADDRESS)
          (s.endHop.move hop.tokenOut env.self receiver measured)
        refine hhook.mono (fun t ht => ht ▸ .refl) ?_ ?_
        · rintro _ t hforward n hn -
          exact .forwarded hreceiver hwaits hle hmeasured hforward hn
        · exact fun t hforward => .forwarding hreceiver hwaits hle hmeasured hforward
      · rw [if_neg (fun h => houtput h.1)]
        rw [measureAt, if_neg houtput] at hmeasured
        refine triple_pure measured ?_
        rintro _ rfl
        exact .direct hreceiver hwaits hmeasured
    · refine bind (Q := fun _ => Hopped env.self hop receiver s₀ s₁ n) ?_ fun _ => hlog n
      rw [onlyIf, if_neg hreceiver]
      exact triple_pure () fun _ ht => ht

lemma triple_executeHop {executor : Address} (amount : Nat) (isFirstSwap isSplitSwap : Bool)
    (hexecutor : executor ≠ addressZero)
    (hbegin : s₁ = s₀.beginHop executor hop.tokenIn amount isFirstSwap isSplitSwap) :
    Triple (fun s => s = s₀)
      (executeHop env executor hop amount isFirstSwap isSplitSwap receiver record)
      (HopLogged env hop receiver record s₀ s₁)
      (HopSeen env.self hop receiver s₀ s₁) := by
  refine bind (Q := fun _ t => t = s₁) ?_ fun _ => ?_
  · refine triple_modify _ ?_
    rintro _ rfl
    exact hbegin.symm
  apply triple_get_bind
  intro t ht
  -- the balances are those before the hop
  have hbefore : t.balanceOf = s₀.balanceOf := by
    rw [ht, hbegin]
    rfl
  subst ht
  have hseen : ∀ t', Waits env.self t t' → HopSeen env.self hop receiver s₀ t t' :=
    fun t' => HopSeen.during
  have hslots : t.currentlySwappingExecutor ≠ addressZero ∧ t.swapInputToken = hop.tokenIn := by
    rw [hbegin]
    exact ⟨hexecutor, rfl⟩
  have hinput := triple_transfer hop.transferReceiver amount (onlyWaits_play env hop.onTransfer)
    hop.transferType isFirstSwap isSplitSwap false hslots.1 hslots.2
  refine (hinput.mono (fun _ h => h) (fun _ _ h => h) hseen).bind fun received => ?_
  refine ((onlyWaits_play env hop.during t).mono (fun _ h => h) (fun _ _ h => h) hseen).bind
    fun _ => triple_of_forall fun t' hwaits => ?_
  refine bind (Q := fun _ s => s = t'.endHop) (triple_modify _ ?_) fun _ => ?_
  · rintro _ rfl
    rfl
  apply triple_get_bind
  rintro _ rfl
  rw [hbefore]
  refine bind (Q := fun measured s => s = t'.endHop ∧
    s₀.balanceOf hop.tokenOut (measureAt env hop receiver) ≤
      t'.balanceOf hop.tokenOut (measureAt env hop receiver) ∧
    measured = t'.balanceOf hop.tokenOut (measureAt env hop receiver) -
      s₀.balanceOf hop.tokenOut (measureAt env hop receiver)) ?_ fun measured => ?_
  · refine (quiet_checkedSub _ _).triple ?_
    rintro _ n _ rfl hrun
    obtain ⟨hle, hn, rfl⟩ := checkedSub_eq_ok.mp hrun
    exact ⟨rfl, hle, hn.symm⟩
  · apply triple_of_forall
    rintro _ ⟨rfl, hle, hmeasured⟩
    exact triple_finishHop env hop receiver record hwaits received measured hle hmeasured

end

variable {P : RouterState → Prop} {nTokens : Nat}

section
variable (env : RouterEnv) (swap : DecodedSwap) (hop : HopWorld) (amount : Nat)
  (isFirstSwap isSplitSwap : Bool) (receiver : Address) (isOutput : Bool)

def hopRecord (received amountOut : Nat) : HopRecord :=
  ⟨swap.executor, swap.protocolData, received, receiver, hop.tokenOut, amountOut, isOutput⟩

/-- To show something of a hop it is enough to look at its three ends and at what can be seen. -/
lemma triple_callSwapOnExecutor {O : RouterState → Prop} {Q : Nat → RouterState → Prop}
    (hdone : ∀ s₀ received n t, P s₀ → swap.executor ≠ addressZero → hop.tokenIn ≠ hop.tokenOut →
      Hopped env.self hop receiver s₀
        (s₀.beginHop swap.executor hop.tokenIn amount isFirstSwap isSplitSwap) n t →
      Q n (t.emit (.hop (hopRecord swap hop receiver isOutput received n))))
    (hseen : ∀ s₀ t, P s₀ → swap.executor ≠ addressZero → hop.tokenIn ≠ hop.tokenOut →
      HopSeen env.self hop receiver s₀
        (s₀.beginHop swap.executor hop.tokenIn amount isFirstSwap isSplitSwap) t → O t) :
    Triple P (callSwapOnExecutor env swap hop amount isFirstSwap isSplitSwap receiver
      isOutput) Q O := by
  refine bind (Q := fun _ s => P s ∧ swap.executor ≠ addressZero) ?_ fun _ => ?_
  · refine (quiet_validateExecutor env _).triple ?_
    rintro s _ _ hs hrun
    obtain ⟨hexecutor, rfl⟩ := of_validateExecutor_ok env hrun
    exact ⟨hs, hexecutor⟩
  refine triple_require.bind fun _ => triple_of_forall ?_
  rintro s ⟨⟨hs, hexecutor⟩, hcycle⟩
  refine (triple_executeHop env hop receiver _ amount isFirstSwap isSplitSwap hexecutor rfl).mono
    (fun _ h => h) ?_ ?_
  · rintro n _ ⟨received, t, hhopped, rfl⟩
    exact hdone s received n t hs hexecutor hcycle hhopped
  · exact fun t ht => hseen s t hs hexecutor hcycle ht

end
namespace TychoRouter

def hopsOf (env : RouterEnv) (p : SwapParams) (route : Route) (receiver : Address) : RouterM Nat :=
  match route.kind with
  | .single => do
    let swap ← LibSwap.decodeSingleSwap route.calldata route.calldata.swapsSlice
    callSwapOnExecutor env swap (route.world 0) p.amountIn true false receiver true
  | .sequential => do
    require (route.calldata.swaps.length ≠ 0) .emptySwaps
    sequentialSwapHops env p.amountIn route receiver
  | .split nTokens => splitSwapHops env p.amountIn nTokens route receiver (p.tokenIn = p.tokenOut)

/-- All entry points have the same form. -/
lemma swap_eq_enter (env : RouterEnv) (caller : Address) (p : SwapParams) (route : Route)
    (funding : Funding) : swap env caller p route funding =
      enter env caller funding p (swapChecked env caller p (hopsOf env p route)) := by
  obtain ⟨kind, calldata, world⟩ := route
  cases kind <;> cases funding <;> rfl

/-- A split swap whose only token index stands for two tokens. -/
def Degenerate (p : SwapParams) (route : Route) : Prop :=
  route.kind = .split 1 ∧ p.tokenIn ≠ p.tokenOut

section
variable {env : RouterEnv} {receiver : Address} {J : Nat → RouterState → Prop}
  {O : RouterState → Prop}

/-- A hop adds its output to that of the swap if it is one of the last hops. -/
def HopKeeps (env : RouterEnv) (receiver : Address) (J : Nat → RouterState → Prop)
    (O : RouterState → Prop) : Prop :=
  ∀ x swap hop amount isFirstSwap isSplitSwap r isOutput, (isOutput = true → r = receiver) →
    Triple (J x) (callSwapOnExecutor env swap hop amount isFirstSwap isSplitSwap r
      isOutput) (fun n => J (x + if isOutput then n else 0)) O

lemma triple_decodeFrom (c : Calldata) (skip : Nat) (element : Slice) :
    Triple P (LibSwap.decodeFrom c skip element) (fun _ => P) O :=
  triple_require.bind fun _ => triple_pure _ fun _ hs => hs.1

lemma triple_sequentialHops (hhop : HopKeeps env receiver J O) (route : Route) (i amount : Nat)
    (elements : List Slice) :
    Triple (J 0) (sequentialHops env route receiver i amount elements)
      (fun n => J (if elements = [] then 0 else n)) O := by
  induction elements generalizing i amount with
  | nil => exact triple_pure amount fun _ hs => hs
  | cons _ elements ih =>
    cases elements with
    | nil =>
      refine (triple_decodeFrom _ _ _).bind fun swap => ?_
      refine (hhop 0 swap _ amount _ _ receiver true fun _ => rfl).mono (fun _ hs => hs) ?_
        fun _ hs => hs
      intro n s hs
      simpa using hs
    | cons =>
      refine (triple_decodeFrom _ _ _).bind fun swap =>
        (triple_decodeFrom _ _ _).bind fun nextSwap =>
        bind (Q := fun _ => J 0) ?_ fun expected => ?_
      · refine ((quiet_validateExecutor env _).bind fun _ => quiet_pure _).triple ?_
        intro s _ s' hs hrun
        simp only [bind_eq_ok, pure_eq_ok] at hrun
        obtain ⟨_, _, hvalid, -, rfl⟩ := hrun
        exact (of_validateExecutor_ok env hvalid).2 ▸ hs
      · refine (hhop 0 swap _ amount _ _ expected false fun h => Bool.noConfusion h).bind fun n =>
          ?_
        exact ih (i + 1) n

/-- The output so far as the arrays have it. -/
def SplitOutput (nTokens : Nat) (isCyclical : Bool) (x : Nat) (st : SplitAmounts) : Prop :=
  if isCyclical then st.cyclicSwapAmountOut = x else nTokens ≠ 1 → st.amounts (nTokens - 1) = x

def afterHop (st : SplitAmounts) (args : SplitArgs) (amountIn amountOut : Nat) : SplitAmounts :=
  let remaining := Function.update st.remainingAmounts args.tokenOutIndex
    (st.remainingAmounts args.tokenOutIndex + amountOut)
  { amounts := Function.update st.amounts args.tokenOutIndex
      (if args.tokenOutIndex = 0 then st.amounts 0
        else st.amounts args.tokenOutIndex + amountOut)
    remainingAmounts := Function.update remaining args.tokenInIndex
      (remaining args.tokenInIndex - amountIn)
    cyclicSwapAmountOut := if args.tokenOutIndex = 0 then st.cyclicSwapAmountOut + amountOut
      else st.cyclicSwapAmountOut }

lemma of_recordHop_ok {nTokens amountIn amountOut : Nat} {st st' : SplitAmounts}
    {args : SplitArgs} {s s' : RouterState}
    (h : recordHop st nTokens args amountIn amountOut s = .ok (st', s')) :
    st' = afterHop st args amountIn amountOut ∧
      amountIn ≤ Function.update st.remainingAmounts args.tokenOutIndex
        (st.remainingAmounts args.tokenOutIndex + amountOut) args.tokenInIndex ∧ s = s' := by
  simp only [recordHop, bind_eq_ok, require_eq_ok, checkedUint256_eq_ok, checkedSub_eq_ok,
    pure_eq_ok] at h
  obtain ⟨_, _, ⟨-, rfl⟩, cyclic, _, hcyclic, amount, _, hamount, _, _, ⟨-, rfl, rfl⟩, _, _,
    ⟨hle, rfl, rfl⟩, rfl, rfl⟩ := h
  unfold cyclicAmount at hcyclic
  unfold indexAmount at hamount
  unfold afterHop
  by_cases hzero : args.tokenOutIndex = 0
  · rw [if_pos hzero] at hcyclic hamount
    obtain ⟨-, rfl, rfl⟩ := checkedUint256_eq_ok.mp hcyclic
    obtain ⟨rfl, rfl⟩ := pure_eq_ok.mp hamount
    rw [if_pos hzero, if_pos hzero]
    exact ⟨rfl, hle, rfl⟩
  · rw [if_neg hzero] at hcyclic hamount
    obtain ⟨rfl, rfl⟩ := pure_eq_ok.mp hcyclic
    obtain ⟨-, rfl, rfl⟩ := checkedUint256_eq_ok.mp hamount
    rw [if_neg hzero, if_neg hzero]
    exact ⟨rfl, hle, rfl⟩

lemma splitOutput_afterHop {x amountIn n : Nat} {isCyclical : Bool} {st : SplitAmounts}
    {args : SplitArgs} (hn : nTokens ≠ 0) (hst : SplitOutput nTokens isCyclical x st) :
    SplitOutput nTokens isCyclical
      (x + if isOutputIndex nTokens isCyclical args.tokenOutIndex then n else 0)
      (afterHop st args amountIn n) := by
  unfold SplitOutput at hst ⊢
  unfold isOutputIndex afterHop
  cases isCyclical with
  | true =>
    by_cases hzero : args.tokenOutIndex = 0
    · simpa [hzero] using hst
    · simpa [hzero] using hst
  | false =>
    simp only [Bool.false_eq_true, if_false] at hst ⊢
    intro hone
    have hne : nTokens - 1 ≠ 0 := by omega
    by_cases hlast : args.tokenOutIndex = nTokens - 1
    · simp [hlast, hne, hst hone]
    · simp [hlast, Ne.symm hlast, hst hone]

lemma quiet_recordHop (st : SplitAmounts) (nTokens : Nat) (args : SplitArgs)
    (amountIn amountOut : Nat) : Quiet (recordHop st nTokens args amountIn amountOut) :=
  quiet_require.bind fun _ =>
    (quiet_ite (quiet_checkedUint256 _) (quiet_pure _)).bind fun _ =>
      (quiet_ite (quiet_pure _) (quiet_checkedUint256 _)).bind fun _ =>
        (quiet_checkedUint256 _).bind fun _ => (quiet_checkedSub _ _).bind fun _ => quiet_pure _

lemma triple_splitAmountIn (st : SplitAmounts) (args : SplitArgs) :
    Triple P (splitAmountIn st args) (fun _ => P) O := by
  refine Quiet.triple (quiet_ite ((quiet_checkedUint256 _).bind fun _ => quiet_pure _)
    (quiet_pure _)) ?_
  intro s n s' hs hrun
  unfold splitAmountIn at hrun
  split_ifs at hrun
  · simp only [bind_eq_ok, checkedUint256_eq_ok, pure_eq_ok] at hrun
    obtain ⟨_, _, ⟨-, -, rfl⟩, -, rfl⟩ := hrun
    exact hs
  · exact (pure_eq_ok.mp hrun).2 ▸ hs

section
variable (hhop : HopKeeps env receiver J O) (route : Route) (hn : nTokens ≠ 0) (isCyclical : Bool)
  (i x : Nat) (st : SplitAmounts)
include hhop route hn isCyclical i x st

lemma triple_splitHop (element : Slice) (hst : SplitOutput nTokens isCyclical x st) :
    Triple (J x) (splitHop env route nTokens receiver isCyclical i st element)
      (fun st' s => ∃ y, SplitOutput nTokens isCyclical y st' ∧ J y s) O := by
  refine bind (Q := fun _ => J x) ?_ fun decoded => ?_
  · exact (triple_decodeFrom _ _ _).bind fun _ => triple_pure _ fun _ hs => hs
  refine triple_require.bind fun _ => mono ?_ (fun _ hs => hs.1) (fun _ _ hs => hs) fun _ hs => hs
  refine (triple_splitAmountIn st decoded.1).bind fun amountIn => ?_
  refine (hhop x decoded.2 _ amountIn _ _ _ _ ?_).bind fun n => ?_
  · intro houtput
    rw [if_pos houtput]
  · refine (quiet_recordHop st nTokens decoded.1 amountIn n).triple ?_
    intro s st' s' hs hrun
    obtain ⟨rfl, -, rfl⟩ := of_recordHop_ok hrun
    exact ⟨_, splitOutput_afterHop hn hst, hs⟩

lemma triple_splitHops (elements : List Slice) (hst : SplitOutput nTokens isCyclical x st) :
    Triple (J x) (splitHops env route nTokens receiver isCyclical i st elements)
      (fun st' s => ∃ y, SplitOutput nTokens isCyclical y st' ∧ J y s) O := by
  induction elements generalizing i x st with
  | nil => exact triple_pure st fun _ hs => ⟨x, hst, hs⟩
  | cons element _ ih =>
    refine (triple_splitHop hhop route hn isCyclical i x st element hst).bind fun st' => ?_
    apply triple_of_forall
    rintro s ⟨y, hst', hs⟩
    exact (ih (i + 1) y st' hst').mono (fun _ h => h ▸ hs) (fun _ _ h => h) fun _ h => h

end

lemma sequentialElements_ne_nil {c : Calldata} (h : c.swaps.length ≠ 0) :
    sequentialElements c ≠ [] := by
  unfold sequentialElements size Calldata.swapsSlice
  obtain ⟨k, hk⟩ := Nat.exists_eq_succ_of_ne_zero h
  dsimp only
  rw [hk, sizeFrom, if_pos (by omega)]
  exact List.cons_ne_nil _ _

/-- What hops keep holds after the hops of a route, with its output unless the route is
degenerate. -/
lemma triple_hopsOf (hhop : HopKeeps env receiver J O) (p : SwapParams) (route : Route) :
    Triple (J 0) (hopsOf env p route receiver)
      (fun n s => ∃ x, (¬Degenerate p route → x = n) ∧ J x s) O := by
  unfold hopsOf
  cases hkind : route.kind with
  | single =>
    refine (triple_decodeFrom _ _ _).bind fun swap => ?_
    refine (hhop 0 swap _ _ _ _ receiver true fun _ => rfl).mono (fun _ h => h) ?_ fun _ h => h
    intro n s hs
    exact ⟨0 + n, fun _ => Nat.zero_add n, hs⟩
  | sequential =>
    refine triple_require.bind fun _ => triple_of_forall ?_
    rintro s ⟨hs, hlen⟩
    refine (triple_sequentialHops hhop route 0 p.amountIn _).mono (fun _ h => h ▸ hs) ?_
      fun _ h => h
    intro n t ht
    refine ⟨n, fun _ => rfl, ?_⟩
    rwa [if_neg (sequentialElements_ne_nil hlen)] at ht
  | split nTokens =>
    refine triple_require.bind fun _ => triple_require.bind fun _ => triple_of_forall ?_
    rintro s ⟨⟨hs, -⟩, hn⟩
    have hstart : SplitOutput nTokens (p.tokenIn = p.tokenOut) 0
        ⟨fun i => if i = 0 then p.amountIn else 0, fun i => if i = 0 then p.amountIn else 0,
          0⟩ := by
      unfold SplitOutput
      split_ifs
      · rfl
      · exact fun hone => if_neg (by omega)
    have hhops := triple_splitHops hhop route hn (p.tokenIn = p.tokenOut) 0 0 _
      (splitElements route.calldata) hstart
    have hstarted := hhops.mono (fun t (ht : t = s) => ht ▸ hs) (fun _ _ h => h) fun _ h => h
    refine hstarted.bind fun st => triple_pure _ ?_
    rintro t ⟨y, hst, ht⟩
    refine ⟨y, fun hdegenerate => ?_, ht⟩
    unfold SplitOutput at hst
    split_ifs at hst ⊢ with hcyclic
    · exact hst.symm
    · refine (hst ?_).symm
      rintro rfl
      exact hdegenerate ⟨hkind, by simpa using hcyclic⟩

end
end TychoRouter
end Tycho
