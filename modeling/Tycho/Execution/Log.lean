import Tycho.Execution.Settlement

/-! The log of a call: which events its parts add. -/
namespace Tycho
open Replay.Program List

def tally (f : RouterEvent → Nat) (log : List RouterEvent) : Nat := (log.map f).sum

@[simp]
lemma tally_append (f : RouterEvent → Nat) (log log' : List RouterEvent) :
    tally f (log ++ log') = tally f log + tally f log' := by
  simp [tally]

@[simp]
lemma tally_singleton (f : RouterEvent → Nat) (e : RouterEvent) : tally f [e] = f e := by
  simp [tally]

lemma tally_eq_zero {f : RouterEvent → Nat} {log : List RouterEvent} (h : ∀ e ∈ log, f e = 0) :
    tally f log = 0 := by
  induction log with
  | nil => rfl
  | cons e log ih =>
    have hrest : tally f log = 0 := ih fun e he => h e (mem_cons_of_mem _ he)
    unfold tally at hrest ⊢
    rw [map_cons, sum_cons, hrest, h e mem_cons_self]

/-- The log has grown by events of a kind. -/
def LogGrows (P : RouterEvent → Prop) (s s' : RouterState) : Prop :=
  ∃ es : List RouterEvent, s'.log = s.log ++ es ∧ ∀ e ∈ es, P e

variable {e : RouterEvent} {n m : Nat} {t : RouterState} {token self : Address} {hop : HopWorld}

namespace LogGrows
variable {P P' : RouterEvent → Prop} {s s' s'' : RouterState}

lemma of_eq (h : s'.log = s.log) : LogGrows P s s' :=
  ⟨[], by rw [h, append_nil], fun _ he => absurd he not_mem_nil⟩

lemma of_emit (h : s'.log = s.log ++ [e]) (he : P e) : LogGrows P s s' :=
  ⟨[e], h, fun _ hmem => mem_singleton.mp hmem ▸ he⟩

lemma trans (h : LogGrows P s s') (h' : LogGrows P s' s'') : LogGrows P s s'' := by
  obtain ⟨es, hlog, hes⟩ := h
  obtain ⟨es', hlog', hes'⟩ := h'
  refine ⟨es ++ es', ?_, ?_⟩
  · rw [hlog', hlog, append_assoc]
  · intro e he
    exact (mem_append.mp he).elim (hes e) (hes' e)

lemma of_log_eq (h : LogGrows P t s') (hlog : t.log = s.log) : LogGrows P s s' :=
  (of_eq hlog).trans h

section
variable (h : LogGrows P s s')
include h

lemma append (h' : LogGrows P t s'') (hlog : t.log = s'.log) : LogGrows P s s'' :=
  h.trans (h'.of_log_eq hlog)

lemma mono (himp : ∀ e, P e → P' e) : LogGrows P' s s' := by
  obtain ⟨es, hlog, hes⟩ := h
  exact ⟨es, hlog, fun e he => himp e (hes e he)⟩

lemma forall_mem (hs : ∀ e ∈ s.log, P e) : ∀ e ∈ s'.log, P e := by
  obtain ⟨es, hlog, hes⟩ := h
  intro e he
  rw [hlog] at he
  exact (mem_append.mp he).elim (hs e) (hes e)

/-- Events that count for nothing. -/
lemma tally_eq {f : RouterEvent → Nat} (hzero : ∀ e, P e → f e = 0) :
    tally f s'.log = tally f s.log := by
  obtain ⟨es, hlog, hes⟩ := h
  rw [hlog, tally_append, tally_eq_zero fun e he => hzero e (hes e he), Nat.add_zero]

end

end LogGrows

namespace RouterEvent

def OfWaiting : RouterEvent → Prop
  | .taken .. | .pulled .. | .transferred .. => True
  | _ => False

def OfHops : RouterEvent → Prop
  | .native .. | .hop .. => True
  | e => e.OfWaiting

def OfFees : RouterEvent → Prop
  | .fee .. => True
  | _ => False

def OfSettlement : RouterEvent → Prop
  | .native .. | .hop .. => False
  | _ => True

def OfPayment : RouterEvent → Prop
  | .charged .. => False
  | e => e.OfSettlement

lemma OfWaiting.ofPayment (h : e.OfWaiting) : e.OfPayment := by
  cases e <;> trivial

lemma OfWaiting.ofHops (h : e.OfWaiting) : e.OfHops := by
  cases e <;> trivial

end RouterEvent

lemma Vault.Accounted.log_eq {s s' : RouterState} {change : Int}
    (h : Vault.Accounted s token change s') : s'.log = s.log := by
  rw [h.state]

section
variable {self receiver : Address} {s s₁ s' : RouterState}

lemma Act.logGrows (h : Act self s s') : LogGrows RouterEvent.OfWaiting s s' := by
  cases h with
  | set => exact .of_eq rfl
  | give => exact .of_eq rfl
  | take => exact .of_eq rfl
  | allowed => exact .of_eq rfl
  | cleared => exact .of_eq rfl
  | transferred => exact .of_emit rfl trivial
  | pulled => exact .of_emit rfl trivial
  | taken haccount => exact (LogGrows.of_eq haccount.log_eq).trans (.of_emit rfl trivial)
  | sent _ haccount => exact (LogGrows.of_eq haccount.log_eq).trans (.of_emit rfl trivial)

lemma logGrows_of_waits (h : Waits self s s') : LogGrows RouterEvent.OfWaiting s s' := by
  induction h with
  | refl => exact .of_eq rfl
  | tail _ hact ih => exact ih.trans hact.logGrows

lemma Hopped.logGrows (h : Hopped self hop receiver s s₁ n s') :
    LogGrows RouterEvent.OfWaiting s₁ s' := by
  cases h with
  | kept _ hwaits _ _ haccount =>
    exact (logGrows_of_waits hwaits).append (.of_eq haccount.log_eq) rfl
  | direct _ hwaits => exact (logGrows_of_waits hwaits).append (.of_eq rfl) rfl
  | forwarded _ hwaits _ _ hforward =>
    exact (logGrows_of_waits hwaits).append (logGrows_of_waits hforward) rfl

lemma HopSeen.logGrows (h : HopSeen self hop receiver s s₁ s') :
    LogGrows RouterEvent.OfWaiting s₁ s' := by
  cases h with
  | during hwaits => exact logGrows_of_waits hwaits
  | forwarding _ hwaits _ _ hforward =>
    exact (logGrows_of_waits hwaits).append (logGrows_of_waits hforward) rfl

end

namespace TychoRouter
variable {env : RouterEnv} {caller : Address} {funding : Funding} {p : SwapParams}
  {s₀ s s' : RouterState}

lemma Entered.ofHops (h : Entered env caller funding p s₀ s) (hlog : s₀.log = []) :
    ∀ e ∈ s.log, e.OfHops := by
  have hempty : ∀ e ∈ s₀.log, e.OfHops := by
    intro e he
    rw [hlog] at he
    exact absurd he not_mem_nil
  cases h.stored with
  | wallet => exact hempty
  | vault => exact hempty
  | permit2 => exact hempty
  | native _ _ haccount =>
    refine forall_mem_append.mpr ⟨?_, forall_mem_singleton.mpr trivial⟩
    rw [haccount.log_eq]
    exact hempty

lemma FeesTaken.logGrows {fees : List FeeRecipient} (h : FeesTaken token fees s s') :
    LogGrows RouterEvent.OfFees s s' := by
  induction h with
  | nil => exact .of_eq rfl
  | none _ _ ih => exact ih
  | @some fee _ _ t _ _ haccount _ ih =>
    have htaken : LogGrows RouterEvent.OfFees t (t.emit (.fee token fee.feeAmount)) :=
      .of_emit rfl trivial
    exact ((LogGrows.of_eq haccount.log_eq).trans htaken).append ih rfl

lemma ofPayment_of_waits (h : Waits self s s') : LogGrows RouterEvent.OfPayment s s' :=
  (logGrows_of_waits h).mono fun _ he => he.ofPayment

lemma ofPayment_of_settled (haccount : Vault.Accounted s p.tokenOut (-int256 n) t) :
    LogGrows RouterEvent.OfPayment s (t.emit (.settled p.tokenOut n)) :=
  (LogGrows.of_eq haccount.log_eq).trans (.of_emit rfl trivial)

lemma Payment.logGrows (h : Payment env caller p n s m s') :
    LogGrows RouterEvent.OfPayment s s' := by
  cases h with
  | none => exact .of_eq rfl
  | credited _ _ haccount hcredited =>
    rcases hcredited with ⟨-, rfl⟩ | rfl
    · exact (ofPayment_of_settled haccount).trans (.of_emit rfl trivial)
    · exact (ofPayment_of_settled haccount).trans (.of_emit rfl trivial)
  | sent _ _ haccount _ hwaits =>
    have hsent := (ofPayment_of_settled haccount).append (ofPayment_of_waits hwaits) rfl
    exact hsent.trans (.of_emit rfl trivial)

lemma Finalized.logGrows (h : Finalized caller p s s') : LogGrows RouterEvent.OfPayment s s' := by
  cases h with
  | none => exact .of_eq rfl
  | burned => exact .of_emit rfl trivial

/-- A step of a run ends a call, looks at it while it goes on, or changes nothing. -/
lemma of_step {env : RouterEnv} {call : RouterCall} {o : Output}
    (h : step self s (env, call) = some (o, s')) :
    env.self = self ∧ call.caller? ≠ some self ∧
      (Reaches (call.execute env) { s with log := [] } s' ∧ o.log = s'.log ∨
        s' = s ∧ o.log = []) := by
  unfold step at h
  split_ifs at h with hself
  refine ⟨hself.1, hself.2, ?_⟩
  cases hrun : call.execute env { s with log := [] } with
  | ok =>
    simp only [hrun, Option.some.injEq, Prod.mk.injEq] at h
    obtain ⟨rfl, rfl⟩ := h
    exact .inl ⟨.inl ⟨_, hrun⟩, rfl⟩
  | error halt =>
    cases halt with
    | observed =>
      simp only [hrun, Option.some.injEq, Prod.mk.injEq] at h
      obtain ⟨rfl, rfl⟩ := h
      exact .inl ⟨.inr hrun, rfl⟩
    | reverted =>
      simp only [hrun, Option.some.injEq, Prod.mk.injEq] at h
      obtain ⟨rfl, rfl⟩ := h
      exact .inr ⟨rfl, rfl⟩

end TychoRouter
end Tycho
