import Tycho.Collections.HashMap
import Tycho.Replay.Run

/-! The subscriptions of `WsDeltasClient`: the tables behind its lock, and the channels to the
subscribers. Handling a message keeps the lock, so that each call is one step; subscribers read
between the steps. -/
namespace Tycho
open Collections Replay HashMap Function

abbrev Uuid := Nat

/-- The state of a subscription. Whom to notify about its end is left out. -/
inductive SubscriptionInfo where
  | requestedSubscription
  | active
  | requestedUnsubscription
  deriving DecidableEq

inductive DeltasError where
  | notConnected
  | subscriptionAlreadyPending
  | fatal (message : String)
  deriving DecidableEq

/-- A channel to a subscriber, with all messages that the server has sent for it and those that the
subscriber has read. -/
structure Channel (M : Type) where
  buffer : List M
  read : List M
  sent : List M
  /-- The receiver was dropped. -/
  closed : Bool

/-- The senders are the numbers of their channels. -/
structure Inner (X : Type) where
  pending : HashMap X SubscriptionInfo
  subscriptions : HashMap Uuid SubscriptionInfo
  sender : HashMap Uuid Nat

namespace Inner
variable {X : Type} (inner : Inner X) (extractorId : X) (id : Uuid)

def newSubscription [DecidableEq X] : Except DeltasError (Inner X) :=
  if extractorId ∈ inner.pending then .error .subscriptionAlreadyPending
  else .ok { inner with pending := inner.pending.insert extractorId .requestedSubscription }

/-- `tx` is the sender of a new channel. -/
def markActive [DecidableEq X] (tx : Nat) : Inner X :=
  match inner.pending.lookup extractorId with
  | some .requestedSubscription =>
    ⟨inner.pending.erase extractorId, inner.subscriptions.insert id .active,
      inner.sender.insert id tx⟩
  | some _ => { inner with pending := inner.pending.erase extractorId }
  | none => inner

def endSubscription : Inner X :=
  if inner.subscriptions.lookup id = some .active then
    { inner with subscriptions := inner.subscriptions.insert id .requestedUnsubscription }
  else inner

def removeSubscription : Except DeltasError Unit × Inner X :=
  match inner.subscriptions.lookup id with
  | none => (.ok (), inner)
  | some info =>
    let inner := { inner with subscriptions := inner.subscriptions.erase id }
    if id ∈ inner.sender then (.ok (), { inner with sender := inner.sender.erase id })
    else (.error (.fatal (if info = .requestedUnsubscription then
      "Inconsistent internal client state: `sender` state drifted from `info` while removing a subscription."
      else "sender channel missing")), inner)

def cancelPending [DecidableEq X] : Inner X :=
    { inner with pending := inner.pending.erase extractorId }

/-- Nothing is done for a subscription whose end was requested already. Whether the command
reaches the server does not matter here. -/
def forceUnsubscribe : Inner X :=
  if inner.subscriptions.lookup id = some .requestedUnsubscription then inner
  else inner.endSubscription id

end Inner

/-- The client with all channels that were ever opened, the first `opened` ones. -/
structure WsDeltasClient (X M : Type) where
  subscriptionBufferSize : Nat
  inner : Option (Inner X)
  channels : Nat → Channel M
  opened : Nat

inductive ClientEvent (X M : Type) where
  | connected
  | disconnected
  /-- The command of `subscribe` is sent. -/
  | subscribe (extractorId : X)
  | unsubscribe (id : Uuid)
  | newSubscription (extractorId : X) (id : Uuid)
  | blockChanges (id : Uuid) (msg : M)
  /-- `SubscriptionEnded`, or the error `SubscriptionNotFound`. -/
  | subscriptionEnded (id : Uuid)
  /-- The errors `ExtractorNotFound` and `SubscribeError`. -/
  | rejected (extractorId : X)
  /-- A subscriber takes the next message, or goes away. -/
  | read (channel : Nat)
  | gone (channel : Nat)

def ClientEvent.target {X M : Type} : ClientEvent X M → Option Uuid
  | .blockChanges id _ => some id
  | _ => none

namespace WsDeltasClient
variable {X M : Type}

/-- `try_send` accepts a message. -/
def Accepts (size : Nat) (c : Channel M) : Prop := c.closed = false ∧ c.buffer.length < size

instance (size : Nat) (c : Channel M) : Decidable (Accepts size c) :=
  inferInstanceAs (Decidable (_ ∧ _))

def handleBlockChangesMsg (s : WsDeltasClient X M) (inner : Inner X) (id : Uuid) (msg : M) :
    WsDeltasClient X M :=
  match inner.sender.lookup id with
  | none => s
  | some tx =>
    let c := s.channels tx
    let sent := c.sent ++ [msg]
    if Accepts s.subscriptionBufferSize c then
      let c := { c with buffer := c.buffer ++ [msg], sent }
      { s with channels := update s.channels tx c }
    else
      { s with
        channels := update s.channels tx { c with sent }
        inner := some (inner.forceUnsubscribe id) }

def withInner (s : WsDeltasClient X M) (f : Inner X → Except DeltasError Unit × WsDeltasClient X M)
    :
    Option (Except DeltasError Unit × WsDeltasClient X M) :=
  match s.inner with
  | none => some (.error .notConnected, s)
  | some inner => some (f inner)

def step [DecidableEq X] (s : WsDeltasClient X M) :
    ClientEvent X M → Option (Except DeltasError Unit × WsDeltasClient X M)
  | .connected => some (.ok (), { s with inner := some ⟨∅, ∅, ∅⟩ })
  | .disconnected => some (.ok (), { s with inner := none })
  | .subscribe extractorId => s.withInner fun inner =>
    match inner.newSubscription extractorId with
    | .error e => (.error e, s)
    | .ok inner => (.ok (), { s with inner := some inner })
  | .unsubscribe id => s.withInner fun inner =>
    (.ok (), { s with inner := some (inner.endSubscription id) })
  | .newSubscription extractorId id => s.withInner fun inner =>
    (.ok (), { s with
      inner := some (inner.markActive extractorId id s.opened)
      channels := update s.channels s.opened ⟨[], [], [], false⟩
      opened := s.opened + 1 })
  | .blockChanges id msg => s.withInner fun inner => (.ok (), s.handleBlockChangesMsg inner id msg)
  | .subscriptionEnded id => s.withInner fun inner =>
    ((inner.removeSubscription id).1, { s with inner := some (inner.removeSubscription id).2 })
  | .rejected extractorId => s.withInner fun inner =>
    (.ok (), { s with inner := some (inner.cancelPending extractorId) })
  | .read n =>
    let c := s.channels n
    match c.closed, c.buffer with
    | false, msg :: buffer =>
      let c := { c with buffer, read := c.read ++ [msg] }
      some (.ok (), { s with channels := update s.channels n c })
    | _, _ => none
  | .gone n =>
    let c := { s.channels n with closed := true }
    some (.ok (), { s with channels := update s.channels n c })

def start (subscriptionBufferSize : Nat) : WsDeltasClient X M :=
  ⟨subscriptionBufferSize, none, fun _ => ⟨[], [], [], false⟩, 0⟩

/-- A message of a subscription whose end was requested finds the buffer full, or no receiver. -/
def InStep (s : WsDeltasClient X M) (e : ClientEvent X M) : Prop :=
  ∀ inner ∈ s.inner, ∀ id ∈ e.target,
    inner.subscriptions.lookup id = some .requestedUnsubscription →
      ∀ tx ∈ inner.sender.lookup id, ¬ Accepts s.subscriptionBufferSize (s.channels tx)

instance (s : WsDeltasClient X M) (e : ClientEvent X M) : Decidable (InStep s e) :=
  inferInstanceAs (Decidable (∀ inner ∈ s.inner, ∀ id ∈ e.target, _ → ∀ tx ∈ inner.sender.lookup id,
    ¬ _))

/-- The senders lead to different channels, and an active subscription has missed nothing. -/
structure Linked (inner : Inner X) (channels : Nat → Channel M) (opened : Nat) : Prop where
  opened : ∀ id tx, inner.sender.lookup id = some tx → tx < opened
  apart : ∀ id id' tx, inner.sender.lookup id = some tx → inner.sender.lookup id' = some tx → id =
    id'
  whole : ∀ id tx, inner.sender.lookup id = some tx →
    inner.subscriptions.lookup id = some .requestedUnsubscription ∨
      inner.subscriptions.lookup id = some .active ∧
        (channels tx).read ++ (channels tx).buffer = (channels tx).sent

structure Inv (s : WsDeltasClient X M) : Prop where
  prefixes : ∀ n, (s.channels n).read ++ (s.channels n).buffer <+: (s.channels n).sent
  linked : ∀ inner ∈ s.inner, Linked inner s.channels s.opened

section
variable {inner : Inner X} {channels : Nat → Channel M} {opened : Nat}

section
variable (h : Linked inner channels opened)
include h

lemma Linked.endSubscription (id : Uuid) : Linked (inner.endSubscription id) channels opened := by
  unfold Inner.endSubscription
  split
  · refine ⟨h.opened, h.apart, ?_⟩
    intro id' tx htx
    simp only [lookup_insert_ite]
    split
    · exact Or.inl rfl
    · exact h.whole id' tx htx
  · exact h

lemma Linked.markActive [DecidableEq X] (extractorId : X) (id : Uuid) :
    Linked (inner.markActive extractorId id opened)
      (update channels opened ⟨[], [], [], false⟩) (opened + 1) := by
  -- no sender leads to the new channel yet
  have hold : Linked inner (update channels opened ⟨[], [], [], false⟩) (opened + 1) := by
    refine ⟨fun id' tx htx => Nat.lt_succ_of_lt (h.opened id' tx htx), h.apart, ?_⟩
    intro id' tx htx
    rw [update_of_ne (Nat.ne_of_lt (h.opened id' tx htx))]
    exact h.whole id' tx htx
  have hlt := h.opened
  unfold Inner.markActive
  split
  · obtain ⟨hopened, hapart, hwhole⟩ := hold
    constructor <;> simp only [lookup_insert_ite]
    · grind
    · grind
    · intro id' tx htx
      split at htx
      · obtain rfl := Option.some.inj htx
        simp_all
      · rename_i hne
        rw [if_neg hne]
        exact hwhole id' tx htx
  · exact ⟨hold.opened, hold.apart, hold.whole⟩
  · exact hold

lemma Linked.removeSubscription (id : Uuid) :
    Linked (inner.removeSubscription id).2 channels opened := by
  unfold Inner.removeSubscription
  split
  · exact h
  · obtain ⟨hopened, hapart, hwhole⟩ := h
    dsimp only
    split
    · constructor <;> simp only [lookup_erase_ite] <;> grind
    · rename_i hid
      rw [mem_iff_lookup] at hid
      constructor <;> simp only [lookup_erase_ite] <;> grind

lemma Linked.forceUnsubscribe (id : Uuid) : Linked (inner.forceUnsubscribe id) channels opened := by
  unfold Inner.forceUnsubscribe
  split
  · exact h
  · exact h.endSubscription id

end

lemma forceUnsubscribe_ne_active (inner : Inner X) (id : Uuid) :
    (inner.forceUnsubscribe id).subscriptions.lookup id ≠ some .active := by
  unfold Inner.forceUnsubscribe Inner.endSubscription
  split_ifs with hend hactive
  · simp [hend]
  · simp
  · exact hactive

@[simp] lemma sender_forceUnsubscribe (inner : Inner X) (id : Uuid) :
    (inner.forceUnsubscribe id).sender = inner.sender := by
  unfold Inner.forceUnsubscribe Inner.endSubscription
  split_ifs <;> rfl

/-- One channel changes without losing a message of an active subscription. -/
lemma Linked.update (h : Linked inner channels opened) {n : Nat} {c : Channel M}
    (hc : ∀ id, inner.sender.lookup id = some n → inner.subscriptions.lookup id = some .active →
      c.read ++ c.buffer = c.sent) : Linked inner (update channels n c) opened := by
  refine ⟨h.opened, h.apart, ?_⟩
  intro id tx htx
  have hwhole := h.whole id tx htx
  by_cases hn : tx = n
  · subst hn
    rw [update_self]
    exact hwhole.imp_right fun hactive => ⟨hactive.1, hc id htx hactive.1⟩
  · rw [update_of_ne hn]
    exact hwhole

end

variable {s : WsDeltasClient X M}

lemma Inv.update (h : Inv s) {n : Nat} {c : Channel M} {inner : Option (Inner X)}
    (hc : c.read ++ c.buffer <+: c.sent)
    (hinner : ∀ inner' ∈ inner, Linked inner' (update s.channels n c) s.opened) :
    Inv { s with channels := update s.channels n c, inner } := by
  refine ⟨?_, hinner⟩
  intro m
  by_cases hm : m = n
  · subst hm
    simpa using hc
  · simpa [hm] using h.prefixes m

/-- The subscriber's own steps move no message across the ends of the channel. -/
lemma Inv.update_same (h : Inv s) {n : Nat} {c : Channel M}
    (hc : c.read ++ c.buffer = (s.channels n).read ++ (s.channels n).buffer)
    (hsent : c.sent = (s.channels n).sent) :
    Inv { s with channels := Function.update s.channels n c } := by
  apply h.update
  · rw [hc, hsent]
    exact h.prefixes n
  · intro inner hinner
    have hlinked := h.linked inner hinner
    apply hlinked.update
    intro id hid hactive
    rw [hc, hsent]
    simpa [hactive] using hlinked.whole id n hid

lemma Inv.handleBlockChangesMsg (h : Inv s) {inner : Inner X} (hinner : s.inner = some inner)
    {id : Uuid}
    {msg : M} (hin : s.InStep (.blockChanges id msg)) : Inv
      (s.handleBlockChangesMsg inner id msg) := by
  have hlinked := h.linked inner hinner
  unfold WsDeltasClient.handleBlockChangesMsg
  split
  · exact h
  · rename_i tx htx
    dsimp only
    split
    · rename_i hacc
      -- the subscription is still active, so nothing is missing before the message
      have hwhole := (hlinked.whole id tx htx).resolve_left fun he =>
        hin inner hinner id rfl he tx htx hacc
      have hnext : (s.channels tx).read ++ ((s.channels tx).buffer ++ [msg]) =
        (s.channels tx).sent ++ [msg] := by
        rw [← List.append_assoc, hwhole.2]
      apply h.update
      · exact ⟨[], by rw [List.append_nil, hnext]⟩
      · intro inner' hinner'
        exact (h.linked inner' hinner').update fun _ _ _ => hnext
    · apply h.update
      · exact (h.prefixes tx).trans (List.prefix_append _ _)
      · intro inner' hinner'
        obtain rfl := Option.some.inj hinner'
        apply (hlinked.forceUnsubscribe id).update
        intro id' hid' hactive
        rw [sender_forceUnsubscribe] at hid'
        obtain rfl := hlinked.apart id' id tx hid' htx
        exact absurd hactive (forceUnsubscribe_ne_active inner id')

section
variable [DecidableEq X]

lemma Inv.step (h : Inv s) {e : ClientEvent X M} {o : Except DeltasError Unit}
    {s' : WsDeltasClient X M}
    (hin : s.InStep e) (hstep : s.step e = some (o, s')) : Inv s' := by
  -- what needs a connection changes nothing without one
  have hwith : ∀ f : Inner X → Except DeltasError Unit × WsDeltasClient X M,
      (∀ inner, s.inner = some inner → Inv (f inner).2) → s.withInner f = some (o, s') → Inv s' :=
        by
    intro f hf hs
    unfold withInner at hs
    split at hs
    · cases hs
      exact h
    · rename_i inner hinner
      have := hf inner hinner
      rwa [Option.some.inj hs] at this
  have htables : ∀ inner' : Inner X, Linked inner' s.channels s.opened →
      Inv { s with inner := some inner' } := by
    intro inner' hlinked
    refine ⟨h.prefixes, ?_⟩
    intro inner hinner
    rwa [← Option.some.inj hinner]
  cases e with
  | connected =>
    cases hstep
    exact htables _ ⟨by simp, by simp, by simp⟩
  | disconnected =>
    cases hstep
    exact ⟨h.prefixes, by simp⟩
  | subscribe =>
    refine hwith _ ?_ hstep
    intro inner hinner
    have hlinked := h.linked inner hinner
    unfold Inner.newSubscription
    split_ifs
    · exact h
    · exact htables _ ⟨hlinked.opened, hlinked.apart, hlinked.whole⟩
  | unsubscribe id =>
    refine hwith _ ?_ hstep
    intro inner hinner
    exact htables _ ((h.linked inner hinner).endSubscription id)
  | newSubscription extractorId id =>
    refine hwith _ ?_ hstep
    intro inner hinner
    have hlinked := (h.linked inner hinner).markActive extractorId id
    have hinv : Inv { s with
        channels := Function.update s.channels s.opened ⟨[], [], [], false⟩
        inner := none } := h.update (by simp) (by simp)
    refine ⟨hinv.prefixes, ?_⟩
    intro inner' hinner'
    rwa [← Option.some.inj hinner']
  | blockChanges =>
    refine hwith _ ?_ hstep
    intro inner hinner
    exact h.handleBlockChangesMsg hinner hin
  | subscriptionEnded id =>
    refine hwith _ ?_ hstep
    intro inner hinner
    exact htables _ ((h.linked inner hinner).removeSubscription id)
  | rejected =>
    refine hwith _ ?_ hstep
    intro inner hinner
    have hlinked := h.linked inner hinner
    exact htables _ ⟨hlinked.opened, hlinked.apart, hlinked.whole⟩
  | read =>
    unfold WsDeltasClient.step at hstep
    dsimp only at hstep
    split at hstep
    · rename_i hbuffer
      cases hstep
      exact h.update_same (by simp [hbuffer]) rfl
    · cases hstep
  | gone =>
    cases hstep
    exact h.update_same rfl rfl

lemma inv_of_run {size : Nat} {trace : List (ClientEvent X M × Except DeltasError Unit)}
    (hrun : Run step InStep (start size) trace s) : Inv s := by
  have hstart : Inv (start size : WsDeltasClient X M) :=
    ⟨fun _ => List.prefix_rfl, by simp [start]⟩
  exact hrun.invariant (P := fun _ s => Inv s) hstart fun _ _ _ _ _ h hin hnext => h.step hin hnext

/-- In a run in which no message comes after the end of its subscription was requested, unless the
channel still refuses it, every subscriber reads a prefix of what was sent. -/
theorem read_prefix_sent {size : Nat} {trace : List (ClientEvent X M × Except DeltasError Unit)}
    (hrun : Run step InStep (start size) trace s) (n : Nat) :
    (s.channels n).read <+: (s.channels n).sent :=
  (List.prefix_append _ _).trans ((inv_of_run hrun).prefixes n)

/-- In such a run a channel holds a prefix of what was sent for it, no two subscriptions share one,
and an active one misses nothing. -/
theorem undisturbed_of_run {size : Nat} {trace : List (ClientEvent X M × Except DeltasError Unit)}
    (hrun : Run step InStep (start size) trace s) : Inv s :=
  inv_of_run hrun

end

/-- A subscriber with room for one message; the server sends two before it reads. -/
def overrun : List (ClientEvent Nat Nat) :=
  [.connected, .subscribe 0, .newSubscription 0 7, .blockChanges 7 1, .blockChanges 7 2]

/-- The server ends the subscription before the subscriber reads. -/
theorem read_prefix_sent_ended : ∃ trace s,
    Run (step (X := Nat) (M := Nat)) InStep (start 1) trace s ∧
      (s.channels 0).read = [1] ∧ (s.channels 0).sent = [1, 2] ∧
      (s.channels 0).read <+: (s.channels 0).sent := by
  have hcheck : (play (step (X := Nat) (M := Nat)) InStep (start 1)
      (overrun ++ [.subscriptionEnded 7, .read 0, .blockChanges 7 3])).any fun r =>
        (r.2.channels 0).read = [1] ∧ (r.2.channels 0).sent = [1, 2] := by
    decide +kernel
  obtain ⟨trace, s, hrun, hread, hsent⟩ := exists_run_of_any hcheck
  exact ⟨trace, s, hrun, hread, hsent, read_prefix_sent hrun 0⟩

/-- The third message comes before the server's confirmation and finds room again. -/
theorem read_skips_dropped : ∃ trace s,
    Run (step (X := Nat) (M := Nat)) (fun _ _ => True) (start 1) trace s ∧
      (s.channels 0).read = [1, 3] ∧ (s.channels 0).sent = [1, 2, 3] := by
  have hcheck : (play (step (X := Nat) (M := Nat)) (fun _ _ => True) (start 1)
      (overrun ++ [.read 0, .blockChanges 7 3, .read 0])).any fun r =>
        (r.2.channels 0).read = [1, 3] ∧ (r.2.channels 0).sent = [1, 2, 3] := by
    decide +kernel
  exact exists_run_of_any hcheck

theorem undisturbed_of_run_overrun : ∃ trace s,
    Run (step (X := Nat) (M := Nat)) InStep (start 1) trace s ∧ s.inner ≠ none ∧ Inv s := by
  have hcheck : (play (step (X := Nat) (M := Nat)) InStep (start 1) overrun).any fun r =>
      r.2.inner ≠ none := by decide +kernel
  obtain ⟨trace, s, hrun, hinner⟩ := exists_run_of_any hcheck
  exact ⟨trace, s, hrun, hinner, undisturbed_of_run hrun⟩

end WsDeltasClient
end Tycho
