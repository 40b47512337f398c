import Tycho.Client.CatchUp
import Tycho.Client.SnapshotOrigins

/-! A snapshot that arrives late is brought up to the current block, as long as no revert reaches
its block while it is fetched and no message since then was missed. -/
namespace Tycho
open Collections Replay List HashMap Synchronizer ConsumerState BlockAggregatedChanges
variable {toLowercase : String → String} {base : ConsumerState}

namespace Follower
variable {s s' : Follower} {t : SnapshotTask} {m : BlockAggregatedChanges}

section
variable {F K V : Type}

variable {write : BlockAggregatedChanges → K → Option V}

/-- Messages that write nothing can be left out. -/
lemma foldl_handled {l : List Arrival}
    (h : ∀ x ∈ l, x.handled = false → write x.message = fun _ => none) (v : Option (F × (K → V))) :
    ((l.filter (·.handled)).map (·.message)).foldl (fun v d => v.map (overwrite (write d))) v =
      (l.map (·.message)).foldl (fun v d => v.map (overwrite (write d))) v := by
  induction l generalizing v with
  | nil => rfl
  | cons x _ ih =>
    have hrest := ih fun y hy => h y (mem_cons_of_mem x hy)
    cases hx : x.handled with
    | true =>
      rw [filter_cons_of_pos hx, map_cons, map_cons, foldl_cons, foldl_cons]
      exact hrest _
    | false =>
      have hskipped : v.map (overwrite (write x.message)) = v := by
        rw [h x mem_cons_self hx]
        exact map_overwrite_none v
      rw [filter_cons_of_neg (by simp [hx]), map_cons, foldl_cons, hskipped]
      exact hrest v

/-- The deltas that are applied to a snapshot are the messages since its origin that the main loop
has handled. -/
lemma Tracks.filter_buffered (h : Tracks base s t) (ht : t ∈ s.session.sync.snapshotTasks)
    (habove : t.snapshotBlock < m.block.number) :
    (s.session.sync.buffered m).filter (fun d => t.snapshotBlock < d.block.number) =
      ((s.past.drop (s.origin t)).filter (·.handled)).map (·.message) ++ [m] := by
  rw [buffered, if_neg (ne_nil_of_mem ht), filter_append, h.buffer]
  simp [habove]

/-- One object of a snapshot is brought up to the current message. -/
lemma Tracks.drained_eq {obs : ConsumerState → Option (F × (K → V))}
    (obs' : Snapshot → Option (F × (K → V))) {fetched : SnapshotFetchResult} (h : Tracks base s t)
    (ht : t ∈ s.session.sync.snapshotTasks)
    (hpoll : s.session.poll t.receiver = .value (.ok fetched))
    (hdescribes : base.Describes (s.passed ++ [m])) (habove : t.snapshotBlock < m.block.number)
    (hseen : ConsumerState.Seen obs write) (hfetch : obs' fetched.snapshot =
      obs (base.after (servedChain (s.passed.take (s.origin t)))))
    (happlied : ∀ sn, ∀ d ∈ ((s.past.drop (s.origin t)).filter (·.handled)).map (·.message) ++ [m],
      obs' (Snapshot.applyDelta fetched.contractIds sn d) = (obs' sn).map (overwrite (write d)))
    (hmissed : ∀ x ∈ s.past.drop (s.origin t), x.handled = false →
      write x.message = fun _ => none) :
    obs' (applyDeltasToSnapshot (s.session.sync.buffered m) fetched.snapshot
      fetched.snapshotBlock fetched.contractIds) =
        obs (base.after (servedChain (s.passed ++ [m]))) := by
  have hfilter := h.filter_buffered ht habove
  have hblock := (h.fetched fetched hpoll).block
  have hsplit : s.passed ++ [m] = s.passed.take (s.origin t) ++
      ((s.past.drop (s.origin t)).map (·.message) ++ [m]) := by
    rw [← append_assoc, map_drop]
    exact congrArg (· ++ [m]) (take_append_drop (s.origin t) s.passed).symm
  rw [applyDeltasToSnapshot_view obs' write _ _ _ _ fun sn d hd hnum =>
    happlied sn d (by
      rw [← hfilter, mem_filter]
      exact ⟨hd, decide_eq_true (hblock ▸ hnum)⟩)]
  rw [hblock, hfilter, foldl_append, foldl_handled hmissed, hfetch, hsplit]
  rw [hsplit] at hdescribes
  rw [hdescribes.obs_append hseen, foldl_append]

end

section

def fetchedBy (s : Follower) (t : SnapshotTask) : Option SnapshotFetchResult :=
  match s.session.poll t.receiver with
  | .value (.ok fetched) => some fetched
  | _ => none

/-- No message since the origin of a snapshot that is drained was missed, as far as it is about a
component of the snapshot. -/
def NoneMissed (s : Follower) : Prop :=
  ∀ t ∈ s.session.sync.snapshotTasks, ∀ fetched ∈ s.fetchedBy t,
    ∀ x ∈ s.past.drop (s.origin t), x.handled = false →
      ∀ id ∈ fetched.snapshot.states.keys, ¬x.message.Touches id

instance (s : Follower) : Decidable s.NoneMissed :=
  inferInstanceAs (Decidable (∀ t ∈ _, ∀ fetched ∈ s.fetchedBy t, ∀ x ∈ _, _ → ∀ id ∈ _, ¬_))

/-- The same for its accounts. The messages that were not missed delete no slot of these accounts
and have no token balances of them. -/
def AccountsPlain (s : Follower) (m : BlockAggregatedChanges) : Prop :=
  ∀ t ∈ s.session.sync.snapshotTasks, ∀ fetched ∈ s.fetchedBy t,
    ∀ a ∈ fetched.snapshot.vmStorage.keys, m.Plain a ∧ ∀ x ∈ s.past.drop (s.origin t),
        if x.handled then x.message.Plain a else ¬x.message.TouchesAccount a

instance (s : Follower) (m : BlockAggregatedChanges) : Decidable (s.AccountsPlain m) :=
  inferInstanceAs (Decidable (∀ t ∈ _, ∀ fetched ∈ s.fetchedBy t, ∀ a ∈ _, _ ∧ ∀ x ∈ _, ite _ _ _))

structure UpToDate (c : ConsumerState) (snapshot : Snapshot) : Prop where
  states : ∀ id cws, snapshot.states.lookup id = some cws →
    (c.states.lookup id).map (·.view) = some cws.view
  accounts : ∀ a account, snapshot.vmStorage.lookup a = some account →
    (c.accounts.lookup a).map (·.view) = some account.view

lemma fetchedBy_eq {fetched : SnapshotFetchResult}
    (h : s.session.poll t.receiver = .value (.ok fetched)) : s.fetchedBy t = some fetched := by
  unfold fetchedBy
  rw [h]

section
variable (h : Inv base s) (hdescribes : base.Describes (s.passed ++ [m])) (habove : s.Above m)
include h hdescribes habove

lemma Inv.drained_component (hmissed : s.NoneMissed) {id : ComponentId} {cws : ComponentWithState}
    (hlookup : (s.session.sync.harvest s.session.poll m).1.states.lookup id = some cws) :
    ((base.after (servedChain (s.passed ++ [m]))).states.lookup id).map (·.view) = some cws.view ∧
    ∃ t ∈ s.session.sync.snapshotTasks,
      ((s.session.sync.buffered m).filter fun d => t.snapshotBlock < d.block.number).filter
        (·.Touches id) = (s.passed.drop (s.origin t) ++ [m]).filter (·.Touches id) := by
  obtain ⟨t, ht, fetched, hpoll, hdrain⟩ :=
    (exists_of_harvested s.session.sync s.session.poll m).1 id cws hlookup
  have htracks := h.tracks t ht
  have hmem := (mem_applyDeltasToSnapshot _ _ _ _ id default).1.mp
    (mem_iff_lookup.mpr ⟨cws, hdrain⟩)
  obtain ⟨cws₀, hlookup₀⟩ := mem_iff_lookup.mp hmem
  have hworld := (htracks.fetched fetched hpoll).states id cws₀ hlookup₀
  have huntouched : ∀ x ∈ s.past.drop (s.origin t), x.handled = false →
      ¬x.message.Touches id := fun x hx hhandled =>
    hmissed t ht fetched (fetchedBy_eq hpoll) x hx hhandled id (AList.mem_keys.mp hmem)
  constructor
  · have heq := htracks.drained_eq (fun sn => (sn.states.lookup id).map (·.view)) ht hpoll
      hdescribes (habove t ht) ⟨fun c d => applyDeltas_states c d id, fun _ _ h => h.states id⟩
      (by rw [hlookup₀, hworld])
      (fun sn d _ => Snapshot.applyDelta_states sn fetched.contractIds d id)
      fun x hx hhandled =>
        componentWrite_of_not_touches (huntouched x hx hhandled)
    rw [hdrain] at heq
    exact heq.symm
  · refine ⟨t, ht, ?_⟩
    rw [htracks.filter_buffered ht (habove t ht), filter_append, filter_append]
    congr 1
    rw [passed, ← map_drop]
    generalize s.past.drop (s.origin t) = l at huntouched
    rw [filter_map, filter_map, filter_filter]
    congr 1
    apply filter_congr
    intro x hx
    cases hhandled : x.handled with
    | true => simp
    | false => simp [huntouched x hx hhandled]

lemma Inv.drained_account (hplain : s.AccountsPlain m) {a : Address} {account : Account}
    (hlookup : (s.session.sync.harvest s.session.poll m).1.vmStorage.lookup a = some account) :
    ((base.after (servedChain (s.passed ++ [m]))).accounts.lookup a).map (·.view) =
      some account.view := by
  obtain ⟨t, ht, fetched, hpoll, hdrain⟩ :=
    (exists_of_harvested s.session.sync s.session.poll m).2 a account hlookup
  have htracks := h.tracks t ht
  have hmem := (mem_applyDeltasToSnapshot _ _ _ _ default a).2.mp
    (mem_iff_lookup.mpr ⟨account, hdrain⟩)
  obtain ⟨account₀, hlookup₀⟩ := mem_iff_lookup.mp hmem
  obtain ⟨hcontract, hworld⟩ := (htracks.fetched fetched hpoll).accounts a account₀ hlookup₀
  obtain ⟨hm, hpast⟩ := hplain t ht fetched (fetchedBy_eq hpoll) a (AList.mem_keys.mp hmem)
  have heq := htracks.drained_eq (fun sn => (sn.vmStorage.lookup a).map (·.view)) ht hpoll
    hdescribes (habove t ht) ⟨fun c d => applyDeltas_accounts c d a, fun _ _ h => h.accounts a⟩
    (by rw [hlookup₀, hworld])
    (by
      intro sn d hd
      apply Snapshot.applyDelta_accounts sn fetched.contractIds d hcontract
      rcases mem_append.mp hd with hd | hd
      · obtain ⟨x, hx, rfl⟩ := mem_map.mp hd
        obtain ⟨hx, hhandled⟩ := mem_filter.mp hx
        have hxplain := hpast x hx
        rwa [if_pos hhandled] at hxplain
      · rw [mem_singleton.mp hd]
        exact hm)
    (by
      intro x hx hhandled
      have hxplain := hpast x hx
      rw [hhandled] at hxplain
      exact accountWrite_of_not_touches hxplain)
  rw [hdrain] at heq
  exact heq.symm

end

/-- The invariant along a run, for the messages sent so far. -/
lemma inv_of_run {includeSnapshots partialBlocks : Bool} {tracker : ComponentTracker}
    {trace : List (FollowerEvent × Option (StateSyncMessage BlockHeader))}
    (hrun : Run (step toLowercase base) (Steady toLowercase)
      (start includeSnapshots partialBlocks tracker) trace s)
    (hdescribes : base.Describes s.served) : Inv base s := by
  refine hrun.invariant (P := fun _ s => base.Describes s.served → Inv base s)
    (fun _ => Inv.start base includeSnapshots partialBlocks tracker) ?_ hdescribes
  intro _ s e out s' ih hsteady hstep hdescribes'
  have hstepped := stepped_of_step hstep
  refine Inv.step (ih ?_) hdescribes' hsteady hstepped
  obtain ⟨sent, hsent⟩ := served_of_stepped hstepped
  rw [hsent] at hdescribes'
  exact hdescribes'.left

end

section
variable {includeSnapshots partialBlocks : Bool} {tracker : ComponentTracker}
  {trace : List (FollowerEvent × Option (StateSyncMessage BlockHeader))}
variable {answer : Except SynchronizerError (Snapshot × DCIUpdate)}
  {msg : StateSyncMessage BlockHeader}

/-- A message of the main loop, with the states before and after it. -/
lemma of_delivered (hwaiting : s.session.waiting = none)
    (hstep : s.step toLowercase base (.deliver answer) = some (some msg, s')) :
    ∃ m, s.coming.head? = some m ∧ s'.passed = s.passed ++ [m] ∧
      msg.snapshots = (s.session.sync.harvest s.session.poll m).1 ∧
      ∃ sent, s'.served = (s.passed ++ [m]) ++ sent := by
  generalize hevent : FollowerEvent.deliver answer = e at hstep
  generalize hout : some msg = out at hstep
  cases stepped_of_step hstep with
  | @delivered m rest answer' _ _ hcoming hreceive =>
    refine ⟨m, by rw [hcoming]; rfl, by simp [passed], ?_, rest, by simp [served, passed]⟩
    generalize hdelta : SessionEvent.delta m answer' = e' at hreceive
    cases hreceive with
    | handled =>
      cases hout
      cases hdelta
      rfl
    | passed hsome => exact absurd hwaiting hsome
    | started hsome =>
      rw [hwaiting] at hsome
      cases hsome
    | ended => cases hout
    | resubscribed => cases hout
  | served => cases hout
  | missed => cases hout
  | ended => cases hout
  | resubscribed => cases hout

/-- The state in which a message of the main loop is handled. -/
lemma inv_of_delivered (hrun : Run (step toLowercase base) (Steady toLowercase)
      (start includeSnapshots partialBlocks tracker) trace s)
    (hwaiting : s.session.waiting = none) (hsteady : s.Steady toLowercase (.deliver answer))
    (hstep : s.step toLowercase base (.deliver answer) = some (some msg, s'))
    (hdescribes : base.Describes s'.served) :
    ∃ m, s.coming.head? = some m ∧ s'.passed = s.passed ++ [m] ∧
      msg.snapshots = (s.session.sync.harvest s.session.poll m).1 ∧ Inv base s ∧
      base.Describes (s.passed ++ [m]) ∧ s.Above m := by
  obtain ⟨m, hhead, hpassed, hsnapshots, sent, hserved⟩ := of_delivered hwaiting hstep
  obtain ⟨later, hlater⟩ := served_of_stepped (stepped_of_step hstep)
  have hbefore : base.Describes s.served := by
    rw [hlater] at hdescribes
    exact hdescribes.left
  have hcur : base.Describes (s.passed ++ [m]) := by
    rw [hserved] at hdescribes
    exact hdescribes.left
  exact ⟨m, hhead, hpassed, hsnapshots, inv_of_run hrun hbefore, hcur, (hsteady m hhead).1⟩

/-- What is drained with a message is the state of the chain at this message. -/
theorem upToDate_of_steady_run (hrun : Run (step toLowercase base) (Steady toLowercase)
      (start includeSnapshots partialBlocks tracker) trace s)
    (hwaiting : s.session.waiting = none) (hsteady : s.Steady toLowercase (.deliver answer))
    (hmissed : s.NoneMissed) (hplain : ∀ m ∈ s.coming.head?, s.AccountsPlain m)
    (hstep : s.step toLowercase base (.deliver answer) = some (some msg, s'))
    (hdescribes : base.Describes s'.served) : UpToDate (s'.current base) msg.snapshots := by
  obtain ⟨m, hhead, hpassed, hsnapshots, hinv, hcur, habove⟩ :=
    inv_of_delivered hrun hwaiting hsteady hstep hdescribes
  unfold current
  rw [hpassed, hsnapshots]
  exact ⟨fun id cws hlookup => (hinv.drained_component hcur habove hmissed hlookup).1,
    fun a account hlookup => hinv.drained_account hcur habove (hplain m hhead) hlookup⟩

/-- Across subscriptions: a component that is drained with a message has the state of the chain at
this message, and every message since its snapshot that is about it has been applied. -/
theorem component_upToDate_of_steady_run (hrun : Run (step toLowercase base) (Steady toLowercase)
      (start includeSnapshots partialBlocks tracker) trace s)
    (hwaiting : s.session.waiting = none) (hsteady : s.Steady toLowercase (.deliver answer))
    (hmissed : s.NoneMissed)
    (hstep : s.step toLowercase base (.deliver answer) = some (some msg, s'))
    (hdescribes : base.Describes s'.served) {id : ComponentId} {cws : ComponentWithState}
    (hlookup : msg.snapshots.states.lookup id = some cws) :
    ((s'.current base).states.lookup id).map (·.view) = some cws.view ∧
    ∃ m ∈ s.coming.head?, ∃ t ∈ s.session.sync.snapshotTasks,
      ((s.session.sync.buffered m).filter fun d => t.snapshotBlock < d.block.number).filter
        (·.Touches id) = (s'.passed.drop (s.origin t)).filter (·.Touches id) := by
  obtain ⟨m, hhead, hpassed, hsnapshots, hinv, hcur, habove⟩ :=
    inv_of_delivered hrun hwaiting hsteady hstep hdescribes
  rw [hsnapshots] at hlookup
  obtain ⟨hview, t, ht, happlied⟩ := hinv.drained_component hcur habove hmissed hlookup
  have hle : s.origin t ≤ s.passed.length := by
    rw [passed, length_map]
    exact origin_le (hinv.tracks t ht).receiver
  rw [← drop_append_of_le_length hle] at happlied
  unfold current
  rw [hpassed]
  exact ⟨hview, m, hhead, t, ht, happlied⟩

end

section

/-- The messages describe the chain, and the reverts bring back the very maps. -/
def DescribesExactly (base : ConsumerState) (served : List BlockAggregatedChanges) : Prop :=
  ∀ i < served.length, ∀ m ∈ served[i]?, if m.revert then
    (base.after (servedChain (served.take i))).applyDeltas m =
      base.after (servedChain (served.take (i + 1)))
    else ∀ x ∈ servedChain (served.take i), x.block.number ≤ m.block.number

instance (base : ConsumerState) (served : List BlockAggregatedChanges) :
    Decidable (DescribesExactly base served) :=
  inferInstanceAs (Decidable (∀ i < served.length, ∀ m ∈ served[i]?, ite (m.revert = true) (_ = _)
    (∀ x ∈ servedChain (served.take i), x.block.number ≤ m.block.number)))

lemma DescribesExactly.describes {base : ConsumerState} {served : List BlockAggregatedChanges}
    (h : DescribesExactly base served) : base.Describes served := by
  have hsplit : ∀ l m r, served = l ++ m :: r → l.length < served.length ∧
      served[l.length]? = some m ∧ served.take l.length = l ∧
      served.take (l.length + 1) = l ++ [m] := by
    intro l m r heq
    subst heq
    have hle : l.length ≤ l.length + 1 := by omega
    exact ⟨by simp, by simp, by simp, by simp [take_append, take_of_length_le hle]⟩
  constructor
  · intro l m r heq hrev
    obtain ⟨hlt, hget, htaken, -⟩ := hsplit l m r heq
    have hm := h l.length hlt m hget
    change m.revert = false at hrev
    rw [hrev, if_neg Bool.false_ne_true, htaken] at hm
    exact hm
  · intro l m r heq hrev
    obtain ⟨hlt, hget, htaken, htaken'⟩ := hsplit l m r heq
    have hm := h l.length hlt m hget
    rw [if_pos hrev, htaken, htaken'] at hm
    rw [hm]
    exact ⟨fun _ => rfl, fun _ => rfl⟩

def reserveOf (reserve : UInt8) : ComponentWithState :=
  ⟨⟨"pool", HashMap.ofList [("reserve", ⟨[reserve]⟩)], ∅⟩, default, none, []⟩

def baseState : ConsumerState := ⟨HashMap.ofList [("pool", reserveOf 1)], ∅⟩

def poolMessage (number : Nat) (revert : Bool) (reserve : Option UInt8) : BlockAggregatedChanges :=
  { (default : BlockAggregatedChanges) with
    block := { (default : Block) with number := number }
    revert := revert
    stateDeltas := HashMap.ofList (reserve.toList.map fun r =>
      ("pool", .new "pool" (HashMap.ofList [("reserve", ⟨[r]⟩)]) ∅)) }

/-- The block with which the pool rises above the threshold: its TVL is 1. -/
def poolRises (number : Nat) : BlockAggregatedChanges :=
  { poolMessage number false none with
    componentTvl := HashMap.ofList [("pool", ⟨0x3FF0000000000000⟩)] }

def followerStart : Follower :=
  start true false (.new (.withTvlRange .zero .zero))

def sendAndDeliver (m : BlockAggregatedChanges) : List FollowerEvent :=
  [.serve m, .deliver (.error .connectionClosed)]

def poolFetched (served : Nat) : FollowerEvent :=
  .taskEnds 1 (.fetched served (HashMap.ofList [("pool", default)]) ∅ .empty)

/-- Two blocks, and a revert of the second one, pass while the snapshot of block 10 is fetched. -/
def revertedAbove : List FollowerEvent :=
  sendAndDeliver (poolMessage 9 false none) ++ sendAndDeliver (poolRises 10) ++
  sendAndDeliver (poolMessage 11 false (some 2)) ++ sendAndDeliver (poolMessage 12 false (some 3))
    ++
  sendAndDeliver (poolMessage 11 true (some 2)) ++
    [poolFetched 5, .serve (poolMessage 12 false none)]

def revertedToSnapshot : List FollowerEvent :=
  sendAndDeliver (poolMessage 9 false none) ++ sendAndDeliver (poolRises 10) ++
  sendAndDeliver (poolMessage 11 false (some 2)) ++ sendAndDeliver (poolMessage 10 true (some 1)) ++
  [poolFetched 4, .serve (poolMessage 11 false none)]

/-- The subscription is renewed while the snapshot is fetched. The first message after that may
change the reserve, and the message that drains the snapshot too. -/
def resubscribed (first last : Option UInt8) : List FollowerEvent :=
  sendAndDeliver (poolMessage 9 false none) ++ sendAndDeliver (poolRises 10) ++ [.resubscribe] ++
  sendAndDeliver (poolMessage 11 false first) ++
  [poolFetched 3, .serve (poolMessage 12 false last)]

instance (toLowercase : String → String) (s : Follower) :
    (e : FollowerEvent) → Decidable (s.Steady toLowercase e)
  | .deliver _ => inferInstanceAs (Decidable (∀ m ∈ s.coming.head?, (∀ t ∈ _, _ < _) ∧ (_ →
      ∀ t ∈ s.session.sync.nextTask toLowercase s.session.received s.session.poll m,
        ∀ d ∈ _, _ ≤ _)))
  | .miss => inferInstanceAs (Decidable (∀ m ∈ s.coming.head?, ∀ t ∈ _, _ < _))
  | .taskEnds _ (.fetched ..) => inferInstanceAs (Decidable (∀ t ∈ _, _ = _ → ∀ m ∈ _, _ < _))
  | .taskEnds _ (.failed _) => .isTrue trivial
  | .taskEnds _ .closed => .isTrue trivial
  | .serve _ => .isTrue trivial
  | .resubscribe => .isTrue trivial

lemma not_same_reserve {c : ConsumerState} {r r' : UInt8} (hne : r ≠ r')
    (hlookup : c.states.lookup "pool" = some (reserveOf r)) :
    (c.states.lookup "pool").map (·.view) ≠ some (reserveOf r').view := by
  intro hview
  rw [hlookup, Option.map_some, Option.some.injEq] at hview
  have hcells := congrFun (congrArg Prod.snd hview) (.attr "reserve")
  have hbytes : some (⟨[r]⟩ : Bytes) = some ⟨[r']⟩ := hcells
  simp at hbytes
  exact hne hbytes

def lastDelivery : FollowerEvent := .deliver (.error .connectionClosed)

/-- Events after which the last delivery brings the snapshot of the pool. -/
lemma exists_delivery (guard : Follower → FollowerEvent → Prop) [∀ s e, Decidable (guard s e)]
    (events : List FollowerEvent) (r : UInt8) (P Q : Follower → Prop) [DecidablePred P]
      [DecidablePred Q]
    (h : (play (step id baseState) guard followerStart events).any fun e => P e.2 ∧
      (e.2.step id baseState lastDelivery).any fun e' =>
        e'.1.any (fun msg => msg.snapshots.states.lookup "pool" = some (reserveOf r)) ∧
        DescribesExactly baseState e'.2.served ∧ Q e'.2) :
    ∃ trace s msg s', Run (step id baseState) guard followerStart trace s ∧ P s ∧
      s.step id baseState lastDelivery = some (some msg, s') ∧ baseState.Describes s'.served ∧
      msg.snapshots.states.lookup "pool" = some (reserveOf r) ∧ Q s' := by
  obtain ⟨trace, s, hrun, hs, hstep⟩ := exists_run_of_any h
  obtain ⟨⟨out, s'⟩, hstep, hcheck⟩ := (Option.any_eq_true _ _).mp hstep
  obtain ⟨hout, hserved, hs'⟩ := of_decide_eq_true hcheck
  obtain ⟨msg, rfl, hmsg⟩ := (Option.any_eq_true _ _).mp hout
  exact ⟨trace, s, msg, s', hrun, hs, hstep, hserved.describes, of_decide_eq_true hmsg, hs'⟩

theorem upToDate_of_steady_run_reverted : ∃ trace s msg s',
    Run (step id baseState) (Steady id) followerStart trace s ∧
    s.step id baseState lastDelivery = some (some msg, s') ∧ baseState.Describes s'.served ∧
    msg.snapshots.states.lookup "pool" = some (reserveOf 2) ∧
    UpToDate (s'.current baseState) msg.snapshots := by
  obtain ⟨trace, s, msg, s', hrun, ⟨hwaiting, hsteady, hmissed, hplain⟩, hstep, hserved, hshown,
    -⟩ :=
    exists_delivery (Steady id) revertedAbove 2
      (fun s => s.session.waiting = none ∧ s.Steady id lastDelivery ∧ s.NoneMissed ∧
        ∀ m ∈ s.coming.head?, s.AccountsPlain m) (fun _ => True) (by decide +kernel)
  exact ⟨trace, s, msg, s', hrun, hstep, hserved, hshown,
    upToDate_of_steady_run hrun hwaiting hsteady hmissed hplain hstep hserved⟩

/-- After a revert to the block of the snapshot, the block that was reverted is applied to it and
the revert is not. -/
theorem not_upToDate_reverted_to_snapshot : ∃ trace s msg s',
    Run (step id baseState) (fun _ _ => True) followerStart trace s ∧
    s.session.waiting = none ∧ s.NoneMissed ∧ (∀ m ∈ s.coming.head?, s.AccountsPlain m) ∧
    s.step id baseState lastDelivery = some (some msg, s') ∧ baseState.Describes s'.served ∧
    msg.snapshots.states.lookup "pool" = some (reserveOf 2) ∧
    (s'.current baseState).states.lookup "pool" = some (reserveOf 1) ∧
    ¬UpToDate (s'.current baseState) msg.snapshots := by
  obtain ⟨trace, s, msg, s', hrun, ⟨hwaiting, hmissed, hplain⟩, hstep, hserved, hshown, hcur⟩ :=
    exists_delivery (fun _ _ => True) revertedToSnapshot 2
      (fun s => s.session.waiting = none ∧ s.NoneMissed ∧ ∀ m ∈ s.coming.head?, s.AccountsPlain m)
      (fun s => (s.current baseState).states.lookup "pool" = some (reserveOf 1)) (by decide +kernel)
  refine ⟨trace, s, msg, s', hrun, hwaiting, hmissed, hplain, hstep, hserved, hshown, hcur, ?_⟩
  intro huptodate
  exact not_same_reserve (by decide) hcur (huptodate.states "pool" (reserveOf 2) hshown)

/-- The first message after the restart changes nothing of the pool, the next one does. -/
theorem component_upToDate_of_steady_run_resubscribed : ∃ trace s msg s',
    Run (step id baseState) (Steady id) followerStart trace s ∧
    s.step id baseState lastDelivery = some (some msg, s') ∧ baseState.Describes s'.served ∧
    msg.snapshots.states.lookup "pool" = some (reserveOf 5) ∧
    ((s'.current baseState).states.lookup "pool").map (·.view) = some (reserveOf 5).view := by
  obtain ⟨trace, s, msg, s', hrun, ⟨hwaiting, hsteady, hmissed⟩, hstep, hserved, hshown, -⟩ :=
    exists_delivery (Steady id) (resubscribed none (some 5)) 5
      (fun s => s.session.waiting = none ∧ s.Steady id lastDelivery ∧ s.NoneMissed) (fun _ => True)
      (by decide +kernel)
  exact ⟨trace, s, msg, s', hrun, hstep, hserved, hshown,
    (component_upToDate_of_steady_run hrun hwaiting hsteady hmissed hstep hserved hshown).1⟩

/-- The first message after a restart changes the pool and is not applied to its snapshot. -/
theorem not_component_upToDate_resubscribed : ∃ trace s msg s',
    Run (step id baseState) (Steady id) followerStart trace s ∧
    s.session.waiting = none ∧ s.Steady id lastDelivery ∧
    s.step id baseState lastDelivery = some (some msg, s') ∧ baseState.Describes s'.served ∧
    msg.snapshots.states.lookup "pool" = some (reserveOf 1) ∧
    (s'.current baseState).states.lookup "pool" = some (reserveOf 2) ∧
    ((s'.current baseState).states.lookup "pool").map (·.view) ≠ some (reserveOf 1).view := by
  obtain ⟨trace, s, msg, s', hrun, ⟨hwaiting, hsteady⟩, hstep, hserved, hshown, hcur⟩ :=
    exists_delivery (Steady id) (resubscribed (some 2) none) 1
      (fun s => s.session.waiting = none ∧ s.Steady id lastDelivery)
      (fun s => (s.current baseState).states.lookup "pool" = some (reserveOf 2)) (by decide +kernel)
  exact ⟨trace, s, msg, s', hrun, hwaiting, hsteady, hstep, hserved, hshown, hcur,
    not_same_reserve (by decide) hcur⟩

end
end Follower
end Tycho
