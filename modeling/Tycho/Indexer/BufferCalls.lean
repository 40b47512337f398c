import Tycho.Indexer.Feed
import Tycho.Replay.Call

/-! The reorg buffer under any sequence of its calls. -/
namespace Tycho
open Collections Replay List Call

namespace ReorgBuffer
variable {B : Type} [BlockScoped B]

def insertBlockCall (new : B) : Call (ReorgBuffer B) StorageError Unit := do
  if let some last := (← get).blockMessages.getLast? then
    if (block last).hash ≠ (block new).parentHash then
      throw (.unexpected ("Unexpected block sequence. Expected parent hash " ++
        (block last).hash.toString ++ " received " ++ (block new).parentHash.toString))
  modify fun b => { b with blockMessages := b.blockMessages ++ [new] }

/-- The part from the target on is split off and then swapped with the rest. -/
def drainBlocksUntilCall (height : Nat) : Call (ReorgBuffer B) StorageError (List B) := do
  let targetIndex := (← get).blockMessages.findIdx? fun m => (block m).number == height
  let first := (← get).blockMessages.head?.map fun m => (block m).number
  match targetIndex with
  | some idx =>
    let temp := (← get).blockMessages.drop idx
    modify fun b => { b with blockMessages := b.blockMessages.take idx }
    let drained := (← get).blockMessages
    modify fun b => { b with blockMessages := temp }
    return drained
  | none =>
    if !(← get).strict && first.getD 0 < height then return []
    else throw (.notFound "block" height.repr)

def purgeCall (targetHash : BlockHash) : Call (ReorgBuffer B) StorageError (List B) := do
  let targetIndex := (← get).blockMessages.reverse.findIdx? fun m => (block m).hash == targetHash
  match targetIndex with
  | some index =>
    let idx := (← get).blockMessages.length - index
    let purged := (← get).blockMessages.drop idx
    modify fun b => { b with blockMessages := b.blockMessages.take idx }
    return purged
  | none => throw (.notFound "block" targetHash.toString)

section
variable {b b' : ReorgBuffer B}

lemma on_insertBlockCall (new : B) (b : ReorgBuffer B) :
    (insertBlockCall new).on b = deciding (fun b => (b.insertBlock new).map ((), ·)) b := by
  unfold insertBlockCall insertBlock deciding
  rw [on_bind_ok (on_get b)]
  dsimp only
  cases b.blockMessages.getLast? with
  | none => rfl
  | some =>
    dsimp only
    split_ifs <;> rfl

lemma on_drainBlocksUntilCall (height : Nat) (b : ReorgBuffer B) :
    (drainBlocksUntilCall height).on b = deciding (fun b => b.drainBlocksUntil height) b := by
  unfold drainBlocksUntilCall drainBlocksUntil deciding
  rw [on_bind_ok (on_get b), on_bind_ok (on_get b)]
  dsimp only
  cases b.blockMessages.findIdx? fun m => (block m).number == height with
  | some => rfl
  | none =>
    rw [on_bind_ok (on_get b)]
    split_ifs <;> rfl

lemma on_purgeCall (hash : BlockHash) (b : ReorgBuffer B) :
    (purgeCall hash).on b = deciding (fun b => b.purge hash) b := by
  unfold purgeCall purge deciding
  rw [on_bind_ok (on_get b)]
  dsimp only
  cases b.blockMessages.reverse.findIdx? fun m => (block m).hash == hash with
  | some => rfl
  | none => rfl

end

inductive BufferCall (B : Type) where
  | insertBlock (new : B)
  | drainBlocksUntil (height : Nat)
  | purge (hash : BlockHash)

/-- The call as it changes the buffer. An insertion returns no blocks. -/
def BufferCall.call : BufferCall B → Call (ReorgBuffer B) StorageError (List B)
  | .insertBlock new => do
    insertBlockCall new
    return []
  | .drainBlocksUntil height => drainBlocksUntilCall height
  | .purge hash => purgeCall hash

def BufferCall.step (b : ReorgBuffer B) (c : BufferCall B) :
    Option (Except StorageError (List B) × ReorgBuffer B) :=
  some (c.call.on b)

/-- The buffer is a chain of blocks. -/
def Linked (b : ReorgBuffer B) : Prop :=
  b.blockMessages.IsChain fun m n => (block m).hash = (block n).parentHash

abbrev Trace (B : Type) := List (BufferCall B × Except StorageError (List B))

def inserted (trace : Trace B) : List B :=
  trace.flatMap fun
    | (.insertBlock new, .ok _) => [new]
    | _ => []

def drained (trace : Trace B) : List B :=
  trace.flatMap fun
    | (.drainBlocksUntil _, .ok blocks) => blocks
    | _ => []

def purged (trace : Trace B) : List B :=
  trace.flatMap fun
    | (.purge _, .ok blocks) => blocks
    | _ => []

structure PurgesTo (b : ReorgBuffer B) (hash : BlockHash) : Prop where
  succeeds : (∃ m ∈ b.blockMessages, (block m).hash = hash) →
    ∃ purged b', (purgeCall hash).on b = (.ok purged, b')
  later : ∀ purged b', (purgeCall hash).on b = (.ok purged, b') →
    b.blockMessages = b'.blockMessages ++ purged ∧ (∀ m ∈ purged, (block m).hash ≠ hash) ∧
      ∃ tip, b'.blockMessages.getLast? = some tip ∧ (block tip).hash = hash
  ascending : ∀ purged b', (purgeCall hash).on b = (.ok purged, b') →
    (∀ m ∈ b.blockMessages, ∀ n ∈ b.blockMessages, (block m).hash = (block n).parentHash →
      (block m).number < (block n).number) →
    purged.Pairwise fun m n => (block m).number < (block n).number

/-- Nothing is lost or duplicated. -/
structure Bookkept (trace : Trace B) (b : ReorgBuffer B) : Prop where
  linked : b.Linked
  inOrder : (drained trace ++ b.blockMessages).Sublist (inserted trace)
  complete : (inserted trace).Perm (drained trace ++ b.blockMessages ++ purged trace)
  purges : ∀ hash, b.PurgesTo hash
  atomic : ∀ (c : BufferCall B) e b', c.call.on b = (.error e, b') → b' = b

inductive Effect (b : ReorgBuffer B) : BufferCall B → Except StorageError (List B) →
    ReorgBuffer B → Prop
  | inserted (new : B) (hlink : ∀ last, b.blockMessages.getLast? = some last →
      (block last).hash = (block new).parentHash) :
      Effect b (.insertBlock new) (.ok []) { b with blockMessages := b.blockMessages ++ [new] }
  | drained (height : Nat) (blocks : List B) (b' : ReorgBuffer B)
      (hsplit : b.blockMessages = blocks ++ b'.blockMessages) :
      Effect b (.drainBlocksUntil height) (.ok blocks) b'
  | purged (hash : BlockHash) (blocks : List B) (b' : ReorgBuffer B)
      (hsplit : b.blockMessages = b'.blockMessages ++ blocks) :
      Effect b (.purge hash) (.ok blocks) b'
  | failed (c : BufferCall B) (e : StorageError) : Effect b c (.error e) b

section
variable {b b' b₀ : ReorgBuffer B} {c : BufferCall B} {r : Except StorageError (List B)}
  {trace : Trace B}

lemma effect_of_call (h : c.call.on b = (r, b')) : Effect b c r b' := by
  cases c with
  | insertBlock new =>
    unfold BufferCall.call at h
    rw [on_bind, on_insertBlockCall] at h
    unfold deciding at h
    cases hinsert : b.insertBlock new with
    | error e =>
      simp only [hinsert, Except.map] at h
      cases h
      exact .failed _ e
    | ok inserted =>
      simp only [hinsert, Except.map, on_pure] at h
      cases h
      obtain ⟨rfl, hlink⟩ := insertBlock_eq_ok hinsert
      exact .inserted new hlink
  | drainBlocksUntil height =>
    unfold BufferCall.call at h
    rw [on_drainBlocksUntilCall] at h
    cases r with
    | error e =>
      obtain ⟨-, rfl⟩ := deciding_error h
      exact .failed _ e
    | ok blocks =>
      have hdrain := deciding_ok h
      exact .drained height blocks b' (drainBlocksUntil_ok hdrain).1
  | purge hash =>
    unfold BufferCall.call at h
    rw [on_purgeCall] at h
    cases r with
    | error e =>
      obtain ⟨-, rfl⟩ := deciding_error h
      exact .failed _ e
    | ok blocks =>
      have hpurge := deciding_ok h
      exact .purged hash blocks b' (purge_ok hpurge).1

lemma Effect.linked (h : Effect b c r b') (hb : b.Linked) : b'.Linked := by
  cases h with
  | inserted new hlink => exact isChain_concat hb hlink
  | drained _ _ _ hsplit =>
    unfold Linked at hb
    rw [hsplit] at hb
    exact (isChain_append.mp hb).2.1
  | purged _ _ _ hsplit =>
    unfold Linked at hb
    rw [hsplit] at hb
    exact (isChain_append.mp hb).1
  | failed => exact hb

/-- The part of the bookkeeping that depends on the calls so far. -/
structure Balanced (trace : Trace B) (b : ReorgBuffer B) : Prop where
  linked : b.Linked
  inOrder : (drained trace ++ b.blockMessages).Sublist (inserted trace)
  complete : (inserted trace).Perm (drained trace ++ b.blockMessages ++ purged trace)

lemma Balanced.call (h : Balanced trace b) (hc : Effect b c r b') :
    Balanced (trace ++ [(c, r)]) b' := by
  have hlinked := hc.linked h.linked
  obtain ⟨-, hinOrder, hcomplete⟩ := h
  cases hc with
  | inserted new =>
    refine ⟨hlinked, ?_, ?_⟩
    · simpa [drained, inserted] using hinOrder.append_right [new]
    · have hswap : (purged trace ++ [new]).Perm ([new] ++ purged trace) := perm_append_comm
      have hperm := (hcomplete.append_right [new]).trans
        (by simpa using hswap.append_left (drained trace ++ b.blockMessages))
      simpa [drained, inserted, purged] using hperm
  | drained _ _ _ hsplit =>
    rw [hsplit] at hinOrder hcomplete
    exact ⟨hlinked, by simpa [drained, inserted] using hinOrder,
      by simpa [drained, inserted, purged] using hcomplete⟩
  | purged _ blocks b' hsplit =>
    rw [hsplit, ← append_assoc] at hinOrder hcomplete
    refine ⟨hlinked, ?_, ?_⟩
    · simpa [drained, inserted] using (sublist_append_left _ blocks).trans hinOrder
    · have hswap : (blocks ++ purged trace).Perm (purged trace ++ blocks) := perm_append_comm
      have hperm := hcomplete.trans
        (by simpa using hswap.append_left (drained trace ++ b'.blockMessages))
      simpa [drained, inserted, purged] using hperm
  | failed c e =>
    have hnone : drained (trace ++ [(c, .error e)]) = drained trace ∧
        inserted (trace ++ [(c, .error e)]) = inserted trace ∧
        purged (trace ++ [(c, .error e)]) = purged trace := by
      cases c <;> simp [drained, inserted, purged]
    obtain ⟨hdrain, hinserted, hpurged⟩ := hnone
    refine ⟨hlinked, ?_, ?_⟩
    · rw [hdrain, hinserted]
      exact hinOrder
    · rw [hdrain, hinserted, hpurged]
      exact hcomplete

lemma purgesTo_of_linked (hb : b.Linked) (hash : BlockHash) : b.PurgesTo hash := by
  constructor
  · rintro ⟨m, hm, hhash⟩
    obtain ⟨i, hi⟩ : ∃ i, b.blockMessages.reverse.findIdx? (fun n => (block n).hash == hash) =
        some i := by
      refine Option.isSome_iff_exists.mp ?_
      rw [List.findIdx?_isSome]
      exact any_eq_true.mpr ⟨m, mem_reverse.mpr hm, by simpa using hhash⟩
    rw [on_purgeCall]
    unfold deciding purge
    simp only [hi]
    exact ⟨_, _, rfl⟩
  · intro purged b' h
    rw [on_purgeCall] at h
    have hpurge := deciding_ok h
    obtain ⟨hsplit, tip, htip, htarget, hne⟩ := purge_ok hpurge
    exact ⟨hsplit, hne, tip, htip, htarget⟩
  · intro purged b' h hnum
    rw [on_purgeCall] at h
    have hsplit := (purge_ok (deciding_ok h)).1
    have hascends : b.blockMessages.IsChain fun m n => (block m).number < (block n).number :=
      List.IsChain.imp_of_mem_imp (fun m n hm hn hlink => hnum m hm n hn hlink) hb
    have htrans : IsTrans B fun m n => (block m).number < (block n).number :=
      ⟨fun m n k hmn hnk => Nat.lt_trans hmn hnk⟩
    have hpairwise := isChain_iff_pairwise.mp hascends
    rw [hsplit] at hpairwise
    exact (pairwise_append.mp hpairwise).2.1

/-- Any sequence of calls on an empty buffer, whether they succeed or fail. -/
theorem bookkept_of_run (hstart : b₀.blockMessages = [])
    (h : Run BufferCall.step (fun _ _ => True) b₀ trace b) : Bookkept trace b := by
  have hbal : Balanced trace b := by
    refine Run.invariant (P := Balanced) ?_ ?_ h
    · refine ⟨?_, ?_, ?_⟩
      · rw [Linked, hstart]
        exact .nil
      · rw [hstart]
        exact .refl _
      · rw [hstart]
        exact .refl _
    · intro trace b c r b' hb _ hstep
      exact hb.call (effect_of_call (Option.some.inj hstep))
  refine ⟨hbal.linked, hbal.inOrder, hbal.complete,
    purgesTo_of_linked hbal.linked, fun c e b' hc => ?_⟩
  cases effect_of_call hc
  rfl

end

/-- Block 2 is drained, block 4 is purged, and block 6 does not fit. -/
def reorganisation : List (BufferCall BlockChanges) :=
  [.insertBlock (streamed 2 0 []), .insertBlock (streamed 3 0 []), .insertBlock (streamed 4 0 []),
    .drainBlocksUntil 3, .purge ⟨[3]⟩, .insertBlock (streamed 6 0 [])]

theorem bookkept_of_run_reorganisation : ∃ (trace : Trace BlockChanges)
    (b : ReorgBuffer BlockChanges),
    trace.map Prod.fst = reorganisation ∧ b.blockMessages = [streamed 3 0 []] ∧
      drained trace = [streamed 2 0 []] ∧ purged trace = [streamed 4 0 []] ∧ Bookkept trace b := by
  obtain ⟨trace, b, hrun, hcalls, hb, hdrain, hpurged⟩ : ∃ trace b,
      Run BufferCall.step (fun _ _ => True) (new : ReorgBuffer BlockChanges) trace b ∧
      trace.map Prod.fst = reorganisation ∧ b.blockMessages = [streamed 3 0 []] ∧
      drained trace = [streamed 2 0 []] ∧ purged trace = [streamed 4 0 []] :=
    ⟨_, _, .next (.next (.next (.next (.next (.next .start trivial rfl) trivial rfl) trivial rfl)
      trivial rfl) trivial rfl) trivial rfl, rfl, rfl, rfl, rfl⟩
  exact ⟨trace, b, hcalls, hb, hdrain, hpurged, bookkept_of_run rfl hrun⟩

end ReorgBuffer
end Tycho
