import Tycho.Indexer.Machine

/-! The extractor and the chain that the stream has shown it. -/
namespace Tycho
open Collections List Indexer BlockChanges

def upTo (hash : BlockHash) (chain : List BlockUpdateWithCursor) : List BlockUpdateWithCursor :=
  (chain.reverse.dropWhile fun m => (block m).hash ≠ hash).reverse

lemma upTo_prefix (hash : BlockHash) (chain : List BlockUpdateWithCursor) :
    upTo hash chain <+: chain := by
  have hsuffix := @dropWhile_suffix _ chain.reverse
    fun m : BlockUpdateWithCursor => decide ((block m).hash ≠ hash)
  simpa [upTo] using reverse_prefix.mpr hsuffix

lemma upTo_of_split {hash : BlockHash} {kept undone : List BlockUpdateWithCursor}
    {target : BlockUpdateWithCursor} (hlast : kept.getLast? = some target)
    (htarget : (block target).hash = hash) (hundone : ∀ m ∈ undone, (block m).hash ≠ hash) :
    upTo hash (kept ++ undone) = kept := by
  obtain ⟨front, rfl⟩ := List.getLast?_eq_some_iff.mp hlast
  unfold upTo
  rw [reverse_append, dropWhile_append_of_pos
    (fun m hm => by simpa using hundone m (mem_reverse.mp hm)), reverse_append,
    reverse_singleton, singleton_append, dropWhile_cons_of_neg (by simpa using htarget),
    reverse_cons, reverse_reverse]

structure Feed where
  indexer : Indexer
  chain : List BlockUpdateWithCursor
  finalizedBlockHeight : Nat

namespace Feed
variable (pg : ExtractorPgGateway) (f : Feed)

def chainAfter : Event → List BlockUpdateWithCursor
  | .tick msg cursor _ =>
    if msg.partialBlockIndex.isSome then f.chain else f.chain ++ [⟨msg, cursor⟩]
  | .collect cursor _ _ _ =>
    f.chain ++ f.indexer.extractor.partialBlockBuffer.toList.map fun p => ⟨p, cursor⟩
  | .undo signal _ _ _ _ _ =>
    if f.indexer.extractor.firstMessageProcessed then
      signal.target.elim f.chain fun hash => upTo hash f.chain
    else f.chain
  | _ => f.chain

def finalizedAfter : Event → Nat
  | .tick msg _ _ => msg.finalizedBlockHeight
  | .collect _ finalBlockHeight _ _ => finalBlockHeight
  | _ => f.finalizedBlockHeight

/-- The step at an event with the message that it gives. An error of the extractor ends the
run. -/
def step (ev : Event) : Option (Option BlockAggregatedChanges × Feed) :=
  match f.indexer.step pg ev with
  | some (.ok (changes, ix)) => some (changes, ⟨ix, f.chainAfter ev, f.finalizedAfter ev⟩)
  | _ => none

end Feed

namespace Indexer
variable (pg : ExtractorPgGateway)

/-- What the commit task works on when it takes its steps. -/
def pointsOf (ix : Indexer) : List Answer → List (CachedGateway × Option CommitTask)
  | [] => []
  | answer :: answers =>
    (ix.stateGateway, ix.commitHandle) :: (ix.commitStep pg answer).pointsOf answers

/-- What the commit task works on when it takes its steps during an event. -/
def commitPoints (ix : Indexer) : Event → List (CachedGateway × Option CommitTask)
  | .commit answer => ix.pointsOf pg [answer]
  | .tick msg cursor answers =>
    if msg.partialBlockIndex.isSome then []
    else match ix.receiveFullBlock msg cursor msg.finalizedBlockHeight with
      | some (.ok ix) => ix.pointsOf pg answers
      | _ => []
  | .collect cursor finalBlockHeight _ answers =>
    match ix.extractor.partialBlockBuffer with
    | none => []
    | some msg =>
      match receiveFullBlock { ix with
          extractor := { ix.extractor with partialBlockBuffer := none } }
        msg cursor finalBlockHeight with
      | some (.ok ix) => ix.pointsOf pg answers
      | _ => []
  | .empty _ => []
  | .undo _ _ contracts states componentBalances accountBalances =>
    ix.pointsOf pg (contracts ++ states ++ componentBalances ++ accountBalances)

lemma pointsOf_setExtractor (ix : Indexer) (e : ProtocolExtractor) (answers : List Answer) :
    pointsOf pg { ix with extractor := e } answers = ix.pointsOf pg answers := by
  induction answers generalizing ix with
  | nil => rfl
  | cons _ _ ih =>
    simp only [pointsOf, commitStep_setExtractor]
    rw [ih]

end Indexer

namespace Feed
variable {pg : ExtractorPgGateway} {f f' : Feed} {ev : Event} {out : Option BlockAggregatedChanges}

/-- What the block loop does at an event: `ix` is the indexer before the commit task takes its
steps, and `height` is the committed height after them. -/
inductive Control (f : Feed) (ev : Event) (out : Option BlockAggregatedChanges) (ix : Indexer)
    (height : Option Nat) : Prop where
  | quiet (e : ProtocolExtractor) (hix : ix = { f.indexer with extractor := e })
      (hbuffer : e.reorgBuffer = f.indexer.extractor.reorgBuffer)
      (hname : e.name = f.indexer.extractor.name)
      (hparts : ∀ p, e.partialBlockBuffer = some p →
        f.indexer.extractor.partialBlockBuffer = some p ∨ ∃ msg cursor answers,
          ev = .tick msg cursor answers ∧ p.extractor = msg.extractor ∧ p.revert = msg.revert)
      (hchain : f.chainAfter ev = f.chain)
      (hout : ∀ msg, out = some msg → msg.partialBlockIndex.isSome ∧
        msg.dbCommittedBlockHeight = height ∧ ∃ b cursor answers,
          ev = .tick b cursor answers ∧ msg.revert = b.revert)
  | full (m : BlockUpdateWithCursor) (batch : List BlockUpdateWithCursor)
      (buffer : ReorgBuffer BlockUpdateWithCursor) (e : ProtocolExtractor)
      (changes : BlockAggregatedChanges)
      (hsource : (∃ answers, ev = .tick m.blockUpdate m.cursor answers) ∨
        f.indexer.extractor.partialBlockBuffer = some m.blockUpdate)
      (hbatch : f.indexer.extractor.bufferBlock m (f.finalizedAfter ev) = .ok (batch, buffer))
      (hix : (batch = [] ∧ ix = { f.indexer with extractor := e }) ∨
        ∃ last, batch.getLast? = some last ∧ (f.indexer.commitHandle = none ∨
          f.indexer.commitHandle = some (.finished (.ok ()))) ∧
        ix = { f.indexer with
          extractor := e
          commitHandle := some (.running batch (block last).number
            (f.finalizedAfter ev == (block m).number)) })
      (hbuffer : e.reorgBuffer = buffer) (hname : e.name = f.indexer.extractor.name)
      (hparts : ∀ p, e.partialBlockBuffer = some p →
        f.indexer.extractor.partialBlockBuffer = some p)
      (hchain : f.chainAfter ev = f.chain ++ [m])
      (hchanges : m.blockUpdate.intoAggregated height = .ok changes)
      (hout : out = some { changes with partialBlockIndex := none })
  | undo (g : ExtractorGateway) (hash : BlockHash) (purged : List BlockUpdateWithCursor)
      (buffer : ReorgBuffer BlockUpdateWithCursor) (e : ProtocolExtractor)
      (msg : BlockAggregatedChanges) (index : Option Nat)
      (hpurge : f.indexer.extractor.reorgBuffer.purge hash = .ok (purged, buffer))
      (hmsg : Revert.message g buffer f.indexer.extractor (purged ++
        f.indexer.extractor.partialBlockBuffer.toList.map fun p =>
          ⟨p, f.indexer.extractor.cursor⟩) index = .ok msg)
      (hindex : purged ≠ [] → index = none)
      (hix : ix = { f.indexer with extractor := e })
      (hbuffer : e.reorgBuffer = buffer) (hname : e.name = f.indexer.extractor.name)
      (hparts : e.partialBlockBuffer = none) (hchain : f.chainAfter ev = upTo hash f.chain)
      (hout : out = some msg)

lemma step_eq_some (h : f.step pg ev = some (out, f')) : ∃ ix,
    f.indexer.step pg ev = some (.ok (out, ix)) ∧
      f' = ⟨ix, f.chainAfter ev, f.finalizedAfter ev⟩ := by
  unfold step at h
  split at h
  · rename_i changes ix hstep
    cases h
    exact ⟨ix, hstep, rfl⟩
  · cases h

/-- The block loop acts first and the commit task takes its steps after it. -/
lemma step_control (h : f.step pg ev = some (out, f')) : ∃ ix answers,
    f'.indexer = ix.commitSteps pg answers ∧ f.indexer.commitPoints pg ev = ix.pointsOf pg answers ∧
      f'.chain = f.chainAfter ev ∧ f'.finalizedBlockHeight = f.finalizedAfter ev ∧
      Control f ev out ix f'.indexer.committedBlockHeight := by
  obtain ⟨ix', hstep, rfl⟩ := step_eq_some h
  cases ev with
  | commit answer =>
    cases hstep
    exact ⟨f.indexer, [answer], rfl, rfl, rfl, rfl, .quiet f.indexer.extractor rfl rfl rfl
      (fun p hp => .inl hp) rfl (fun msg hmsg => by cases hmsg)⟩
  | empty cursor =>
    cases hstep
    exact ⟨_, [], rfl, rfl, rfl, rfl, .quiet (f.indexer.extractor.updateCursor cursor) rfl rfl rfl
      (fun p hp => .inl hp) rfl (fun msg hmsg => by cases hmsg)⟩
  | tick msg cursor answers =>
    unfold Indexer.step at hstep
    dsimp only at hstep
    by_cases hpart : msg.partialBlockIndex.isSome = true
    · rw [if_pos hpart] at hstep
      obtain ⟨⟨changes, ix⟩, hok, heq⟩ := ok_of_map_ok (Option.some.inj hstep)
      cases heq
      obtain ⟨hchanges, e, he, rfl⟩ := processPartialBlockMessage_ok hok
      obtain ⟨p, rfl, hp⟩ := bufferPartialBlock_ok he
      refine ⟨_, [], rfl, if_pos hpart, rfl, rfl, .quiet _ rfl rfl rfl ?_ (if_pos hpart) ?_⟩
      · intro q hq
        cases hq
        exact .inr ⟨msg, cursor, answers, rfl, hp⟩
      · intro out hout
        cases hout
        obtain ⟨-, m, -, rfl⟩ := intoAggregated_ok hchanges
        exact ⟨hpart, rfl, msg, cursor, answers, rfl, rfl⟩
    · rw [if_neg hpart] at hstep
      obtain ⟨r, hr, hmap⟩ := Option.map_eq_some_iff.mp hstep
      obtain ⟨⟨changes, ix⟩, rfl, heq⟩ := ok_of_map_ok hmap
      cases heq
      obtain ⟨ix₁, hreceive, rfl, hchanges⟩ := processFullBlockMessage_ok hr
      obtain ⟨batch, buffer, hbatch, e, hbuffer, hname, hparts, hix⟩ :=
        receiveFullBlock_ok hreceive
      refine ⟨ix₁, answers, rfl, ?_, rfl, rfl, .full ⟨msg, cursor⟩ batch buffer e changes
        (.inl ⟨answers, rfl⟩) hbatch hix hbuffer hname (fun p hp => hparts.symm.trans hp)
        (if_neg hpart) hchanges ?_⟩
      · simp only [commitPoints, if_neg hpart, hreceive]
      · obtain ⟨-, m, -, rfl⟩ := intoAggregated_ok hchanges
        have hnone : msg.partialBlockIndex = none := by simpa using hpart
        rw [aggregatedMessage, hnone]
  | collect cursor _ _ answers =>
    obtain ⟨r, hr, hmap⟩ := Option.map_eq_some_iff.mp hstep
    obtain ⟨⟨changes, ix⟩, rfl, heq⟩ := ok_of_map_ok hmap
    cases heq
    unfold collectAndProcessFullBlock at hr
    cases hbuffered : f.indexer.extractor.partialBlockBuffer with
    | none =>
      simp only [hbuffered] at hr
      cases hr
    | some msg =>
      simp only [hbuffered] at hr
      obtain ⟨r, hfull, hmap⟩ := Option.map_eq_some_iff.mp hr
      obtain ⟨⟨changes', ix⟩, rfl, heq⟩ := ok_of_map_ok hmap
      cases heq
      obtain ⟨ix₁, hreceive, rfl, hchanges⟩ := processFullBlockMessage_ok hfull
      obtain ⟨batch, buffer, hbatch, e, hbuffer, hname, hparts, hix⟩ :=
        receiveFullBlock_ok hreceive
      refine ⟨ix₁, answers, rfl, ?_, rfl, rfl, .full ⟨msg, cursor⟩ batch buffer e changes'
        (.inr hbuffered) hbatch hix hbuffer hname (fun p hp => ?_) ?_ hchanges rfl⟩
      · simp only [commitPoints, hbuffered, hreceive]
      · cases hparts.symm.trans hp
      · simp only [chainAfter, hbuffered]
        rfl
  | undo _ _ contracts states componentBalances accountBalances =>
    obtain ⟨g, e, hr, rfl, -⟩ := handleRevert_ok (Option.some.inj hstep)
    refine ⟨{ f.indexer with extractor := e },
      contracts ++ states ++ componentBalances ++ accountBalances, ?_, ?_, rfl, rfl, ?_⟩
    · exact (commitSteps_setExtractor e _).symm
    · exact (pointsOf_setExtractor pg f.indexer e _).symm
    · rcases ProtocolExtractor.handleRevert_cases hr with ⟨hfirst, rfl, rfl⟩ |
        ⟨hash, purged, buffer, msg, hfirst, htarget, -, hpurge, hmsg, rfl, rfl⟩
      · refine .quiet _ rfl rfl rfl (fun p hp => .inl hp) ?_ (fun msg hmsg => by cases hmsg)
        simp only [chainAfter, hfirst]
        rfl
      · refine .undo _ hash purged buffer _ msg _ hpurge hmsg (fun hne => ?_) rfl rfl rfl rfl ?_ rfl
        · rw [isEmpty_eq_false_iff.mpr hne]
          rfl
        · simp only [chainAfter, hfirst, htarget]
          rfl

end Feed

def streamed (n : UInt8) (final : Nat) (txs : List TxWithChanges) : BlockChanges where
  extractor := "pools"
  chain := .ethereum
  block := ⟨n.toNat, .ethereum, ⟨[n]⟩, ⟨[n - 1]⟩, n.toNat⟩
  finalizedBlockHeight := final
  revert := false
  newTokens := ∅
  txsWithUpdate := txs
  blockContractChanges := []
  traceResults := []
  partialBlockIndex := none

/-- An extractor that commits batches of one block or more and has seen nothing yet. -/
def freshFeed : Feed where
  indexer := {
    extractor := ⟨"pools", .ethereum, 1, "", none, false, .new, none⟩
    stateGateway := ⟨⟨[0]⟩, ⟨∅, ∅, ∅, ∅⟩, [], none⟩
    commitHandle := none
    committedBlockHeight := none }
  chain := []
  finalizedBlockHeight := 0

def poolsGateway (dbTxBatchSize : Nat) : ExtractorPgGateway :=
  ⟨"pools", .ethereum, dbTxBatchSize, id⟩

end Tycho
