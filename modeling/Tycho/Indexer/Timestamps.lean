import Tycho.Indexer.Feed

/-! The timestamps of blocks that come faster than one in a second. -/
namespace Tycho
open Collections Replay List NaiveDateTime ReorgBuffer Block
variable {last : Option Block} {chain chain' : List Block} {out : Option BlockAggregatedChanges}

def NaiveDateTime.timestamp (ts : NaiveDateTime) : Int := ts / 1000000

namespace Block

/-- A block with the timestamp of the last processed block, in seconds, comes a microsecond after
that one. -/
def adjustTimestamp (lastProcessedBlock : Option Block) (b : Block) : Block :=
  match lastProcessedBlock with
  | some last =>
    if b.ts.timestamp = last.ts.timestamp then { b with ts := last.ts + 1 } else b
  | none => b

/-- The timestamps of the blocks of a chain, when one after the other is processed. -/
def stamp (lastProcessedBlock : Option Block) : List Block → List Block
  | [] => []
  | b :: chain =>
    let b' := b.adjustTimestamp lastProcessedBlock
    b' :: stamp (some b') chain

def lastStamped (lastProcessedBlock : Option Block) (chain : List Block) : Option Block :=
  (stamp lastProcessedBlock chain).getLast?.or lastProcessedBlock

section
variable {b : Block}

lemma adjustTimestamp_eq (last : Option Block) (b : Block) :
    b.adjustTimestamp last = { b with ts := (b.adjustTimestamp last).ts } := by
  unfold adjustTimestamp
  cases last with
  | none => rfl
  | some =>
    dsimp only
    split_ifs <;> rfl

lemma stamp_append (last : Option Block) (chain chain' : List Block) :
    stamp last (chain ++ chain') = stamp last chain ++ stamp (lastStamped last chain) chain' := by
  induction chain generalizing last with
  | nil => rfl
  | cons b chain ih =>
    have hlast : lastStamped (some (b.adjustTimestamp last)) chain =
        lastStamped last (b :: chain) := by
      simp only [lastStamped, stamp, List.getLast?_cons]
      cases (stamp (some (b.adjustTimestamp last)) chain).getLast? <;> rfl
    simp only [cons_append, stamp, ih, hlast]

lemma map_hash_stamp (last : Option Block) (chain : List Block) :
    (stamp last chain).map hash = chain.map hash := by
  induction chain generalizing last with
  | nil => rfl
  | cons b _ ih =>
    have hhash : (b.adjustTimestamp last).hash = b.hash := by rw [adjustTimestamp_eq]
    simp only [stamp, map_cons, ih, hhash]

lemma length_stamp (last : Option Block) (chain : List Block) :
    (stamp last chain).length = chain.length := by
  simpa using congrArg List.length (map_hash_stamp last chain)

lemma lastStamped_concat (last : Option Block) (chain : List Block) (b : Block) :
    lastStamped last (chain ++ [b]) = some (b.adjustTimestamp (lastStamped last chain)) := by
  rw [lastStamped, stamp_append]
  simp [stamp]

/-- A part of the stamped chain comes from a part of the chain. -/
lemma stamp_eq_append {front back : List Block} (h : stamp last chain = front ++ back) :
    ∃ l l', chain = l ++ l' ∧ stamp last l = front ∧ l'.map hash = back.map hash := by
  have hlen := congrArg List.length h
  rw [length_stamp, length_append] at hlen
  have hsplit := stamp_append last (chain.take front.length) (chain.drop front.length)
  rw [take_append_drop, h] at hsplit
  obtain ⟨hfront, hback⟩ := append_inj hsplit (by rw [length_stamp, length_take]; omega)
  refine ⟨_, _, (take_append_drop front.length chain).symm, hfront.symm, ?_⟩
  rw [hback, map_hash_stamp]

end

/-- Fewer than a million blocks of a chain have the same timestamp. The last block before the chain
counts with the blocks that it comes after by microseconds. -/
structure WellTimed (last : Option Block) (chain : List Block) : Prop where
  seconds : ∀ b ∈ chain, b.ts % 1000000 = 0
  monotone : chain.IsChain fun a b => a.ts ≤ b.ts
  crowded : ∀ run ts, run <:+: chain → (∀ b ∈ run, b.ts = ts) → run.length < 1000000
  resumed : ∀ l, last = some l → ∀ run, run <+: chain → run ≠ [] →
    (∀ b ∈ run, b.ts.timestamp = l.ts.timestamp) → l.ts % 1000000 + 1 + run.length < 1000000

namespace WellTimed
variable {b l : Block}

lemma of_prefix (h : WellTimed last chain) (hsub : chain' <+: chain) : WellTimed last chain' where
  seconds := fun b hb => h.seconds b (hsub.subset hb)
  monotone := h.monotone.prefix hsub
  crowded := fun run ts hrun => h.crowded run ts (hrun.trans hsub.isInfix)
  resumed := fun l hl run hrun => h.resumed l hl run (hrun.trans hsub)

/-- The adjusted timestamp of the first block is in the same second. -/
lemma timestamp_head (h : WellTimed last (b :: chain)) :
    (b.adjustTimestamp last).ts.timestamp * 1000000 = b.ts := by
  have hsecond := h.seconds b mem_cons_self
  unfold adjustTimestamp timestamp
  cases last with
  | none =>
    lia
  | some l =>
    have hroom := h.resumed l rfl [b] ⟨chain, rfl⟩ (cons_ne_nil b [])
    simp only [mem_singleton, forall_eq, timestamp, length_singleton] at hroom
    dsimp only
    split_ifs with heq
    · have hlt := hroom heq
      lia
    · lia

/-- The rest of a chain, after its first block. -/
lemma tail (h : WellTimed last (b :: chain)) : WellTimed (some (b.adjustTimestamp last)) chain := by
  have hhead := h.timestamp_head
  refine ⟨fun c hc => h.seconds c (mem_cons_of_mem b hc), h.monotone.tail,
    fun run ts hrun => h.crowded run ts (hrun.trans (suffix_cons b chain).isInfix), ?_⟩
  rintro l ⟨⟩ run hrun - hsame
  have hprefix : b :: run <+: b :: chain := prefix_cons_inj b |>.mpr hrun
  have hsecond := h.seconds b mem_cons_self
  have hrunts : ∀ c ∈ b :: run, c.ts = b.ts := by
    intro c hc
    rcases mem_cons.mp hc with rfl | hc
    · rfl
    · have hcs := h.seconds c (mem_cons_of_mem b (hrun.subset hc))
      have heq := hsame c hc
      unfold timestamp at heq hhead
      lia
  have hcrowded := h.crowded (b :: run) b.ts hprefix.isInfix hrunts
  rw [length_cons] at hcrowded
  unfold adjustTimestamp
  cases last with
  | none =>
    lia
  | some l =>
    dsimp only
    split_ifs with heq
    · have hroom := h.resumed l rfl (b :: run) hprefix (cons_ne_nil b run) fun c hc => by
        rw [hrunts c hc, heq]
      rw [length_cons] at hroom
      push_cast at hroom
      lia
    · lia

/-- A block comes after its predecessor. -/
lemma lt_head (h : WellTimed (some l) (b :: chain)) (hle : l.ts.timestamp ≤ b.ts.timestamp) :
    l.ts < (b.adjustTimestamp (some l)).ts := by
  have hsecond := h.seconds b mem_cons_self
  unfold timestamp at hle
  unfold adjustTimestamp timestamp
  dsimp only
  split_ifs with heq
  · lia
  · lia

lemma isChain_stamp (h : WellTimed last chain) :
    (stamp last chain).IsChain fun a b => a.ts < b.ts := by
  induction chain generalizing last with
  | nil => exact .nil
  | cons _ chain ih =>
    cases chain with
    | nil => exact .singleton _
    | cons =>
      refine isChain_cons_cons.mpr ⟨h.tail.lt_head ?_, ih h.tail⟩
      have hle := (isChain_cons_cons.mp h.monotone).1
      have hhead := h.timestamp_head
      unfold timestamp at hhead ⊢
      lia

/-- Each of them stays in its second. -/
lemma forall₂_stamp (h : WellTimed last chain) : List.Forall₂
    (fun raw b => b = { raw with ts := b.ts } ∧ b.ts.timestamp * 1000000 = raw.ts) chain
      (stamp last chain) := by
  induction chain generalizing last with
  | nil => exact .nil
  | cons b _ ih => exact .cons ⟨adjustTimestamp_eq last b, h.timestamp_head⟩ (ih h.tail)

end WellTimed
end Block

namespace BlockChanges

def adjustTimestamp (lastProcessedBlock : Option Block) (msg : BlockChanges) : BlockChanges :=
  { msg with block := msg.block.adjustTimestamp lastProcessedBlock }

end BlockChanges

variable {answers : List Answer} {cursor : String} {msg : BlockChanges} {ix : Indexer}

namespace Indexer
variable {pg : ExtractorPgGateway} {ix ix' : Indexer}

/-- Timestamps are adjusted when a block arrives, before anything else happens to it. -/
def adjusted (ix : Indexer) : Event → Event
  | .tick msg cursor answers =>
    .tick (msg.adjustTimestamp ix.extractor.lastProcessedBlock) cursor answers
  | ev => ev

/-- A full block that is processed goes to the end of the buffer, and is the last one. -/
lemma step_tick (hfull : msg.partialBlockIndex = none)
    (h : ix.step pg (.tick msg cursor answers) = some (.ok (out, ix'))) :
    ix'.extractor.reorgBuffer.blockMessages <:+
        ix.extractor.reorgBuffer.blockMessages ++ [⟨msg, cursor⟩] ∧
      ix'.extractor.lastProcessedBlock = some msg.block := by
  unfold step at h
  dsimp only at h
  rw [if_neg (by simp [hfull])] at h
  obtain ⟨r, hr, hmap⟩ := Option.map_eq_some_iff.mp h
  obtain ⟨⟨changes, ix₂⟩, rfl, heq⟩ := ok_of_map_ok hmap
  cases heq
  obtain ⟨ix₁, hreceive, rfl, -⟩ := processFullBlockMessage_ok hr
  obtain ⟨batch, buffer, hbatch, e, hbuffer, -, -, hix⟩ := receiveFullBlock_ok hreceive
  obtain ⟨-, -, hmsgs, -⟩ := bufferBlock_ok hbatch
  refine ⟨⟨batch, ?_⟩, ?_⟩
  · rw [commitSteps_extractor, hmsgs]
    rcases hix with ⟨-, rfl⟩ | ⟨last, -, -, rfl⟩ <;> rw [hbuffer]
  · rw [commitSteps_extractor]
    unfold receiveFullBlock at hreceive
    rw [hbatch] at hreceive
    obtain ⟨spawned, -, hmap⟩ := Option.map_eq_some_iff.mp hreceive
    obtain ⟨ix₀, rfl, rfl⟩ := ok_of_map_ok hmap
    rfl

/-- An undo signal that is not ignored leaves its target as the last block. -/
lemma step_undo_cases {signal : BlockUndoSignal} {plugin : Except ExtractionError Unit}
    {contracts states componentBalances accountBalances : List Answer}
    (h : ix.step pg (.undo signal plugin contracts states componentBalances accountBalances) =
      some (.ok (out, ix'))) :
    (ix.extractor.firstMessageProcessed = false ∧
      ix'.extractor.reorgBuffer = ix.extractor.reorgBuffer ∧
      ix'.extractor.lastProcessedBlock = ix.extractor.lastProcessedBlock) ∨
    ∃ hash purged buffer, ix.extractor.firstMessageProcessed = true ∧ signal.target = some hash ∧
      ix.extractor.reorgBuffer.purge hash = .ok (purged, buffer) ∧
      ix'.extractor.reorgBuffer = buffer ∧
      ix'.extractor.lastProcessedBlock = buffer.getMostRecentBlock := by
  obtain ⟨g, e, hr, rfl, -⟩ := handleRevert_ok (Option.some.inj h)
  rcases ProtocolExtractor.handleRevert_cases hr with ⟨hfirst, -, rfl⟩ |
    ⟨hash, purged, buffer, msg, hfirst, htarget, -, hpurge, hmsg, -, rfl⟩
  · exact .inl ⟨hfirst, rfl, rfl⟩
  · obtain ⟨hparts, -, -⟩ := Revert.message_ok hmsg
    exact .inr ⟨hash, purged, buffer, hfirst, htarget, hpurge, rfl, hparts.block.symm⟩

end Indexer

/-- An extractor and the blocks that were streamed and not undone, as they were streamed. -/
structure Timeline where
  indexer : Indexer
  chain : List BlockUpdateWithCursor

namespace Timeline
variable (pg : ExtractorPgGateway) (t : Timeline)

def buffer : List BlockUpdateWithCursor := t.indexer.extractor.reorgBuffer.blockMessages

def chainAfter : Event → List BlockUpdateWithCursor
  | .tick msg cursor _ => t.chain ++ [⟨msg, cursor⟩]
  | .undo signal _ _ _ _ _ =>
    if t.indexer.extractor.firstMessageProcessed then
      signal.target.elim t.chain fun hash => upTo hash t.chain
    else t.chain
  | _ => t.chain

def step (ev : Event) : Option (Option BlockAggregatedChanges × Timeline) :=
  match t.indexer.step pg (t.indexer.adjusted ev) with
  | some (.ok (changes, ix)) => some (changes, ⟨ix, t.chainAfter ev⟩)
  | _ => none

/-- The stream has full blocks and undo signals. The chain that a block extends is well timed. -/
def InTime (lastProcessedBlock : Option Block) (t : Timeline) : Event → Prop
  | .tick msg _ _ => msg.partialBlockIndex = none ∧
      Block.WellTimed lastProcessedBlock (t.chain.map block ++ [msg.block])
  | .collect _ _ _ _ => False
  | _ => True

/-- The timestamps in the buffer increase, and each is in the second of the streamed one. -/
structure Increasing (t : Timeline) : Prop where
  strict : t.buffer.IsChain fun m n => (block m).ts < (block n).ts
  truncated : ∃ raw, raw <:+ t.chain ∧ List.Forall₂ (fun r m =>
    block m = { block r with ts := (block m).ts } ∧
      (block m).ts.timestamp * 1000000 = (block r).ts) raw t.buffer

/-- The buffer ends the chain as it would be stamped without any undo. -/
structure Stamped (last : Option Block) (t : Timeline) : Prop where
  wellTimed : Block.WellTimed last (t.chain.map block)
  buffered : t.buffer.map block <:+ stamp last (t.chain.map block)
  processed : t.indexer.extractor.lastProcessedBlock = lastStamped last (t.chain.map block)

variable {pg t} {t' t₀ : Timeline} {ev : Event}
lemma Stamped.tick (h : Stamped last t) (hev : InTime last t (.tick msg cursor answers))
    (hstep : t.indexer.step pg (t.indexer.adjusted (.tick msg cursor answers)) =
      some (.ok (out, ix))) : Stamped last ⟨ix, t.chain ++ [⟨msg, cursor⟩]⟩ := by
  obtain ⟨hfull, hwellTimed⟩ := hev
  have hadj : (msg.adjustTimestamp t.indexer.extractor.lastProcessedBlock).partialBlockIndex =
      none := hfull
  obtain ⟨hsuffix, hlast⟩ := Indexer.step_tick hadj hstep
  have hchain : (t.chain ++ [(⟨msg, cursor⟩ : BlockUpdateWithCursor)]).map block =
      t.chain.map block ++ [msg.block] := map_append
  refine ⟨?_, ?_, ?_⟩
  · rw [hchain]
    exact hwellTimed
  · obtain ⟨front, hfront⟩ := h.buffered
    have hmap := hsuffix.map block
    rw [map_append] at hmap
    refine hmap.trans ⟨front, ?_⟩
    rw [hchain, stamp_append, ← h.processed, ← hfront, append_assoc]
    rfl
  · rw [hchain, lastStamped_concat, ← h.processed, hlast]
    rfl

/-- The purged blocks leave the stamped chain where they leave the streamed one. -/
lemma Stamped.purge {hash : BlockHash} {purged : List BlockUpdateWithCursor}
    {b : ReorgBuffer BlockUpdateWithCursor} (h : Stamped last t)
    (hpurge : t.indexer.extractor.reorgBuffer.purge hash = .ok (purged, b))
    (hbuffer : ix.extractor.reorgBuffer = b)
    (hlast : ix.extractor.lastProcessedBlock = b.getMostRecentBlock) :
    Stamped last ⟨ix, upTo hash t.chain⟩ := by
  obtain ⟨hmsgs, target, htip, htarget, hpurged⟩ := purge_ok hpurge
  obtain ⟨front, hfront⟩ := h.buffered
  rw [buffer, hmsgs, map_append, ← append_assoc] at hfront
  obtain ⟨l, l', hsplit, hstamp, hhashes⟩ := stamp_eq_append hfront.symm
  obtain ⟨kept, undone, hchain, rfl, rfl⟩ := map_eq_append_iff.mp hsplit
  have htip' : (front ++ b.blockMessages.map block).getLast? = some (block target) := by
    rw [List.getLast?_append, List.getLast?_map, htip]
    rfl
  have hkept : ∃ m, kept.getLast? = some m ∧ (block m).hash = hash := by
    have hmap := map_hash_stamp last (kept.map block)
    have hget := congrArg List.getLast? hmap
    rw [hstamp, List.getLast?_map, htip', map_map, List.getLast?_map] at hget
    obtain ⟨m, hm, hmhash⟩ := Option.map_eq_some_iff.mp hget.symm
    exact ⟨m, hm, hmhash.trans htarget⟩
  have hundone : ∀ m ∈ undone, (block m).hash ≠ hash := by
    intro m hm
    have hmem : (block m).hash ∈ (purged.map block).map Block.hash := by
      rw [← hhashes]
      exact mem_map_of_mem (mem_map_of_mem hm)
    obtain ⟨c, hc, heq⟩ := mem_map.mp hmem
    obtain ⟨n, hn, rfl⟩ := mem_map.mp hc
    rw [← heq]
    exact hpurged n hn
  obtain ⟨m, hm, hmhash⟩ := hkept
  have hupTo : upTo hash t.chain = kept := by
    rw [hchain]
    exact upTo_of_split hm hmhash hundone
  rw [hupTo]
  refine ⟨h.wellTimed.of_prefix ⟨undone.map block, hsplit.symm⟩, ⟨front, ?_⟩, ?_⟩
  · rw [hstamp, buffer, hbuffer]
  · rw [lastStamped, hstamp, htip', hlast, getMostRecentBlock, htip]
    rfl

/-- Every step leaves the buffer as if its chain had been streamed without an undo. -/
lemma Stamped.step (h : Stamped last t) (hev : InTime last t ev)
    (hstep : t.step pg ev = some (out, t')) : Stamped last t' := by
  unfold Timeline.step at hstep
  split at hstep
  · rename_i changes ix hix
    cases hstep
    cases ev with
    | tick => exact h.tick hev hix
    | collect => cases hev
    | commit answer =>
      cases hix
      have hname : (t.indexer.commitStep pg answer).extractor = t.indexer.extractor :=
        Indexer.commitSteps_extractor [answer]
      refine ⟨h.wellTimed, ?_, ?_⟩
      · rw [buffer, hname]
        exact h.buffered
      · rw [hname]
        exact h.processed
    | empty =>
      cases hix
      exact ⟨h.wellTimed, h.buffered, h.processed⟩
    | undo =>
      rcases Indexer.step_undo_cases hix with ⟨hfirst, hbuffer, hlast⟩ |
        ⟨hash, purged, b, hfirst, htarget, hpurge, hbuffer, hlast⟩
      · simp only [chainAfter, hfirst, Bool.false_eq_true, if_false]
        refine ⟨h.wellTimed, ?_, hlast.trans h.processed⟩
        rw [buffer, hbuffer]
        exact h.buffered
      · simp only [chainAfter, hfirst, htarget, if_true, Option.elim_some]
        exact h.purge hpurge hbuffer hlast
  · cases hstep

lemma Stamped.increasing (h : Stamped last t) : t.Increasing := by
  obtain ⟨front, hfront⟩ := h.buffered
  have hstrict := h.wellTimed.isChain_stamp
  have hstamp := h.wellTimed.forall₂_stamp
  rw [← hfront] at hstrict hstamp
  constructor
  · have hsuffix := (isChain_append.mp hstrict).2.1
    exact (isChain_map block).mp hsuffix
  · have hraw := forall₂_drop_append _ _ _ hstamp
    rw [← map_drop, forall₂_map_left_iff, forall₂_map_right_iff] at hraw
    exact ⟨_, drop_suffix front.length t.chain, hraw⟩

/-- From an empty buffer, through all blocks and undo signals, the timestamps increase. -/
theorem increasing_of_run {trace : List (Event × Option BlockAggregatedChanges)}
    (hchain : t₀.chain = []) (hbuffer : t₀.buffer = [])
    (h : Run (step pg) (InTime t₀.indexer.extractor.lastProcessedBlock) t₀ trace t) :
    t.Increasing := by
  have hstart : Stamped t₀.indexer.extractor.lastProcessedBlock t₀ := by
    refine ⟨?_, ?_, ?_⟩
    · rw [hchain]
      refine ⟨by simp, .nil, ?_, ?_⟩
      · intro run ts hrun _
        rw [infix_nil.mp hrun]
        decide
      · intro l _ run hrun hne
        exact absurd (prefix_nil.mp hrun) hne
    · rw [hbuffer]
      exact nil_suffix
    · rw [hchain]
      rfl
  have hstamped := Run.invariant (P := fun _ t => Stamped _ t) hstart
    (fun _ _ _ _ _ ht hguard hstep => ht.step hguard hstep) h
  exact hstamped.increasing

/-- An extractor that resumes after the second block of second 5. -/
def resumed : Timeline where
  indexer := { freshFeed.indexer with
    extractor := { freshFeed.indexer.extractor with
      lastProcessedBlock := some ⟨0, .ethereum, ⟨[0]⟩, ⟨[255]⟩, 5000001⟩ } }
  chain := []

def rapid (n : UInt8) : BlockChanges :=
  { streamed n 0 [] with block := { (streamed n 0 []).block with ts := 5000000 } }

def backToOne : Event := .undo ⟨some ⟨"0x01", 1⟩, ""⟩ (.ok ()) [] [] [] []

private lemma inTime_rapid {n : UInt8} (h : ∀ m ∈ t.chain, (block m).ts = 5000000)
    (hlen : t.chain.length ≤ 2) :
    InTime resumed.indexer.extractor.lastProcessedBlock t (.tick (rapid n) "" []) := by
  have hts : ∀ b ∈ t.chain.map block ++ [(rapid n).block], b.ts = 5000000 := by
    simpa [or_imp, forall_and] using ⟨h, rfl⟩
  have hshare : ∀ run, run <:+: t.chain.map block ++ [(rapid n).block] → run.length ≤ 3 := by
    intro run hrun
    have hle := hrun.length_le
    simp only [length_append, length_map, length_singleton] at hle
    omega
  refine ⟨rfl, fun b hb => by rw [hts b hb]; rfl, ?_, fun run _ hrun _ => ?_, ?_⟩
  · refine List.Pairwise.isChain (pairwise_of_forall_mem_list fun a ha b hb => ?_)
    rw [hts a ha, hts b hb]
  · have hle := hshare run hrun
    omega
  · rintro l ⟨⟩ run hrun - -
    have hle := hshare run hrun.isInfix
    lia

/-- Block 2 is undone and sent again. -/
theorem increasing_of_run_resumed : ∃ trace t,
    Run (step (poolsGateway 50000)) (InTime resumed.indexer.extractor.lastProcessedBlock) resumed
      trace t ∧
    trace.map Prod.fst = [.tick (rapid 1) "" [], .tick (rapid 2) "" [], backToOne,
      .tick (rapid 2) "" []] ∧
    t.buffer.map (fun m => (block m).ts) = [5000002, 5000003] ∧ t.Increasing := by
  obtain ⟨trace, t, hrun, htrace, hts⟩ : ∃ trace t,
      Run (step (poolsGateway 50000)) (InTime resumed.indexer.extractor.lastProcessedBlock) resumed
        trace t ∧
      trace.map Prod.fst = [.tick (rapid 1) "" [], .tick (rapid 2) "" [], backToOne,
        .tick (rapid 2) "" []] ∧
      t.buffer.map (fun m => (block m).ts) = [5000002, 5000003] := by
    refine ⟨_, _, .next (.next (.next (.next .start (inTime_rapid ?_ ?_) rfl)
      (inTime_rapid ?_ ?_) rfl) (show InTime _ _ backToOne from trivial) rfl)
      (inTime_rapid ?_ ?_) rfl, rfl, rfl⟩
    all_goals decide
  exact ⟨trace, t, hrun, htrace, hts, increasing_of_run rfl rfl hrun⟩

end Timeline
end Tycho
