import Tycho.Indexer.Commit
import Tycho.Indexer.PendingDeltas

/-! The service's buffer follows the extractor that feeds it. -/
namespace Tycho
open Collections Replay List ReorgBuffer PendingDeltas
variable {name : String} {message : BlockAggregatedChanges} {pg : ExtractorPgGateway} {ix : Indexer}

/-- A block above a height, if there is one. -/
def Block.above (height : Option Nat) (b : Block) : Bool := height.all fun h => h < b.number

lemma Block.above_iff {height : Option Nat} {b : Block} :
    b.above height = true ↔ ∀ h, height = some h → h < b.number := by
  cases height <;> simp [Block.above]

variable {tip : BlockUpdateWithCursor}

/-- The newest block of a chain stays the newest one if it is above the height. -/
lemma getLast?_filter_above {reported : Option Nat} {chain : List BlockUpdateWithCursor}
    (htip : chain.getLast? = some tip) (habove : (block tip).above reported = true) :
    ((chain.map block).filter (Block.above reported)).getLast? = some (block tip) := by
  obtain ⟨front, rfl⟩ := List.getLast?_eq_some_iff.mp htip
  rw [map_append, filter_append, map_singleton, filter_singleton, habove]
  exact List.getLast?_concat

namespace ReorgBuffer
variable {buffer : ReorgBuffer BlockAggregatedChanges}

/-- A full block is added, and the blocks up to the height that it reports are dropped. -/
lemma accept_block {blocks : List Block} (hrev : message.revert = false)
    (hblocks : buffer.blockMessages.map block = blocks)
    (hlink : ∀ last, blocks.getLast? = some last → last.hash = message.block.parentHash)
    (hascends : (blocks ++ [message.block]).Pairwise fun a b => a.number < b.number)
    (hheight : ∀ h, message.dbCommittedBlockHeight = some h →
      ∃ b ∈ blocks ++ [message.block], b.number = h + 1) :
    ∃ buffer', buffer.accept message = .ok buffer' ∧ buffer'.blockMessages.map block =
      (blocks ++ [message.block]).filter (Block.above message.dbCommittedBlockHeight) := by
  subst hblocks
  have hinsert : buffer.insertBlock message =
      .ok { buffer with blockMessages := buffer.blockMessages ++ [message] } := by
    refine insertBlock_of_linked fun last hlast => hlink (block last) ?_
    rw [List.getLast?_map, hlast]
    rfl
  have hmap : (buffer.blockMessages ++ [message]).map block =
      buffer.blockMessages.map block ++ [message.block] := by
    rw [map_append]
    rfl
  rw [← hmap] at hascends hheight ⊢
  have hmsgs := pairwise_map.mp hascends
  unfold accept
  simp only [hrev, hinsert, bind, Except.bind, Bool.false_eq_true, if_false]
  cases hh : message.dbCommittedBlockHeight with
  | none =>
    refine ⟨_, rfl, ?_⟩
    exact (filter_eq_self.mpr fun _ _ => rfl).symm
  | some h =>
    obtain ⟨b, hb, hnum⟩ := hheight h hh
    obtain ⟨m, hm, rfl⟩ := mem_map.mp hb
    have hdrain : ∃ drained, drainBlocksUntil
        { buffer with blockMessages := buffer.blockMessages ++ [message] } (h + 1) =
          .ok (drained, { buffer with
            blockMessages := (buffer.blockMessages ++ [message]).filter fun m =>
              h + 1 ≤ (block m).number }) :=
      drainBlocksUntil_of_mem hmsgs ⟨m, hm, hnum⟩
    obtain ⟨drained, hdrain⟩ := hdrain
    simp only [hdrain]
    refine ⟨_, rfl, ?_⟩
    rw [filter_map]
    rfl

lemma accept_revert {kept undone : List Block} (hrev : message.revert = true)
    (hindex : message.partialBlockIndex = none)
    (hblocks : buffer.blockMessages.map block = kept ++ undone)
    (hlast : kept.getLast? = some message.block)
    (hundone : ∀ b ∈ undone, b.hash ≠ message.block.hash) :
    ∃ buffer', buffer.accept message = .ok buffer' ∧ buffer'.blockMessages.map block = kept := by
  obtain ⟨l₁, l₂, hl, rfl, rfl⟩ := map_eq_append_iff.mp hblocks
  rw [List.getLast?_map] at hlast
  obtain ⟨target, htarget, hblock⟩ := Option.map_eq_some_iff.mp hlast
  have hpurge : buffer.purge message.block.hash = .ok (l₂, { buffer with blockMessages := l₁ }) :=
    by
    refine purge_of_split hl htarget ?_ fun m hm => hundone _ (mem_map_of_mem hm)
    rw [hblock]
  unfold accept
  simp only [hrev, hindex, hpurge, bind, Except.bind, if_true, Option.isNone_none]
  exact ⟨_, rfl, rfl⟩

lemma accept_partialRevert (hrev : message.revert = true)
    (hindex : message.partialBlockIndex.isSome) : buffer.accept message = .ok buffer := by
  unfold accept
  rw [hrev, if_pos rfl, if_neg (by simpa using Option.isSome_iff_ne_none.mp hindex)]
  rfl

end ReorgBuffer
/-- A height is kept or raised. -/
def Raised (h h' : Option Nat) : Prop := ∀ n, h = some n → ∃ n', h' = some n' ∧ n ≤ n'

lemma Raised.trans {h₁ h₂ h₃ : Option Nat} (h : Raised h₁ h₂) (h' : Raised h₂ h₃) :
    Raised h₁ h₃ := by
  intro n hn
  obtain ⟨n₁, hn₁, hle⟩ := h n hn
  obtain ⟨n₂, hn₂, hle'⟩ := h' n₁ hn₁
  exact ⟨n₂, hn₂, hle.trans hle'⟩

namespace PendingDeltas
variable {p : PendingDeltas} {reported height : Option Nat}
  {chain kept purged : List BlockUpdateWithCursor} {m target : BlockUpdateWithCursor}
/-- The service holds the blocks of an extractor's chain above the height that was last
reported. -/
def Serves (p : PendingDeltas) (name : String) (reported : Option Nat)
    (chain : List BlockUpdateWithCursor) : Prop :=
  ∃ buffer, p.buffers.lookup name = some buffer ∧
    buffer.blockMessages.map block = (chain.map block).filter (Block.above reported)

lemma insert_of_accept {buffer buffer' : ReorgBuffer BlockAggregatedChanges}
    (hname : message.extractor = name) (hbuffer : p.buffers.lookup name = some buffer)
    (haccept : buffer.accept message = .ok buffer') :
    ∃ p', p.insert message = .ok p' ∧ p'.buffers.lookup name = some buffer' := by
  subst hname
  refine ⟨⟨p.buffers.insert message.extractor buffer'⟩, ?_, AList.lookup_insert _⟩
  simp only [insert, hbuffer, haccept]
  rfl

lemma Serves.insert_block (h : p.Serves name reported chain) (hname : message.extractor = name)
    (hrev : message.revert = false) (hblock : message.block = block m)
    (hheight : message.dbCommittedBlockHeight = height)
    (hcontig : Contiguous (fun m => (block m).number) (chain ++ [m]))
    (hlink : ∀ tip, chain.getLast? = some tip → (block tip).hash = (block m).parentHash)
    (htip : ∀ n tip, reported = some n → chain.getLast? = some tip → n < (block tip).number)
    (hraised : Raised reported height)
    (hnear : ∀ n first, height = some n → (chain ++ [m]).head? = some first →
      (block first).number ≤ n + 1)
    (hbelow : ∀ n, height = some n → n < (block m).number) :
    ∃ p', p.insert message = .ok p' ∧ p'.Serves name height (chain ++ [m]) := by
  obtain ⟨buffer, hbuffer, hblocks⟩ := h
  have hsub : ((chain.map block).filter (Block.above reported) ++ [message.block]).Sublist
      ((chain ++ [m]).map block) := by
    rw [map_append, hblock]
    exact filter_sublist.append_right _
  have hnums : ((chain ++ [m]).map block).Pairwise fun a b => a.number < b.number :=
    pairwise_map.mpr hcontig.pairwise
  have hascends := hnums.sublist hsub
  have hlast : ∀ last, ((chain.map block).filter (Block.above reported)).getLast? = some last →
      last.hash = message.block.parentHash := by
    intro last hlast
    cases htip' : chain.getLast? with
    | none =>
      rw [List.getLast?_eq_none_iff.mp htip'] at hlast
      cases hlast
    | some tip =>
      have habove : (block tip).above reported = true :=
        Block.above_iff.mpr fun n hn => htip n tip hn htip'
      cases hlast.symm.trans (getLast?_filter_above htip' habove)
      rw [hblock]
      exact hlink tip htip'
  have hnum : ∀ n, message.dbCommittedBlockHeight = some n →
      ∃ b ∈ (chain.map block).filter (Block.above reported) ++ [message.block],
        b.number = n + 1 := by
    intro n hn
    rw [hheight] at hn
    have hm : m ∈ chain ++ [m] := mem_append_right _ mem_cons_self
    have hhead := List.head?_eq_some_head (ne_nil_of_mem hm)
    obtain ⟨c, hc, hcn⟩ := hcontig.exists_number (mem_of_head? hhead) hm
      (hnear n _ hn hhead) (hbelow n hn)
    rcases mem_append.mp hc with hc | hc
    · have habove : (block c).above reported = true := by
        refine Block.above_iff.mpr fun r hr => ?_
        obtain ⟨n', hn', hle⟩ := hraised r hr
        cases hn.symm.trans hn'
        omega
      exact ⟨block c, mem_append_left _ (mem_filter.mpr ⟨mem_map_of_mem hc, habove⟩), hcn⟩
    · refine ⟨message.block, mem_append_right _ mem_cons_self, ?_⟩
      rw [hblock, ← mem_singleton.mp hc]
      exact hcn
  obtain ⟨buffer', haccept, hblocks'⟩ :=
    accept_block hrev hblocks hlast hascends hnum
  obtain ⟨p', hinsert, hbuffer'⟩ := insert_of_accept hname hbuffer haccept
  refine ⟨p', hinsert, buffer', hbuffer', ?_⟩
  -- a block above the new height is above the old one
  have hfilter : ((chain.map block).filter (Block.above reported)).filter (Block.above height) =
      (chain.map block).filter (Block.above height) := by
    rw [filter_filter]
    refine filter_congr fun b _ => ?_
    by_cases hb : b.above height = true
    · have habove : b.above reported = true := by
        refine Block.above_iff.mpr fun n hn => ?_
        obtain ⟨n', hn', hle⟩ := hraised n hn
        exact lt_of_le_of_lt hle (Block.above_iff.mp hb n' hn')
      rw [hb, habove]
      rfl
    · rw [Bool.eq_false_iff.mpr hb]
      rfl
  rw [hblocks', hheight, filter_append, hfilter, map_append, filter_append, hblock]
  rfl

lemma Serves.insert_revert (h : p.Serves name reported (kept ++ purged))
    (hname : message.extractor = name) (hrev : message.revert = true)
    (hindex : purged ≠ [] → message.partialBlockIndex = none)
    (hlast : kept.getLast? = some target) (hblock : message.block = block target)
    (hpurged : ∀ m ∈ purged, (block m).hash ≠ (block target).hash)
    (htarget : ∀ n, reported = some n → n < (block target).number) :
    ∃ p', p.insert message = .ok p' ∧ p'.Serves name reported kept := by
  obtain ⟨buffer, hbuffer, hblocks⟩ := h
  rw [map_append, filter_append] at hblocks
  have hkept : ((kept.map block).filter (Block.above reported)).getLast? = some message.block := by
    rw [hblock]
    exact getLast?_filter_above hlast (Block.above_iff.mpr htarget)
  obtain ⟨buffer', haccept, hblocks'⟩ : ∃ buffer', buffer.accept message = .ok buffer' ∧
      buffer'.blockMessages.map block = (kept.map block).filter (Block.above reported) := by
    cases hindex' : message.partialBlockIndex with
    | none =>
      refine accept_revert hrev hindex' hblocks hkept fun b hb => ?_
      obtain ⟨m, hm, rfl⟩ := mem_map.mp (mem_filter.mp hb).1
      rw [hblock]
      exact hpurged m hm
    | some =>
      have hnil : purged = [] := by
        by_contra hne
        cases hindex'.symm.trans (hindex hne)
      subst hnil
      refine ⟨buffer, accept_partialRevert hrev (by rw [hindex']; rfl), ?_⟩
      simpa using hblocks
  obtain ⟨p', hinsert, hbuffer'⟩ := insert_of_accept hname hbuffer haccept
  exact ⟨p', hinsert, buffer', hbuffer', hblocks'⟩

end PendingDeltas

namespace Indexer
variable {chain written staged queued : List BlockUpdateWithCursor}

/-- Where the committed height is in the chain: below the buffer, and not more than one below the
first block. The task will raise it. -/
structure Bounded (ix : Indexer) (chain : List BlockUpdateWithCursor) : Prop where
  contiguous : Contiguous (fun m => (block m).number) chain
  buffered : chain ≠ [] → ix.extractor.reorgBuffer.blockMessages ≠ []
  below : ∀ h, ix.committedBlockHeight = some h →
    ∀ m ∈ ix.extractor.reorgBuffer.blockMessages, h < (block m).number
  near : ∀ h, ix.committedBlockHeight = some h →
    ∀ first, chain.head? = some first → (block first).number ≤ h + 1
  raises : ∀ h blocks height isSyncing, ix.committedBlockHeight = some h →
    ix.commitHandle = some (.running blocks height isSyncing) → h < height

section
variable (h : Bounded ix chain) (hp : Placed pg ix chain written staged queued)
include h hp

lemma Bounded.commitStep (answer : Answer) : Bounded (ix.commitStep pg answer) chain ∧
      Raised ix.committedBlockHeight (ix.commitStep pg answer).committedBlockHeight := by
  obtain ⟨written', staged', queued', hmoved, -⟩ := commitStep_move hp answer
  have hkept : Raised ix.committedBlockHeight _ := fun n hn => ⟨n, hn, le_rfl⟩
  generalize ix.commitStep pg answer = ix' at hmoved ⊢
  cases hmoved with
  | none => exact ⟨h, hkept⟩
  | report height _ hhandle =>
    obtain ⟨rfl, last, hlast, rfl⟩ := hp.running _ _ _ hhandle
    have hdrain : last ∈ written ++ staged ++ [] := mem_of_getLast? hlast
    have hchain := hp.chain_eq
    refine ⟨⟨h.contiguous, h.buffered, ?_, ?_, by rintro n blocks height' isSyncing' - ⟨⟩⟩, ?_⟩
    · rintro n ⟨⟩ m hm
      have hpairwise := h.contiguous.pairwise
      rw [hchain] at hpairwise
      exact (pairwise_append.mp hpairwise).2.2 last hdrain m hm
    · rintro n ⟨⟩ first hfirst
      have hmem : last ∈ chain := hchain ▸ mem_append_left _ hdrain
      have hne : chain ≠ [] := ne_nil_of_mem hmem
      have hle := (h.contiguous.bounds hfirst (List.getLast?_eq_some_getLast hne) hmem).1
      omega
    · intro n hn
      exact ⟨_, rfl, (h.raises n _ _ _ hn hhandle).le⟩
  | stage _ _ _ _ _ hhandle =>
    refine ⟨⟨h.contiguous, h.buffered, h.below, h.near, ?_⟩, hkept⟩
    rintro n blocks height' isSyncing' hn ⟨⟩
    exact h.raises n _ _ _ hn hhandle
  | submit _ _ _ _ _ hhandle =>
    refine ⟨⟨h.contiguous, h.buffered, h.below, h.near, ?_⟩, hkept⟩
    rintro n blocks height' isSyncing' hn ⟨⟩
    exact h.raises n _ _ _ hn hhandle
  | fail =>
    exact ⟨⟨h.contiguous, h.buffered, h.below, h.near, by rintro n blocks height' s - ⟨⟩⟩, hkept⟩

lemma Bounded.commitSteps (answers : List Answer) :
    Bounded (ix.commitSteps pg answers) chain ∧ (∃ written' staged' queued',
        Placed pg (ix.commitSteps pg answers) chain written' staged' queued') ∧
      Raised ix.committedBlockHeight (ix.commitSteps pg answers).committedBlockHeight := by
  induction answers generalizing ix written staged queued with
  | nil => exact ⟨h, ⟨_, _, _, hp⟩, fun n hn => ⟨n, hn, le_rfl⟩⟩
  | cons answer _ ih =>
    obtain ⟨hstep, hraised⟩ := h.commitStep hp answer
    obtain ⟨_, _, _, -, hplaced⟩ := commitStep_move hp answer
    obtain ⟨hbounded, hplaced', hraised'⟩ := ih hstep hplaced
    exact ⟨hbounded, hplaced', hraised.trans hraised'⟩

/-- While something is buffered, the newest block of the chain is. -/
lemma Bounded.getLast? (htip : chain.getLast? = some tip) :
    ix.extractor.reorgBuffer.blockMessages.getLast? = some tip := by
  have hne : chain ≠ [] := by
    rintro rfl
    cases htip
  rw [← htip, hp.chain_eq, List.getLast?_append,
    List.getLast?_eq_some_getLast (h.buffered hne), Option.some_or]

lemma Bounded.lt_tip
    (htip : chain.getLast? = some tip) {n : Nat} (hn : ix.committedBlockHeight = some n) :
    n < (block tip).number :=
  h.below n hn tip (mem_of_getLast? (h.getLast? hp htip))

end

end Indexer

namespace Feed
variable {f f₀ f' : Feed} {ev : Event} {out : Option BlockAggregatedChanges} {height : Option Nat}
  {written staged queued : List BlockUpdateWithCursor}

/-- The stream is the extractor's own, and its blocks are numbered one by one. The first block is
the child of the committed one, if there is one. -/
structure InOrder (f : Feed) (ev : Event) : Prop where
  decoded : ∀ msg cursor answers, ev = .tick msg cursor answers →
    msg.extractor = f.indexer.extractor.name ∧ msg.revert = false
  next : ∀ m last, f.chainAfter ev = f.chain ++ [m] → f.chain.getLast? = some last →
    (block m).number = (block last).number + 1
  first : ∀ m h, f.chainAfter ev = f.chain ++ [m] → f.chain = [] →
    f.indexer.committedBlockHeight = some h → (block m).number = h + 1

section
variable (hp : Indexer.Placed pg f.indexer f.chain written staged queued)
  (h : Indexer.Bounded f.indexer f.chain) (hev : f.InOrder ev)
include hp h hev

/-- A new block has a number above the committed height, as those of the buffer have. -/
lemma InOrder.below {m : BlockUpdateWithCursor} (hm : f.chainAfter ev = f.chain ++ [m]) {n : Nat}
    (hn : f.indexer.committedBlockHeight = some n) :
    ∀ c ∈ f.indexer.extractor.reorgBuffer.blockMessages ++ [m], n < (block c).number := by
  intro c hc
  rcases mem_append.mp hc with hc | hc
  · exact h.below n hn c hc
  · rw [mem_singleton.mp hc]
    cases hlast : f.chain.getLast? with
    | none =>
      have hnum := hev.first m n hm (List.getLast?_eq_none_iff.mp hlast) hn
      omega
    | some last =>
      have hnum := hev.next m last hm hlast
      have hlt := h.lt_tip hp hlast hn
      omega

lemma Control.bounded (hc : Control f ev out ix height) : Indexer.Bounded ix (f.chainAfter ev) := by
  have hcommit := hc.stored.1
  cases hc with
  | quiet _ hix hbuffer _ _ hchain =>
    subst hix
    rw [hchain]
    exact ⟨h.contiguous, fun hne => hbuffer ▸ h.buffered hne,
      fun n hn m hm => h.below n hn m (hbuffer ▸ hm), h.near, h.raises⟩
  | full m batch buffer _ _ _ hbatch hix hbuffer _ _ hchain =>
    obtain ⟨-, -, hmsgs, hhead⟩ := Indexer.bufferBlock_ok hbatch
    have hbelow : ∀ n, f.indexer.committedBlockHeight = some n →
        ∀ c ∈ batch ++ buffer.blockMessages, n < (block c).number :=
      fun n hn => hmsgs ▸ hev.below hp h hchain hn
    have hmsgs' : ix.extractor.reorgBuffer.blockMessages = buffer.blockMessages := by
      rcases hix with ⟨-, rfl⟩ | ⟨last, -, -, rfl⟩ <;> exact congrArg _ hbuffer
    rw [hchain]
    refine ⟨h.contiguous.concat fun last hlast => hev.next m last hchain hlast, ?_, ?_, ?_, ?_⟩
    · intro _ hnil
      rw [hmsgs'] at hnil
      cases batch with
      | nil =>
        rw [hnil] at hmsgs
        simp at hmsgs
      | cons =>
        obtain ⟨head, hhead, -⟩ := hhead (cons_ne_nil _ _)
        rw [hnil] at hhead
        cases hhead
    · intro n hn c hmem
      rw [hmsgs'] at hmem
      exact hbelow n (hcommit ▸ hn) c (mem_append_right _ hmem)
    · intro n hn first hfirst
      rw [hcommit] at hn
      cases hne : f.chain with
      | nil =>
        rw [hne] at hfirst
        cases hfirst
        exact (hev.first m n hchain hne hn).le
      | cons =>
        rw [hne] at hfirst
        exact h.near n hn first (by rw [hne]; exact hfirst)
    · intro n blocks height' isSyncing hn hhandle
      rw [hcommit] at hn
      rcases hix with ⟨-, rfl⟩ | ⟨last, hlast, -, rfl⟩
      · exact h.raises n _ _ _ hn hhandle
      · cases hhandle
        exact hbelow n hn last (mem_append_left _ (mem_of_getLast? hlast))
  | undo _ _ _ _ _ _ _ hpurge _ _ hix hbuffer _ _ hchain =>
    subst hix
    obtain ⟨hmsgs, target, hlast, -, -⟩ := purge_ok hpurge
    obtain ⟨hafter, hsplit⟩ := hp.purge hpurge
    have hcontig := h.contiguous
    rw [hsplit] at hcontig
    rw [hchain]
    refine ⟨hcontig.of_append_left, fun _ hnil => ?_, fun n hn m hm => ?_,
      fun n hn first hfirst => ?_, h.raises⟩
    · rw [hbuffer] at hnil
      rw [hnil] at hlast
      cases hlast
    · rw [hbuffer] at hm
      exact h.below n hn m (hmsgs ▸ mem_append_left _ hm)
    · refine h.near n hn first ?_
      rw [hsplit, List.head?_append, hfirst, Option.some_or]

end

/-- The messages that the service gets: updates of full blocks, and reverts. -/
def fed (trace : List (Event × Option BlockAggregatedChanges)) : List BlockAggregatedChanges :=
  (trace.filterMap Prod.snd).filter fun msg => msg.revert || msg.partialBlockIndex.isNone

def lastReported (messages : List BlockAggregatedChanges) : Option Nat :=
  messages.reverse.findSome? BlockAggregatedChanges.dbCommittedBlockHeight

lemma fed_concat (trace : List (Event × Option BlockAggregatedChanges)) :
    fed (trace ++ [(ev, out)]) =
      fed trace ++ out.toList.filter fun msg => msg.revert || msg.partialBlockIndex.isNone := by
  cases out with
  | none => simp [fed]
  | some => simp [fed, filterMap_append, filter_append]

lemma lastReported_concat (messages : List BlockAggregatedChanges)
    (msg : BlockAggregatedChanges) : lastReported (messages ++ [msg]) =
      msg.dbCommittedBlockHeight.or (lastReported messages) := by
  rw [lastReported, reverse_append, List.findSome?_append]
  cases h : msg.dbCommittedBlockHeight <;> simp [h, lastReported]

structure Mirrored (pg : ExtractorPgGateway) (p₀ : PendingDeltas) (name : String)
    (trace : List (Event × Option BlockAggregatedChanges)) (f : Feed) : Prop where
  named : f.indexer.extractor.name = name
  placed : ∃ written staged queued, Indexer.Placed pg f.indexer f.chain written staged queued
  bounded : Indexer.Bounded f.indexer f.chain
  decoded : ∀ p, f.indexer.extractor.partialBlockBuffer = some p →
    p.extractor = name ∧ p.revert = false
  reported : ∀ r, lastReported (fed trace) = some r →
    ∃ h, f.indexer.committedBlockHeight = some h ∧ r ≤ h
  served : ∃ p, (fed trace).foldlM insert p₀ = .ok p ∧
    p.Serves name (lastReported (fed trace)) f.chain

lemma Starts.mirrored {p₀ : PendingDeltas} (h : f.Starts)
    (hp : p₀.buffers.lookup f.indexer.extractor.name = some .new) :
    Mirrored pg p₀ f.indexer.extractor.name [] f := by
  refine ⟨rfl, ⟨[], [], [], h.placed⟩, ⟨?_, ?_, ?_, ?_, ?_⟩, ?_, ?_, p₀, rfl, .new, hp, ?_⟩
  · rw [h.chain]
    exact List.IsChain.nil
  · intro hne
    exact absurd h.chain hne
  · intro n _ m hm
    rw [h.blockMessages] at hm
    cases hm
  · intro n _ first hfirst
    rw [h.chain] at hfirst
    cases hfirst
  · intro n blocks height isSyncing _ hhandle
    cases h.commitHandle.symm.trans hhandle
  · intro p hparts
    cases h.partialBlockBuffer.symm.trans hparts
  · rintro r ⟨⟩
  · rw [h.chain]
    rfl

/-- The name of the extractor does not change, and the parts of a block are its own. -/
lemma Control.decoded (hc : Control f ev out ix height) (hname : f.indexer.extractor.name = name)
    (hev : f.InOrder ev) (h : ∀ p, f.indexer.extractor.partialBlockBuffer = some p →
      p.extractor = name ∧ p.revert = false) :
    ix.extractor.name = name ∧ ∀ p, ix.extractor.partialBlockBuffer = some p →
      p.extractor = name ∧ p.revert = false := by
  cases hc with
  | quiet _ hix _ hname' hparts =>
    subst hix
    refine ⟨hname'.trans hname, fun p hp => ?_⟩
    rcases hparts p hp with hold | ⟨msg, cursor, answers, hev', hextractor, hrev⟩
    · exact h p hold
    · obtain ⟨hmsg, hmsg'⟩ := hev.decoded msg cursor answers hev'
      exact ⟨hextractor.trans (hmsg.trans hname), hrev.trans hmsg'⟩
  | full _ _ _ e _ _ _ hix _ hname' hparts =>
    have he : ix.extractor = e := by
      rcases hix with ⟨-, rfl⟩ | ⟨last, -, -, rfl⟩ <;> rfl
    rw [he]
    exact ⟨hname'.trans hname, fun p hp => h p (hparts p hp)⟩
  | undo _ _ _ _ _ _ _ _ _ _ hix _ hname' hparts =>
    subst hix
    refine ⟨hname'.trans hname, fun p hp => ?_⟩
    cases hparts.symm.trans hp

/-- The service accepts what an event emits, and follows the chain. `height` is the committed
height when a message is emitted. -/
lemma Control.serves {p : PendingDeltas} {messages : List BlockAggregatedChanges}
    (hc : Control f ev out ix height)
    (hp : Indexer.Placed pg f.indexer f.chain written staged queued)
    (h : Indexer.Bounded f.indexer f.chain) (hname : f.indexer.extractor.name = name)
    (hev : f.InOrder ev) (hdecoded : ∀ p, f.indexer.extractor.partialBlockBuffer = some p →
      p.extractor = name ∧ p.revert = false)
    (hreport : Raised (lastReported messages) f.indexer.committedBlockHeight)
    (hraised : Raised f.indexer.committedBlockHeight height)
    (hnear : ∀ n first, height = some n → (f.chainAfter ev).head? = some first →
      (block first).number ≤ n + 1)
    (hbelow : ∀ n tip, height = some n → (f.chainAfter ev).getLast? = some tip →
      n < (block tip).number) (hserves : p.Serves name (lastReported messages) f.chain) :
    ∃ p' fresh, out.toList.filter (fun msg => msg.revert || msg.partialBlockIndex.isNone) = fresh ∧
      fresh.foldlM insert p = .ok p' ∧
      p'.Serves name (lastReported (messages ++ fresh)) (f.chainAfter ev) ∧
      Raised (lastReported (messages ++ fresh)) height := by
  have hreport' := hreport.trans hraised
  have hsingle : ∀ {msg : BlockAggregatedChanges} {p'}, p.insert msg = .ok p' →
      [msg].foldlM insert p = .ok p' := by
    intro msg p' hinsert
    rw [foldlM_cons, hinsert]
    rfl
  cases hc with
  | quiet _ _ _ _ _ hchain hout =>
    refine ⟨p, [], ?_, rfl, ?_, ?_⟩
    · cases out with
      | none => rfl
      | some msg =>
        obtain ⟨hpart, -, b, cursor, answers, hev', hrev⟩ := hout msg rfl
        have hfalse : msg.revert = false := hrev.trans (hev.decoded b cursor answers hev').2
        have hsome : msg.partialBlockIndex.isNone = false := by
          rw [← Option.not_isSome, hpart]
          rfl
        rw [Option.toList_some, filter_singleton, hfalse, hsome]
        rfl
    · rw [append_nil, hchain]
      exact hserves
    · rw [append_nil]
      exact hreport'
  | full m _ _ _ _ hsource hbatch _ _ _ _ hchain hchanges hout =>
    obtain ⟨-, hlink, -, -⟩ := Indexer.bufferBlock_ok hbatch
    obtain ⟨-, merged, -, rfl⟩ := BlockChanges.intoAggregated_ok hchanges
    have hm : m.blockUpdate.extractor = name ∧ m.blockUpdate.revert = false := by
      rcases hsource with ⟨answers, hev'⟩ | hparts'
      · rw [← hname]
        exact hev.decoded _ _ _ hev'
      · exact hdecoded _ hparts'
    rw [hchain] at hnear hbelow ⊢
    have hcontig := h.contiguous.concat fun last hlast => hev.next m last hchain hlast
    obtain ⟨p', hinsert, hserves'⟩ : ∃ p', p.insert
        { m.blockUpdate.aggregatedMessage height merged with partialBlockIndex := none } = .ok p' ∧
        p'.Serves name height (f.chain ++ [m]) := by
      refine hserves.insert_block hm.1 hm.2 rfl rfl hcontig
        (fun tip htip => hlink tip (h.getLast? hp htip)) (fun r tip hr htip => ?_) hreport' hnear
        fun n hn => hbelow n m hn List.getLast?_concat
      obtain ⟨n, hn, hle⟩ := hreport r hr
      exact lt_of_le_of_lt hle (h.lt_tip hp htip hn)
    have hlast : height.or (lastReported messages) = height := by
      cases hr : lastReported messages with
      | none => exact Option.or_none
      | some r =>
        obtain ⟨n, hn, -⟩ := hreport' r hr
        rw [hn]
        rfl
    refine ⟨p', _, ?_, hsingle hinsert, ?_, ?_⟩
    · simp [hout]
    · rw [lastReported_concat]
      exact hlast.symm ▸ hserves'
    · intro r hr
      rw [lastReported_concat] at hr
      exact ⟨r, hlast ▸ hr, le_rfl⟩
  | undo _ hash _ _ _ msg _ hpurge hmsg hindex _ _ _ _ hchain hout =>
    obtain ⟨parts, -, hindex'⟩ := Revert.message_ok hmsg
    obtain ⟨hmsgs, target, hlast, htarget, hpurged⟩ := purge_ok hpurge
    obtain ⟨hafter, hsplit⟩ := hp.purge hpurge
    have hblock : msg.block = block target := by
      have hrecent := parts.block
      rw [getMostRecentBlock, hlast] at hrecent
      exact (Option.some.inj hrecent).symm
    have hkept : (upTo hash f.chain).getLast? = some target := by
      rw [hafter, List.getLast?_append, hlast]
      rfl
    have hmem : target ∈ f.indexer.extractor.reorgBuffer.blockMessages :=
      hmsgs ▸ mem_append_left _ (mem_of_getLast? hlast)
    rw [hsplit] at hserves
    have habove : ∀ r, lastReported messages = some r → r < (block target).number := by
      intro r hr
      obtain ⟨n, hn, hle⟩ := hreport r hr
      exact lt_of_le_of_lt hle (h.below n hn target hmem)
    obtain ⟨p', hinsert, hserves'⟩ := hserves.insert_revert (parts.extractor.trans hname)
      parts.revert (fun hne => hindex'.trans (hindex hne)) hkept hblock
      (fun m hm => htarget.symm ▸ hpurged m hm) habove
    have hnone : lastReported (messages ++ [msg]) = lastReported messages := by
      rw [lastReported_concat, parts.dbCommittedBlockHeight, Option.none_or]
    refine ⟨p', [msg], ?_, hsingle hinsert, ?_, ?_⟩
    · rw [hout, Option.toList_some, filter_singleton, parts.revert]
      rfl
    · rw [hnone, hchain]
      exact hserves'
    · rw [hnone]
      exact hreport'

lemma Mirrored.step {p₀ : PendingDeltas} {trace : List (Event × Option BlockAggregatedChanges)}
    (h : Mirrored pg p₀ name trace f) (hev : f.InOrder ev) (hstep : f.step pg ev = some (out, f')) :
    Mirrored pg p₀ name (trace ++ [(ev, out)]) f' := by
  obtain ⟨written, staged, queued, hplaced⟩ := h.placed
  obtain ⟨ix, answers, hindex, -, hchain, -, hcontrol⟩ := step_control hstep
  obtain ⟨queued', hplaced'⟩ := hplaced.control hcontrol
  have hbounded := hcontrol.bounded hplaced h.bounded hev
  obtain ⟨hbounded', ⟨written', staged', queued'', hplaced''⟩, hraised⟩ :=
    hbounded.commitSteps hplaced' answers
  obtain ⟨hname, hdecoded⟩ := hcontrol.decoded h.named hev h.decoded
  rw [← hindex, ← hchain] at hbounded' hplaced''
  rw [← hindex, hcontrol.stored.1] at hraised
  obtain ⟨p, hfed, hserves⟩ := h.served
  obtain ⟨p', fresh, hfresh, hfed', hserves', hreport⟩ := hcontrol.serves hplaced h.bounded
    h.named hev h.decoded h.reported hraised
    (fun n first hn hfirst => hbounded'.near n hn first (hchain ▸ hfirst))
    (fun n tip hn htip => hbounded'.lt_tip hplaced'' (hchain ▸ htip) hn) hserves
  have hmsgs : fed (trace ++ [(ev, out)]) = fed trace ++ fresh := by
    rw [fed_concat, hfresh]
  have hextractor : f'.indexer.extractor = ix.extractor := by
    rw [hindex, Indexer.commitSteps_extractor]
  refine ⟨?_, ⟨_, _, _, hplaced''⟩, hbounded', ?_, ?_, p', ?_, ?_⟩
  · rw [hextractor]
    exact hname
  · rw [hextractor]
    exact hdecoded
  · rw [hmsgs]
    exact hreport
  · rw [hmsgs, foldlM_append, hfed]
    exact hfed'
  · rw [hmsgs, hchain]
    exact hserves'

/-- The service accepts every message of a run, and then holds the blocks of the chain above the
height that was last reported. Commits may finish at any time and undo signals may come at any
time. -/
theorem serves_of_run {p₀ : PendingDeltas}
    {trace : List (Event × Option BlockAggregatedChanges)} (hstart : f₀.Starts)
    (hp : p₀.buffers.lookup f₀.indexer.extractor.name = some .new)
    (hrun : Run (step pg) InOrder f₀ trace f) :
    ∃ p, (fed trace).foldlM insert p₀ = .ok p ∧
      p.Serves f₀.indexer.extractor.name (lastReported (fed trace)) f.chain := by
  have hmirrored : Mirrored pg p₀ f₀.indexer.extractor.name trace f :=
    hrun.invariant (hstart.mirrored hp) fun _ _ _ _ _ h hev hstep => h.step hev hstep
  exact hmirrored.served

section

lemma inOrder_tick {msg : BlockChanges} {cursor : String} {answers : List Answer}
    (hfull : msg.partialBlockIndex = none) (hname : msg.extractor = f.indexer.extractor.name)
    (hrev : msg.revert = false)
    (hnext : ∀ last, f.chain.getLast? = some last → msg.block.number = (block last).number + 1)
    (hfirst : f.chain = [] → ∀ h, f.indexer.committedBlockHeight = some h →
      msg.block.number = h + 1) :
    f.InOrder (.tick msg cursor answers) := by
  have hchain : ∀ m, f.chainAfter (.tick msg cursor answers) = f.chain ++ [m] →
      m = ⟨msg, cursor⟩ := by
    intro m hm
    rw [chainAfter, hfull] at hm
    exact (singleton_inj.mp (append_cancel_left hm)).symm
  constructor
  · rintro msg' cursor' answers' ⟨⟩
    exact ⟨hname, hrev⟩
  · intro m last hm hlast
    rw [hchain m hm]
    exact hnext last hlast
  · intro m h hm hnil hh
    rw [hchain m hm]
    exact hfirst hnil h hh

lemma chainAfter_undo_ne (f : Feed) (signal : BlockUndoSignal)
    (plugin : Except ExtractionError Unit)
    (contracts states componentBalances accountBalances : List Answer)
    (m : BlockUpdateWithCursor) :
    f.chainAfter (.undo signal plugin contracts states componentBalances accountBalances) ≠
      f.chain ++ [m] := by
  intro hm
  have hprefix : f.chainAfter (.undo signal plugin contracts states componentBalances
      accountBalances) <+: f.chain := by
    unfold chainAfter
    dsimp only
    split_ifs
    · cases signal.target with
      | none => exact prefix_rfl
      | some hash => exact upTo_prefix hash f.chain
    · exact prefix_rfl
  have hlen := hprefix.length_le
  rw [hm, length_append, length_singleton] at hlen
  omega

lemma inOrder_undo {signal : BlockUndoSignal} {plugin : Except ExtractionError Unit}
    {contracts states componentBalances accountBalances : List Answer} :
    f.InOrder (.undo signal plugin contracts states componentBalances accountBalances) := by
  have haddress := chainAfter_undo_ne f signal plugin contracts states componentBalances
    accountBalances
  refine ⟨?_, fun m last hm => absurd hm (haddress m), fun m h hm => absurd hm (haddress m)⟩
  rintro msg cursor answers ⟨⟩

/-- Block 3 hands block 1 to the task, which finishes at once, and is then undone. -/
def reorganised : List Event :=
  [.tick (streamed 1 0 []) "" [], .tick (streamed 2 0 []) "" [],
    .tick (streamed 3 2 []) "" [.ok (), .ok ()],
    .undo ⟨some ⟨"0x02", 2⟩, ""⟩ (.ok ()) [] [] [] []]

theorem serves_of_run_reorganised : ∃ trace f p,
    Run (step (poolsGateway 50000)) InOrder freshFeed trace f ∧
    trace.map Prod.fst = reorganised ∧
    (fed trace).foldlM insert ⟨HashMap.ofList [("pools", .new)]⟩ = .ok p ∧
    p.Serves "pools" (some 1) f.chain := by
  have hstart : freshFeed.Starts := ⟨rfl, rfl, rfl, rfl, rfl, rfl⟩
  obtain ⟨trace, f, hrun, htrace, hreport⟩ : ∃ trace f,
      Run (step (poolsGateway 50000)) InOrder freshFeed trace f ∧
      trace.map Prod.fst = reorganised ∧ lastReported (fed trace) = some 1 := by
    refine ⟨_, _, .next (.next (.next (.next .start (inOrder_tick rfl rfl rfl ?_ ?_) rfl)
      (inOrder_tick rfl rfl rfl ?_ ?_) rfl) (inOrder_tick rfl rfl rfl ?_ ?_) rfl)
      inOrder_undo rfl, rfl, rfl⟩
    · rintro last ⟨⟩
    · rintro - h ⟨⟩
    · rintro last ⟨⟩
      decide
    · rintro ⟨⟩
    · rintro last ⟨⟩
      decide
    · rintro ⟨⟩
  have hserves : (HashMap.ofList [("pools", (.new : ReorgBuffer BlockAggregatedChanges))]).lookup
      freshFeed.indexer.extractor.name = some .new := rfl
  obtain ⟨p, hfed, hserves⟩ := @serves_of_run (poolsGateway 50000) f freshFeed
    ⟨HashMap.ofList [("pools", .new)]⟩ trace hstart hserves hrun
  exact ⟨trace, f, p, hrun, htrace, hfed, hreport ▸ hserves⟩

end
end Feed
end Tycho
