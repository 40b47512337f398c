import Tycho.Indexer.Feed

/-! Where the blocks of the chain are while the commit task works, and what the reported height
says about them. -/
namespace Tycho
open Replay List ExtractorPgGateway
variable {pg : ExtractorPgGateway} {ix : Indexer}

namespace Indexer
variable {chain written staged queued : List BlockUpdateWithCursor}

/-- The blocks of the chain are in submitted transactions, then in the open one, then with the
commit task, and then in the buffer. A task that fails loses what it had not written. -/
structure Placed (pg : ExtractorPgGateway) (ix : Indexer)
    (chain written staged queued : List BlockUpdateWithCursor) : Prop where
  chain_eq : chain = written ++ staged ++ queued ++ ix.extractor.reorgBuffer.blockMessages
  holds : CachedGateway.Holds pg.operations ix.stateGateway written staged
  idle : ix.commitHandle = none ∨ ix.commitHandle = some (.finished (.ok ())) → queued = []
  running : ∀ blocks height isSyncing,
    ix.commitHandle = some (.running blocks height isSyncing) → queued = blocks ∧
      ∃ last, (written ++ staged ++ queued).getLast? = some last ∧ (block last).number = height

/-- What the commit task does in a step, with the places of the blocks before and after it. -/
inductive CommitMove (pg : ExtractorPgGateway) (ix : Indexer)
    (written staged queued : List BlockUpdateWithCursor) : Indexer →
    List BlockUpdateWithCursor → List BlockUpdateWithCursor → List BlockUpdateWithCursor → Prop
  | none : CommitMove pg ix written staged queued ix written staged queued
  | report (height : Nat) (isSyncing : Bool)
      (hhandle : ix.commitHandle = some (.running [] height isSyncing)) :
      CommitMove pg ix written staged queued { ix with
        committedBlockHeight := some height
        commitHandle := some (.finished (.ok ())) } written staged queued
  | stage (m : BlockUpdateWithCursor) (rest : List BlockUpdateWithCursor) (height : Nat)
      (isSyncing : Bool) (g : CachedGateway)
      (hhandle : ix.commitHandle = some (.running (m :: rest) height isSyncing))
      (hsubmits : ¬ pg.Submits ix.stateGateway m (!isSyncing && rest.isEmpty)) :
      CommitMove pg ix written staged queued { ix with
        stateGateway := g
        commitHandle := some (.running rest height isSyncing) } written (staged ++ [m]) rest
  | submit (m : BlockUpdateWithCursor) (rest : List BlockUpdateWithCursor) (height : Nat)
      (isSyncing : Bool) (g : CachedGateway)
      (hhandle : ix.commitHandle = some (.running (m :: rest) height isSyncing)) :
      CommitMove pg ix written staged queued { ix with
        stateGateway := g
        commitHandle := some (.running rest height isSyncing) } (written ++ staged ++ [m]) [] rest
  | fail (m : BlockUpdateWithCursor) (rest : List BlockUpdateWithCursor) (height : Nat)
      (isSyncing : Bool) (g : CachedGateway) (e : ExtractionError)
      (hhandle : ix.commitHandle = some (.running (m :: rest) height isSyncing)) :
      CommitMove pg ix written staged queued { ix with
        stateGateway := g
        commitHandle := some (.finished (.error e)) } written [] (staged ++ queued)

section
variable (h : Placed pg ix chain written staged queued)
include h

/-- The next block of the task moves, and the rest stays with it. -/
lemma Placed.advance {m : BlockUpdateWithCursor} {rest : List BlockUpdateWithCursor}
    {height : Nat} {isSyncing : Bool}
    (hhandle : ix.commitHandle = some (.running (m :: rest) height isSyncing))
    {g : CachedGateway} {written' staged' : List BlockUpdateWithCursor}
    (hmoved : written' ++ staged' = written ++ staged ++ [m])
    (hholds : CachedGateway.Holds pg.operations g written' staged') :
    Placed pg { ix with
      stateGateway := g
      commitHandle := some (.running rest height isSyncing) } chain written' staged' rest := by
  obtain ⟨rfl, last, hlast, hnum⟩ := h.running _ _ _ hhandle
  refine ⟨?_, hholds, ?_, ?_⟩
  · rw [h.chain_eq, hmoved]
    simp
  · rintro (h | h) <;> cases h
  · rintro blocks height' isSyncing' ⟨⟩
    refine ⟨rfl, last, ?_, hnum⟩
    rw [hmoved, ← hlast]
    simp

lemma commitStep_move (answer : Answer) : ∃ written' staged' queued',
      CommitMove pg ix written staged queued (ix.commitStep pg answer) written' staged' queued' ∧
        Placed pg (ix.commitStep pg answer) chain written' staged' queued' := by
  unfold commitStep
  split
  · rename_i m rest height isSyncing hhandle
    by_cases hsubmits : pg.Submits ix.stateGateway m (!isSyncing && rest.isEmpty)
    · cases answer with
      | ok =>
        rw [advance_ok hsubmits]
        exact ⟨_, _, _, .submit m rest height isSyncing _ hhandle, h.advance hhandle (append_nil _)
          (h.holds.submit m.blockUpdate.block orderKey_ne_of_mem)⟩
      | error =>
        rw [advance_error hsubmits]
        refine ⟨_, _, _, .fail m rest height isSyncing _ _ hhandle, ?_, h.holds.discard, ?_, ?_⟩
        · rw [h.chain_eq]
          simp
        · rintro (h | h) <;> cases h
        · rintro blocks height' isSyncing' ⟨⟩
    · rw [advance_of_not_submits hsubmits]
      exact ⟨_, _, _, .stage m rest height isSyncing _ hhandle hsubmits, h.advance hhandle
        (append_assoc _ _ _).symm
        (h.holds.stage m.blockUpdate.block orderKey_ne_of_mem)⟩
  · rename_i height isSyncing hhandle
    refine ⟨_, _, _, .report height isSyncing hhandle, h.chain_eq, h.holds, ?_, ?_⟩
    · exact fun _ => (h.running _ _ _ hhandle).1
    · rintro blocks height' isSyncing' ⟨⟩
  · exact ⟨_, _, _, .none, h⟩

lemma Placed.commitSteps (answers : List Answer) : ∃ written' staged' queued',
      Placed pg (ix.commitSteps pg answers) chain written' staged' queued' := by
  induction answers generalizing ix written staged queued with
  | nil => exact ⟨written, staged, queued, h⟩
  | cons answer _ ih =>
    obtain ⟨written', staged', queued', -, h'⟩ := commitStep_move h answer
    exact ih h'

lemma Placed.purge {hash : BlockHash} {purged : List BlockUpdateWithCursor}
    {buffer : ReorgBuffer BlockUpdateWithCursor}
    (hpurge : ix.extractor.reorgBuffer.purge hash = .ok (purged, buffer)) :
    upTo hash chain = written ++ staged ++ queued ++ buffer.blockMessages ∧
      chain = upTo hash chain ++ purged := by
  obtain ⟨hmsgs, target, hlast, htarget, hpurged⟩ := ReorgBuffer.purge_ok hpurge
  have hsplit : chain = written ++ staged ++ queued ++ buffer.blockMessages ++ purged := by
    rw [h.chain_eq, hmsgs, ← append_assoc]
  have hupTo : upTo hash chain = written ++ staged ++ queued ++ buffer.blockMessages := by
    rw [hsplit]
    refine upTo_of_split ?_ htarget hpurged
    rw [List.getLast?_append, hlast]
    rfl
  exact ⟨hupTo, hupTo ▸ hsplit⟩

end

/-- The block loop puts a new block at the end, takes a batch off the buffer for an idle task, and
an undo takes blocks off the end of the buffer. -/
lemma Placed.control {f : Feed} {ev : Event} {out : Option BlockAggregatedChanges}
    {height : Option Nat} (h : Placed pg f.indexer f.chain written staged queued)
    (hc : Feed.Control f ev out ix height) :
    ∃ queued', Placed pg ix (f.chainAfter ev) written staged queued' := by
  cases hc with
  | quiet _ hix hbuffer _ _ hchain =>
    subst hix
    refine ⟨queued, ?_, h.holds, h.idle, h.running⟩
    rw [hchain, h.chain_eq, hbuffer]
  | full _ batch buffer _ _ _ hbatch hix hbuffer _ _ hchain =>
    obtain ⟨-, -, hmsgs, -⟩ := bufferBlock_ok hbatch
    have hafter : f.chainAfter ev =
        written ++ staged ++ queued ++ (batch ++ buffer.blockMessages) := by
      rw [hchain, h.chain_eq, append_assoc, hmsgs]
    rcases hix with ⟨rfl, rfl⟩ | ⟨last, hlast, hidle, rfl⟩
    · refine ⟨queued, ?_, h.holds, h.idle, h.running⟩
      rw [hafter, hbuffer, nil_append]
    · have hqueued : queued = [] := h.idle hidle
      subst hqueued
      refine ⟨batch, ?_, h.holds, ?_, ?_⟩
      · rw [hafter, hbuffer, append_nil, append_assoc _ batch]
      · rintro (h | h) <;> cases h
      · rintro blocks height' isSyncing' ⟨⟩
        refine ⟨rfl, last, ?_, rfl⟩
        rw [List.getLast?_append, hlast]
        rfl
  | undo _ _ _ _ _ _ _ hpurge _ _ hix hbuffer _ _ hchain =>
    subst hix
    refine ⟨queued, ?_, h.holds, h.idle, h.running⟩
    rw [hchain, hbuffer]
    exact (h.purge hpurge).1

/-- What the committed height promises about the blocks of the chain. The last block of a batch
leaves nothing staged. -/
structure Honest (pg : ExtractorPgGateway) (ix : Indexer)
    (chain written staged queued : List BlockUpdateWithCursor) : Prop where
  placed : Placed pg ix chain written staged queued
  covers : ∀ h, ix.committedBlockHeight = some h → ∀ m ∈ chain, (block m).number ≤ h → m ∈ written
  emptied : ∀ height isSyncing,
    ix.commitHandle = some (.running [] height isSyncing) → staged = []

/-- The task submits the open transaction when it stages the last block of its batch. -/
def SubmitsBatch (pg : ExtractorPgGateway) (g : CachedGateway) (handle : Option CommitTask) :
    Prop :=
  ∀ m height isSyncing, handle = some (.running [m] height isSyncing) →
    pg.Submits g m (!isSyncing)

section
variable (h : Honest pg ix chain written staged queued)
  (hchain : chain.Pairwise fun m n => (block m).number < (block n).number)
include h hchain

lemma Honest.commitStep
    (hsubmits : SubmitsBatch pg ix.stateGateway ix.commitHandle) (answer : Answer) :
    ∃ written' staged' queued',
      Honest pg (ix.commitStep pg answer) chain written' staged' queued' := by
  obtain ⟨written', staged', queued', hmoved, hplaced⟩ := commitStep_move h.placed answer
  have hcovers := h.covers
  generalize ix.commitStep pg answer = ix' at hmoved hplaced ⊢
  cases hmoved with
  | none => exact ⟨_, _, _, h⟩
  | report height _ hhandle =>
    refine ⟨_, _, _, hplaced, ?_, by rintro height' isSyncing' ⟨⟩⟩
    rintro height' ⟨⟩ m hm hle
    obtain ⟨rfl, last, hlast, rfl⟩ := h.placed.running _ _ _ hhandle
    have hstaged := h.emptied _ _ hhandle
    subst hstaged
    simp only [append_nil] at hlast
    have hchain_eq : chain = written ++ ix.extractor.reorgBuffer.blockMessages := by
      rw [h.placed.chain_eq, append_nil, append_nil]
    rw [hchain_eq] at hm hchain
    rcases mem_append.mp hm with hm | hm
    · exact hm
    · -- a block of the buffer comes after the last block of the batch
      have hlt := (pairwise_append.mp hchain).2.2 last (mem_of_getLast? hlast) m hm
      omega
  | stage m _ height isSyncing _ hhandle hnot =>
    refine ⟨_, _, _, hplaced, hcovers, ?_⟩
    rintro height' isSyncing' ⟨⟩
    exact absurd (by simpa using hsubmits m height isSyncing hhandle) hnot
  | submit =>
    refine ⟨_, _, _, hplaced, fun h₀ hcommit n hn hle => ?_, fun _ _ _ => rfl⟩
    have hwritten := hcovers h₀ hcommit n hn hle
    exact mem_append_left _ (mem_append_left _ hwritten)
  | fail =>
    exact ⟨_, _, _, hplaced, hcovers, by rintro height' isSyncing' ⟨⟩⟩

lemma Honest.commitSteps (answers : List Answer)
    (hsubmits : ∀ p ∈ ix.pointsOf pg answers, SubmitsBatch pg p.1 p.2) :
    ∃ written' staged' queued',
      Honest pg (ix.commitSteps pg answers) chain written' staged' queued' := by
  induction answers generalizing ix written staged queued with
  | nil => exact ⟨written, staged, queued, h⟩
  | cons answer _ ih =>
    obtain ⟨hfirst, hrest⟩ := forall_mem_cons.mp hsubmits
    obtain ⟨written', staged', queued', h'⟩ := h.commitStep hchain hfirst answer
    exact ih h' hrest

end

end Indexer

namespace Feed
variable {f f₀ : Feed} {ev : Event} {out : Option BlockAggregatedChanges} {height : Option Nat}
  {written staged queued : List BlockUpdateWithCursor}

/-- An extractor that was just built, fresh or from a committed block. -/
structure Starts (f : Feed) : Prop where
  chain : f.chain = []
  blockMessages : f.indexer.extractor.reorgBuffer.blockMessages = []
  partialBlockBuffer : f.indexer.extractor.partialBlockBuffer = none
  openTx : f.indexer.stateGateway.openTx = none
  submitted : f.indexer.stateGateway.submitted = []
  commitHandle : f.indexer.commitHandle = none

lemma Starts.placed (h : f.Starts) : Indexer.Placed pg f.indexer f.chain [] [] [] := by
  refine ⟨?_, ⟨?_, ?_, fun _ => rfl, ?_⟩, fun _ => rfl, ?_⟩
  · rw [h.chain, h.blockMessages]
    rfl
  · intro tx htx
    cases h.openTx.symm.trans htx
  · intro R p tx htx
    cases h.openTx.symm.trans htx
  · intro R p
    rw [h.submitted]
    rfl
  · intro blocks height isSyncing hhandle
    cases h.commitHandle.symm.trans hhandle

section
variable (h : Control f ev out ix height)
include h

/-- The block loop leaves the task as it is, or starts one on a batch that is not empty. -/
lemma Control.commitHandle : ix.commitHandle = f.indexer.commitHandle ∨ ∃ m rest height isSyncing,
      ix.commitHandle = some (.running (m :: rest) height isSyncing) := by
  cases h with
  | quiet _ hix => exact .inl (hix ▸ rfl)
  | full _ batch _ _ _ _ _ hix =>
    rcases hix with ⟨-, rfl⟩ | ⟨last, hlast, -, rfl⟩
    · exact .inl rfl
    · cases batch with
      | nil => cases hlast
      | cons first rest => exact .inr ⟨first, rest, _, _, rfl⟩
  | undo _ _ _ _ _ _ _ _ _ _ hix =>
    exact .inl (hix ▸ rfl)

lemma Control.stored : ix.committedBlockHeight = f.indexer.committedBlockHeight ∧
    ix.stateGateway = f.indexer.stateGateway := by
  cases h with
  | quiet _ hix => exact hix ▸ ⟨rfl, rfl⟩
  | full _ _ _ _ _ _ _ hix =>
    rcases hix with ⟨-, rfl⟩ | ⟨last, -, -, rfl⟩ <;> exact ⟨rfl, rfl⟩
  | undo _ _ _ _ _ _ _ _ _ _ hix => exact hix ▸ ⟨rfl, rfl⟩

lemma Control.chainAfter : f.chainAfter ev <+: f.chain ∨ ∃ m, f.chainAfter ev = f.chain ++ [m] := by
  cases h with
  | quiet _ _ _ _ _ hchain => exact .inl (hchain ▸ prefix_rfl)
  | full m _ _ _ _ _ _ _ _ _ _ hchain =>
    exact .inr ⟨m, hchain⟩
  | undo _ hash _ _ _ _ _ _ _ _ _ _ _ _ hchain =>
    exact .inl (hchain ▸ upTo_prefix hash f.chain)

/-- The height of a message is the committed height when it is emitted. A revert has none. -/
lemma Control.dbCommittedBlockHeight {msg : BlockAggregatedChanges} {n : Nat}
    (hout : out = some msg)
    (hn : msg.dbCommittedBlockHeight = some n) : height = some n := by
  cases h with
  | quiet _ _ _ _ _ _ hquiet => exact (hquiet msg hout).2.1.symm.trans hn
  | full _ _ _ _ _ _ _ _ _ _ _ _ hchanges hblock =>
    cases hblock.symm.trans hout
    obtain ⟨-, merged, -, rfl⟩ := BlockChanges.intoAggregated_ok hchanges
    exact hn
  | undo _ _ _ _ _ _ _ _ hmsg _ _ _ _ _ _ hundo =>
    cases hundo.symm.trans hout
    obtain ⟨parts, -, -⟩ := Revert.message_ok hmsg
    cases parts.dbCommittedBlockHeight.symm.trans hn

end

/-- A new block has a number above those of the chain and above the committed height. -/
def Ascends (f : Feed) (ev : Event) : Prop :=
  ∀ m, f.chainAfter ev = f.chain ++ [m] → (∀ c ∈ f.chain, (block c).number < (block m).number) ∧
      ∀ h, f.indexer.committedBlockHeight = some h → h < (block m).number

/-- Whenever the task stages the last block of a batch, it submits the open transaction. -/
def SubmitsBatches (pg : ExtractorPgGateway) (f : Feed) (ev : Event) : Prop :=
  ∀ p ∈ f.indexer.commitPoints pg ev, Indexer.SubmitsBatch pg p.1 p.2

/-- The blocks up to the height that a message reports are in submitted transactions. -/
def ReportsHonestly (f : Feed) (msg : BlockAggregatedChanges) : Prop :=
  ∀ h, msg.dbCommittedBlockHeight = some h → ∀ m ∈ f.chain, (block m).number ≤ h →
    f.indexer.stateGateway.Submitted (block m)

def Ascending (f : Feed) : Prop :=
  f.chain.Pairwise fun m n => (block m).number < (block n).number

lemma Control.ascending (h : Control f ev out ix height) (hf : f.Ascending) (hev : f.Ascends ev) :
    (f.chainAfter ev).Pairwise fun m n => (block m).number < (block n).number := by
  rcases h.chainAfter with hsub | ⟨m, hm⟩
  · exact hf.sublist hsub.sublist
  · rw [hm, pairwise_append]
    refine ⟨hf, pairwise_singleton _ _, fun c hc n hn => ?_⟩
    rw [mem_singleton.mp hn]
    exact (hev m hm).1 c hc

lemma Control.honest (hc : Control f ev out ix height)
    (h : Indexer.Honest pg f.indexer f.chain written staged queued) (hev : f.Ascends ev) :
    ∃ queued', Indexer.Honest pg ix (f.chainAfter ev) written staged queued' := by
  obtain ⟨queued', hplaced⟩ := h.placed.control hc
  refine ⟨queued', hplaced, fun n hn m hm hle => ?_, fun height' isSyncing hhandle => ?_⟩
  · rw [hc.stored.1] at hn
    rcases hc.chainAfter with hsub | ⟨new, hnew⟩
    · exact h.covers n hn m (hsub.subset hm) hle
    · rw [hnew] at hm
      rcases mem_append.mp hm with hm | hm
      · exact h.covers n hn m hm hle
      · have hlt := (hev new hnew).2 n hn
        rw [mem_singleton.mp hm] at hle
        omega
  · rcases hc.commitHandle with hsame | ⟨m, rest, height'', isSyncing', hnew⟩
    · exact h.emptied height' isSyncing (hsame.symm.trans hhandle)
    · cases hnew.symm.trans hhandle

/-- What a run has established: the blocks up to the committed height are written, and the last
message reported this height. -/
structure Accounted (pg : ExtractorPgGateway)
    (trace : List (Event × Option BlockAggregatedChanges)) (f : Feed) : Prop where
  ascending : f.Ascending
  honest : ∃ written staged queued, Indexer.Honest pg f.indexer f.chain written staged queued
  reported : ∀ ev msg, trace.getLast? = some (ev, some msg) → ∀ n,
    msg.dbCommittedBlockHeight = some n → f.indexer.committedBlockHeight = some n

lemma Starts.accounted (h : f.Starts) : Accounted pg [] f := by
  refine ⟨?_, ⟨[], [], [], h.placed, ?_, fun _ _ _ => rfl⟩, by rintro ev msg ⟨⟩⟩
  · rw [Ascending, h.chain]
    exact List.Pairwise.nil
  · intro n hn m hm
    rw [h.chain] at hm
    cases hm

lemma Accounted.step {trace : List (Event × Option BlockAggregatedChanges)} {f' : Feed}
    (h : Accounted pg trace f) (hascends : f.Ascends ev) (hsubmits : f.SubmitsBatches pg ev)
    (hstep : f.step pg ev = some (out, f')) : Accounted pg (trace ++ [(ev, out)]) f' := by
  obtain ⟨written, staged, queued, hhonest⟩ := h.honest
  obtain ⟨ix, answers, hindex, hpoints, hchain, -, hcontrol⟩ := step_control hstep
  have hascending := hcontrol.ascending h.ascending hascends
  obtain ⟨queued', hhonest'⟩ := hcontrol.honest hhonest hascends
  constructor
  · rw [Ascending, hchain]
    exact hascending
  · rw [hchain, hindex]
    exact hhonest'.commitSteps hascending answers (hpoints ▸ hsubmits)
  · intro ev' msg hlast n hn
    rw [List.getLast?_concat] at hlast
    cases hlast
    exact hcontrol.dbCommittedBlockHeight rfl hn

/-- In a run where every batch is submitted, the height that a message reports is honest. -/
theorem reportsHonestly_of_submitsBatches {trace : List (Event × Option BlockAggregatedChanges)}
    {msg : BlockAggregatedChanges} (hstart : f₀.Starts)
    (hrun : Run (step pg) (fun f ev => f.Ascends ev ∧ f.SubmitsBatches pg ev) f₀ trace f)
    (hlast : trace.getLast? = some (ev, some msg)) : f.ReportsHonestly msg := by
  have haccount : Accounted pg trace f :=
    hrun.invariant hstart.accounted fun _ _ _ _ _ h hguard hstep => h.step hguard.1 hguard.2 hstep
  obtain ⟨written, staged, queued, hhonest⟩ := haccount.honest
  intro n hn m hm hle
  have hwritten := hhonest.covers n (haccount.reported ev msg hlast n hn) m hm hle
  refine hhonest.placed.holds.submitted_iff.mpr ⟨m, hwritten, ?_⟩
  rw [blockRows_operations]
  exact mem_singleton_self _

section

lemma ascends_tick {msg : BlockChanges} {cursor : String} {answers : List Answer}
    (hfull : msg.partialBlockIndex = none)
    (hchain : ∀ c ∈ f.chain, (block c).number < msg.block.number)
    (hcommit : ∀ h, f.indexer.committedBlockHeight = some h → h < msg.block.number) :
    f.Ascends (.tick msg cursor answers) := by
  intro m hm
  have heq : f.chainAfter (.tick msg cursor answers) = f.chain ++ [⟨msg, cursor⟩] := by
    rw [chainAfter, hfull]
    rfl
  cases append_cancel_left (heq.symm.trans hm)
  exact ⟨hchain, hcommit⟩

/-- Without a minimal size, every transaction is submitted. -/
lemma submitsBatches_of_zero (h : pg.dbTxBatchSize = 0) : f.SubmitsBatches pg ev := by
  intro p hp m height isSyncing hhandle
  refine .inr ?_
  rw [h]
  exact DBTransaction.size_addOperations_pos upsertBlock_mem_operations

/-- Two blocks that are final when they are streamed. The second one hands the first one to the
task, which finishes before the message is made. -/
def syncing : List Event :=
  [.tick (streamed 1 1 []) "" [], .tick (streamed 2 2 []) "" [.ok (), .ok ()]]

theorem reportsHonestly_of_submitsBatches_syncing : ∃ trace f ev msg, Run (step (poolsGateway 0))
      (fun f ev => f.Ascends ev ∧ f.SubmitsBatches (poolsGateway 0) ev) freshFeed trace f ∧
    trace.map Prod.fst = syncing ∧ trace.getLast? = some (ev, some msg) ∧
    msg.dbCommittedBlockHeight = some 1 ∧ f.ReportsHonestly msg := by
  have hstart : freshFeed.Starts := ⟨rfl, rfl, rfl, rfl, rfl, rfl⟩
  obtain ⟨trace, f, ev, msg, hrun, htrace, hlast, hheight⟩ : ∃ trace f ev msg,
      Run (step (poolsGateway 0))
        (fun f ev => f.Ascends ev ∧ f.SubmitsBatches (poolsGateway 0) ev) freshFeed trace f ∧
      trace.map Prod.fst = syncing ∧ trace.getLast? = some (ev, some msg) ∧
      msg.dbCommittedBlockHeight = some 1 := by
    refine ⟨_, _, _, _,
      .next (.next .start ⟨ascends_tick rfl ?_ ?_, submitsBatches_of_zero rfl⟩ rfl)
      ⟨ascends_tick rfl ?_ ?_, submitsBatches_of_zero rfl⟩ rfl, rfl, rfl, rfl⟩
    · simp [freshFeed]
    · simp [freshFeed]
    · intro c hc
      cases mem_singleton.mp hc
      decide
    · rintro h ⟨⟩
  exact ⟨trace, f, ev, msg, hrun, htrace, hlast, hheight,
    reportsHonestly_of_submitsBatches hstart hrun hlast⟩

/-- Block 1 is reported as committed while it is only staged. -/
theorem not_reportsHonestly_syncing : ∃ trace f ev msg,
    Run (step (poolsGateway 50000)) Ascends freshFeed trace f ∧
      trace.map Prod.fst = syncing ∧ trace.getLast? = some (ev, some msg) ∧
      ¬ f.ReportsHonestly msg := by
  refine ⟨_, _, _, _, .next (.next .start (ascends_tick rfl ?_ ?_) rfl)
    (ascends_tick rfl ?_ ?_) rfl, rfl, rfl, ?_⟩
  · simp [freshFeed]
  · simp [freshFeed]
  · intro c hc
    cases mem_singleton.mp hc
    decide
  · rintro h ⟨⟩
  · intro honest
    obtain ⟨tx, htx, -⟩ := honest 1 rfl _ mem_cons_self (by decide)
    cases htx

/-- Whatever the database answers and whenever the task works, every block of the chain is in one
place. -/
theorem placed_of_run {trace : List (Event × Option BlockAggregatedChanges)}
    (hstart : f₀.Starts) (hrun : Run (step pg) (fun _ _ => True) f₀ trace f) :
    ∃ written staged queued, Indexer.Placed pg f.indexer f.chain written staged queued := by
  refine hrun.invariant (P := fun _ f => ∃ written staged queued,
    Indexer.Placed pg f.indexer f.chain written staged queued) ⟨[], [], [], hstart.placed⟩ ?_
  rintro trace f ev out f' ⟨written, staged, queued, h⟩ - hstep
  obtain ⟨ix, answers, hindex, -, hchain, -, hcontrol⟩ := step_control hstep
  obtain ⟨queued', h'⟩ := h.control hcontrol
  rw [hindex, hchain]
  exact h'.commitSteps answers

theorem placed_of_run_syncing : ∃ trace f,
    (Run (step (poolsGateway 0)) (fun _ _ => True) freshFeed trace f ∧
      trace.map Prod.fst = syncing) ∧
    ∃ written staged queued,
      Indexer.Placed (poolsGateway 0) f.indexer f.chain written staged queued := by
  have hstart : freshFeed.Starts := ⟨rfl, rfl, rfl, rfl, rfl, rfl⟩
  refine Exists.imp (fun _ => Exists.imp fun _ h => ⟨h, placed_of_run hstart h.1⟩) ?_
  exact ⟨_, _, .next (.next .start trivial rfl) trivial rfl, rfl⟩

end
end Feed
end Tycho
