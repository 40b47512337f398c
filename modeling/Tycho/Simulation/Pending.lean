import Tycho.Client.BlockSynchronizer
import Tycho.Replay.Run

/-! The pending block processor, whose indexers follow the confirmed blocks through a channel while
the stream decodes the same messages, and its only caller, who waits for the parent of a block
before it asks for the block. -/
namespace Tycho
open Collections Replay List Option

/-- The seconds as `i64`; what chrono cannot represent becomes the epoch. -/
def naiveUtc (timestamp : Nat) : NaiveDateTime :=
  let seconds : Int := if timestamp < 2 ^ 63 then timestamp else timestamp - 2 ^ 64
  if -8334601228800 ≤ seconds ∧ seconds ≤ 8210266876799 then seconds * 1000000 else 0

def snapshotToBlockChanges (extractor : String) (snapshot : Snapshot) (header : BlockHeader)
    (chain : Chain) : BlockAggregatedChanges :=
  { (default : BlockAggregatedChanges) with
    extractor
    chain
    block := ⟨header.number, chain, header.hash, header.parentHash, naiveUtc header.timestamp⟩
    finalizedBlockHeight := header.number
    newProtocolComponents := snapshot.states.mapValues fun _ c => c.component
    stateDeltas := snapshot.states.mapValues fun id c => ⟨id, c.state.attributes, ∅, ∅⟩
    componentBalances := snapshot.states.mapValues fun id c =>
      c.state.balances.mapValues fun token balance => ⟨token, balance, .zero, .new, id⟩ }

/-- Items handled one after the other, up to the first error. -/
def runAll {S A E : Type} (f : S → A → Except E Unit × S) (s : S) : List A → Except E Unit × S
  | [] => (.ok (), s)
  | a :: l => match f s a with
    | (.ok (), s) => runAll f s l
    | (.error e, s) => (.error e, s)

section
variable {S A E : Type} {f : S → A → Except E Unit × S} {s s' : S} {l : List A}

lemma ok_of_runAll_cons {a : A} (h : runAll f s (a :: l) = (.ok (), s')) :
    ∃ s₁, f s a = (.ok (), s₁) ∧ runAll f s₁ l = (.ok (), s') := by
  rw [runAll] at h
  split at h
  · rename_i s₁ heq
    exact ⟨s₁, heq, h⟩
  · cases h

lemma runAll_append (h : runAll f s l = (.ok (), s')) (l' : List A) :
    runAll f s (l ++ l') = runAll f s' l' := by
  induction l generalizing s with
  | nil =>
    cases h
    rfl
  | cons _ _ ih =>
    obtain ⟨s₁, ha, hl⟩ := ok_of_runAll_cons h
    rw [cons_append, runAll, ha]
    exact ih hl

end

/-- The indexers and the decoder, as far as the processor uses them: an indexer has states `I` and
simulates bundles `T`, the decoder has states `D` and gives updates `U`. A call that fails may have
changed the state. -/
structure PendingStream (I T D U : Type) where
  chain : Chain
  applyBlock : I → BlockAggregatedChanges → Except String Unit × I
  generateDeltas : I → T → BlockAggregatedChanges
  decode : D → FeedMessage → Except String Unit × D
  applyDeltasEphemeral : D → HashMap String BlockAggregatedChanges → BlockHeader → Except String U

inductive PendingError where
  | parentNotYetConfirmed (needed current : Nat)
  | decoder (message : String)
  | indexer (extractor message : String)

structure PendingBlockProcessor (I : Type) where
  indexers : HashMap String I
  currentConfirmedBlock : Nat

/-- The processor with its channel, and the stream next to it. A message is forwarded before it is
decoded; a call has made its deltas before it reads the decoder. -/
structure Pipeline (I D : Type) where
  /-- All messages so far. -/
  forwarded : List FeedMessage
  processor : PendingBlockProcessor I
  blockRx : List FeedMessage
  undecoded : Option FeedMessage
  decoder : D
  call : Option (BlockHeader × HashMap String BlockAggregatedChanges)

inductive PipelineEvent (T : Type) where
  | forward (msg : FeedMessage)
  | decode
  /-- The call up to the read lock of the decoder. -/
  | generatePendingUpdate (txs : T) (targetHeader : BlockHeader)
  | applyDeltas

namespace PendingStream
variable {I T D U : Type} (w : PendingStream I T D U)

def blocksOf (extractor : String) (m : StateSyncMessage BlockHeader) : List
    BlockAggregatedChanges :=
  (if m.snapshots.states.keys = [] then []
    else [snapshotToBlockChanges extractor m.snapshots m.header w.chain]) ++ m.deltas.toList

def advanceIndexer (indexers : HashMap String I) (e : String × StateSyncMessage BlockHeader) :
    Except PendingError Unit × HashMap String I :=
  match indexers.lookup e.1 with
  | none => (.ok (), indexers)
  | some i =>
    let r := runAll w.applyBlock i (w.blocksOf e.1 e.2)
    (r.1.mapError (.indexer e.1), indexers.insert e.1 r.2)

def advanceInner (p : PendingBlockProcessor I) (msg : FeedMessage) :
    Except PendingError Unit × PendingBlockProcessor I :=
  let msgBlock := (msg.stateMsgs.toList.map (·.2.header.number)).foldl max 0
  let r := runAll w.advanceIndexer p.indexers msg.stateMsgs.toList
  match r.1 with
  | .error e => (.error e, { p with indexers := r.2 })
  | .ok () => (.ok (), ⟨r.2, if msgBlock > p.currentConfirmedBlock then msgBlock
      else p.currentConfirmedBlock⟩)

/-- What comes after an error stays in the channel. -/
def drain (p : PendingBlockProcessor I) :
    List FeedMessage → Except PendingError Unit × PendingBlockProcessor I × List FeedMessage
  | [] => (.ok (), p, [])
  | msg :: rest => match w.advanceInner p msg with
    | (.ok (), p) => drain p rest
    | (.error e, p) => (.error e, p, rest)

/-- A step, and what a call returns if it ends with it. -/
def step (s : Pipeline I D) : PipelineEvent T →
    Option (Option (Except PendingError U) × Pipeline I D)
  | .forward msg => if s.undecoded.isSome then none else
    some (none, { s with
      forwarded := s.forwarded ++ [msg]
      blockRx := s.blockRx ++ [msg]
      undecoded := some msg })
  | .decode => s.undecoded.map fun msg =>
    (none, { s with undecoded := none, decoder := (w.decode s.decoder msg).2 })
  | .generatePendingUpdate txs targetHeader => if s.call.isSome then none else
    let r := w.drain s.processor s.blockRx
    let s := { s with processor := r.2.1, blockRx := r.2.2 }
    let parent := targetHeader.number - 1
    let current := s.processor.currentConfirmedBlock
    match r.1 with
    | .error e => some (some (.error e), s)
    | .ok () =>
      if current < parent then some (some (.error (.parentNotYetConfirmed parent current)), s)
      else
        let deltas := s.processor.indexers.mapValues fun _ i => w.generateDeltas i txs
        some (none, { s with call := some (targetHeader, deltas) })
  | .applyDeltas => s.call.map fun call =>
    (some ((w.applyDeltasEphemeral s.decoder call.2 call.1).mapError .decoder),
      { s with call := none })

def start (indexers : HashMap String I) (decoder : D) : Pipeline I D :=
  ⟨[], ⟨indexers, 0⟩, [], none, decoder, none⟩

end PendingStream

def stateEntries (feed : List FeedMessage) : List (String × StateSyncMessage BlockHeader) :=
  feed.flatMap (·.stateMsgs.toList)

def received (extractor : String) (l : List (String × StateSyncMessage BlockHeader)) :
    List (StateSyncMessage BlockHeader) :=
  l.filterMap fun e => if e.1 = extractor then some e.2 else none

/-- The last messages of all extractors are at this block. -/
def AllAt (extractors : List String) (feed : List FeedMessage) (header : BlockHeader) : Prop :=
  ∀ x ∈ extractors ++ (stateEntries feed).map Prod.fst,
    (received x (stateEntries feed)).getLast?.map StateSyncMessage.header = some header

instance (extractors : List String) (feed : List FeedMessage) (header : BlockHeader) :
    Decidable (AllAt extractors feed header) := inferInstanceAs (Decidable (∀ x ∈ _, _ = _))

variable {msg : FeedMessage}

namespace PendingStream
variable {I T D U : Type} (w : PendingStream I T D U)

/-- All indexers and the decoder are in the states after the block with this number: they have
taken the same messages, and the last ones of all extractors are at that block. -/
structure AtBlock (indexers₀ : HashMap String I) (decoder₀ : D) (feed : List FeedMessage)
    (number : Nat) (s : Pipeline I D) : Prop where
  header : ∃ header, header.number = number ∧ AllAt indexers₀.keys feed header
  nonempty : feed ≠ []
  indexers : ∀ x i, indexers₀.lookup x = some i → ∃ i',
    runAll w.applyBlock i ((received x (stateEntries feed)).flatMap (w.blocksOf x)) = (.ok (), i') ∧
      s.processor.indexers.lookup x = some i'
  decoder : runAll w.decode decoder₀ feed = (.ok (), s.decoder)

/-- All extractors are at one block, the highest so far. -/
def Level (extractors : List String) (feed : List FeedMessage) : Prop :=
  ∃ e ∈ stateEntries feed, AllAt extractors feed e.2.header ∧
    ∀ old ∈ stateEntries feed, old.2.header.number ≤ e.2.header.number

instance (extractors : List String) (feed : List FeedMessage) : Decidable (Level extractors feed) :=
  inferInstanceAs (Decidable (∃ e ∈ stateEntries feed, _ ∧ ∀ old ∈ stateEntries feed, _ ≤ _))

/-- No extractor is left behind by a message and none goes back, and no indexer and not the decoder
rejects it. A call is made when all is decoded, for a block after the last one, and nothing is
decoded before it has read the decoder. -/
def InStep (indexers₀ : HashMap String I) (s : Pipeline I D) : PipelineEvent T → Prop
  | .forward msg => Level indexers₀.keys (s.forwarded ++ [msg])
  | .decode => s.call.isNone ∧ ∀ msg ∈ s.undecoded, (w.decode s.decoder msg).1.isOk
  | .generatePendingUpdate _ targetHeader => s.undecoded.isNone ∧ s.forwarded ≠ [] ∧
    (∀ old ∈ stateEntries s.forwarded, old.2.header.number ≤ targetHeader.number - 1) ∧
      (w.drain s.processor s.blockRx).1.isOk
  | .applyDeltas => True

instance (indexers₀ : HashMap String I) (s : Pipeline I D) :
    (e : PipelineEvent T) → Decidable (w.InStep indexers₀ s e)
  | .forward _ => inferInstanceAs (Decidable (Level _ _))
  | .decode => inferInstanceAs (Decidable (_ ∧ ∀ msg ∈ s.undecoded, _))
  | .generatePendingUpdate _ _ =>
    inferInstanceAs (Decidable (_ ∧ _ ∧ (∀ old ∈ stateEntries _, _ ≤ _) ∧ _))
  | .applyDeltas => .isTrue trivial

variable {w}

/-- An indexer gets the blocks of its own messages. -/
lemma lookup_of_runAll {l : List (String × StateSyncMessage BlockHeader)}
    {indexers indexers' : HashMap String I}
    (h : runAll w.advanceIndexer indexers l = (.ok (), indexers'))
    {x : String} {i : I} (hi : indexers.lookup x = some i) : ∃ i',
      runAll w.applyBlock i ((received x l).flatMap (w.blocksOf x)) = (.ok (), i') ∧
        indexers'.lookup x = some i' := by
  induction l generalizing indexers i with
  | nil =>
    cases h
    exact ⟨i, rfl, hi⟩
  | cons e _ ih =>
    obtain ⟨next, he, hl⟩ := ok_of_runAll_cons h
    unfold advanceIndexer at he
    by_cases hx : e.1 = x
    · subst hx
      rw [hi] at he
      dsimp only at he
      obtain ⟨⟨r, i'⟩, hr⟩ : ∃ r, runAll w.applyBlock i (w.blocksOf e.1 e.2) = r := ⟨_, rfl⟩
      rw [hr] at he
      cases r with
      | error => cases he
      | ok =>
        cases he
        obtain ⟨i'', hi'', hlast⟩ := ih hl (AList.lookup_insert indexers)
        refine ⟨i'', ?_, hlast⟩
        simpa [received] using (runAll_append hr _).trans hi''
    · have hnext : next.lookup x = some i := by
        split at he
        · cases he
          exact hi
        · obtain rfl : _ = next := congrArg Prod.snd he
          simpa [HashMap.lookup_insert_ite, Ne.symm hx] using hi
      simpa [received, hx] using ih hl hnext

variable {p p' : PendingBlockProcessor I}

lemma advanceInner_ok (h : w.advanceInner p msg = (.ok (), p')) :
    runAll w.advanceIndexer p.indexers msg.stateMsgs.toList = (.ok (), p'.indexers) ∧
      ∀ n, p.currentConfirmedBlock ≤ n → (∀ e ∈ msg.stateMsgs.toList, e.2.header.number ≤ n) →
        p'.currentConfirmedBlock ≤ n := by
  have hmax : ∀ (l : List Nat) (a n : Nat), a ≤ n → (∀ b ∈ l, b ≤ n) → l.foldl max a ≤ n := by
    intro l
    induction l with
    | nil => exact fun a n ha _ => ha
    | cons _ _ ih =>
      intro a n ha hl
      rw [forall_mem_cons] at hl
      exact ih _ n (max_le ha hl.1) hl.2
  unfold advanceInner at h
  dsimp only at h
  split at h
  · cases h
  · rename_i hr
    cases h
    refine ⟨Prod.ext hr rfl, fun n hp hn => ?_⟩
    split
    · exact hmax _ 0 n (Nat.zero_le n) (forall_mem_map.mpr hn)
    · exact hp

lemma drain_ok {queue rest : List FeedMessage} (h : w.drain p queue = (.ok (), p', rest)) :
    rest = [] ∧ runAll w.advanceIndexer p.indexers (stateEntries queue) = (.ok (), p'.indexers) ∧
      ∀ n, p.currentConfirmedBlock ≤ n → (∀ e ∈ stateEntries queue, e.2.header.number ≤ n) →
        p'.currentConfirmedBlock ≤ n := by
  induction queue generalizing p with
  | nil =>
    cases h
    exact ⟨rfl, rfl, fun n hp _ => hp⟩
  | cons _ _ ih =>
    rw [drain] at h
    split at h
    · rename_i p₁ hmsg
      obtain ⟨hindexers, hcur⟩ := advanceInner_ok hmsg
      obtain ⟨hrest, hindexers', hcur'⟩ := ih h
      refine ⟨hrest, (runAll_append hindexers _).trans hindexers', fun n hp hn => ?_⟩
      rw [stateEntries, flatMap_cons, forall_mem_append] at hn
      exact hcur' n (hcur n hp hn.1) hn.2
    · cases h

section
variable {indexers₀ : HashMap String I} {decoder₀ : D} {s s' : Pipeline I D}

/-- What the channel has passed on is in the indexers, and what was decoded is in the decoder. -/
structure Inv (w : PendingStream I T D U) (indexers₀ : HashMap String I) (decoder₀ : D)
    (s : Pipeline I D) : Prop where
  advanced : ∃ advanced, advanced ++ s.blockRx = s.forwarded ∧
    runAll w.advanceIndexer indexers₀ (stateEntries advanced) = (.ok (), s.processor.indexers) ∧
    ∀ n, (∀ e ∈ stateEntries advanced, e.2.header.number ≤ n) →
      s.processor.currentConfirmedBlock ≤ n
  decoded : ∃ decoded, decoded ++ s.undecoded.toList = s.forwarded ∧
    runAll w.decode decoder₀ decoded = (.ok (), s.decoder)
  level : s.forwarded ≠ [] → Level indexers₀.keys s.forwarded
  call : ∀ call ∈ s.call, ∃ feed, feed <+: s.forwarded ∧
    w.AtBlock indexers₀ decoder₀ feed (call.1.number - 1) s

section
variable (h : w.Inv indexers₀ decoder₀ s)
include h

lemma Inv.forward (hnone : s.undecoded = none)
    (hin : w.InStep indexers₀ s (.forward msg)) : w.Inv indexers₀ decoder₀ { s with
        forwarded := s.forwarded ++ [msg], blockRx := s.blockRx ++ [msg], undecoded := some msg } :=
          by
  obtain ⟨advanced, hadvanced, hindexers⟩ := h.advanced
  obtain ⟨decoded, hdecoder, hdecoded⟩ := h.decoded
  rw [hnone, toList_none, append_nil] at hdecoder
  refine ⟨⟨advanced, by simp [← hadvanced], hindexers⟩, ⟨decoded, by simp [hdecoder], hdecoded⟩,
    fun _ => hin, ?_⟩
  intro call hcall
  obtain ⟨feed, hfeeds, hat⟩ := h.call call hcall
  exact ⟨feed, hfeeds.trans (prefix_append _ _), hat.header, hat.nonempty, hat.indexers,
    hat.decoder⟩

lemma Inv.decode (hmsg : s.undecoded = some msg)
    (hin : w.InStep indexers₀ s .decode) : w.Inv indexers₀ decoder₀
      { s with undecoded := none, decoder := (w.decode s.decoder msg).2 } := by
  obtain ⟨decoded, hdecoder, hdecoded⟩ := h.decoded
  obtain ⟨hcall, hok⟩ := hin
  refine ⟨h.advanced, ⟨s.forwarded, append_nil _, ?_⟩, h.level, ?_⟩
  · rw [← hdecoder, hmsg, runAll_append hdecoded, toList_some, runAll]
    split <;> simp_all [runAll, Except.isOk, Except.toBool]
  · simp [isNone_iff_eq_none.mp hcall]

/-- The state after the channel was drained, with or without a call. -/
lemma Inv.drain {txs : T} {targetHeader : BlockHeader}
    (hin : w.InStep indexers₀ s (.generatePendingUpdate txs targetHeader))
    (call : Option (BlockHeader × HashMap String BlockAggregatedChanges))
    (hcall : ∀ c ∈ call, c.1 = targetHeader ∧
      targetHeader.number - 1 ≤ (w.drain s.processor s.blockRx).2.1.currentConfirmedBlock) :
    w.Inv indexers₀ decoder₀ { s with
      processor := (w.drain s.processor s.blockRx).2.1
      blockRx := (w.drain s.processor s.blockRx).2.2
      call } := by
  obtain ⟨advanced, hadvanced, hindexers, hcur⟩ := h.advanced
  obtain ⟨decoded, hdecoder, hdecoded⟩ := h.decoded
  obtain ⟨hundecoded, hne, hbelow, hok⟩ := hin
  obtain ⟨⟨r, p, rest⟩, hdrain⟩ : ∃ r, w.drain s.processor s.blockRx = r := ⟨_, rfl⟩
  rw [hdrain] at hok hcall ⊢
  dsimp only at hcall
  cases r with
  | error => cases hok
  | ok =>
    obtain ⟨rfl, hindexers', hcur'⟩ := drain_ok hdrain
    have hentries : stateEntries advanced ++ stateEntries s.blockRx = stateEntries s.forwarded := by
      rw [← hadvanced, stateEntries, stateEntries, stateEntries, flatMap_append]
    have hall : runAll w.advanceIndexer indexers₀ (stateEntries s.forwarded) =
      (.ok (), p.indexers) := by
      rw [← hentries, runAll_append hindexers, hindexers']
    have hle : ∀ n, (∀ e ∈ stateEntries s.forwarded, e.2.header.number ≤ n) →
        p.currentConfirmedBlock ≤ n := by
      intro n hn
      rw [← hentries, forall_mem_append] at hn
      exact hcur' n (hcur n hn.1) hn.2
    refine ⟨⟨s.forwarded, append_nil _, hall, hle⟩, ⟨decoded, hdecoder, hdecoded⟩, h.level, ?_⟩
    intro c hc
    obtain ⟨rfl, hparent⟩ := hcall c hc
    obtain ⟨e, he, hat, hmax⟩ := h.level hne
    have htarget : e.2.header.number = c.1.number - 1 := by
      have := hbelow e he
      have := hle _ hmax
      omega
    rw [isNone_iff_eq_none.mp hundecoded, toList_none, append_nil] at hdecoder
    refine ⟨s.forwarded, prefix_rfl, ⟨e.2.header, htarget, hat⟩, hne, ?_, hdecoder ▸ hdecoded⟩
    intro x i hi
    exact lookup_of_runAll hall hi

lemma Inv.step {e : PipelineEvent T} {o : Option (Except PendingError U)}
    (hin : w.InStep indexers₀ s e) (hstep : w.step s e = some (o, s')) :
    w.Inv indexers₀ decoder₀ s' := by
  cases e with
  | forward =>
    simp only [PendingStream.step, ite_none_left_eq_some] at hstep
    obtain ⟨hnone, hstep⟩ := hstep
    cases hstep
    exact h.forward (by simpa using hnone) hin
  | decode =>
    obtain ⟨msg, hmsg, heq⟩ := map_eq_some_iff.mp hstep
    cases heq
    exact h.decode hmsg hin
  | generatePendingUpdate =>
    simp only [PendingStream.step, ite_none_left_eq_some] at hstep
    obtain ⟨hnone, hstep⟩ := hstep
    split at hstep
    · cases hstep
      exact h.drain hin s.call (by simp_all)
    · split at hstep
      · cases hstep
        exact h.drain hin s.call (by simp_all)
      · cases hstep
        exact h.drain hin (some _) (by simp_all)
  | applyDeltas =>
    obtain ⟨call, -, heq⟩ := map_eq_some_iff.mp hstep
    cases heq
    exact ⟨h.advanced, h.decoded, h.level, by simp⟩

end

/-- In a run without delayed extractors and reverts, whose calls come between the blocks, a call
that succeeds has read the states after the parent of its block. -/
theorem atBlock_of_run {trace : List (PipelineEvent T × Option (Except PendingError U))}
    {update : U}
    (hrun : Run w.step (w.InStep indexers₀) (start indexers₀ decoder₀) trace s)
    (hok : w.step s .applyDeltas = some (some (.ok update), s')) :
    ∃ call feed, s.call = some call ∧ feed <+: s.forwarded ∧
      w.AtBlock indexers₀ decoder₀ feed (call.1.number - 1) s := by
  have hinv : w.Inv indexers₀ decoder₀ s := by
    refine hrun.invariant (P := fun _ s => w.Inv indexers₀ decoder₀ s) ?_
      fun _ _ _ _ _ h hin hnext => h.step hin hnext
    exact ⟨⟨[], rfl, rfl, fun n _ => n.zero_le⟩, ⟨[], rfl, rfl⟩, fun hne => absurd rfl hne,
      by simp [start]⟩
  obtain ⟨call, hcall, -⟩ := map_eq_some_iff.mp hok
  obtain ⟨feed, hfeeds, hat⟩ := hinv.call call hcall
  exact ⟨call, feed, hcall, hfeeds, hat⟩

end

section

/-- Indexers and a decoder that record the numbers of the blocks. -/
def recording : PendingStream (List Nat) Unit (List Nat) Unit where
  chain := .ethereum
  applyBlock i block := (.ok (), i ++ [block.block.number])
  generateDeltas _ _ := default
  decode d msg := (.ok (), d ++ msg.stateMsgs.toList.map (·.2.header.number))
  applyDeltasEphemeral _ _ _ := .ok ()

def headerAt (number : Nat) : BlockHeader := { (default : BlockHeader) with number }

def blockMsg (number : Nat) : FeedMessage where
  stateMsgs := HashMap.ofList [("pool", ⟨headerAt number, default,
    some { (default : BlockAggregatedChanges) with block := { (default : Block) with number } },
      ∅⟩)]
  syncStates := ∅

def onePool : HashMap String (List Nat) := HashMap.ofList [("pool", [])]

lemma applyDeltas_recording {s : Pipeline (List Nat) (List Nat)} (h : s.call.isSome) :
    recording.step s .applyDeltas = some (some (.ok ()), { s with call := none }) := by
  obtain ⟨call, hcall⟩ := isSome_iff_exists.mp h
  simp [step, hcall, recording, Except.mapError]

theorem atBlock_of_run_decoded : ∃ trace s s',
    Run recording.step (recording.InStep onePool) (start onePool []) trace s ∧
    recording.step s .applyDeltas = some (some (.ok ()), s') ∧
    ∃ call feed, s.call = some call ∧ feed <+: s.forwarded ∧
      recording.AtBlock onePool [] feed (call.1.number - 1) s := by
  have hcheck : (play recording.step (recording.InStep onePool) (start onePool [])
      [.forward (blockMsg 1), .decode, .generatePendingUpdate () (headerAt 2)]).any
        fun r => r.2.call.isSome = true := by decide +kernel
  obtain ⟨trace, s, hrun, hcall⟩ := exists_run_of_any hcheck
  have hok := applyDeltas_recording hcall
  exact ⟨trace, s, _, hrun, hok, atBlock_of_run hrun hok⟩

/-- A call between the two halves of the pipeline: block 2 is forwarded, but not decoded. -/
theorem not_atBlock_undecoded : ∃ trace s s',
    Run recording.step (fun _ _ => True) (start onePool []) trace s ∧
    recording.step s .applyDeltas = some (some (.ok ()), s') ∧
    s.call.map (·.1) = some (headerAt 3) ∧
    ∀ feed, feed <+: s.forwarded → ¬ recording.AtBlock onePool [] feed 2 s := by
  have hcheck : (play recording.step (fun _ _ => True) (start onePool [])
      [.forward (blockMsg 1), .decode, .forward (blockMsg 2),
        .generatePendingUpdate () (headerAt 3)]).any fun r => r.2.call.map (·.1) =
          some (headerAt 3) ∧
          r.2.processor.indexers.lookup "pool" = some [1, 2] ∧
          ∀ feed ∈ r.2.forwarded.inits, runAll recording.decode [] feed = (.ok (), r.2.decoder) →
            runAll recording.applyBlock [] ((received "pool" (stateEntries feed)).flatMap
              (recording.blocksOf "pool")) ≠ (.ok (), [1, 2]) := by decide +kernel
  obtain ⟨trace, s, hrun, hcall, hpool, hfed⟩ := exists_run_of_any hcheck
  have hsome : s.call.isSome := by simpa using congrArg Option.isSome hcall
  refine ⟨trace, s, _, hrun, applyDeltas_recording hsome, hcall, fun feed hfeeds hat => ?_⟩
  obtain ⟨i', hi', hlookup⟩ := hat.indexers "pool" [] rfl
  rw [hpool] at hlookup
  cases hlookup
  exact hfed feed ((mem_inits _ _).mpr hfeeds) hat.decoder hi'

end
end PendingStream

/-- The processor with its watch channel, and its caller. -/
structure WatchedPipeline (I D : Type) where
  pipeline : Pipeline I D
  /-- The value in the channel. -/
  confirmedBlock : Nat
  receivers : Nat
  /-- The block for whose parent the caller waits. -/
  waitingFor : Option Nat

inductive CallerEvent (T : Type) where
  | forward (msg : FeedMessage)
  | decode
  | subscribeConfirmedBlock
  | dropReceiver
  | waitFor (block : Nat)
  /-- The wait ends. -/
  | proceed
  | generatePendingUpdate (txs : T) (targetHeader : BlockHeader)
  | applyDeltas

namespace PendingStream
variable {I T D U : Type} (w : PendingStream I T D U)

/-- A new confirmed block is sent, and kept only if somebody has subscribed. -/
def watchedStep (s : WatchedPipeline I D) (e : PipelineEvent T) :
    Option (Unit × WatchedPipeline I D) :=
  (w.step s.pipeline e).map fun r =>
    let current := r.2.processor.currentConfirmedBlock
    ((), { s with
      pipeline := r.2
      confirmedBlock := if s.pipeline.processor.currentConfirmedBlock < current ∧ 0 < s.receivers
        then current else s.confirmedBlock })

/-- While the caller waits only the stream goes on. -/
def callerStep (s : WatchedPipeline I D) : CallerEvent T → Option (Unit × WatchedPipeline I D)
  | .forward msg => w.watchedStep s (.forward msg)
  | .decode => w.watchedStep s .decode
  | .proceed => s.waitingFor.bind fun block =>
    if block - 1 ≤ s.confirmedBlock then some ((), { s with waitingFor := none }) else none
  | .subscribeConfirmedBlock => if s.waitingFor.isSome then none
    else some ((), { s with receivers := s.receivers + 1 })
  | .dropReceiver => if s.waitingFor.isSome then none
    else some ((), { s with receivers := s.receivers - 1 })
  | .waitFor block => if s.waitingFor.isSome ∨ s.receivers = 0 then none
    else some ((), { s with waitingFor := some block })
  | .generatePendingUpdate txs targetHeader => if s.waitingFor.isSome then none
    else w.watchedStep s (.generatePendingUpdate txs targetHeader)
  | .applyDeltas => if s.waitingFor.isSome then none else w.watchedStep s .applyDeltas

def watch (indexers : HashMap String I) (decoder : D) : WatchedPipeline I D :=
  ⟨start indexers decoder, 0, 0, none⟩

/-- A block is asked for only after its parent was seen in the channel. -/
def Follows (s : WatchedPipeline I D) : CallerEvent T → Prop
  | .generatePendingUpdate _ targetHeader => targetHeader.number - 1 ≤ s.confirmedBlock
  | _ => True

instance (s : WatchedPipeline I D) : (e : CallerEvent T) → Decidable (Follows s e)
  | .generatePendingUpdate _ _ => inferInstanceAs (Decidable (_ ≤ _))
  | .forward _ | .decode | .subscribeConfirmedBlock | .dropReceiver | .waitFor _ | .proceed
  | .applyDeltas => .isTrue trivial

def Delivered (s : WatchedPipeline I D) (number : Nat) : Prop :=
  ∃ e ∈ stateEntries s.pipeline.forwarded, number ≤ e.2.header.number

/-- Once a block that is high enough is delivered the wait can end eventually. -/
def GetsPast (s : WatchedPipeline I D) (block : Nat) : Prop :=
  ∀ trace t, Run w.callerStep (fun _ e => e ≠ .proceed) s trace t → Delivered t (block - 1) →
    ∃ trace' t', Run w.callerStep (fun _ e => e ≠ .proceed) t trace' t' ∧
      (w.callerStep t' .proceed).isSome

variable {w} {s t : WatchedPipeline I D} {block : Nat}

lemma confirmedBlock_of_stream {e : PipelineEvent T} {u : Unit}
    (he : e = .decode ∨ ∃ msg, e = .forward msg) (h : w.watchedStep s e = some (u, t)) :
    t.waitingFor = s.waitingFor ∧ t.confirmedBlock = s.confirmedBlock := by
  obtain ⟨r, hr, heq⟩ := Option.map_eq_some_iff.mp h
  have hsame : r.2.processor = s.pipeline.processor := by
    rcases he with rfl | ⟨msg, rfl⟩
    · obtain ⟨msg, -, rfl⟩ := Option.map_eq_some_iff.mp hr
      rfl
    · simp only [step, Option.ite_none_left_eq_some] at hr
      cases hr.2
      rfl
  cases heq
  simp [hsame]

/-- Nobody publishes a block while the only caller waits. -/
lemma confirmedBlock_of_wait (hwait : s.waitingFor = some block) {trace}
    (h : Run w.callerStep (fun _ e => e ≠ .proceed) s trace t) :
    t.waitingFor = some block ∧ t.confirmedBlock = s.confirmedBlock := by
  refine h.invariant (P := fun _ t => t.waitingFor = some block ∧ t.confirmedBlock =
    s.confirmedBlock)
    ⟨hwait, rfl⟩ ?_
  rintro _ t e _ t' ⟨hstill, hsame⟩ hne hstep
  have hkept : t'.waitingFor = t.waitingFor ∧ t'.confirmedBlock = t.confirmedBlock := by
    cases e with
    | forward msg => exact confirmedBlock_of_stream (.inr ⟨msg, rfl⟩) hstep
    | decode => exact confirmedBlock_of_stream (.inl rfl) hstep
    | proceed => exact absurd rfl hne
    | _ => simp [callerStep, hstill] at hstep
  exact ⟨hkept.1.trans hstill, hkept.2.trans hsame⟩

lemma isSome_proceed (hwait : s.waitingFor = some block) :
    (w.callerStep s .proceed).isSome ↔ block - 1 ≤ s.confirmedBlock := by
  simp only [callerStep, hwait, Option.bind_some]
  split_ifs with h <;> simp [h]

lemma isSome_proceed_of_wait (hwait : s.waitingFor = some block)
    (hle : block - 1 ≤ s.confirmedBlock) {trace}
    (hrun : Run w.callerStep (fun _ e => e ≠ .proceed) s trace t) :
    (w.callerStep t .proceed).isSome := by
  obtain ⟨hstill, hsame⟩ := confirmedBlock_of_wait hwait hrun
  exact (isSome_proceed hstill).mpr (hsame ▸ hle)

/-- Another block can always be delivered. -/
lemma exists_delivered (w : PendingStream I T D U) (s : WatchedPipeline I D) (number : Nat) :
    ∃ trace t, Run w.callerStep (fun _ e => e ≠ .proceed) s trace t ∧ Delivered t number := by
  have hforward : ∀ t : WatchedPipeline I D, t.pipeline.undecoded = none → ∃ t',
      w.callerStep t (.forward (blockMsg number)) = some ((), t') ∧ Delivered t' number := by
    intro t hnone
    refine ⟨_, by simp only [callerStep, watchedStep, step, hnone]; rfl, ?_⟩
    have hmem : blockMsg number ∈ t.pipeline.forwarded ++ [blockMsg number] :=
      List.mem_append_right _ (List.mem_singleton_self _)
    exact ⟨_, List.mem_flatMap.mpr ⟨_, hmem, List.mem_cons_self⟩, le_refl number⟩
  cases h : s.pipeline.undecoded with
  | none =>
    obtain ⟨t, hstep, ht⟩ := hforward s h
    exact ⟨_, t, .next .start (by simp) hstep, ht⟩
  | some msg =>
    have hdecode : ∃ t, w.callerStep s .decode = some ((), t) ∧ t.pipeline.undecoded = none :=
      ⟨_, by simp only [callerStep, watchedStep, step, h]; rfl, rfl⟩
    obtain ⟨t, hstep, hnone⟩ := hdecode
    obtain ⟨t', hstep', ht'⟩ := hforward t hnone
    exact ⟨_, t', .next (.next .start (by simp) hstep) (by simp) hstep', ht'⟩

/-- The wait ends only if the channel had the parent when it began, and then it can end at once. -/
theorem getsPast_iff (w : PendingStream I T D U) (hwait : s.waitingFor = some block) :
    (w.GetsPast s block ↔ block - 1 ≤ s.confirmedBlock) ∧
      (block - 1 ≤ s.confirmedBlock → ∀ trace t,
        Run w.callerStep (fun _ e => e ≠ .proceed) s trace t →
          (w.callerStep t .proceed).isSome) := by
  refine ⟨⟨fun h => ?_, fun hle trace t hrun _ => ?_⟩,
    fun hle _ _ hrun => isSome_proceed_of_wait hwait hle hrun⟩
  · obtain ⟨trace, t, hrun, hdelivered⟩ := exists_delivered w s (block - 1)
    obtain ⟨hstill, hsame⟩ := confirmedBlock_of_wait hwait hrun
    obtain ⟨trace', t', hrun', hends⟩ := h trace t hrun hdelivered
    obtain ⟨hstill', hsame'⟩ := confirmedBlock_of_wait hstill hrun'
    rw [← hsame, ← hsame']
    exact (isSome_proceed hstill').mp hends
  · exact ⟨[], t, .start, isSome_proceed_of_wait hwait hle hrun⟩

/-- A call for block 1 has drained it, and then the caller waits for block 2. -/
theorem getsPast_iff_drained : ∃ trace s,
    Run recording.callerStep Follows (watch onePool []) trace s ∧ s.waitingFor = some 2 ∧
      recording.GetsPast s 2 := by
  have hcheck : (play recording.callerStep Follows (watch onePool [])
      [.subscribeConfirmedBlock, .forward (blockMsg 1), .decode,
        .generatePendingUpdate () (headerAt 1), .applyDeltas, .waitFor 2]).any fun r =>
        r.2.waitingFor = some 2 ∧ r.2.confirmedBlock = 1 := by decide +kernel
  obtain ⟨trace, s, hrun, hwait, hone⟩ := exists_run_of_any hcheck
  exact ⟨trace, s, hrun, hwait, (getsPast_iff recording hwait).1.mpr (by omega)⟩

/-- The first wait of a caller, in which block 1 is delivered, never ends. -/
theorem not_getsPast_fresh : ∃ trace s,
    Run recording.callerStep Follows (watch onePool []) trace s ∧ s.waitingFor = some 2 ∧
      Delivered s 1 ∧ ∀ trace' t, Run recording.callerStep (fun _ e => e ≠ .proceed) s trace' t →
          recording.callerStep t .proceed = none := by
  have hcheck : (play recording.callerStep Follows (watch onePool [])
      [.subscribeConfirmedBlock, .waitFor 2, .forward (blockMsg 1)]).any fun r =>
        r.2.waitingFor = some 2 ∧ r.2.confirmedBlock = 0 ∧
          ∃ e ∈ stateEntries r.2.pipeline.forwarded, 1 ≤ e.2.header.number := by decide +kernel
  obtain ⟨trace, s, hrun, hwait, hzero, hdelivered⟩ := exists_run_of_any hcheck
  refine ⟨trace, s, hrun, hwait, hdelivered, fun trace' t hrun' => ?_⟩
  obtain ⟨hstill, hsame⟩ := confirmedBlock_of_wait hwait hrun'
  rw [← Option.not_isSome_iff_eq_none, isSome_proceed hstill]
  omega

end PendingStream

end Tycho
