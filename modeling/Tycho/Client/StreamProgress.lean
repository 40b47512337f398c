import Tycho.Client.BlockSynchronizer
import Tycho.Client.Reverts

/-! What the block history says about the blocks of the chain that it follows, and how far a stream
gets in a round. -/
namespace Tycho
open Collections List

variable {x : BlockHeader} {pre : List BlockHeader}

namespace BlockHistory
variable {H : BlockHeader → Prop} {h : BlockHistory} {a b c p : BlockHeader}

/-- A block that the history stores, or one below all blocks that it stores. -/
def Covers (h : BlockHistory) (b : BlockHeader) : Prop :=
  (∃ x ∈ h.history, x.hash = b.hash) ∨ ∀ oldest ∈ h.oldest, b.number < oldest.number

/-- The block is stored, it is not the oldest one, and it is not among the reverted blocks that the
history remembers. -/
def CanRevertTo (h : BlockHistory) (b : BlockHeader) : Prop :=
  (∃ x ∈ h.history.tail, x.hash = b.hash) ∧ ¬ h.reverts.contains b.hash

instance (h : BlockHistory) (b : BlockHeader) : Decidable (h.CanRevertTo b) :=
  inferInstanceAs (Decidable (_ ∧ _))

/-- A history of connected blocks of a tree, with space for two of them. -/
structure Linked (H : BlockHeader → Prop) (h : BlockHistory) : Prop extends InTree H h where
  chained : Chained h.history
  space : 2 ≤ h.size

lemma Linked.push (htree : ForkTree H) (hl : Linked H h) (hb : H b) (hfull : ¬ b.isPartial) :
    Linked H (h.push b).2 := by
  refine ⟨hl.toInTree.push htree hb, ?_, ?_⟩
  · apply chained_push hl.chained
    constructor
    · intro p hp hparent _
      have hnumbers := htree.number b p hb (hl.headers p hp) hparent.symm
      omega
    · intro latest _ _ hindex
      have hnone : b.partialBlockIndex = none := by simpa [BlockHeader.isPartial] using hfull
      rw [hnone, partialPosition] at hindex
      · cases hindex
      · rintro _ _ - ⟨⟩
  · rw [(push_sizes h b).2]
    exact hl.space

lemma InTree.number_le_latest (htree : ForkTree H) (hin : InTree H h) (hlatest : h.latest = some a)
    (hb : H b) (hc : h.Covers b) : b.number ≤ a.number := by
  have hne : h.history ≠ [] := by
    rintro hnil
    rw [latest, hnil] at hlatest
    cases hlatest
  have hold : h.oldest = some (h.history.head hne) := List.head?_eq_some_head hne
  rcases hc with ⟨x, hx, hhash⟩ | hbelow
  · have hsame := (htree.same x b (hin.headers x hx) hb hhash).1
    have hle := (hin.contiguous.bounds hold hlatest hx).2
    omega
  · have hlt := hbelow _ hold
    have hle := (hin.contiguous.bounds hold hlatest (mem_of_mem_getLast? hlatest)).1
    omega

lemma hashInHistory_of_mem (hx : x ∈ h.history) (hhash : x.hash = b.hash) :
    h.hashInHistory b.hash = true := by
  rw [hashInHistory, any_eq_true]
  exact ⟨x, hx, by simpa using hhash⟩

lemma positionBelow_covered (hrev : b.revert = false) (hc : h.Covers b)
    (hold : h.oldest = some a) : h.positionBelow b a = .ok .delayed := by
  unfold positionBelow
  by_cases hlow : b.number < a.number
  · rw [if_pos hlow]
  · rcases hc with ⟨x, hx, hhash⟩ | hbelow
    · rw [if_neg hlow, if_pos (hashInHistory_of_mem hx hhash), hrev]
      rfl
    · exact absurd (hbelow a hold) hlow

/-- Blocks of the chain that are not next are late. -/
lemma InTree.position_covered (htree : ForkTree H) (hin : InTree H h)
    (hlatest : h.latest = some a) (hb : H b) (hfull : ¬ b.isPartial) (hrev : b.revert = false)
    (hc : h.Covers b) :
    h.determineBlockPosition b = .ok .latest ∨ h.determineBlockPosition b = .ok .delayed := by
  have hle := hin.number_le_latest htree hlatest hb hc
  have ha : a ∈ h.history := mem_of_mem_getLast? hlatest
  have hparent : b.parentHash ≠ a.hash := by
    intro heq
    have hnumber := htree.number b a hb (hin.headers a ha) heq
    omega
  have hold : h.oldest = some (h.history.head (ne_nil_of_mem ha)) :=
    List.head?_eq_some_head _
  unfold determineBlockPosition
  rw [hlatest]
  dsimp only
  rw [if_neg hparent, if_neg (by simp [hfull]), hold]
  dsimp only
  rw [positionBelow_covered hrev hc hold]
  split_ifs
  · exact .inl rfl
  · exact .inr rfl
  · exact .inr rfl

lemma push_late (hrev : b.revert = false)
    (hpos : h.determineBlockPosition b = .ok .latest ∨ h.determineBlockPosition b = .ok .delayed) :
    h.push b = (.ok (), h) := by
  unfold push
  rcases hpos with hpos | hpos
  · rw [hpos, hrev]
    dsimp only
    split <;> rfl
  · rw [hpos]

section
variable (hlatest : h.latest = some a) (hparent : b.parentHash = a.hash)
include hlatest hparent

lemma position_next : h.determineBlockPosition b = .ok .nextExpected := by
  unfold determineBlockPosition
  rw [hlatest]
  dsimp only
  rw [if_pos hparent]

lemma push_next (hrev : b.revert = false) : h.push b = (.ok (), h.append b) := by
  unfold push
  rw [position_next hlatest hparent]
  simp [hrev, hlatest, hparent]

end

/-- The latest two blocks stay when there is space for them. -/
lemma append_two (hlatest : h.latest = some p) (hspace : 2 ≤ h.size) (b : BlockHeader) :
    ∃ pre, (h.append b).history = pre ++ [p, b] := by
  obtain ⟨front, hfront⟩ := List.getLast?_eq_some_iff.mp hlatest
  unfold append
  dsimp only
  rw [hfront]
  split_ifs with hlen
  · cases front with
    | nil =>
      simp at hlen
      omega
    | cons _ front => exact ⟨front, by simp⟩
  · exact ⟨front, by simp⟩

/-- The next block moves the history on, and nothing that was covered is lost. -/
lemma Linked.covers_append (htree : ForkTree H) (hl : Linked H h) (hlatest : h.latest = some a)
    (hb : H b) (hparent : b.parentHash = a.hash) (hc : H c) (hcovers : h.Covers c) :
    (h.append b).Covers c := by
  have ha : a ∈ h.history := mem_of_mem_getLast? hlatest
  obtain ⟨oldest, rest, hsplit⟩ := exists_cons_of_ne_nil (ne_nil_of_mem ha)
  have hnum : Contiguous BlockHeader.number (h.history ++ [b]) := by
    refine hl.contiguous.concat fun x hx => ?_
    cases hlatest.symm.trans hx
    exact htree.number b a hb (hl.headers a ha) hparent
  have hup : ∀ x ∈ rest ++ [b], oldest.number < x.number := by
    rw [hsplit, cons_append] at hnum
    exact (pairwise_cons.mp hnum.pairwise).1
  have hold : h.oldest = some oldest := by rw [BlockHistory.oldest, hsplit, List.head?_cons]
  unfold append Covers BlockHistory.oldest
  dsimp only
  split_ifs
  · -- the oldest block is dropped
    have htail : (h.history ++ [b]).tail = rest ++ [b] := by rw [hsplit]; rfl
    rw [htail]
    rcases hcovers with ⟨x, hx, hhash⟩ | hbelow
    · rw [hsplit] at hx
      rcases mem_cons.mp hx with rfl | hx
      · have hsame := (htree.same x c (hl.headers x (by rw [hsplit]; simp)) hc hhash).1
        exact .inr fun y hy => hsame ▸ hup y (mem_of_mem_head? hy)
      · exact .inl ⟨x, mem_append_left _ hx, hhash⟩
    · have hlt := hbelow oldest hold
      exact .inr fun y hy => hlt.trans (hup y (mem_of_mem_head? hy))
  · rcases hcovers with ⟨x, hx, hhash⟩ | hbelow
    · exact .inl ⟨x, mem_append_left _ hx, hhash⟩
    · right
      rw [hsplit, cons_append, List.head?_cons]
      intro y hy
      cases hy
      exact hbelow _ hold

lemma Linked.parent_of_target (htree : ForkTree H) (hl : Linked H h) (hb : H b)
    {post : List BlockHeader} (hsplit : h.history = pre ++ p :: x :: post) (hhash : x.hash = b.hash)
      :
    p.hash = b.parentHash := by
  have hx : x ∈ h.history := by rw [hsplit]; simp
  have hsame := (htree.same x b (hl.headers x hx) hb hhash).2.1
  have hchained := hl.chained
  rw [hsplit, Chained] at hchained
  have hright := (isChain_append.mp hchained).2.1
  have hlink := (isChain_cons_cons.mp hright).1.1
  rw [← hsame, hlink]

lemma split_of_mem_tail (hx : x ∈ h.history.tail) :
    ∃ pre p post, h.history = pre ++ p :: x :: post := by
  obtain ⟨front, post, htail⟩ := append_of_mem hx
  cases hhistory : h.history with
  | nil =>
    rw [hhistory] at hx
    cases hx
  | cons first =>
    rw [hhistory, tail_cons] at htail
    subst htail
    rcases eq_nil_or_concat front with rfl | ⟨front, p, rfl⟩
    · exact ⟨[], first, post, rfl⟩
    · exact ⟨first :: front, p, post, by simp⟩

section
variable (htree : ForkTree H) (hl : Linked H h) (hb : H b) (hfull : ¬ b.isPartial)
  (hrev : b.revert)
include htree hl hb hfull hrev

/-- A revert that is possible is expected, and cuts the history back. -/
lemma Linked.push_revert (hcan : h.CanRevertTo b) : h.determineBlockPosition b = .ok .nextExpected ∧
      ∃ h' pre p, h.push b = (.ok (), h') ∧ h'.history = pre ++ [p, b] := by
  obtain ⟨⟨x, hx, hhash⟩, hunknown⟩ := hcan
  obtain ⟨pre, p, post, hsplit⟩ := split_of_mem_tail hx
  have hparent := hl.parent_of_target htree hb hsplit hhash
  rw [append_cons] at hsplit
  have htarget := hl.toInTree.target htree hb hsplit hhash
  have hlast : (pre ++ [p]).getLast? = some p := List.getLast?_concat
  constructor
  · rw [htarget.position htree hrev fun _ => hfull, if_neg hunknown]
  · have hpush := htarget.push_parent htree hrev (fun _ => hfull) hunknown hlast hparent
    obtain ⟨pre', hpre'⟩ := append_two
      (h := ⟨pre ++ [p], remembered h.reverts (x :: post), h.size⟩) hlast hl.space b
    exact ⟨_, pre', p, hpush, hpre'⟩

/-- The latest block again, as a revert, is put back where it was. -/
lemma Linked.push_latest_revert (hhistory : h.history = pre ++ [p, b]) :
    ∃ h' pre' p', h.push b = (.ok (), h') ∧ h'.history = pre' ++ [p', b] := by
  by_cases hknown : h.reverts.contains b.hash
  · rw [append_cons] at hhistory
    have htarget := hl.toInTree.target htree hb hhistory rfl
    refine ⟨h, pre, p, htarget.push_remembered htree hrev (fun _ => hfull) hknown, ?_⟩
    rw [hhistory, ← append_cons]
  · have htail : b ∈ h.history.tail := by
      rw [hhistory]
      cases pre with
      | nil => exact mem_singleton_self b
      | cons => simp
    exact (hl.push_revert htree hb hfull hrev ⟨⟨b, htail, rfl⟩, hknown⟩).2

end

end BlockHistory

/-- Messages with this header end a catch-up. -/
def BlockHistory.expects (h : BlockHistory) (b : BlockHeader) : Bool :=
  match h.determineBlockPosition b with
  | .ok .nextExpected | .ok .nextPartial => true
  | _ => false

/-- The history is already at this block, or above it. -/
def BlockHistory.Late (h : BlockHistory) (b : BlockHeader) : Prop :=
  h.determineBlockPosition b = .ok .latest ∨ h.determineBlockPosition b = .ok .delayed

lemma BlockHistory.Late.expects {h : BlockHistory} {b : BlockHeader} (hlater : h.Late b) :
    h.expects b = false := by
  unfold BlockHistory.expects
  rcases hlater with hpos | hpos
  · rw [hpos]
  · rw [hpos]

lemma header_mergeAll (msgs : List (StateSyncMessage BlockHeader)) :
    (mergeAll msgs).map (·.header) = (msgs.map (·.header)).getLast? := by
  have hfold : ∀ (rest : List (StateSyncMessage BlockHeader)) msg,
      some (rest.foldl StateSyncMessage.merge msg).header =
        (msg.header :: rest.map (·.header)).getLast? := by
    intro rest
    induction rest with
    | nil => exact fun _ => rfl
    | cons _ _ ih =>
      intro msg
      rw [foldl_cons, ih, map_cons, List.getLast?_cons_cons]
      rfl
  cases msgs with
  | nil => rfl
  | cons msg rest => exact hfold rest msg

namespace SynchronizerStream
variable {h : BlockHistory} {s s' : SynchronizerStream} {timing : Timing} {n : Nat}
  {done left rest : List BlockHeader}

def takenFrom (h : BlockHistory) : Nat → List Received → List BlockHeader
  | n + 1, .msg m :: rx => m.header :: if h.expects m.header then [] else takenFrom h n rx
  | _, _ => []

/-- The headers of the messages that a stream takes in a round in which no stream is ahead. -/
def taken (s : SynchronizerStream) (h : BlockHistory) (timing : Timing) : List BlockHeader :=
  match s.state with
  | .started | .ready _ => takenFrom h (min timing.arriving 1) s.rx
  | .delayed _ | .stale _ => takenFrom h timing.arriving s.rx
  | .advanced _ | .ended _ => []

def Delivers (s : SynchronizerStream) (headers : List BlockHeader) : Prop :=
  ∃ msgs : List (StateSyncMessage BlockHeader),
    s.rx = msgs.map Received.msg ∧ msgs.map (·.header) = headers

section
variable {old new : List (StateSyncMessage BlockHeader)} {m : StateSyncMessage BlockHeader}

section
variable (hlater : ∀ m ∈ old, h.Late m.header)
include hlater

lemma receive_late (hn : n ≤ old.length ∨ new = []) : receive h n ((old ++ new).map Received.msg) =
      .ok (.messages (old.take n), (old.drop n ++ new).map Received.msg) ∧
    takenFrom h n ((old ++ new).map Received.msg) = (old.take n).map (·.header) := by
  induction old generalizing n with
  | nil =>
    cases n with
    | zero => exact ⟨rfl, rfl⟩
    | succ =>
      rcases hn with hn | rfl
      · cases hn
      · exact ⟨rfl, rfl⟩
  | cons m _ ih =>
    cases n with
    | zero => exact ⟨rfl, rfl⟩
    | succ =>
      obtain ⟨hrest, htaken⟩ := ih (fun m' hm' => hlater m' (mem_cons_of_mem m hm'))
        (hn.imp_left Nat.le_of_succ_le_succ)
      rw [cons_append, map_cons, takenFrom, (hlater m mem_cons_self).expects, htaken, receive,
        hrest]
      rcases hlater m mem_cons_self with hpos | hpos
      · rw [hpos]
        exact ⟨rfl, rfl⟩
      · rw [hpos]
        exact ⟨rfl, rfl⟩

lemma receive_next
    (hnext : h.determineBlockPosition m.header = .ok .nextExpected) (hn : old.length < n) :
    receive h n ((old ++ m :: new).map Received.msg) =
      .ok (.messages (old ++ [m]), new.map Received.msg) := by
  induction old generalizing n with
  | nil =>
    obtain ⟨n, rfl⟩ : ∃ k, n = k + 1 := ⟨n - 1, by simp at hn; omega⟩
    rw [nil_append, map_cons, receive, hnext]
    rfl
  | cons m' _ ih =>
    obtain ⟨n, rfl⟩ : ∃ k, n = k + 1 := ⟨n - 1, by omega⟩
    have hrest := ih (fun m hm => hlater m (mem_cons_of_mem m' hm)) (Nat.lt_of_succ_lt_succ hn)
    rw [cons_append, map_cons, receive, hrest]
    rcases hlater m' mem_cons_self with hpos | hpos
    · rw [hpos]
      rfl
    · rw [hpos]
      rfl

lemma mem_takenFrom_next (hn : old.length < n) :
    m.header ∈ takenFrom h n ((old ++ m :: new).map Received.msg) := by
  induction old generalizing n with
  | nil =>
    obtain ⟨n, rfl⟩ : ∃ k, n = k + 1 := ⟨n - 1, by simp at hn; omega⟩
    exact mem_cons_self
  | cons m' _ ih =>
    obtain ⟨n, rfl⟩ : ∃ k, n = k + 1 := ⟨n - 1, by omega⟩
    have hrest := ih (fun m hm => hlater m (mem_cons_of_mem m' hm)) (Nat.lt_of_succ_lt_succ hn)
    rw [cons_append, map_cons, takenFrom, (hlater m' mem_cons_self).expects]
    exact mem_cons_of_mem _ hrest

end

/-- One message at most, from a stream that delivers messages only. -/
lemma recv_cases (timing : Timing) (hrx : s.Delivers rest) :
    (s.recv timing = (none, s) ∧ ∀ h, takenFrom h (min timing.arriving 1) s.rx = []) ∨
      ∃ m rest', rest = m.header :: rest' ∧
        s.recv timing = (some (.msg m), { s with rx := s.rx.tail }) ∧
        (∀ h, m.header ∈ takenFrom h (min timing.arriving 1) s.rx) ∧
        Delivers { s with rx := s.rx.tail } rest' := by
  obtain ⟨msgs, hmsgs, hheaders⟩ := hrx
  unfold recv
  by_cases hn : timing.arriving = 0
  · left
    rw [if_pos hn, hn]
    exact ⟨rfl, fun h => by simp [takenFrom]⟩
  rw [if_neg hn]
  cases msgs with
  | nil =>
    left
    have hnil : s.rx = [] := hmsgs
    constructor
    · obtain ⟨id, state, error, rx⟩ := s
      cases hnil
      rfl
    · intro h
      rw [hnil]
      simp [takenFrom]
  | cons m msgs =>
    right
    have hone : min timing.arriving 1 = 1 := by omega
    refine ⟨m, msgs.map (·.header), by rw [← hheaders, map_cons], ?_, ?_, msgs, ?_, rfl⟩
    · rw [hmsgs]
      rfl
    · intro h
      rw [hone, hmsgs]
      exact mem_cons_self
    · rw [hmsgs]
      rfl

end

section
variable {b : BlockHeader} {overdue : Bool}

lemma transition_next (hnext : h.determineBlockPosition b = .ok .nextExpected) :
    s.transition b h overdue = .ok { s with state := .ready b } := by
  unfold transition
  rw [hnext]

lemma transition_late (hlater : h.Late b) (overdue : Bool) :
    ∃ s', s.transition b h overdue = .ok s' ∧ s'.rx = s.rx ∧ s'.extractorId = s.extractorId ∧
      (s'.isStale ∧ overdue ∨ s'.state = .delayed b) := by
  cases overdue with
  | true =>
    refine ⟨(s.checkAndTransitionToStaleIfNeeded true (some b)).2, ?_, rfl, rfl, .inl ⟨rfl, rfl⟩⟩
    rcases hlater with hpos | hpos <;> simp [transition, hpos, checkAndTransitionToStaleIfNeeded]
  | false =>
    refine ⟨{ s with state := .delayed b }, ?_, rfl, rfl, .inr rfl⟩
    rcases hlater with hpos | hpos <;> simp [transition, hpos, checkAndTransitionToStaleIfNeeded]

end

/-- The state of a stream that has delivered the headers `done` and not yet those `left` of the
chain. -/
def StateAt (done left : List BlockHeader) : SynchronizerState → Prop
  | .ready b => left = [] ∧ done.getLast? = some b
  | .delayed b => done.getLast? = some b
  | .stale _ => True
  | _ => False

/-- What a stream can do in a round: it takes some of the messages that are left, or all of them
and the next one. -/
inductive Progress (s : SynchronizerStream) (h : BlockHistory) (timing : Timing)
    (done left rest : List BlockHeader) (s' : SynchronizerStream) : Prop
  | behind {l left' : List BlockHeader} (hleft : left = l ++ left')
      (hrx : s'.Delivers (left' ++ rest)) (htaken : s.taken h timing = l)
      (hstate : s'.isStale ∧ (timing.overdue ∨ s.isStale) ∨
        ∃ b, s'.state = .delayed b ∧ (done ++ l).getLast? = some b ∧
          (l = [] → s.getCurrentHeader = some b))
  | reached {next : BlockHeader} {rest' : List BlockHeader} (hrest : rest = next :: rest')
      (hrx : s'.Delivers rest') (htaken : next ∈ s.taken h timing) (hstate : s'.state = .ready next)

section
variable (errorText : SynchronizerError → String) (hnext : ∀ next ∈ rest.head?,
  next ∈ s.taken h timing → h.determineBlockPosition next = .ok .nextExpected)
include hnext

lemma progress_ready {b : BlockHeader} (hstate : s.state = .ready b)
    (hdone : done.getLast? = some b) (hrx : s.Delivers rest) :
    ∃ msg s', s.tryAdvance errorText h false timing = .ok (msg, s') ∧
      s'.extractorId = s.extractorId ∧ Progress s h timing done [] rest s' := by
  have htaken : s.taken h timing = takenFrom h (min timing.arriving 1) s.rx := by
    unfold taken
    rw [hstate]
  have hadvance : s.tryAdvance errorText h false timing =
      s.tryRecvNextExpected errorText h b timing := by
    unfold tryAdvance
    rw [hstate]
  rw [hadvance, tryRecvNextExpected]
  rcases recv_cases timing hrx with ⟨hrecv, hnone⟩ | ⟨m, rest', hrest, hrecv, hmem, hrx'⟩
  · rw [hrecv]
    have hnil : ([] : List BlockHeader) = [] ++ [] := rfl
    refine ⟨_, _, rfl, rfl, .behind hnil hrx (htaken.trans (hnone h)) ?_⟩
    exact .inr ⟨b, rfl, by rw [append_nil, hdone], fun _ => by rw [getCurrentHeader, hstate]⟩
  · have hmem' : m.header ∈ s.taken h timing := htaken ▸ hmem h
    have hpos := hnext m.header (by rw [hrest]; rfl) hmem'
    rw [hrecv]
    dsimp only
    rw [transition_next hpos]
    exact ⟨_, _, rfl, rfl, .reached hrest hrx' hmem' rfl⟩

omit hnext in
lemma tryCatchUp_eq {msgs : List (StateSyncMessage BlockHeader)} {rx : List Received}
    (hreceive : receive h timing.arriving s.rx = .ok (.messages msgs, rx)) :
    s.tryCatchUp errorText h timing = match mergeAll msgs with
      | some msg => do
        let s ← { s with rx }.transition msg.header h timing.overdue
        .ok (some msg, s)
      | none => .ok
        (none, ({ s with rx }.checkAndTransitionToStaleIfNeeded timing.overdue none).2) := by
  unfold tryCatchUp
  rw [hreceive]
  rfl

lemma progress_catchUp (hstate : (∃ b, s.state = .delayed b ∧ done.getLast? = some b) ∨ s.isStale)
    (hrx : s.Delivers (left ++ rest)) (hlater : ∀ b ∈ left, h.Late b) :
    ∃ msg s', s.tryCatchUp errorText h timing = .ok (msg, s') ∧
      s'.extractorId = s.extractorId ∧ Progress s h timing done left rest s' := by
  obtain ⟨msgs, hmsgs, hheaders⟩ := hrx
  obtain ⟨old, new, rfl, hold, hnew⟩ := map_eq_append_iff.mp hheaders
  have hold' : ∀ m ∈ old, h.Late m.header := fun m hm =>
    hlater _ (hold ▸ mem_map_of_mem (f := (·.header)) hm)
  have htaken : s.taken h timing = takenFrom h timing.arriving s.rx := by
    unfold taken
    rcases hstate with ⟨b, hstate, -⟩ | hstale
    · rw [hstate]
    · unfold isStale at hstale
      split at hstale
      · rename_i heq
        rw [heq]
      · cases hstale
  by_cases hn : timing.arriving ≤ old.length ∨ new = []
  · obtain ⟨hreceive, htook⟩ := receive_late hold' hn
    rw [← hmsgs] at hreceive
    rw [tryCatchUp_eq errorText hreceive]
    have htake : s.taken h timing = left.take timing.arriving := by
      rw [htaken, hmsgs, htook, ← hold, map_take]
    have hleft : left = left.take timing.arriving ++ left.drop timing.arriving :=
      (take_append_drop _ _).symm
    have hrx' : (old.drop timing.arriving ++ new).map (·.header) =
        left.drop timing.arriving ++ rest := by
      rw [map_append, map_drop, hold, hnew]
    have hheaders := header_mergeAll (old.take timing.arriving)
    rw [map_take, hold] at hheaders
    cases hmerged : mergeAll (old.take timing.arriving) with
    | none =>
      rw [hmerged] at hheaders
      have hnil : left.take timing.arriving = [] := List.getLast?_eq_none_iff.mp hheaders.symm
      refine ⟨_, _, rfl, ?_, .behind hleft ⟨_, ?_, hrx'⟩ htake ?_⟩
      · unfold checkAndTransitionToStaleIfNeeded
        split_ifs <;> rfl
      · unfold checkAndTransitionToStaleIfNeeded
        split_ifs <;> rfl
      · rw [hnil, append_nil]
        unfold checkAndTransitionToStaleIfNeeded
        split_ifs with hoverdue
        · exact .inl ⟨rfl, .inl hoverdue⟩
        · rcases hstate with ⟨b, hdelayed, hdone⟩ | hstale
          · exact .inr ⟨b, hdelayed, hdone, fun _ => by rw [getCurrentHeader, hdelayed]⟩
          · exact .inl ⟨hstale, .inr hstale⟩
    | some msg =>
      rw [hmerged] at hheaders
      have hlast : (left.take timing.arriving).getLast? = some msg.header := hheaders.symm
      have hmem : msg.header ∈ left := mem_of_mem_take (mem_of_mem_getLast? hlast)
      obtain ⟨s', htransition, hsrx, hid, hcases⟩ := transition_late
        (s := { s with rx := (old.drop timing.arriving ++ new).map Received.msg })
        (hlater _ hmem) timing.overdue
      dsimp only
      rw [htransition]
      refine ⟨_, s', rfl, hid, .behind hleft ⟨_, hsrx, hrx'⟩ htake ?_⟩
      rcases hcases with ⟨hstale, hoverdue⟩ | hdelayed
      · exact .inl ⟨hstale, .inl hoverdue⟩
      · refine .inr ⟨_, hdelayed, by rw [List.getLast?_append, hlast, Option.some_or], ?_⟩
        intro hnil
        rw [hnil] at hlast
        cases hlast
  · obtain ⟨hlt, hne⟩ := not_or.mp hn
    obtain ⟨m, new, rfl⟩ := exists_cons_of_ne_nil hne
    have hrest : rest = m.header :: new.map (·.header) := by rw [← hnew, map_cons]
    have hmem : m.header ∈ s.taken h timing := by
      rw [htaken, hmsgs]
      exact mem_takenFrom_next hold' (Nat.lt_of_not_le hlt)
    have hpos := hnext m.header (by rw [hrest]; rfl) hmem
    have hreceive : receive h timing.arriving s.rx = .ok (.messages (old ++ [m]), _) :=
      hmsgs ▸ receive_next hold' hpos (Nat.lt_of_not_le hlt)
    rw [tryCatchUp_eq errorText hreceive]
    have hheaders := header_mergeAll (old ++ [m])
    rw [map_append, map_singleton, List.getLast?_concat] at hheaders
    obtain ⟨msg, hmerged, hmsg⟩ := Option.map_eq_some_iff.mp hheaders
    rw [hmerged]
    dsimp only
    rw [hmsg, transition_next hpos]
    exact ⟨_, _, rfl, rfl, .reached hrest ⟨new, rfl, rfl⟩ hmem rfl⟩

lemma exists_progress (hstate : StateAt done left s.state) (hrx : s.Delivers (left ++ rest))
    (hlater : ∀ b ∈ left, h.Late b) :
    ∃ msg s', s.tryAdvance errorText h false timing = .ok (msg, s') ∧
      s'.extractorId = s.extractorId ∧ Progress s h timing done left rest s' := by
  cases hs : s.state with
  | ready =>
    rw [hs] at hstate
    obtain ⟨rfl, hdone⟩ := hstate
    exact progress_ready errorText hnext hs hdone hrx
  | delayed b =>
    rw [hs] at hstate
    unfold tryAdvance
    rw [hs]
    exact progress_catchUp errorText hnext (.inl ⟨b, hs, hstate⟩) hrx hlater
  | stale =>
    unfold tryAdvance
    rw [hs]
    exact progress_catchUp errorText hnext (.inr (by unfold isStale; rw [hs])) hrx hlater
  | started | advanced b | ended r =>
    rw [hs] at hstate
    cases hstate

end
end SynchronizerStream

end Tycho
