import Tycho.Client.StreamProgress
import Tycho.Replay.Chain

/-! Extractors that report the same blocks and reverts, some of them later than others. -/
namespace Tycho
open Collections Replay List HashSet SynchronizerStream BlockSynchronizer BlockHeader

/-- The headers of full blocks of one fork tree: each block follows the header before it, and each
revert is to a block of the chain so far, at a depth below the size of the history. -/
structure Reported (H : BlockHeader → Prop) (reported : List BlockHeader) : Prop where
  tree : ForkTree H
  headers : ∀ b ∈ reported, H b
  full : ∀ b ∈ reported, ¬ b.isPartial
  follows : ∀ l₁ a b l₂, reported = l₁ ++ a :: b :: l₂ → b.revert = false → b.parentHash = a.hash
  reverts : ∀ l₁ b l₂, reported = l₁ ++ b :: l₂ → l₁ ≠ [] → b.revert →
    (∃ x ∈ chainOf number revert l₁, x.hash = b.hash) ∧ ((chainOf number revert l₁).filter
        fun x => b.number < x.number).length < BLOCK_HISTORY_SIZE

variable {m : BlockHeader}

variable {streams : List SynchronizerStream} {x next : BlockHeader} {s : SynchronizerStream}
  {h : BlockHistory} {rest' : List BlockHeader}

namespace BlockSynchronizer
variable {b b' : BlockSynchronizer} {timing : String → Timing}

def Alive (b : BlockSynchronizer) : Prop := b.error = none ∧ ∀ s ∈ b.syncStreams, ¬ s.hasEnded

/-- In this round a revert is taken by all streams or by none, as the last message, and it can be
followed. While the last message of a stream is a revert, no stream is stale or becomes stale. -/
structure InStep (b : BlockSynchronizer) (timing : String → Timing) : Prop where
  together : ∀ s ∈ b.syncStreams, ∀ header ∈ s.taken b.blockHistory (timing s.extractorId),
    header.revert → b.blockHistory.CanRevertTo header ∧ ∀ s' ∈ b.syncStreams,
        (s'.taken b.blockHistory (timing s'.extractorId)).getLast? = some header
  awake : ∀ s ∈ b.syncStreams, s.getCurrentHeader.any (·.revert) →
    ∀ s' ∈ b.syncStreams, ¬ s'.isStale ∧ ¬ (timing s'.extractorId).overdue

instance (b : BlockSynchronizer) (timing : String → Timing) : Decidable (InStep b timing) :=
  decidable_of_iff (_ ∧ _) ⟨fun h => ⟨h.1, h.2⟩, fun h => ⟨h.together, h.awake⟩⟩

section
variable {headers : List BlockHeader} {m : BlockHeader}

lemma maxByNumber_spec (hmax : maxByNumber headers = some m) :
    m ∈ headers ∧ ∀ x ∈ headers, x.number ≤ m.number := by
  have hfold : ∀ (rest : List BlockHeader) (first : BlockHeader),
      let m := rest.foldl (fun best b => if best.number ≤ b.number then b else best) first
      m ∈ first :: rest ∧ ∀ x ∈ first :: rest, x.number ≤ m.number := by
    intro rest
    induction rest with
    | nil => exact fun first => ⟨mem_singleton_self first, by simp⟩
    | cons next _ ih =>
      intro first
      rw [foldl_cons]
      obtain ⟨hmem, hall⟩ := ih (if first.number ≤ next.number then next else first)
      have hbest := hall _ mem_cons_self
      split_ifs at hmem hall hbest ⊢ with hle
      · refine ⟨mem_cons_of_mem _ hmem, forall_mem_cons.mpr ⟨?_, hall⟩⟩
        exact hle.trans hbest
      · obtain ⟨-, hrest⟩ := forall_mem_cons.mp hall
        refine ⟨?_, forall_mem_cons.mpr ⟨hbest, forall_mem_cons.mpr ⟨?_, hrest⟩⟩⟩
        · rcases mem_cons.mp hmem with heq | hmem
          · rw [heq]
            exact mem_cons_self
          · exact mem_cons_of_mem _ (mem_cons_of_mem _ hmem)
        · omega
  cases headers with
  | nil => cases hmax
  | cons first rest =>
    cases hmax
    exact hfold rest first

lemma exists_maxByNumber (hm : m ∈ headers) : ∃ best, maxByNumber headers = some best := by
  cases headers with
  | nil => cases hm
  | cons => exact ⟨_, rfl⟩

lemma maxByNumber_eq (hm : m ∈ headers) (hall : ∀ x ∈ headers, x = m ∨ x.number < m.number) :
    maxByNumber headers = some m := by
  obtain ⟨best, hbest⟩ := exists_maxByNumber hm
  obtain ⟨hmem, hmax⟩ := maxByNumber_spec hbest
  rcases hall best hmem with rfl | hlt
  · exact hbest
  · have hle := hmax m hm
    omega

end

lemma mem_currentHeaders :
    m ∈ currentHeaders streams ↔ ∃ s ∈ streams, s.getCurrentHeader = some m :=
  mem_filterMap

section
variable {run rest done left : List BlockHeader} {s : SynchronizerStream} {next : BlockHeader}

/-- A stream that has delivered the headers `done` of the current chain, and not yet the headers
`left`. If the chain starts with a revert, then it has delivered that one. -/
structure At (run rest : List BlockHeader) (s : SynchronizerStream)
    (done left : List BlockHeader) : Prop where
  split : run = done ++ left
  delivers : s.Delivers (left ++ rest)
  state : SynchronizerStream.StateAt done left s.state
  passed : ∀ x ∈ run.head?, x.revert → done ≠ []

section
variable (hat : At run rest s done left)
include hat

lemma At.not_ended : s.hasEnded = false := by
  have hstate := hat.state
  unfold hasEnded
  split
  · rename_i heq
    rw [heq] at hstate
    cases hstate
  · rfl

lemma At.not_advanced : s.isAdvanced = false := by
  have hstate := hat.state
  unfold isAdvanced
  split
  · rename_i heq
    rw [heq] at hstate
    cases hstate
  · rfl

/-- The header of an active stream is the last one that it has delivered. -/
lemma At.getLast?_done (hm : s.getCurrentHeader = some m) : done.getLast? = some m := by
  have hstate := hat.state
  unfold getCurrentHeader at hm
  split at hm
  · rename_i heq
    rw [heq] at hstate
    cases hm
    exact hstate.2
  · rename_i heq
    rw [heq] at hstate
    cases hm
    exact hstate
  · rename_i heq
    rw [heq] at hstate
    cases hstate
  · cases hm

lemma At.plain_left (hplain : ∀ x ∈ run.tail, x.revert = false) : ∀ x ∈ left, x.revert = false := by
  intro x hx
  cases hdone : done with
  | nil =>
    cases hrun : run with
    | nil =>
      have hsplit := hat.split
      rw [hrun, hdone, nil_append] at hsplit
      rw [← hsplit] at hx
      cases hx
    | cons =>
      have hmem : x ∈ run := hat.split ▸ mem_append_right done hx
      rw [hrun] at hmem
      rcases mem_cons.mp hmem with rfl | htail
      · have hpassed := hat.passed x (by rw [hrun]; rfl)
        rw [hdone] at hpassed
        simpa using hpassed
      · exact hplain x (by rw [hrun]; exact htail)
  | cons _ done' =>
    apply hplain
    rw [hat.split, hdone]
    exact mem_append_right done' hx

omit hat in
/-- A stream that has not caught up has no message ready. -/
lemma not_ready_of_behind {s' : SynchronizerStream} {P : Prop} {Q : BlockHeader → Prop}
    (hstate : s'.isStale ∧ P ∨ ∃ x, s'.state = .delayed x ∧ Q x) (x : BlockHeader) :
    s'.state ≠ .ready x := by
  intro hx
  rcases hstate with ⟨hstale, -⟩ | ⟨y, hy, -⟩
  · rw [isStale, hx] at hstale
    cases hstale
  · rw [hx] at hy
    cases hy

/-- A stream that has taken some of what was left. -/
lemma At.behind {s' : SynchronizerStream} {P : Prop} {Q : BlockHeader → Prop}
    {l left' : List BlockHeader} (hleft : left = l ++ left') (hrx : s'.Delivers (left' ++ rest))
    (hstate : s'.isStale ∧ P ∨ ∃ x, s'.state = .delayed x ∧ (done ++ l).getLast? = some x ∧ Q x) :
    At run rest s' (done ++ l) left' := by
  refine ⟨by rw [hat.split, hleft, append_assoc], hrx, ?_, ?_⟩
  · rcases hstate with ⟨hstale, -⟩ | ⟨x, hdelayed, hlast, -⟩
    · unfold isStale at hstale
      split at hstale
      · rename_i heq
        rw [heq]
        trivial
      · cases hstale
    · rw [hdelayed]
      exact hlast
  · intro x hx hrev hnil
    exact hat.passed x hx hrev (append_eq_nil_iff.mp hnil).1

end

/-- The chain of a stream that is not ready gets longer. -/
lemma At.extend (hat : At run (next :: rest) s done left) (hne : run ≠ [])
    (hready : ∀ x, s.state ≠ .ready x) : At (run ++ [next]) rest s done (left ++ [next]) := by
  refine ⟨by rw [hat.split, append_assoc], ?_, ?_, ?_⟩
  · rw [append_assoc]
    exact hat.delivers
  · have hstate := hat.state
    cases hs : s.state with
    | ready x => exact absurd hs (hready x)
    | delayed =>
      rw [hs] at hstate
      exact hstate
    | stale => trivial
    | started | advanced x | ended r =>
      rw [hs] at hstate
      cases hstate
  · intro x hx
    rw [List.head?_append_of_ne_nil _ hne] at hx
    exact hat.passed x hx

lemma at_end (hrx : s.Delivers rest) (hlast : run.getLast? = some next)
    (hstate : s.state = .ready next) : At run rest s run [] := by
  refine ⟨(append_nil run).symm, hrx, ?_, ?_⟩
  · rw [hstate]
    exact ⟨rfl, hlast⟩
  · rintro x - - rfl
    cases hlast

end

section
variable {H : BlockHeader → Prop} {reported run rest : List BlockHeader}
  {errorText : SynchronizerError → String}

/-- The history is at the end of `run`, a part of the reported headers without a revert, except
perhaps at its start. All streams are in this part, and one of them is at its end. -/
structure Inv (H : BlockHeader → Prop) (reported run rest : List BlockHeader)
    (b : BlockSynchronizer) : Prop where
  error : b.error = none
  suffix : ∃ old, reported = old ++ (run ++ rest)
  linked : b.blockHistory.Linked H
  latest : ∃ last, run.getLast? = some last ∧ b.blockHistory.latest = some last
  covered : ∀ x ∈ run, b.blockHistory.Covers x
  plain : ∀ x ∈ run.tail, x.revert = false
  numbers : Contiguous number run
  below : ∀ x, run = [x] → x.revert → ∃ pre p, b.blockHistory.history = pre ++ [p, x]
  streams : ∀ s ∈ b.syncStreams, ∃ done left, At run rest s done left
  front : ∃ s ∈ b.syncStreams, At run rest s run []

lemma Inv.alive (hinv : Inv H reported run rest b) : b.Alive := by
  refine ⟨hinv.error, ?_⟩
  intro s hs
  obtain ⟨done, left, hat⟩ := hinv.streams s hs
  simp [hat.not_ended]

def Advances (b : BlockSynchronizer) (timing : String → Timing) (run rest : List BlockHeader)
    (streams : List SynchronizerStream) : Prop :=
  List.Forall₂ (fun s s' => ∀ done left, At run rest s done left →
    s.Progress b.blockHistory (timing s.extractorId) done left rest s') b.syncStreams streams

variable (hreport : Reported H reported) (hinv : Inv H reported run rest b)
include hreport hinv

lemma Inv.header_of_mem (hx : x ∈ run ++ rest) : H x ∧ ¬ x.isPartial := by
  obtain ⟨old, hold⟩ := hinv.suffix
  have hmem : x ∈ reported := by
    rw [hold]
    exact mem_append_right old hx
  exact ⟨hreport.headers x hmem, hreport.full x hmem⟩

lemma Inv.late (hx : x ∈ run) (hrev : x.revert = false) : b.blockHistory.Late x := by
  obtain ⟨hheader, hfull⟩ := hinv.header_of_mem hreport (mem_append_left rest hx)
  obtain ⟨last, -, hlatest⟩ := hinv.latest
  exact hinv.linked.position_covered hreport.tree hlatest hheader hfull hrev (hinv.covered x hx)

lemma Inv.parent_next {last : BlockHeader} (hnext : next ∈ rest.head?)
    (hlast : run.getLast? = some last) (hrev : next.revert = false) :
    next.parentHash = last.hash := by
  obtain ⟨old, hold⟩ := hinv.suffix
  obtain ⟨front, rfl⟩ := List.getLast?_eq_some_iff.mp hlast
  obtain ⟨rest', rfl⟩ := List.head?_eq_some_iff.mp hnext
  exact hreport.follows (old ++ front) last next rest' (by rw [hold]; simp) hrev

lemma Inv.position_next (hstep : InStep b timing) (hs : s ∈ b.syncStreams)
    (hnext : next ∈ rest.head?) (htaken : next ∈ s.taken b.blockHistory (timing s.extractorId)) :
    b.blockHistory.determineBlockPosition next = .ok .nextExpected := by
  obtain ⟨last, hlast, hlatest⟩ := hinv.latest
  cases hrev : next.revert with
  | false =>
    exact BlockHistory.position_next hlatest (hinv.parent_next hreport hnext hlast hrev)
  | true =>
    obtain ⟨hheader, hfull⟩ :=
      hinv.header_of_mem hreport (mem_append_right run (mem_of_mem_head? hnext))
    have hcan := (hstep.together s hs next htaken hrev).1
    exact (hinv.linked.push_revert hreport.tree hheader hfull hrev hcan).1

/-- All streams can be advanced. -/
lemma Inv.exists_round (errorText : SynchronizerError → String) (hstep : InStep b timing) :
    ∃ results, b.syncStreams.mapM (advanceStream errorText b.blockHistory
        (b.syncStreams.any isAdvanced) timing) = .ok results ∧
      Advances b timing run rest (results.map Prod.snd) := by
  have hnone : b.syncStreams.any isAdvanced = false := by
    rw [any_eq_false]
    intro s hs
    obtain ⟨done, left, hat⟩ := hinv.streams s hs
    simp [hat.not_advanced]
  rw [hnone]
  have hadvances : ∀ s ∈ b.syncStreams, ∀ done left, At run rest s done left → ∃ r,
      advanceStream errorText b.blockHistory false timing s = .ok r ∧
        s.Progress b.blockHistory (timing s.extractorId) done left rest r.2 := by
    intro s hs done left hat
    have hlater : ∀ x ∈ left, b.blockHistory.Late x := by
      intro x hx
      have hrun : x ∈ run := hat.split ▸ mem_append_right done hx
      exact hinv.late hreport hrun (hat.plain_left hinv.plain x hx)
    obtain ⟨msg, s', hadvance, -, hprogress⟩ := exists_progress errorText
      (fun next hnext htaken => hinv.position_next hreport hstep hs hnext htaken) hat.state
        hat.delivers hlater
    refine ⟨(msg.map fun msg => (s.extractorId, msg), s'), ?_, hprogress⟩
    unfold advanceStream
    rw [hat.not_ended, hadvance]
    rfl
  obtain ⟨results, hresults⟩ := mapM_isOk fun s hs => by
    obtain ⟨done, left, hat⟩ := hinv.streams s hs
    exact (hadvances s hs done left hat).imp fun _ hr => hr.1
  refine ⟨results, hresults, ?_⟩
  rw [Advances, forall₂_map_right_iff]
  have hall := (forall₂_and_left b.syncStreams results).mpr
    ⟨fun s hs => hs, forall₂_of_mapM_ok hresults⟩
  refine hall.imp ?_
  rintro s r ⟨hs, hr⟩ done left hat
  obtain ⟨r', hr', hprogress⟩ := hadvances s hs done left hat
  cases hr.symm.trans hr'
  exact hprogress

end

section
variable {H : BlockHeader → Prop} {reported run rest : List BlockHeader} {next : BlockHeader}
  {streams : List SynchronizerStream} {h' : BlockHistory}

section
variable (hat : ∀ s ∈ streams, ∃ done left, At run rest s done left)
include hat

lemma not_any_advanced : ¬ streams.any isAdvanced := by
  rw [Bool.not_eq_true, any_eq_false]
  intro s hs
  obtain ⟨done, left, hs⟩ := hat s hs
  simp [hs.not_advanced]

lemma checkStreams_eq : checkStreams streams = .ok () := by
  have hended : ¬ streams.any hasEnded := by
    rw [Bool.not_eq_true, any_eq_false]
    intro s hs
    obtain ⟨done, left, hs⟩ := hat s hs
    simp [hs.not_ended]
  unfold checkStreams
  rw [if_neg hended, ite_self]

lemma updateBlockHistory_eq
    (hmax : maxByNumber (currentHeaders streams) = some m) (hpush : h.push m = (.ok (), h')) :
    updateBlockHistory streams h = .ok (streams, h') := by
  unfold updateBlockHistory
  rw [if_neg (not_any_advanced hat), hmax]
  dsimp only
  rw [hpush]

lemma mem_of_mem_currentHeaders (hm : m ∈ currentHeaders streams) : m ∈ run := by
  obtain ⟨s, hs, hheader⟩ := mem_currentHeaders.mp hm
  obtain ⟨done, left, hat⟩ := hat s hs
  rw [hat.split]
  exact mem_append_left left (mem_of_mem_getLast? (hat.getLast?_done hheader))

end

variable (hreport : Reported H reported) (hstep : InStep b timing)
  (hadvance : Advances b timing run rest streams)
include hreport hadvance

/-- Some stream has taken the next block. -/
lemma Inv.advanced (hinv : Inv H reported run rest b) (hrest : rest = next :: rest')
    (hrev : next.revert = false)
    (hreached : ∃ s ∈ streams, s.state = .ready next ∧ s.Delivers rest') :
    ∃ h', updateBlockHistory streams b.blockHistory = .ok (streams, h') ∧
      Inv H reported (run ++ [next]) rest' ⟨streams, h', none⟩ := by
  subst hrest
  obtain ⟨last, hlast, hlatest⟩ := hinv.latest
  have hparent := hinv.parent_next hreport rfl hlast hrev
  obtain ⟨hheader, hfull⟩ := hinv.header_of_mem hreport (x := next) (by simp)
  have hne : run ≠ [] := by
    rintro rfl
    cases hlast
  have hnumber : next.number = last.number + 1 :=
    hreport.tree.number next last hheader (hinv.linked.headers last (mem_of_mem_getLast? hlatest))
      hparent
  have hnum : Contiguous number (run ++ [next]) := by
    refine hinv.numbers.concat fun a ha => ?_
    cases hlast.symm.trans ha
    exact hnumber
  have hend : (run ++ [next]).getLast? = some next := List.getLast?_concat
  have hat : ∀ s ∈ streams, ∃ done left, At (run ++ [next]) rest' s done left := by
    intro s' hs'
    obtain ⟨s, hs, hprogress⟩ := exists_of_mem_right hadvance hs'
    obtain ⟨done, left, hat⟩ := hinv.streams s hs
    cases hprogress done left hat with
    | behind hleft hrx _ hstate =>
      refine ⟨_, _, (hat.behind hleft hrx hstate).extend hne fun x hx => ?_⟩
      exact absurd hx (not_ready_of_behind hstate x)
    | reached heq hrx _ hready =>
      cases heq
      exact ⟨_, _, at_end hrx hend hready⟩
  obtain ⟨s, hs, hready, hrx⟩ := hreached
  have hmax : maxByNumber (currentHeaders streams) = some next := by
    apply maxByNumber_eq
    · exact mem_currentHeaders.mpr ⟨s, hs, by rw [getCurrentHeader, hready]⟩
    · intro x hx
      rcases mem_append.mp (mem_of_mem_currentHeaders hat hx) with hx | hx
      · right
        have hle := hinv.linked.number_le_latest hreport.tree hlatest
          (hinv.header_of_mem hreport (mem_append_left _ hx)).1 (hinv.covered x hx)
        omega
      · exact .inl (mem_singleton.mp hx)
  have hpush := BlockHistory.push_next hlatest hparent hrev
  have hlatest' := BlockHistory.latest_append hlatest next
  refine ⟨_, updateBlockHistory_eq hat hmax hpush, rfl, ?_, ?_, ⟨next, hend, hlatest'⟩, ?_, ?_,
    hnum, ?_, hat, s, hs, at_end hrx hend hready⟩
  · obtain ⟨old, hold⟩ := hinv.suffix
    exact ⟨old, by rw [hold, append_assoc]; rfl⟩
  · have hlinked := hinv.linked.push hreport.tree hheader hfull
    rwa [hpush] at hlinked
  · refine forall_mem_append.mpr ⟨fun x hx => ?_, forall_mem_singleton.mpr ?_⟩
    · exact hinv.linked.covers_append hreport.tree hlatest hheader hparent
        (hinv.header_of_mem hreport (mem_append_left _ hx)).1 (hinv.covered x hx)
    · exact .inl ⟨next, mem_of_mem_getLast? hlatest', rfl⟩
  · rw [tail_append_of_ne_nil hne]
    exact forall_mem_append.mpr ⟨hinv.plain, forall_mem_singleton.mpr hrev⟩
  · intro x hx hrev'
    obtain ⟨hnil, -⟩ := append_eq_cons_iff.mp hx |>.resolve_right (by
      rintro ⟨tail, rfl, htail⟩
      simp at htail)
    exact absurd hnil hne

include hstep

/-- Some stream has taken a revert, and so have all others. -/
lemma Inv.reverted (hinv : Inv H reported run rest b) (hrest : rest = next :: rest')
    (hrev : next.revert = true)
    (hreached : ∃ s ∈ b.syncStreams, next ∈ s.taken b.blockHistory (timing s.extractorId)) :
    ∃ h', updateBlockHistory streams b.blockHistory = .ok (streams, h') ∧
      Inv H reported [next] rest' ⟨streams, h', none⟩ := by
  subst hrest
  obtain ⟨hheader, hfull⟩ := hinv.header_of_mem hreport (x := next) (by simp)
  obtain ⟨s₀, hs₀, htaken₀⟩ := hreached
  obtain ⟨hcan, hall⟩ := hstep.together s₀ hs₀ next htaken₀ hrev
  obtain ⟨-, h', pre, p, hpush, hhistory⟩ :=
    hinv.linked.push_revert hreport.tree hheader hfull hrev hcan
  have hready : ∀ s' ∈ streams, s'.state = .ready next ∧ s'.Delivers rest' := by
    intro s' hs'
    obtain ⟨s, hs, hprogress⟩ := exists_of_mem_right hadvance hs'
    obtain ⟨done, left, hat⟩ := hinv.streams s hs
    cases hprogress done left hat with
    | behind hleft _ htaken =>
      -- what is left has no reverts
      have hlast := hall s hs
      rw [htaken] at hlast
      have hmem : next ∈ left := by
        rw [hleft]
        exact mem_append_left _ (mem_of_mem_getLast? hlast)
      have hplain := hat.plain_left hinv.plain next hmem
      rw [hrev] at hplain
      cases hplain
    | reached heq hrx _ hready =>
      cases heq
      exact ⟨hready, hrx⟩
  have hat : ∀ s ∈ streams, At [next] rest' s [next] [] := fun s hs =>
    at_end (hready s hs).2 rfl (hready s hs).1
  have hat' : ∀ s ∈ streams, ∃ done left, At [next] rest' s done left := fun s hs =>
    ⟨_, _, hat s hs⟩
  obtain ⟨s, hs, -⟩ := exists_of_mem_left hadvance hs₀
  have hmax : maxByNumber (currentHeaders streams) = some next := by
    apply maxByNumber_eq
    · exact mem_currentHeaders.mpr ⟨s, hs, by rw [getCurrentHeader, (hready s hs).1]⟩
    · exact fun x hx => .inl (mem_singleton.mp (mem_of_mem_currentHeaders hat' hx))
  have hlatest : h'.latest = some next := by
    rw [BlockHistory.latest, hhistory, append_cons, List.getLast?_concat]
  refine ⟨h', updateBlockHistory_eq hat' hmax hpush, rfl, ?_, ?_, ⟨next, rfl, hlatest⟩, ?_, ?_,
    isChain_singleton next, ?_, hat', s, hs, hat s hs⟩
  · obtain ⟨old, hold⟩ := hinv.suffix
    exact ⟨old ++ run, by rw [hold]; simp⟩
  · have hlinked := hinv.linked.push hreport.tree hheader hfull
    rwa [hpush] at hlinked
  · exact forall_mem_singleton.mpr (.inl ⟨next, mem_of_mem_getLast? hlatest, rfl⟩)
  · intro x hx
    cases hx
  · intro x hx _
    cases hx
    exact ⟨pre, p, hhistory⟩

omit hreport in
/-- A stream whose last message still is a revert keeps all streams active, so that a stream that
is ahead of it is seen. -/
lemma Inv.eq_singleton (hinv : Inv H reported run rest b)
    (hnot : ∀ s ∈ streams, ∀ x, s.state ≠ .ready x) (hrev : m.revert = true)
    (hmax : maxByNumber (currentHeaders streams) = some m) : run = [m] := by
  obtain ⟨hm, hall⟩ := maxByNumber_spec hmax
  obtain ⟨s', hs', hheader⟩ := mem_currentHeaders.mp hm
  obtain ⟨s, hs, hprogress⟩ := exists_of_mem_right hadvance hs'
  obtain ⟨done, left, hat⟩ := hinv.streams s hs
  cases hprogress done left hat with
  | reached _ _ _ hready => exact absurd hready (hnot s' hs' _)
  | @behind l _ hleft hrx _ hstate =>
    have hat' := hat.behind hleft hrx hstate
    have hlast := hat'.getLast?_done hheader
    -- only the first header of the chain is a revert
    obtain ⟨hdone, hl⟩ : done = [m] ∧ l = [] := by
      cases hd : done with
      | nil =>
        rw [hd, nil_append] at hlast
        have hmem : m ∈ left := hleft ▸ mem_append_left _ (mem_of_mem_getLast? hlast)
        have hplain := hat.plain_left hinv.plain m hmem
        rw [hrev] at hplain
        cases hplain
      | cons _ done' =>
        rw [hd, cons_append] at hlast
        cases htail : done' ++ l with
        | nil =>
          obtain ⟨rfl, rfl⟩ := append_eq_nil_iff.mp htail
          cases hlast
          exact ⟨rfl, rfl⟩
        | cons =>
          have hmem : m ∈ run.tail := by
            rw [hat'.split, hd, cons_append, cons_append, tail_cons]
            apply mem_append_left
            rw [htail, List.getLast?_cons_cons] at hlast
            rw [htail]
            exact mem_of_mem_getLast? hlast
          have hplain := hinv.plain m hmem
          rw [hrev] at hplain
          cases hplain
    have hactive : s.getCurrentHeader = some m := by
      rcases hstate with ⟨hstale, -⟩ | ⟨x, hx, -, hsame⟩
      · unfold isStale at hstale
        unfold getCurrentHeader at hheader
        split at hstale
        · rename_i heq
          rw [heq] at hheader
          cases hheader
        · cases hstale
      · rw [getCurrentHeader, hx] at hheader
        cases hheader
        exact hsame hl
    have hawake := hstep.awake s hs (by rw [hactive]; exact hrev)
    -- the stream at the end of the chain is active too
    obtain ⟨f, hf, hatf⟩ := hinv.front
    obtain ⟨f', hf', hprogressf⟩ := exists_of_mem_left hadvance hf
    obtain ⟨last, hlastf, -⟩ := hinv.latest
    have hlastf' : f'.getCurrentHeader = some last := by
      cases hprogressf run [] hatf with
      | reached _ _ _ hready => exact absurd hready (hnot f' hf' _)
      | behind hnil _ _ hstate =>
        obtain ⟨rfl, rfl⟩ := append_eq_nil_iff.mp hnil.symm
        rcases hstate with ⟨-, hoverdue | hstale⟩ | ⟨x, hx, hrun, -⟩
        · exact absurd hoverdue (hawake f hf).2
        · exact absurd hstale (hawake f hf).1
        · rw [append_nil, hlastf] at hrun
          cases hrun
          rw [getCurrentHeader, hx]
    have hle := hall last (mem_currentHeaders.mpr ⟨f', hf', hlastf'⟩)
    rw [hat.split, hdone, singleton_append] at hlastf ⊢
    cases hleft' : left with
    | nil => rfl
    | cons =>
      rw [hleft', List.getLast?_cons_cons] at hlastf
      have hnum := hinv.numbers
      rw [hat.split, hdone, hleft', singleton_append] at hnum
      have hlt := (pairwise_cons.mp hnum.pairwise).1 last (mem_of_mem_getLast? hlastf)
      omega

/-- No stream has taken a message that is new. -/
lemma Inv.stayed (hinv : Inv H reported run rest b)
    (hnot : ∀ s ∈ streams, ∀ x, s.state ≠ .ready x) :
    ∃ h', updateBlockHistory streams b.blockHistory = .ok (streams, h') ∧
      Inv H reported run rest ⟨streams, h', none⟩ := by
  have hbehind : ∀ s s', (∀ done left, At run rest s done left →
      s.Progress b.blockHistory (timing s.extractorId) done left rest s') → s' ∈ streams →
      ∀ done left, At run rest s done left →
      ∃ l left', left = l ++ left' ∧ At run rest s' (done ++ l) left' := by
    intro s s' hprogress hs' done left hat
    cases hprogress done left hat with
    | reached _ _ _ hready => exact absurd hready (hnot s' hs' _)
    | behind hleft hrx _ hstate =>
      exact ⟨_, _, hleft, hat.behind hleft hrx hstate⟩
  have hat : ∀ s ∈ streams, ∃ done left, At run rest s done left := by
    intro s' hs'
    obtain ⟨s, hs, hprogress⟩ := exists_of_mem_right hadvance hs'
    obtain ⟨done, left, hat⟩ := hinv.streams s hs
    obtain ⟨l, left', -, hat'⟩ := hbehind s s' hprogress hs' done left hat
    exact ⟨_, _, hat'⟩
  have hfront : ∃ s ∈ streams, At run rest s run [] := by
    obtain ⟨f, hf, hatf⟩ := hinv.front
    obtain ⟨f', hf', hprogress⟩ := exists_of_mem_left hadvance hf
    obtain ⟨l, left', hnil, hatf'⟩ := hbehind f f' hprogress hf' run [] hatf
    obtain ⟨rfl, rfl⟩ := append_eq_nil_iff.mp hnil.symm
    rw [append_nil] at hatf'
    exact ⟨f', hf', hatf'⟩
  have hsame : Inv H reported run rest ⟨streams, b.blockHistory, none⟩ :=
    { hinv with error := rfl, streams := hat, front := hfront }
  cases hmax : maxByNumber (currentHeaders streams) with
  | none =>
    refine ⟨b.blockHistory, ?_, hsame⟩
    unfold updateBlockHistory
    rw [if_neg (not_any_advanced hat), hmax]
  | some m =>
    have hm : m ∈ run := mem_of_mem_currentHeaders hat (maxByNumber_spec hmax).1
    cases hrev : m.revert with
    | false =>
      have hpush := BlockHistory.push_late hrev (hinv.late hreport hm hrev)
      exact ⟨_, updateBlockHistory_eq hat hmax hpush, hsame⟩
    | true =>
      have hrun := hinv.eq_singleton hstep hadvance hnot hrev hmax
      obtain ⟨hheader, hfull⟩ := hinv.header_of_mem hreport (mem_append_left rest hm)
      obtain ⟨pre, p, hhistory⟩ := hinv.below m hrun hrev
      obtain ⟨h', pre', p', hpush, hhistory'⟩ :=
        hinv.linked.push_latest_revert hreport.tree hheader hfull hrev hhistory
      have hlatest : h'.latest = some m := by
        rw [BlockHistory.latest, hhistory', append_cons, List.getLast?_concat]
      have hlinked := hinv.linked.push hreport.tree hheader hfull
      rw [hpush] at hlinked
      refine ⟨h', updateBlockHistory_eq hat hmax hpush, { hsame with
        linked := hlinked
        latest := ⟨m, by rw [hrun]; rfl, hlatest⟩
        covered := ?_
        below := ?_ }⟩
      · rw [hrun]
        exact forall_mem_singleton.mpr (.inl ⟨m, mem_of_mem_getLast? hlatest, rfl⟩)
      · intro x hx _
        rw [hrun] at hx
        cases hx
        exact ⟨pre', p', hhistory'⟩

/-- The history after a round. -/
lemma Inv.updated (hinv : Inv H reported run rest b) :
    ∃ h' run' rest', updateBlockHistory streams b.blockHistory = .ok (streams, h') ∧
      Inv H reported run' rest' ⟨streams, h', none⟩ := by
  by_cases hready : ∃ s ∈ streams, ∃ x, s.state = .ready x
  · obtain ⟨s', hs', x, hx⟩ := hready
    obtain ⟨s, hs, hprogress⟩ := exists_of_mem_right hadvance hs'
    obtain ⟨done, left, hat⟩ := hinv.streams s hs
    cases hprogress done left hat with
    | behind _ _ _ hstate => exact absurd hx (not_ready_of_behind hstate x)
    | @reached next _ hrest hrx htaken hstate =>
      cases hrev : next.revert with
      | false =>
        obtain ⟨h', hupdate, hinv'⟩ :=
          hinv.advanced hreport hadvance hrest hrev ⟨s', hs', hstate, hrx⟩
        exact ⟨h', _, _, hupdate, hinv'⟩
      | true =>
        obtain ⟨h', hupdate, hinv'⟩ := hinv.reverted hreport hstep hadvance hrest hrev
          ⟨s, hs, htaken⟩
        exact ⟨h', _, _, hupdate, hinv'⟩
  · have hnot : ∀ s ∈ streams, ∀ x, s.state ≠ .ready x := fun s hs x hx => hready ⟨s, hs, x, hx⟩
    obtain ⟨h', hupdate, hinv'⟩ := hinv.stayed hreport hstep hadvance hnot
    exact ⟨h', _, _, hupdate, hinv'⟩

end

section
variable {H : BlockHeader → Prop} {reported run rest : List BlockHeader}
  {errorText : SynchronizerError → String}

lemma Inv.step (hreport : Reported H reported) (hinv : Inv H reported run rest b)
    (hin : InStep b timing) {out : Except BlockSynchronizerError FeedMessage}
    (hstep : b.step errorText timing = some (out, b')) :
    ∃ run' rest', Inv H reported run' rest' b' := by
  obtain ⟨results, hresults, hadvance⟩ := hinv.exists_round hreport errorText hin
  obtain ⟨h', run', rest', hupdate, hinv'⟩ := hinv.updated hreport hin hadvance
  have hround : handleNextMessage errorText b.syncStreams b.blockHistory timing =
      .ok (results.filterMap Prod.fst, results.map Prod.snd, h') := by
    unfold handleNextMessage
    dsimp only
    rw [hresults]
    change (checkStreams (results.map Prod.snd) >>= fun _ => _) = _
    rw [checkStreams_eq hinv'.streams, ok_bind, hupdate]
    rfl
  unfold BlockSynchronizer.step at hstep
  rw [hinv.error, hround] at hstep
  cases hstep
  exact ⟨run', rest', hinv'⟩

/-- A set of equal elements has one of them. -/
lemma keys_ofList_eq {A : Type} [DecidableEq A] {l : List A} {a : A} (hall : ∀ x ∈ l, x = a)
    (hne : l ≠ []) : (ofList l).keys = [a] := by
  refine perm_singleton.mp ((perm_ext_iff_of_nodup (ofList l).keys_nodup
    (nodup_singleton a)).mpr fun x => ?_)
  rw [← AList.mem_keys, mem_ofList, mem_singleton]
  constructor
  · exact hall x
  · rintro rfl
    obtain ⟨y, hy⟩ := exists_mem_of_ne_nil l hne
    exact hall y hy ▸ hy

lemma new_singleton {first : BlockHeader} {size : Nat}
    (hnew : BlockHistory.new [first] size = .ok h) : h.history = [first] ∧ h.size = size := by
  unfold BlockHistory.new at hnew
  split_ifs at hnew
  cases hnew
  exact ⟨rfl, rfl⟩

/-- A stream at the startup is stale, or it has delivered the first header. -/
lemma recvFirst_cases (t : Timing) (hrx : s.Delivers reported) :
    ((s.recvFirst errorText t).1 = none ∧ (s.recvFirst errorText t).2.state = .stale default ∧
        (s.recvFirst errorText t).2.Delivers reported) ∨
      ∃ m rest, reported = m.header :: rest ∧ (s.recvFirst errorText t).1 = some m ∧
        (s.recvFirst errorText t).2.state = .ready m.header ∧
        (s.recvFirst errorText t).2.Delivers rest := by
  unfold recvFirst
  rcases recv_cases t hrx with ⟨hrecv, -⟩ | ⟨m, rest, hrest, hrecv, -, hrx'⟩
  · rw [hrecv]
    exact .inl ⟨rfl, rfl, hrx⟩
  · rw [hrecv]
    exact .inr ⟨m, rest, hrest, rfl, rfl, hrx'⟩

/-- The loop starts with the first header. -/
lemma inv_of_run (hreport : Reported H reported) (hfirst : ∀ x ∈ reported.head?, x.revert = false)
    (hstreams : ∀ s ∈ streams, s.Delivers reported) {msg : FeedMessage}
    (hrun : BlockSynchronizer.run errorText streams timing = .ok (msg, b)) :
    ∃ run rest, Inv H reported run rest b := by
  unfold BlockSynchronizer.run at hrun
  extract_lets results syncStreams initialHeaders at hrun
  obtain ⟨_, hactive, hrun⟩ := ok_of_bind_ok hrun
  obtain ⟨h, hnew, hrun⟩ := ok_of_bind_ok hrun
  have hnew := ok_of_mapError_ok hnew
  have hcases : ∀ r ∈ results, (r.1 = none ∧ r.2.state = .stale default ∧ r.2.Delivers reported) ∨
      ∃ m rest, reported = m.header :: rest ∧ r.1 = some m ∧ r.2.state = .ready m.header ∧
        r.2.Delivers rest :=
    forall_mem_map.mpr fun s hs => recvFirst_cases (timing s.extractorId) (hstreams s hs)
  obtain ⟨r₀, hr₀, m₀, rest, hreported, hmsg₀, hstate₀, hrx₀⟩ : ∃ r ∈ results, ∃ m rest,
      reported = m.header :: rest ∧ r.1 = some m ∧ r.2.state = .ready m.header ∧
        r.2.Delivers rest := by
    unfold requireActiveStream at hactive
    split_ifs at hactive with hany
    obtain ⟨s, hs, hnot⟩ := any_eq_true.mp hany
    obtain ⟨r, hr, rfl⟩ := mem_map.mp hs
    rcases hcases r hr with ⟨-, hstale, -⟩ | hready
    · simp [isStale, hstale] at hnot
    · exact ⟨r, hr, hready⟩
  have hkeys : initialHeaders.keys = [m₀.header] := by
    apply keys_ofList_eq
    · intro x hx
      obtain ⟨r, hr, hx⟩ := mem_filterMap.mp hx
      rcases hcases r hr with ⟨hnone, -⟩ | ⟨m, rest', hreport', hmsg, -⟩
      · rw [hnone] at hx
        cases hx
      · rw [hmsg] at hx
        cases hx
        rw [hreported] at hreport'
        exact (List.cons.inj hreport').1.symm
    · apply ne_nil_of_mem (a := m₀.header)
      exact mem_filterMap.mpr ⟨r₀, hr₀, by rw [hmsg₀]; rfl⟩
  rw [hkeys] at hnew
  obtain ⟨hhistory, hsize⟩ := new_singleton hnew
  have hlatest : h.latest = some m₀.header := by
    rw [BlockHistory.latest, hhistory]
    rfl
  rw [hlatest] at hrun
  cases hrun
  have hheader : H m₀.header := hreport.headers _ (by rw [hreported]; exact mem_cons_self)
  have hplain : m₀.header.revert = false := hfirst _ (by rw [hreported]; rfl)
  -- no stream is behind the first header
  have hsame : ∀ s ∈ syncStreams, classifyFirst m₀.header s = s := by
    refine forall_mem_map.mpr fun r hr => ?_
    unfold classifyFirst
    rcases hcases r hr with ⟨-, hstale, -⟩ | ⟨m, rest', hreport', -, hready, -⟩
    · rw [hstale]
    · rw [hready]
      rw [hreported] at hreport'
      rw [← (List.cons.inj hreport').1]
      exact if_neg (Nat.lt_irrefl _)
  rw [map_congr_left hsame, map_id']
  refine ⟨[m₀.header], rest, rfl, ⟨[], by rw [hreported]; rfl⟩, ⟨?_, ?_, ?_⟩,
    ⟨m₀.header, rfl, hlatest⟩, ?_, ?_, isChain_singleton _, ?_, ?_, r₀.2, ?_, ?_⟩
  · exact BlockHistory.inTree_new (fun x hx => mem_singleton.mp hx ▸ hheader) hnew
  · rw [hhistory]
    exact isChain_singleton _
  · rw [hsize]
    decide
  · exact forall_mem_singleton.mpr (.inl ⟨_, mem_of_mem_getLast? hlatest, rfl⟩)
  · intro x hx
    cases hx
  · intro x hx hrev
    cases hx
    rw [hplain] at hrev
    cases hrev
  · refine forall_mem_map.mpr fun r hr => ?_
    rcases hcases r hr with ⟨-, hstale, hrx⟩ | ⟨m, rest', hreport', -, hready, hrx⟩
    · refine ⟨[], [m₀.header], rfl, by rw [hreported] at hrx; exact hrx, ?_, ?_⟩
      · rw [hstale]
        trivial
      · intro x hx hrev
        cases hx
        rw [hplain] at hrev
        cases hrev
    · rw [hreported] at hreport'
      obtain ⟨heq, rfl⟩ := List.cons.inj hreport'
      exact ⟨_, _, at_end hrx rfl (heq ▸ hready)⟩
  · exact mem_map_of_mem hr₀
  · exact at_end hrx₀ rfl hstate₀

/-- If reverts are taken together, the feed goes on whatever else is late. -/
theorem alive_of_inStep_run (hreport : Reported H reported)
    (hfirst : ∀ x ∈ reported.head?, x.revert = false) {streams : List SynchronizerStream}
    (hstreams : ∀ s ∈ streams, s.Delivers reported) {msg : FeedMessage} {b₀ : BlockSynchronizer}
    (hstart : BlockSynchronizer.run errorText streams timing = .ok (msg, b₀))
    {trace : List ((String → Timing) × Except BlockSynchronizerError FeedMessage)}
    (hrun : Run (BlockSynchronizer.step errorText) InStep b₀ trace b) : b.Alive := by
  have hinv : ∃ run rest, Inv H reported run rest b := by
    refine Run.invariant (P := fun _ b => ∃ run rest, Inv H reported run rest b) ?_ ?_ hrun
    · exact inv_of_run hreport hfirst hstreams hstart
    · rintro _ b timing out b' ⟨run, rest, hinv⟩ hin hstep
      exact hinv.step hreport hin hstep
  obtain ⟨run, rest, hinv⟩ := hinv
  exact hinv.alive

end

section
open BlockHistory

/-- Headers that are compared with the header before, and reverts with the chain so far. -/
lemma reported_of_checked {reported : List BlockHeader}
    (htree : ForkTree (· ∈ reported)) (hfull : ∀ b ∈ reported, ¬ b.isPartial)
    (hfollows : reported.IsChain fun a b => b.revert = false → b.parentHash = a.hash)
    (hreverts : ∀ i ∈ List.range reported.length, ∀ b ∈ (reported.drop i).head?, i ≠ 0 → b.revert →
      (∃ x ∈ chainOf number revert (reported.take i), x.hash = b.hash) ∧
        ((chainOf number revert (reported.take i)).filter
          fun x => b.number < x.number).length < BLOCK_HISTORY_SIZE) :
    Reported (· ∈ reported) reported := by
  refine ⟨htree, fun b hb => hb, hfull, ?_, ?_⟩
  · intro l₁ a b l₂ hsplit
    rw [hsplit] at hfollows
    have hright := (isChain_append.mp hfollows).2.1
    exact (isChain_cons_cons.mp hright).1
  · intro l₁ b l₂ hsplit hne hrev
    have hlt : l₁.length < reported.length := by
      rw [hsplit]
      simp
    have hcheck := hreverts l₁.length (mem_range.mpr hlt) b (by rw [hsplit]; simp)
      (by simpa using hne) hrev
    rw [hsplit, take_left' rfl] at hcheck
    exact hcheck

def forked : List BlockHeader := [fork, { full 4 9 with hash := ⟨[10]⟩ }]

/-- Four blocks, a revert to the second one, and two other blocks. -/
def reorg : List BlockHeader :=
  [full 1 0, full 2 1, full 3 2, full 4 3, revertTo (full 2 1)] ++ forked

lemma reported_reorg : Reported (· ∈ reorg) reorg := by
  have hsame : ∀ a ∈ reorg, ∀ b ∈ reorg, a.hash = b.hash → a.number = b.number ∧
      a.parentHash = b.parentHash ∧ a.partialBlockIndex = b.partialBlockIndex := by decide +kernel
  have hnumber : ∀ a ∈ reorg, ∀ b ∈ reorg, a.parentHash = b.hash → a.number = b.number + 1 := by
    decide +kernel
  exact reported_of_checked ⟨fun a b ha hb => hsame a ha b hb, fun a b ha hb => hnumber a ha b hb⟩
    (by decide +kernel) (by decide +kernel) (by decide +kernel)

def extractors : List SynchronizerStream :=
  ["fast", "slow"].map fun id =>
    .new id (reorg.map fun header => .msg ⟨header, default, none, ∅⟩)

lemma delivers_extractors : ∀ s ∈ extractors, s.Delivers reorg := by
  intro s hs
  obtain ⟨id, -, rfl⟩ := mem_map.mp hs
  exact ⟨reorg.map fun header => ⟨header, default, none, ∅⟩, by simp [SynchronizerStream.new],
    by simp [Function.comp_def]⟩

/-- A round in which so many messages of the two extractors arrive in time. -/
def arrivals (fast slow : Nat) (id : String) : Timing := ⟨if id = "fast" then fast else slow, false⟩

def lateBlocks : List (String → Timing) :=
  [arrivals 1 0, arrivals 1 0, arrivals 1 5, arrivals 1 1, arrivals 1 0, arrivals 1 0, arrivals 0 3]

theorem alive_of_inStep_run_late : ∃ (msg : FeedMessage) (b₀ b : BlockSynchronizer)
    (trace : List ((String → Timing) × Except BlockSynchronizerError FeedMessage)),
    run (fun _ => "") extractors (arrivals 1 1) = .ok (msg, b₀) ∧
    Run (step fun _ => "") InStep b₀ trace b ∧
    b.blockHistory.history = [full 1 0, revertTo (full 2 1)] ++ forked ∧
    (∀ s ∈ b.syncStreams, s.rx = []) ∧ b.Alive := by
  have hcheck : (run (fun _ => "") extractors (arrivals 1 1)).toOption.any
      (fun r => (play (step fun _ => "") InStep r.2 lateBlocks).any fun r' =>
        r'.2.blockHistory.history = [full 1 0, revertTo (full 2 1)] ++ forked ∧
          ∀ s ∈ r'.2.syncStreams, s.rx = []) := by decide +kernel
  obtain ⟨⟨msg, b₀⟩, hstart, hcheck⟩ := exists_ok_of_any hcheck
  obtain ⟨trace, b, hrun, hhistory, hrx⟩ := exists_run_of_any hcheck
  exact ⟨msg, b₀, b, trace, hstart, hrun, hhistory, hrx,
    alive_of_inStep_run reported_reorg (by decide +kernel) delivers_extractors hstart hrun⟩

def lateRevert : List (String → Timing) :=
  [arrivals 1 1, arrivals 1 1, arrivals 1 1, arrivals 1 0, arrivals 1 0, arrivals 1 0]

theorem not_alive_late_revert : Reported (· ∈ reorg) reorg ∧ (∀ s ∈ extractors, s.Delivers reorg) ∧
    ∃ (msg : FeedMessage) (b₀ b : BlockSynchronizer)
      (trace : List ((String → Timing) × Except BlockSynchronizerError FeedMessage)),
      run (fun _ => "") extractors (arrivals 1 1) = .ok (msg, b₀) ∧
      Run (step fun _ => "") (fun _ _ => True) b₀ trace b ∧
      b.error = some (.blockHistoryError .undeterminedBlockPosition) := by
  have hcheck : (run (fun _ => "") extractors (arrivals 1 1)).toOption.any
      (fun r => (play (step fun _ => "") (fun _ _ => True) r.2 lateRevert).any
        fun r' => r'.2.error = some (.blockHistoryError .undeterminedBlockPosition)) := by
    decide +kernel
  obtain ⟨⟨msg, b₀⟩, hstart, hcheck⟩ := exists_ok_of_any hcheck
  obtain ⟨trace, b, hrun⟩ := exists_run_of_any hcheck
  exact ⟨reported_reorg, delivers_extractors, msg, b₀, b, trace, hstart, hrun⟩

end
end BlockSynchronizer
end Tycho
