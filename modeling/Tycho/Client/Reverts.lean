import Tycho.Client.BlockHistory
import Tycho.Collections.Contiguous
import Tycho.Collections.Fallible
import Tycho.Replay.Run

/-! When the block history is a chain, and which reverts it follows. -/
namespace Tycho
open Collections Replay List

variable {headers : List BlockHeader} {parentHash : BlockHash}

namespace BlockHistory
variable {h h' : BlockHistory} {block : BlockHeader}

/-- Headers, oldest first, of which each is the parent of the next one. -/
def Chained (headers : List BlockHeader) : Prop :=
  headers.IsChain fun a b => b.parentHash = a.hash ∧ a.number < b.number

instance (headers : List BlockHeader) : Decidable (Chained headers) :=
  inferInstanceAs (Decidable (headers.IsChain _))

/-- A new history has no gaps either. -/
lemma connect_isChain (latest : BlockHeader) (headers : List BlockHeader) :
    (latest :: connect latest.parentHash latest.number headers).IsChain fun b a =>
      b.parentHash = a.hash ∧ b.number = a.number + 1 := by
  induction headers generalizing latest with
  | nil => exact .singleton latest
  | cons block _ ih =>
    unfold connect
    split_ifs with hskip hgap hhash
    · exact ih latest
    · exact .singleton latest
    · exact .cons_cons ⟨hhash.symm, by omega⟩ (ih block)
    · exact ih latest

lemma new_isChain {size : Nat} (hnew : new headers size = .ok h) :
    h.history.IsChain fun a b => b.parentHash = a.hash ∧ b.number = a.number + 1 := by
  unfold new at hnew
  split_ifs at hnew
  cases hnew
  rw [isChain_reverse]
  unfold connectedChain
  split
  · exact .nil
  · exact connect_isChain _ _

/-- Blocks that are not the parent are removed, the latest one first. -/
lemma rewindFrom_append {removed rest : List BlockHeader}
    (hremoved : ∀ b ∈ removed, b.hash ≠ parentHash) (reverts : LruCache BlockHash BlockHeader) :
    rewindFrom parentHash (removed ++ rest) reverts =
      rewindFrom parentHash rest (reverts.pushAll (removed.map fun b => (b.hash, b))) := by
  induction removed generalizing reverts with
  | nil => rfl
  | cons b _ ih =>
    rw [cons_append, rewindFrom, if_neg (hremoved b mem_cons_self),
      ih fun b' hb' => hremoved b' (mem_cons_of_mem b hb')]
    rfl

/-- What is left when blocks are removed is empty or ends with the parent. -/
lemma rewind_history (h : BlockHistory) (parentHash : BlockHash) :
    (h.rewind parentHash).history = [] ∨
      ∃ pre p post, h.history = pre ++ p :: post ∧ p.hash = parentHash ∧
        (h.rewind parentHash).history = pre ++ [p] := by
  have hfrom : ∀ (l : List BlockHeader) reverts, (rewindFrom parentHash l reverts).1 = [] ∨
      ∃ removed p rest, l = removed ++ p :: rest ∧ p.hash = parentHash ∧
        (rewindFrom parentHash l reverts).1 = p :: rest := by
    intro l
    induction l with
    | nil => exact fun _ => .inl rfl
    | cons b l ih =>
      intro reverts
      unfold rewindFrom
      split_ifs with hhash
      · exact .inr ⟨[], b, l, rfl, hhash, rfl⟩
      · refine (ih _).imp id ?_
        rintro ⟨removed, p, rest, rfl, hp, hrest⟩
        exact ⟨b :: removed, p, rest, rfl, hp, hrest⟩
  unfold rewind
  rcases hfrom h.history.reverse h.reverts with hempty | ⟨removed, p, rest, hl, hp, hrest⟩
  · left
    dsimp only
    rw [hempty, reverse_nil]
  · refine .inr ⟨rest.reverse, p, removed.reverse, ?_, hp, ?_⟩
    · rw [← reverse_reverse h.history, hl]
      simp
    · dsimp only
      rw [hrest, reverse_cons]

inductive Pushed (h : BlockHistory) (block : BlockHeader) : List BlockHeader → Prop where
  | same : Pushed h block h.history
  | drained : Pushed h block []
  | next {pre post : List BlockHeader} {p : BlockHeader} : h.history = pre ++ p :: post →
      p.hash = block.parentHash → h.latest = some p ∨ block.revert →
      Pushed h block (pre ++ [p, block])
  | nextFull {pre post : List BlockHeader} {p : BlockHeader} : h.history = pre ++ p :: post →
      p.hash = block.parentHash → h.latest = some p ∨ block.revert →
      Pushed h block (pre ++ [p, block]).tail
  | replaced {latest : BlockHeader} : h.latest = some latest → block.number = latest.number →
      partialPosition latest.partialBlockIndex block.partialBlockIndex = .nextPartial →
      Pushed h block (h.history.dropLast ++ [block])
  | removed : Pushed h block h.history.dropLast

lemma partialPosition_ne (latest incoming : Option Nat) :
    partialPosition latest incoming ≠ .nextExpected := by
  unfold partialPosition
  split
  · split_ifs <;> simp
  · simp

lemma positionBelow_ne (block oldest : BlockHeader) :
    h.positionBelow block oldest ≠ .ok .nextPartial := by
  unfold positionBelow
  split_ifs <;> simp

lemma revert_of_positionBelow {oldest : BlockHeader}
    (hpos : h.positionBelow block oldest = .ok .nextExpected) : block.revert := by
  cases hrev : block.revert with
  | true => rfl
  | false =>
    unfold positionBelow at hpos
    simp only [hrev, Bool.false_eq_true, if_false] at hpos
    split_ifs at hpos <;> cases hpos

lemma nextExpected_cases (hpos : h.determineBlockPosition block = .ok .nextExpected) :
    ∃ latest, h.latest = some latest ∧ (latest.hash = block.parentHash ∨ block.revert) := by
  unfold determineBlockPosition at hpos
  split at hpos
  · cases hpos
  · rename_i latest hlatest
    refine ⟨latest, hlatest, ?_⟩
    split_ifs at hpos with hparent hindex hlast hreverts hbelow
    · exact .inl hparent.symm
    · exact absurd (Except.ok.inj hpos) (partialPosition_ne _ _)
    · cases hpos
    · cases hpos
    · split at hpos
      · cases hpos
      · exact .inr (revert_of_positionBelow hpos)
    · cases hpos

lemma nextPartial_cases (hpos : h.determineBlockPosition block = .ok .nextPartial) :
    ∃ latest, h.latest = some latest ∧ block.number = latest.number ∧
      partialPosition latest.partialBlockIndex block.partialBlockIndex = .nextPartial := by
  unfold determineBlockPosition at hpos
  split at hpos
  · cases hpos
  · rename_i latest hlatest
    refine ⟨latest, hlatest, ?_⟩
    split_ifs at hpos with hparent hindex hlast hreverts hbelow
    · cases hpos
    · rw [Bool.and_eq_true, decide_eq_true_eq] at hindex
      exact ⟨hindex.1, Except.ok.inj hpos⟩
    · cases hpos
    · cases hpos
    · split at hpos
      · cases hpos
      · exact absurd hpos (positionBelow_ne _ _)
    · cases hpos

lemma pushed_append {pre post : List BlockHeader} {p : BlockHeader} {h₁ : BlockHistory}
    (hsplit : h.history = pre ++ p :: post) (hp : p.hash = block.parentHash)
    (hnext : h.latest = some p ∨ block.revert) (hh₁ : h₁.history = pre ++ [p]) :
    Pushed h block (h₁.append block).history := by
  unfold append
  dsimp only
  rw [hh₁, append_assoc]
  split_ifs
  · exact .nextFull hsplit hp hnext
  · exact .next hsplit hp hnext

lemma pushed_push (h : BlockHistory) (block : BlockHeader) :
    Pushed h block (h.push block).2.history := by
  unfold push
  split
  · exact .same
  · rename_i hpos
    obtain ⟨latest, hlatest, hcases⟩ := nextExpected_cases hpos
    have hsplit := dropLast_append_getLast? latest hlatest
    cases hrev : block.revert with
    | false =>
      have hparent : latest.hash = block.parentHash := hcases.resolve_right (by simp [hrev])
      simp only [Bool.false_eq_true, if_false, Bool.false_and, hlatest, Option.any_some, hparent,
        ne_eq, not_true, decide_false]
      exact pushed_append hsplit.symm hparent (.inl hlatest) hsplit.symm
    | true =>
      simp only [if_true, Bool.true_and]
      rcases h.rewind_history block.parentHash with hempty | ⟨pre, p, post, hsplit, hp, hleft⟩
      · rw [hempty, isEmpty_nil, if_pos rfl, hempty]
        exact .drained
      · have hlast : (h.rewind block.parentHash).latest = some p := by
          rw [BlockHistory.latest, hleft, List.getLast?_concat]
        simp only [hleft, hlast, Option.any_some, hp, ne_eq, not_true, decide_false,
          Bool.false_eq_true, if_false, List.isEmpty_iff, append_eq_nil_iff,
          cons_ne_nil, and_false]
        exact pushed_append hsplit hp (.inr hrev) hleft
  · rename_i hpos
    obtain ⟨latest, hlatest, hnum, hindex⟩ := nextPartial_cases hpos
    rw [hlatest]
    dsimp only
    split_ifs
    · exact .same
    · exact .replaced hlatest hnum hindex
  · split
    · split_ifs <;> exact .same
    · split_ifs
      · exact .removed
      · exact .same
  · exact .same
  · exact .same

def step (h : BlockHistory) (block : BlockHeader) :
    Option (Except BlockHistoryError Unit × BlockHistory) :=
  some (h.push block)

/-- The number of a block is above that of its parent, and a partial block that replaces the latest
one has the block below as its parent. -/
def Fits (h : BlockHistory) (block : BlockHeader) : Prop :=
  (∀ p ∈ h.history, p.hash = block.parentHash → h.latest = some p ∨ block.revert →
    p.number < block.number) ∧
  ∀ latest ∈ h.latest, block.number = latest.number →
    partialPosition latest.partialBlockIndex block.partialBlockIndex = .nextPartial →
    ∀ p ∈ h.history.dropLast.getLast?, block.parentHash = p.hash

instance (h : BlockHistory) (block : BlockHeader) : Decidable (h.Fits block) :=
  inferInstanceAs (Decidable (_ ∧ _))

lemma Chained.concat (hc : Chained headers)
    (hlast : ∀ p ∈ headers.getLast?, block.parentHash = p.hash ∧ p.number < block.number) :
    Chained (headers ++ [block]) :=
  isChain_concat hc hlast

lemma chained_push (hc : Chained h.history) (hfits : h.Fits block) :
    Chained (h.push block).2.history := by
  obtain ⟨hnum, hindex⟩ := hfits
  have hnext : ∀ {pre post : List BlockHeader} {p : BlockHeader},
      h.history = pre ++ p :: post → p.hash = block.parentHash → h.latest = some p ∨ block.revert →
      Chained (pre ++ [p, block]) := by
    intro pre post p hsplit hp hor
    have hpre : Chained (pre ++ [p]) := by
      rw [hsplit, append_cons] at hc
      exact (isChain_append.mp hc).1
    rw [append_cons]
    refine hpre.concat fun q hq => ?_
    rw [List.getLast?_concat] at hq
    cases hq
    have hmem : p ∈ h.history := by
      rw [hsplit]
      exact mem_append_right _ mem_cons_self
    exact ⟨hp.symm, hnum p hmem hp hor⟩
  have hpushed := pushed_push h block
  generalize (h.push block).2.history = headers at hpushed
  cases hpushed with
  | same => exact hc
  | drained => exact .nil
  | next hsplit hp hor => exact hnext hsplit hp hor
  | nextFull hsplit hp hor => exact (hnext hsplit hp hor).tail
  | replaced hlatest hsame hposition =>
    have hsplit := dropLast_append_getLast? _ hlatest
    have hdrop := hsplit ▸ hc
    have hbelow : Chained h.history.dropLast := (isChain_append.mp hdrop).1
    refine hbelow.concat fun p hp => ?_
    have hlinked := (isChain_append.mp hdrop).2.2 p hp _ rfl
    exact ⟨hindex _ hlatest hsame hposition p hp, hsame ▸ hlinked.2⟩
  | removed => exact hc.dropLast

/-- If every header fits, the history is always a chain. -/
theorem chained_of_run {headers : List BlockHeader} {size : Nat} {h₀ : BlockHistory}
    {trace : List (BlockHeader × Except BlockHistoryError Unit)}
    (hnew : new headers size = .ok h₀) (hrun : Run step Fits h₀ trace h) : Chained h.history := by
  refine Run.invariant (P := fun _ h => Chained h.history) ?_ ?_ hrun
  · exact (new_isChain hnew).imp fun a b hab => ⟨hab.1, by omega⟩
  · intro _ h block out h' hc hfits hstep
    have hpush : (h.push block).2 = h' := congrArg Prod.snd (Option.some.inj hstep)
    exact hpush ▸ chained_push hc hfits

def full (n : UInt8) (parent : UInt8) : BlockHeader :=
  ⟨⟨[n]⟩, n.toNat, ⟨[parent]⟩, false, 0, none⟩

def part (n : UInt8) (index : UInt8) (parent : UInt8) : BlockHeader :=
  ⟨⟨[n, index]⟩, n.toNat, ⟨[parent]⟩, false, 0, some index.toNat⟩

def reverted : List BlockHeader :=
  [full 3 2, part 4 0 3, part 4 1 3, { full 2 1 with revert := true }]

theorem chained_of_run_reverted : ∃ (h₀ h : BlockHistory)
    (trace : List (BlockHeader × Except BlockHistoryError Unit)),
    new [full 1 0, full 2 1] 5 = .ok h₀ ∧ Run step Fits h₀ trace h ∧
    trace.map Prod.fst = reverted ∧
    h.history = [full 1 0, { full 2 1 with revert := true }] ∧ Chained h.history := by
  have hcheck : (new [full 1 0, full 2 1] 5).toOption.any (fun h₀ =>
      (play step Fits h₀ reverted).any fun r => r.1.map Prod.fst = reverted ∧
        r.2.history = [full 1 0, { full 2 1 with revert := true }]) := by decide +kernel
  obtain ⟨h₀, hnew, hcheck⟩ := exists_ok_of_any hcheck
  obtain ⟨trace, h, hrun, htrace, hhistory⟩ := exists_run_of_any hcheck
  exact ⟨h₀, h, trace, hnew, hrun, htrace, hhistory, chained_of_run hnew hrun⟩

/-- A partial block that replaces another one has another parent, or a block has a number below
that of its parent. -/
def unfit : List BlockHeader := [part 3 1 9, ⟨⟨[5]⟩, 2, ⟨[3, 0]⟩, false, 0, none⟩]

theorem not_chained_unfit : unfit.Forall fun block => ∃ (h₀ h : BlockHistory)
    (trace : List (BlockHeader × Except BlockHistoryError Unit)),
    new [full 1 0, full 2 1] 5 = .ok h₀ ∧ Run step (fun _ _ => True) h₀ trace h ∧
    trace.map Prod.fst = [part 3 0 2, block] ∧ (∀ e ∈ trace, e.2.isOk) ∧ ¬ Chained h.history := by
  rw [forall_iff_forall_mem]
  intro block hblock
  have hcheck : ∀ block ∈ unfit, (new [full 1 0, full 2 1] 5).toOption.any (fun h₀ =>
      (play step (fun _ _ => True) h₀ [part 3 0 2, block]).any fun r =>
        r.1.map Prod.fst = [part 3 0 2, block] ∧ (∀ e ∈ r.1, e.2.isOk) ∧
          ¬ Chained r.2.history) := by decide +kernel
  obtain ⟨h₀, hnew, hcheck⟩ := exists_ok_of_any (hcheck block hblock)
  obtain ⟨trace, h, hrun⟩ := exists_run_of_any hcheck
  exact ⟨h₀, h, trace, hnew, hrun⟩

end BlockHistory

/-- Headers of the blocks of one fork tree: the hash determines the block, and the number of a
block is one above that of its parent. -/
structure ForkTree (H : BlockHeader → Prop) : Prop where
  same : ∀ a b, H a → H b → a.hash = b.hash →
    a.number = b.number ∧ a.parentHash = b.parentHash ∧ a.partialBlockIndex = b.partialBlockIndex
  number : ∀ a b, H a → H b → a.parentHash = b.hash → a.number = b.number + 1

variable {b p : BlockHeader} {headers : List BlockHeader}

namespace BlockHistory
variable {H : BlockHeader → Prop} {h : BlockHistory} {block : BlockHeader}

structure InTree (H : BlockHeader → Prop) (h : BlockHistory) : Prop where
  headers : ∀ b ∈ h.history, H b
  contiguous : Contiguous BlockHeader.number h.history
  capacity : h.reverts.capacity = h.size * 10

lemma mem_of_mem_connect {hash : BlockHash} {number : Nat} (hb : b ∈ connect hash number headers) :
    b ∈ headers := by
  induction headers generalizing hash number with
  | nil => cases hb
  | cons a _ ih =>
    unfold connect at hb
    split_ifs at hb
    · exact mem_cons_of_mem a (ih hb)
    · cases hb
    · rcases mem_cons.mp hb with rfl | hb
      · exact mem_cons_self
      · exact mem_cons_of_mem a (ih hb)
    · exact mem_cons_of_mem a (ih hb)

lemma mem_of_mem_connectedChain (hb : b ∈ connectedChain headers) : b ∈ headers := by
  unfold connectedChain at hb
  have hsorted : ∀ a, a ∈ (sortBy BlockHeader.number headers).reverse → a ∈ headers := by
    intro a ha
    exact (mem_insertionSort _).mp (mem_reverse.mp ha)
  split at hb
  · cases hb
  · rename_i latest rest heq
    rw [heq] at hsorted
    rcases mem_cons.mp hb with rfl | hb
    · exact hsorted _ mem_cons_self
    · exact hsorted b (mem_cons_of_mem latest (mem_of_mem_connect hb))

lemma inTree_new {size : Nat} (hheaders : ∀ b ∈ headers, H b) (hnew : new headers size = .ok h) :
    InTree H h := by
  refine ⟨?_, (new_isChain hnew).imp fun a b hab => hab.2, ?_⟩
  · unfold new at hnew
    split_ifs at hnew
    cases hnew
    intro b hb
    exact hheaders b (mem_of_mem_connectedChain (mem_reverse.mp hb))
  · unfold new at hnew
    split_ifs at hnew
    cases hnew
    rfl

lemma capacity_rewindFrom (parentHash : BlockHash) (l : List BlockHeader)
    (reverts : LruCache BlockHash BlockHeader) :
    (rewindFrom parentHash l reverts).2.capacity = reverts.capacity := by
  induction l generalizing reverts with
  | nil => rfl
  | cons _ _ ih =>
    unfold rewindFrom
    split_ifs
    · rfl
    · exact (ih _).trans rfl

lemma push_sizes (h : BlockHistory) (block : BlockHeader) :
    (h.push block).2.reverts.capacity = h.reverts.capacity ∧ (h.push block).2.size = h.size := by
  have hrewind : (h.rewind block.parentHash).reverts.capacity = h.reverts.capacity :=
    capacity_rewindFrom _ _ _
  unfold push
  split
  · exact ⟨rfl, rfl⟩
  · dsimp only
    split_ifs
    all_goals exact ⟨by first | exact hrewind | rfl, rfl⟩
  · split
    · exact ⟨rfl, rfl⟩
    · split_ifs <;> exact ⟨rfl, rfl⟩
  · split
    · split_ifs <;> exact ⟨rfl, rfl⟩
    · split_ifs <;> exact ⟨rfl, rfl⟩
  · exact ⟨rfl, rfl⟩
  · exact ⟨rfl, rfl⟩

lemma InTree.push (htree : ForkTree H) (hin : InTree H h) (hblock : H block) :
    InTree H (h.push block).2 := by
  obtain ⟨hcapacity, hsize⟩ := push_sizes h block
  have hheaders := hin.headers
  have hnum := hin.contiguous
  have hnext : ∀ {pre post : List BlockHeader} {p : BlockHeader},
      h.history = pre ++ p :: post → p.hash = block.parentHash →
      (∀ b ∈ pre ++ [p, block], H b) ∧ Contiguous BlockHeader.number (pre ++ [p, block]) := by
    intro pre post p hsplit hp
    rw [hsplit, append_cons] at hheaders hnum
    rw [append_cons]
    constructor
    · exact forall_mem_append.mpr ⟨(forall_mem_append.mp hheaders).1,
        forall_mem_singleton.mpr hblock⟩
    · refine hnum.of_append_left.concat fun a ha => ?_
      rw [List.getLast?_concat] at ha
      cases ha
      exact htree.number block p hblock (hheaders p (by simp)) hp.symm
  have hpushed := pushed_push h block
  suffices hstored : (∀ b ∈ (h.push block).2.history, H b) ∧
      Contiguous BlockHeader.number (h.push block).2.history from
    ⟨hstored.1, hstored.2, by rw [hcapacity, hin.capacity, hsize]⟩
  generalize (h.push block).2.history = headers at hpushed
  cases hpushed with
  | same => exact ⟨hheaders, hnum⟩
  | drained => exact ⟨fun b hb => absurd hb not_mem_nil, .nil⟩
  | next hsplit hp => exact hnext hsplit hp
  | nextFull hsplit hp =>
    obtain ⟨hmem, hchain⟩ := hnext hsplit hp
    exact ⟨fun b hb => hmem b (mem_of_mem_tail hb), List.IsChain.tail hchain⟩
  | replaced hlatest hsame =>
    have hsplit := dropLast_append_getLast? _ hlatest
    constructor
    · exact forall_mem_append.mpr ⟨fun b hb => hheaders b (mem_of_mem_dropLast hb),
        forall_mem_singleton.mpr hblock⟩
    · rw [← hsplit] at hnum
      refine hnum.of_append_left.concat fun a ha => ?_
      rw [hsame]
      exact (isChain_append.mp hnum).2.2 a ha _ rfl
  | removed =>
    exact ⟨fun b hb => hheaders b (mem_of_mem_dropLast hb), List.IsChain.dropLast hnum⟩

lemma inTree_of_run (htree : ForkTree H) {size : Nat} {h₀ : BlockHistory}
    {trace : List (BlockHeader × Except BlockHistoryError Unit)} (hheaders : ∀ b ∈ headers, H b)
    (hnew : new headers size = .ok h₀) (hrun : Run step (fun _ b => H b) h₀ trace h) :
    InTree H h := by
  refine Run.invariant (P := fun _ h => InTree H h) (inTree_new hheaders hnew) ?_ hrun
  intro _ h block out h' hin hblock hstep
  have hpush : (h.push block).2 = h' := congrArg Prod.snd (Option.some.inj hstep)
  exact hpush ▸ hin.push htree hblock

section
variable {pre post : List BlockHeader} {x : BlockHeader}

/-- A block of the history, the blocks below it and those above. -/
structure Target (H : BlockHeader → Prop) (h : BlockHistory) (block : BlockHeader)
    (pre : List BlockHeader) (x : BlockHeader) (post : List BlockHeader) : Prop where
  split : h.history = pre ++ x :: post
  hash : x.hash = block.hash
  headers : ∀ b ∈ h.history, H b
  header : H block
  below : ∀ b ∈ pre, b.number < block.number
  above : ∀ b ∈ post, block.number < b.number
  -- only the last block below has the number of the parent
  last : ∀ b ∈ pre, block.number = b.number + 1 → pre.getLast? = some b
  distinct : ((x :: post).map BlockHeader.hash).Nodup

lemma InTree.target (htree : ForkTree H) (hin : InTree H h) (hblock : H block)
    (hsplit : h.history = pre ++ x :: post) (hhash : x.hash = block.hash) :
    Target H h block pre x post := by
  have hheaders := hin.headers
  have hnum := hin.contiguous
  rw [hsplit] at hheaders hnum
  have hx : H x := hheaders x (by simp)
  have hnumber : block.number = x.number := (htree.same block x hblock hx hhash.symm).1
  obtain ⟨-, hright, hcross⟩ := pairwise_append.mp hnum.pairwise
  refine ⟨hsplit, hhash, hin.headers, hblock, ?_, ?_, ?_, ?_⟩
  · intro b hb
    rw [hnumber]
    exact hcross b hb x mem_cons_self
  · intro b hb
    rw [hnumber]
    exact (pairwise_cons.mp hright).1 b hb
  · intro b hb hnext
    obtain ⟨last, hlast⟩ : ∃ last, pre.getLast? = some last :=
      ⟨_, List.getLast?_eq_some_getLast (ne_nil_of_mem hb)⟩
    have hlink := (isChain_append.mp hnum).2.2 last hlast x rfl
    obtain ⟨front, rfl⟩ := List.getLast?_eq_some_iff.mp hlast
    rcases mem_append.mp hb with hfront | hb
    · have hpre := hnum.of_append_left.pairwise
      have hlt := (pairwise_append.mp hpre).2.2 b hfront last (by simp)
      omega
    · rw [mem_singleton.mp hb, List.getLast?_concat]
  · rw [List.Nodup, pairwise_map]
    refine hright.imp_of_mem fun {a b} ha hb hlt heq => ?_
    have hsame := htree.same a b (hheaders a (mem_append_right _ ha))
      (hheaders b (mem_append_right _ hb)) heq
    omega

def remembered (reverts : LruCache BlockHash BlockHeader) (removed : List BlockHeader) :
    LruCache BlockHash BlockHeader :=
  reverts.pushAll (removed.reverse.map fun b => (b.hash, b))

namespace Target
variable (htree : ForkTree H) (ht : Target H h block pre x post)
include htree ht

lemma same : block.number = x.number ∧ block.partialBlockIndex = x.partialBlockIndex := by
  have hx : H x := ht.headers x (by rw [ht.split]; simp)
  obtain ⟨hnum, -, hindex⟩ := htree.same block x ht.header hx ht.hash.symm
  exact ⟨hnum, hindex⟩

lemma number : block.number = x.number := (ht.same htree).1

lemma notParent (hb : b ∈ x :: post) : b.hash ≠ block.parentHash := by
  intro heq
  have hmem : b ∈ h.history := by
    rw [ht.split]
    exact mem_append_right _ hb
  have hnumber := htree.number block b ht.header (ht.headers b hmem) heq.symm
  have hx := ht.number htree
  rcases mem_cons.mp hb with rfl | hpost
  · omega
  · have habove := ht.above b hpost
    omega

lemma parent (hb : b ∈ pre) (heq : b.hash = block.parentHash) : pre.getLast? = some b := by
  have hmem : b ∈ h.history := by
    rw [ht.split]
    exact mem_append_left _ hb
  exact ht.last b hb (htree.number block b ht.header (ht.headers b hmem) heq.symm)

omit htree in
lemma latest : ∃ latest, h.latest = some latest ∧ (post = [] ∧ latest = x ∨ latest ∈ post) := by
  refine ⟨(x :: post).getLast (by simp), ?_, ?_⟩
  · rw [BlockHistory.latest, ht.split, List.getLast?_append,
      List.getLast?_eq_some_getLast (by simp), Option.some_or]
  · cases post with
    | nil => exact .inl ⟨rfl, rfl⟩
    | cons b post => exact .inr (getLast_mem (cons_ne_nil b post))

lemma oldest : ∃ oldest, h.oldest = some oldest ∧ oldest.number ≤ block.number := by
  have hx := ht.number htree
  unfold BlockHistory.oldest
  rw [ht.split]
  cases hpre : pre with
  | nil => exact ⟨x, rfl, hx.ge⟩
  | cons b => exact ⟨b, rfl, (ht.below b (by rw [hpre]; exact mem_cons_self)).le⟩

omit htree in
lemma latest_of_nil (hpost : post = []) : h.latest = some x := by
  rw [BlockHistory.latest, ht.split, hpost, List.getLast?_concat]

lemma position_latest (hpost : post = []) (hindex : block.isPartial) :
    h.determineBlockPosition block = .ok .latest := by
  have hparent : block.parentHash ≠ x.hash := (ht.notParent htree mem_cons_self).symm
  have hsame := (ht.same htree).2
  unfold determineBlockPosition
  rw [ht.latest_of_nil hpost]
  dsimp only
  rw [if_neg hparent, if_pos (by rw [ht.number htree, hindex]; simp), ← hsame]
  obtain ⟨index, heq⟩ := Option.isSome_iff_exists.mp hindex
  rw [heq, partialPosition, if_neg (Nat.lt_irrefl index), if_pos rfl]

lemma position (hrevert : block.revert) (hindex : post = [] → ¬ block.isPartial) :
    h.determineBlockPosition block =
      if h.reverts.contains block.hash then .ok .delayed else .ok .nextExpected := by
  obtain ⟨latest, hlatest, hcases⟩ := ht.latest
  obtain ⟨oldest, hold, hle⟩ := ht.oldest htree
  have hx := ht.number htree
  have hmem : latest ∈ x :: post := by
    rcases hcases with ⟨-, heq⟩ | hmem
    · exact heq ▸ mem_cons_self
    · exact mem_cons_of_mem x hmem
  have hparent : block.parentHash ≠ latest.hash := (ht.notParent htree hmem).symm
  have hsame : ¬ (decide (block.number = latest.number) && block.isPartial) = true := by
    rw [Bool.and_eq_true, decide_eq_true_eq]
    rintro ⟨heq, hpart⟩
    rcases hcases with ⟨hnil, -⟩ | hpost
    · exact hindex hnil hpart
    · have habove := ht.above latest hpost
      omega
  have hheight : block.number ≤ latest.number := by
    rcases hcases with ⟨-, heq⟩ | hpost
    · rw [heq, hx]
    · exact (ht.above latest hpost).le
  have hknown : h.hashInHistory block.hash = true := by
    unfold hashInHistory
    rw [any_eq_true]
    exact ⟨x, by rw [ht.split]; simp, by simpa using ht.hash⟩
  unfold determineBlockPosition
  rw [hlatest]
  dsimp only
  rw [if_neg hparent, if_neg hsame, if_neg (by rw [hrevert]; simp)]
  split_ifs
  · rfl
  · rw [hold]
    dsimp only
    rw [positionBelow, if_neg (Nat.not_lt.mpr hle), if_pos hknown, if_pos hrevert]

lemma rewind_parent (hp : pre.getLast? = some p) (hparent : p.hash = block.parentHash) :
    h.rewind block.parentHash = ⟨pre, remembered h.reverts (x :: post), h.size⟩ := by
  have hremoved : ∀ b ∈ (x :: post).reverse, b.hash ≠ block.parentHash := fun b hb =>
    ht.notParent htree (mem_reverse.mp hb)
  obtain ⟨front, rfl⟩ := List.getLast?_eq_some_iff.mp hp
  have hback : (p :: front.reverse).reverse = front ++ [p] := by simp
  unfold rewind
  rw [ht.split, reverse_append, rewindFrom_append hremoved, reverse_append,
    reverse_singleton, singleton_append, rewindFrom, if_pos hparent]
  dsimp only
  rw [hback]
  rfl

lemma rewind_drained (hno : ∀ p ∈ pre.getLast?, p.hash ≠ block.parentHash) :
    (h.rewind block.parentHash).history = [] := by
  have hremoved : ∀ b ∈ h.history.reverse, b.hash ≠ block.parentHash := by
    intro b hb heq
    rw [ht.split, mem_reverse] at hb
    rcases mem_append.mp hb with hpre | hrest
    · exact hno b (ht.parent htree hpre heq) heq
    · exact ht.notParent htree hrest heq
  unfold rewind
  rw [← append_nil h.history.reverse, rewindFrom_append hremoved]
  rfl

/-- Reverting a partial block removes it. -/
lemma push_latest (hrevert : block.revert) (hpost : post = []) (hindex : block.isPartial) :
    (h.push block).2.history = pre := by
  have hsame := (ht.same htree).2
  have hpart : x.isPartial := by
    rw [BlockHeader.isPartial, ← hsame]
    exact hindex
  unfold push
  rw [ht.position_latest htree hpost hindex]
  rw [ht.latest_of_nil hpost]
  dsimp only
  rw [if_pos (by rw [hrevert, hpart]; rfl), ht.split, hpost, dropLast_concat]

variable (hrevert : block.revert) (hindex : post = [] → ¬ block.isPartial)
include hrevert hindex

lemma push_remembered (hknown : h.reverts.contains block.hash) : h.push block = (.ok (), h) := by
  unfold push
  rw [ht.position htree hrevert hindex, if_pos hknown]

lemma push_parent (hunknown : ¬ h.reverts.contains block.hash) (hp : pre.getLast? = some p)
    (hparent : p.hash = block.parentHash) :
    h.push block = (.ok (), append ⟨pre, remembered h.reverts (x :: post), h.size⟩ block) := by
  have hne : pre ≠ [] := by
    rintro rfl
    cases hp
  unfold push
  rw [ht.position htree hrevert hindex, if_neg hunknown]
  simp only [hrevert, if_true, ht.rewind_parent htree hp hparent, Bool.true_and]
  rw [if_neg (by simpa using hne), if_neg (by simp [BlockHistory.latest, hp, hparent])]

lemma push_drained (hunknown : ¬ h.reverts.contains block.hash)
    (hno : ∀ p ∈ pre.getLast?, p.hash ≠ block.parentHash) :
    (h.push block).1 = .error .revertPositionNotFound := by
  unfold push
  rw [ht.position htree hrevert hindex, if_neg hunknown]
  simp only [hrevert, if_true, ht.rewind_drained htree hno, Bool.true_and, isEmpty_nil]

end Target

/-- Where the blocks that a revert removed are, after it. -/
lemma Target.position_removed (htree : ForkTree H) (ht : Target H h block pre x post)
    {h' : BlockHistory} (hlatest : h'.latest = some block) {y : BlockHeader} (hb : H b)
    (hy : y ∈ post) (heq : b.hash = y.hash) :
    h'.determineBlockPosition b = if y.parentHash = block.hash then .ok .nextExpected
      else if h'.reverts.contains y.hash then .ok .delayed else .ok .advanced := by
  have hmem : y ∈ h.history := by
    rw [ht.split]
    exact mem_append_right _ (mem_cons_of_mem x hy)
  obtain ⟨hnumber, hparent, -⟩ := htree.same b y hb (ht.headers y hmem) heq
  have habove := ht.above y hy
  have hhash : ¬ (decide (b.hash = block.hash) && !b.revert) = true := by
    rw [Bool.and_eq_true, decide_eq_true_eq]
    rintro ⟨hsame, -⟩
    have hnum := (htree.same b block hb ht.header hsame).1
    omega
  have hheight : ¬ (decide (b.number = block.number) && b.isPartial) = true := by
    rw [Bool.and_eq_true, decide_eq_true_eq]
    rintro ⟨hsame, -⟩
    omega
  have hover : ¬ b.number ≤ block.number := by omega
  unfold determineBlockPosition
  rw [hlatest]
  dsimp only
  rw [if_neg hhash, if_neg hheight, if_neg hover, hparent, heq]

/-- The memory keeps the removed blocks when all of them fit. -/
lemma remembered_contains_iff (reverts : LruCache BlockHash BlockHeader)
    (hdistinct : ((x :: post).map BlockHeader.hash).Nodup) :
    (∀ y ∈ post, (remembered reverts (x :: post)).contains y.hash) ↔
      post.length < reverts.capacity := by
  have hkeys : ∀ l : List BlockHeader,
      (l.map fun b => (b.hash, b)).map Prod.fst = l.map BlockHeader.hash := by
    intro l
    rw [map_map]
    rfl
  have hnodup : (((x :: post).reverse.map fun b => (b.hash, b)).map Prod.fst).Nodup := by
    rw [hkeys, map_reverse, nodup_reverse]
    exact hdistinct
  constructor
  · intro hall
    rcases eq_nil_or_concat post with rfl | ⟨front, last, rfl⟩
    · exact reverts.capacity_pos
    · -- the highest block was removed first, so that it is the next one to be forgotten
      have hlast := hall last (by simp)
      have hreverse : (x :: front.concat last).reverse = last :: (x :: front).reverse := by simp
      unfold remembered at hlast
      rw [hreverse, map_cons] at hlast hnodup
      have hfit := LruCache.length_le_of_contains_pushAll hnodup hlast
      have hlength : (front.concat last).length + 1 ≤ reverts.capacity := by simpa using hfit
      exact hlength
  · intro hfit y hy
    apply LruCache.contains_pushAll _ hnodup
    · rw [length_map, length_reverse]
      exact hfit
    · rw [hkeys]
      exact mem_map_of_mem (mem_reverse.mpr (mem_cons_of_mem x hy))

structure CutBack (h : BlockHistory) (block : BlockHeader) (pre : List BlockHeader)
    (x : BlockHeader) : Prop where
  ok : (h.push block).1 = .ok ()
  history : (h.push block).2.history.map BlockHeader.hash = (pre ++ [x]).map BlockHeader.hash

/-- The revert has landed: the removed blocks are late from now on. -/
structure Lands (H : BlockHeader → Prop) (h : BlockHistory) (block : BlockHeader)
    (pre : List BlockHeader) (x : BlockHeader) (post : List BlockHeader) : Prop
    extends CutBack h block pre x where
  delayed : ∀ b, H b → b.hash ∈ post.map BlockHeader.hash →
    (h.push block).2.determineBlockPosition b = .ok .delayed

/-- The history can be cut back to a block between the blocks `pre` and `post`. -/
def Revertible (h : BlockHistory) (block : BlockHeader) (pre post : List BlockHeader) : Prop :=
  (post = [] → ¬ block.isPartial) ∧ if h.reverts.contains block.hash then post = []
    else (∃ p ∈ pre.getLast?, p.hash = block.parentHash) ∧ pre.length < h.size

instance (h : BlockHistory) (block : BlockHeader) (pre post : List BlockHeader) :
    Decidable (Revertible h block pre post) :=
  inferInstanceAs (Decidable (_ ∧ ite _ _ _))

lemma latest_append (hp : h.latest = some p) (block : BlockHeader) :
    (h.append block).latest = some block := by
  obtain ⟨front, hfront⟩ := List.getLast?_eq_some_iff.mp hp
  unfold append latest
  dsimp only
  split_ifs
  · rw [hfront, tail_append_of_ne_nil (by simp), List.getLast?_concat]
  · rw [List.getLast?_concat]

lemma history_append_iff (hp : h.latest = some p) (hx : x.hash = block.hash) :
    (h.append block).history.map BlockHeader.hash = (h.history ++ [x]).map BlockHeader.hash ↔
      h.history.length < h.size := by
  have hne : h.history ≠ [] := by
    intro hnil
    rw [latest, hnil] at hp
    cases hp
  unfold append
  dsimp only
  split_ifs with hfull
  · have hlen : h.size < h.history.length + 1 := by simpa using hfull
    constructor
    · intro heq
      have hlength := congrArg List.length heq
      simp at hlength
    · intro hlt
      omega
  · have hlen : ¬ h.size < h.history.length + 1 := by simpa using hfull
    constructor
    · intro _
      omega
    · intro _
      simp [hx]

section
variable (htree : ForkTree H) (ht : Target H h block pre x post)
include htree ht

lemma Target.cutBack_iff
    (hrevert : block.revert) : CutBack h block pre x ↔ Revertible h block pre post := by
  unfold Revertible
  by_cases htip : post = [] ∧ block.isPartial
  · -- the tip itself is removed
    have hgone := ht.push_latest htree hrevert htip.1 htip.2
    constructor
    · intro hcut
      have hlength := congrArg List.length hcut.history
      rw [hgone] at hlength
      simp at hlength
    · intro hrev
      exact absurd htip.2 (hrev.1 htip.1)
  have hindex : post = [] → ¬ block.isPartial := fun hpost hpart => htip ⟨hpost, hpart⟩
  rw [and_iff_right hindex]
  split_ifs with hknown
  · -- blocks that were removed before are not targets any more
    have hpush := ht.push_remembered htree hrevert hindex hknown
    constructor
    · intro hcut
      have hlength := congrArg List.length hcut.history
      rw [hpush, ht.split] at hlength
      simpa using hlength
    · rintro rfl
      exact ⟨by rw [hpush], by rw [hpush, ht.split]⟩
  · by_cases hparent : ∃ p ∈ pre.getLast?, p.hash = block.parentHash
    · rw [and_iff_right hparent]
      obtain ⟨p, hp, heq⟩ := hparent
      have hpush := ht.push_parent htree hrevert hindex hknown hp heq
      have hhistory := history_append_iff
        (h := ⟨pre, remembered h.reverts (x :: post), h.size⟩) hp ht.hash
      constructor
      · intro hcut
        have hsame := hcut.history
        rw [hpush] at hsame
        exact hhistory.mp hsame
      · intro hroom
        exact ⟨by rw [hpush], by rw [hpush]; exact hhistory.mpr hroom⟩
    · have hno : ∀ p ∈ pre.getLast?, p.hash ≠ block.parentHash := fun p hp heq =>
        hparent ⟨p, hp, heq⟩
      have herr := ht.push_drained htree hrevert hindex hknown hno
      constructor
      · intro hcut
        rw [hcut.ok] at herr
        cases herr
      · intro hrev
        exact absurd hrev.1 hparent

/-- A child of the target is the next block again, and removed blocks that the memory has lost are
ahead. -/
lemma Target.delayed_iff (hcapacity : h.reverts.capacity = h.size * 10) (hrevert : block.revert)
    (hrev : Revertible h block pre post) :
    (∀ b, H b → b.hash ∈ post.map BlockHeader.hash →
        (h.push block).2.determineBlockPosition b = .ok .delayed) ↔
      (∀ y ∈ post, y.parentHash ≠ block.hash) ∧ post.length < h.size * 10 := by
  obtain ⟨hindex, hif⟩ := hrev
  rw [← hcapacity]
  split_ifs at hif with hknown
  · subst hif
    have hpos := h.reverts.capacity_pos
    simpa using hpos
  · obtain ⟨⟨p, hp, heq⟩, -⟩ := hif
    have hpush := ht.push_parent htree hrevert hindex hknown hp heq
    have hkept := remembered_contains_iff h.reverts ht.distinct
    have hmem : ∀ {y}, y ∈ post → H y := fun hy =>
      ht.headers _ (by rw [ht.split]; exact mem_append_right _ (mem_cons_of_mem x hy))
    have hposition := fun {b y : BlockHeader} => ht.position_removed htree (b := b) (y := y)
      (latest_append (h := ⟨pre, remembered h.reverts (x :: post), h.size⟩) hp block)
    rw [hpush]
    constructor
    · intro hdelayed
      have hboth : ∀ y ∈ post, y.parentHash ≠ block.hash ∧
          (remembered h.reverts (x :: post)).contains y.hash := by
        intro y hy
        have hlater := hdelayed y (hmem hy) (mem_map_of_mem hy)
        rw [hposition (hmem hy) hy rfl] at hlater
        split_ifs at hlater with hchild hkey
        · cases hlater
        · exact ⟨hchild, hkey⟩
        · cases hlater
      exact ⟨fun y hy => (hboth y hy).1, hkept.mp fun y hy => (hboth y hy).2⟩
    · rintro ⟨hchild, hfit⟩ b hb hhash
      obtain ⟨y, hy, heq⟩ := mem_map.mp hhash
      rw [hposition hb hy heq.symm, if_neg (hchild y hy)]
      exact if_pos (hkept.mpr hfit y hy)

end

/-- The reverts that a history follows, of all those to a block that it stores. -/
theorem lands_iff_of_run {headers : List BlockHeader} {size : Nat} {h₀ : BlockHistory}
    {trace : List (BlockHeader × Except BlockHistoryError Unit)} (htree : ForkTree H)
    (hheaders : ∀ b ∈ headers, H b) (hnew : new headers size = .ok h₀)
    (hrun : Run step (fun _ b => H b) h₀ trace h) (hblock : H block) (hrevert : block.revert)
    (hsplit : h.history = pre ++ x :: post) (hhash : x.hash = block.hash) :
    (CutBack h block pre x ↔ Revertible h block pre post) ∧
      (Lands H h block pre x post ↔ Revertible h block pre post ∧
        (∀ y ∈ post, y.parentHash ≠ block.hash) ∧ post.length < h.size * 10) := by
  have hin := inTree_of_run htree hheaders hnew hrun
  have ht := hin.target htree hblock hsplit hhash
  have hcut := ht.cutBack_iff htree hrevert
  refine ⟨hcut, ?_, ?_⟩
  · intro hlands
    have hrev := hcut.mp hlands.toCutBack
    exact ⟨hrev, (ht.delayed_iff htree hin.capacity hrevert hrev).mp hlands.delayed⟩
  · rintro ⟨hrev, hlater⟩
    exact ⟨hcut.mpr hrev, (ht.delayed_iff htree hin.capacity hrevert hrev).mpr hlater⟩

end

def revertTo (block : BlockHeader) : BlockHeader := { block with revert := true }

def fork : BlockHeader := { full 3 2 with hash := ⟨[9]⟩ }

def blocks : List BlockHeader := [full 1 0, full 2 1, full 3 2, fork]

def OfBlocks (b : BlockHeader) : Prop := b ∈ blocks ++ blocks.map revertTo

instance (b : BlockHeader) : Decidable (OfBlocks b) := inferInstanceAs (Decidable (_ ∈ _))

lemma forkTree_ofBlocks : ForkTree OfBlocks := by
  have hsame : ∀ a ∈ blocks ++ blocks.map revertTo, ∀ b ∈ blocks ++ blocks.map revertTo,
      a.hash = b.hash → a.number = b.number ∧ a.parentHash = b.parentHash ∧
        a.partialBlockIndex = b.partialBlockIndex := by decide +kernel
  have hnumber : ∀ a ∈ blocks ++ blocks.map revertTo, ∀ b ∈ blocks ++ blocks.map revertTo,
      a.parentHash = b.hash → a.number = b.number + 1 := by decide +kernel
  exact ⟨fun a b ha hb => hsame a ha b hb, fun a b ha hb => hnumber a ha b hb⟩

/-- The history is cut back to block 2, and the revert of block 3 lands. -/
theorem lands_iff_of_run_latest : ∃ h₀, new [full 1 0, full 2 1, full 3 2] 5 = .ok h₀ ∧
    CutBack h₀ (revertTo (full 2 1)) [full 1 0] (full 2 1) ∧
    Lands OfBlocks h₀ (revertTo (full 3 2)) [full 1 0, full 2 1] (full 3 2) [] := by
  have hcheck : (new [full 1 0, full 2 1, full 3 2] 5).toOption.any (fun h₀ =>
      h₀.history = [full 1 0, full 2 1, full 3 2] ∧
        Revertible h₀ (revertTo (full 2 1)) [full 1 0] [full 3 2] ∧
        Revertible h₀ (revertTo (full 3 2)) [full 1 0, full 2 1] [] ∧ 0 < h₀.size * 10) := by
    decide +kernel
  obtain ⟨h₀, hnew, hcheck⟩ := exists_ok_of_any hcheck
  obtain ⟨hhistory, hsecond, hthird, hpos⟩ := of_decide_eq_true hcheck
  have hheaders : ∀ b ∈ [full 1 0, full 2 1, full 3 2], OfBlocks b := by decide +kernel
  have hrun : Run step (fun _ b => OfBlocks b) h₀ [] h₀ := .start
  have hblock : OfBlocks (revertTo (full 2 1)) ∧ OfBlocks (revertTo (full 3 2)) := by
    decide +kernel
  refine ⟨h₀, hnew, ?_, ?_⟩
  · apply (lands_iff_of_run (x := full 2 1) forkTree_ofBlocks hheaders hnew hrun hblock.1 rfl
      hhistory rfl).1.mpr
    exact hsecond
  · apply (lands_iff_of_run (x := full 3 2) forkTree_ofBlocks hheaders hnew hrun hblock.2 rfl
      hhistory rfl).2.mpr
    exact ⟨hthird, by simp, hpos⟩

/-- Headers that are pushed, and a revert to a block with the blocks below and above it: the oldest
block, a block for the first time, and the same block again. -/
def missed : List (List BlockHeader × BlockHeader × List BlockHeader × List BlockHeader) :=
  [([], full 1 0, [], [full 2 1, full 3 2]), ([], full 2 1, [full 1 0], [full 3 2]),
   ([revertTo (full 2 1), fork], revertTo (full 2 1), [full 1 0], [fork])]

theorem not_lands_missed : ForkTree OfBlocks ∧ ∀ c ∈ missed, ∃ (h₀ h : BlockHistory)
    (trace : List (BlockHeader × Except BlockHistoryError Unit)),
    new [full 1 0, full 2 1, full 3 2] 5 = .ok h₀ ∧ Run step (fun _ b => OfBlocks b) h₀ trace h ∧
    trace.map Prod.fst = c.1 ∧ OfBlocks (revertTo c.2.1) ∧
    h.history = c.2.2.1 ++ c.2.1 :: c.2.2.2 ∧
    ¬ Lands OfBlocks h (revertTo c.2.1) c.2.2.1 c.2.1 c.2.2.2 := by
  refine ⟨forkTree_ofBlocks, fun c hc => ?_⟩
  have hcheck : ∀ c ∈ missed, (new [full 1 0, full 2 1, full 3 2] 5).toOption.any (fun h₀ =>
      (play step (fun _ b => OfBlocks b) h₀ c.1).any fun r => r.1.map Prod.fst = c.1 ∧
        OfBlocks (revertTo c.2.1) ∧ r.2.history = c.2.2.1 ++ c.2.1 :: c.2.2.2 ∧
        ¬ ((r.2.push (revertTo c.2.1)).1 = .ok () ∧
          (r.2.push (revertTo c.2.1)).2.history.map BlockHeader.hash =
            (c.2.2.1 ++ [c.2.1]).map BlockHeader.hash ∧
          ∀ b ∈ blocks, b.hash ∈ c.2.2.2.map BlockHeader.hash →
            (r.2.push (revertTo c.2.1)).2.determineBlockPosition b = .ok .delayed)) := by
    decide +kernel
  obtain ⟨h₀, hnew, hcheck⟩ := exists_ok_of_any (hcheck c hc)
  obtain ⟨trace, h, hrun, htrace, hblock, hhistory, hmissed⟩ := exists_run_of_any hcheck
  refine ⟨h₀, h, trace, hnew, hrun, htrace, hblock, hhistory, fun hlands => hmissed ?_⟩
  exact ⟨hlands.ok, hlands.history, fun b hb => hlands.delayed b (mem_append_left _ hb)⟩

end BlockHistory

end Tycho
