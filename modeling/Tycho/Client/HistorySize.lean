import Tycho.Client.BlockSynchronizer
import Tycho.Client.Reverts

/-! How long the block history gets: a push makes room, but a new history keeps the whole chain of
its headers. -/
namespace Tycho
open Collections Replay List BlockSynchronizer

namespace BlockHistory
variable {h : BlockHistory} {headers : List BlockHeader} {size : Nat}

structure Bounded (h : BlockHistory) : Prop where
  positive : 0 < h.size
  length_le : h.history.length ≤ h.size

lemma Bounded.append (hb : h.Bounded) (block : BlockHeader) : (h.append block).Bounded := by
  refine ⟨hb.positive, ?_⟩
  unfold BlockHistory.append
  dsimp only
  split_ifs with hfull
  · simpa using hb.length_le
  · omega

lemma Bounded.rewind (hb : h.Bounded) (parentHash : BlockHash) : (h.rewind parentHash).Bounded := by
  refine ⟨hb.positive, le_trans ?_ hb.length_le⟩
  rcases h.rewind_history parentHash with hempty | ⟨pre, p, post, hsplit, -, hleft⟩
  · simp [hempty]
  · simp [hsplit, hleft]

lemma Bounded.push (hb : h.Bounded) (block : BlockHeader) : (h.push block).2.Bounded := by
  have hrewound : (if block.revert then h.rewind block.parentHash else h).Bounded := by
    split_ifs
    · exact hb.rewind _
    · exact hb
  have hdropped : h.history.dropLast.length ≤ h.size := by
    have hle := hb.length_le
    simp only [length_dropLast]
    omega
  unfold BlockHistory.push
  split
  · exact hb
  · dsimp only
    generalize (if block.revert then h.rewind block.parentHash else h) = rewound at hrewound ⊢
    split_ifs
    · exact hrewound
    · exact hrewound
    · exact hrewound.append block
  · split
    · exact hb
    · rename_i hlatest
      split_ifs
      · exact hb
      · have hne : h.history ≠ [] := ne_nil_of_mem (mem_of_getLast? hlatest)
        refine ⟨hb.positive, ?_⟩
        have hpos := length_pos_iff.mpr hne
        have hle := hb.length_le
        simp only [length_append, length_dropLast, length_singleton]
        omega
  · split
    · split_ifs <;> exact hb
    · split_ifs
      · exact ⟨hb.positive, hdropped⟩
      · exact hb
  · exact hb
  · exact hb

/-- Headers of the list, newest first, of which each is the child of the next one. -/
def ChainIn (headers chain : List BlockHeader) : Prop :=
  (∀ b ∈ chain, b ∈ headers) ∧
    chain.IsChain fun b a => b.parentHash = a.hash ∧ b.number = a.number + 1

lemma bounded_new (hnew : new headers size = .ok h)
    (hfits : ∀ chain, ChainIn headers chain → chain.length ≤ size) : h.Bounded := by
  have hchain := new_isChain hnew
  unfold new at hnew
  split_ifs at hnew with hpos
  cases hnew
  rw [isChain_reverse] at hchain
  refine ⟨by dsimp only; omega, ?_⟩
  rw [length_reverse]
  exact hfits _ ⟨fun b hb => mem_of_mem_connectedChain hb, hchain⟩

lemma new_of_reinit {syncStreams : List SynchronizerStream}
    {r : List SynchronizerStream × BlockHistory}
    (hr : reinitBlockHistory syncStreams h = .ok r) :
    new (h.history ++ currentHeaders syncStreams) BLOCK_HISTORY_SIZE = .ok r.2 := by
  unfold reinitBlockHistory at hr
  split at hr
  · cases hr
  · obtain ⟨h', hnew, hlatest⟩ := ok_of_bind_ok hr
    split at hlatest
    · cases hlatest
    · cases hlatest
      exact hnew

/-- What the synchronizer does to its history. -/
inductive Update where
  | push (block : BlockHeader)
  | reinit (syncStreams : List SynchronizerStream)

def update (h : BlockHistory) : Update → Option (Unit × BlockHistory)
  | .push block => some ((), (h.push block).2)
  | .reinit syncStreams => match reinitBlockHistory syncStreams h with
    | .ok r => some ((), r.2)
    | .error _ => none

/-- No chain of the headers that a history is made from is longer than the history may be. -/
def FitsUpdate (h : BlockHistory) : Update → Prop
  | .push _ => True
  | .reinit syncStreams => ∀ chain,
    ChainIn (h.history ++ currentHeaders syncStreams) chain → chain.length ≤ BLOCK_HISTORY_SIZE

/-- If the chains that histories are made from fit, the history is always within its size, and the
block that is pushed next is not the one that is dropped. -/
theorem bounded_of_run {h₀ : BlockHistory} {trace : List (Update × Unit)}
    (hnew : new headers size = .ok h₀)
    (hfits : ∀ chain, ChainIn headers chain → chain.length ≤ size)
    (hrun : Run update FitsUpdate h₀ trace h) :
    h.history.length ≤ h.size ∧ ∀ block, (h.append block).latest = some block := by
  have hbounded : h.Bounded := by
    refine Run.invariant (P := fun _ h => h.Bounded) (bounded_new hnew hfits) ?_ hrun
    intro _ h u out h' hb hu hstep
    cases u with
    | push block =>
      cases hstep
      exact hb.push block
    | reinit =>
      simp only [update] at hstep
      split at hstep
      · rename_i r hr
        cases hstep
        exact bounded_new (new_of_reinit hr) hu
      · cases hstep
  refine ⟨hbounded.length_le, fun block => ?_⟩
  cases hlatest : h.latest with
  | some => exact latest_append hlatest block
  | none =>
    have hnil : h.history = [] := List.getLast?_eq_none_iff.mp hlatest
    have hone : ¬ 1 > h.size := by
      have := hbounded.positive
      omega
    simp [append, latest, hnil, hone]

theorem bounded_of_run_pushed : ∃ (h₀ h : BlockHistory) (trace : List (Update × Unit)),
    new [full 1 0] 1 = .ok h₀ ∧ Run update FitsUpdate h₀ trace h ∧
    trace = [(.push (full 2 1), ())] ∧ h.history = [full 2 1] ∧
    h.history.length ≤ h.size ∧ ∀ block, (h.append block).latest = some block := by
  have hfits : ∀ chain, ChainIn [full 1 0] chain → chain.length ≤ 1 := by
    rintro (_ | ⟨a, _ | ⟨b, chain⟩⟩) ⟨hmem, hchain⟩
    · simp
    · simp
    · have ha := mem_singleton.mp (hmem a (by simp))
      have hb := mem_singleton.mp (hmem b (by simp))
      have hnum := (isChain_cons_cons.mp hchain).1.2
      rw [ha, hb] at hnum
      omega
  have hrun : Run update FitsUpdate ⟨[full 1 0], .empty 10 (by decide), 1⟩ _ _ :=
    .next (e := Update.push (full 2 1)) .start trivial rfl
  exact ⟨_, _, _, rfl, hrun, rfl, rfl, bounded_of_run rfl hfits hrun⟩

/-- The headers of a history of size 1 are a chain of two blocks. -/
theorem not_bounded_long : ∃ h, new [full 1 0, full 2 1] 1 = .ok h ∧ ¬ h.history.length ≤ h.size :=
  ⟨_, rfl, by decide⟩

end BlockHistory
end Tycho
