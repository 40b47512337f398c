import Mathlib.Data.String.Basic
import Tycho.Storage.PartitionedTables

/-! Blocks that are written batch by batch can be read back as of every block. -/
namespace Tycho
open Collections LawfulVersionedRow List

/-- A block with the updates and deletions of its transactions. -/
structure WrittenBlock (N Id : Type) [PartitionedVersionedRow N Id] [LawfulVersionedRow N Id] where
  ts : NaiveDateTime
  txs : List (List (VersioningEntry N Id))
  written : ∀ tx ∈ txs, ∀ e ∈ tx, e.WrittenAt ts

variable {horizon : NaiveDateTime}

section
variable {N Id : Type} [PartitionedVersionedRow N Id] [LawfulVersionedRow N Id]

def WrittenBlock.entries (b : WrittenBlock N Id) : List (VersioningEntry N Id) := b.txs.flatten

def WrittenBlock.indexed (b : WrittenBlock N Id) : List (VersioningEntry N Id × Nat) :=
  b.txs.zipIdx.flatMap fun tx => tx.1.map fun e => (e, tx.2)

namespace WrittenBlock
variable (b : WrittenBlock N Id)

lemma writtenAt {e : VersioningEntry N Id} (he : e ∈ b.entries) : e.WrittenAt b.ts := by
  obtain ⟨tx, htx, hmem⟩ := mem_flatten.mp he
  exact b.written tx htx e hmem

lemma version {e : VersioningEntry N Id} (he : e ∈ b.entries) : e.version = b.ts := by
  have hwrite := b.writtenAt he
  cases e with
  | update => exact hwrite.2
  | deletion => exact hwrite

lemma map_fst_indexed : b.indexed.map Prod.fst = b.entries := by
  have htx : ∀ tx : List (VersioningEntry N Id) × Nat,
      (tx.1.map fun e => (e, tx.2)).map Prod.fst = tx.1 := by
    intro tx
    rw [map_map]
    exact map_id _
  have hfst : b.txs = b.txs.zipIdx.map Prod.fst := (zipIdx_map_fst 0 b.txs).symm
  rw [indexed, entries, map_flatMap]
  simp only [htx]
  rw [flatMap_def, ← hfst]

lemma mem_of_indexed {e : VersioningEntry N Id × Nat} (he : e ∈ b.indexed) : e.1 ∈ b.entries := by
  rw [← b.map_fst_indexed]
  exact mem_map_of_mem he

lemma indexed_sorted :
    b.indexed.Pairwise fun a c => toLex (a.1.version, a.2) ≤ toLex (c.1.version, c.2) := by
  have hindex : b.indexed.Pairwise fun a c => a.2 ≤ c.2 := by
    rw [indexed, pairwise_flatMap]
    constructor
    · intro tx _
      rw [pairwise_map]
      exact pairwise_of_forall fun _ _ => le_rfl
    · have hidx : (b.txs.zipIdx.map Prod.snd).Pairwise (· < ·) := by
        rw [zipIdx_map_snd]
        exact pairwise_lt_range'
      rw [pairwise_map] at hidx
      apply hidx.imp
      intro tx tx' hlt a ha c hc
      obtain ⟨e, -, rfl⟩ := mem_map.mp ha
      obtain ⟨e', -, rfl⟩ := mem_map.mp hc
      exact hlt.le
  apply hindex.imp_of_mem
  intro a c ha hc hle
  rw [b.version (b.mem_of_indexed ha), b.version (b.mem_of_indexed hc)]
  exact Prod.Lex.toLex_le_toLex.mpr (.inr ⟨rfl, hle⟩)

end WrittenBlock

def blockEntries (blocks : List (WrittenBlock N Id)) : List (VersioningEntry N Id) :=
  blocks.flatMap WrittenBlock.entries

@[simp] lemma blockEntries_append (l l' : List (WrittenBlock N Id)) :
    blockEntries (l ++ l') = blockEntries l ++ blockEntries l' :=
  flatMap_append

lemma exists_block {blocks : List (WrittenBlock N Id)} {e : VersioningEntry N Id}
    (he : e ∈ blockEntries blocks) : ∃ b ∈ blocks, e ∈ b.entries ∧ e.version = b.ts := by
  obtain ⟨b, hb, hmem⟩ := mem_flatMap.mp he
  exact ⟨b, hb, hmem, b.version hmem⟩

lemma map_fst_batch (batch : List (WrittenBlock N Id)) :
    (batch.flatMap WrittenBlock.indexed).map Prod.fst = blockEntries batch := by
  rw [map_flatMap, blockEntries]
  congr 1
  funext b
  exact b.map_fst_indexed

lemma batch_sorted {batch : List (WrittenBlock N Id)} (h : batch.Pairwise fun a b => a.ts < b.ts) :
    (batch.flatMap WrittenBlock.indexed).Pairwise fun a c =>
      toLex (a.1.version, a.2) ≤ toLex (c.1.version, c.2) := by
  rw [pairwise_flatMap]
  refine ⟨fun b _ => b.indexed_sorted, h.imp ?_⟩
  intro b b' hlt a ha c hc
  rw [b.version (b.mem_of_indexed ha), b'.version (b'.mem_of_indexed hc)]
  exact Prod.Lex.toLex_le_toLex.mpr (.inl hlt)

variable [DecidableEq Id]

/-- Blocks with increasing timestamps after the horizon, which delete known keys only. -/
structure SoundBlocks (horizon : NaiveDateTime) (blocks : List (WrittenBlock N Id)) : Prop where
  increasing : blocks.Pairwise fun a b => a.ts < b.ts
  kept : ∀ b ∈ blocks, horizon < b.ts
  present : ∀ pre id t post, blockEntries blocks = pre ++ .deletion id t :: post → id ∈ replay pre

variable {after before : List (WrittenBlock N Id)}

namespace SoundBlocks
variable {horizon : NaiveDateTime} {blocks : List (WrittenBlock N Id)}

lemma of_append_left {rest : List (WrittenBlock N Id)}
    (h : SoundBlocks horizon (blocks ++ rest)) : SoundBlocks horizon blocks := by
  refine ⟨(pairwise_append.mp h.increasing).1, fun b hb => h.kept b (mem_append_left _ hb), ?_⟩
  intro pre id t post hsplit
  apply h.present pre id t (post ++ blockEntries rest)
  rw [blockEntries_append, hsplit, append_assoc, cons_append]

/-- Entries of an earlier block have an earlier time. -/
lemma version_lt (h : SoundBlocks horizon (before ++ after)) {e e' : VersioningEntry N Id}
    (he : e ∈ blockEntries before) (he' : e' ∈ blockEntries after) : e.version < e'.version := by
  obtain ⟨b, hb, -, hversion⟩ := exists_block he
  obtain ⟨b', hb', -, hversion'⟩ := exists_block he'
  rw [hversion, hversion']
  exact (pairwise_append.mp h.increasing).2.2 b hb b' hb'

lemma inOrder (h : SoundBlocks horizon blocks) :
    PartitionedTables.InOrder horizon (blockEntries blocks) := by
  refine ⟨?_, ?_, ?_⟩
  · intro k
    apply List.Pairwise.filter
    rw [blockEntries, pairwise_flatMap]
    constructor
    · intro b _
      apply List.Pairwise.imp_of_mem (R := fun _ _ => True)
      · intro a c ha hc _
        rw [b.version ha, b.version hc]
      · exact pairwise_of_forall fun _ _ => trivial
    · apply h.increasing.imp
      intro b b' hlt e he e' he'
      rw [b.version he, b'.version he']
      exact hlt.le
  · intro e he
    obtain ⟨b, -, hmem, hversion⟩ := exists_block he
    rw [VersioningEntry.IsWritten, hversion]
    exact b.writtenAt hmem
  · intro e he
    obtain ⟨b, hb, -, hversion⟩ := exists_block he
    rw [hversion]
    exact h.kept b hb

/-- A key that is deleted has a version. -/
lemma current_ne_none (h : SoundBlocks horizon blocks) {k : Id}
    {pre post : List (VersioningEntry N Id)} {t : NaiveDateTime}
    (hsplit : entriesOf k (blockEntries blocks) = pre ++ .deletion k t :: post) :
    (Track.ofEntries pre).current ≠ none := by
  obtain ⟨pre', post', hall, rfl⟩ := split_of_entriesOf hsplit
  obtain ⟨row, hrow⟩ := HashMap.mem_iff_lookup.mp (h.present pre' k t post' hall)
  have hin := h.inOrder
  have htimeline : KeyTimeline (entriesOf k pre') (Track.ofEntries (entriesOf k pre')) := by
    apply timeline_ofEntries
    · have hsorted := hin.sorted k
      rw [hsplit] at hsorted
      exact (pairwise_append.mp hsorted).1
    · intro e he
      apply hin.written
      rw [hall]
      exact mem_append_left _ (mem_of_mem_filter he)
  intro hnone
  have hlast := htimeline.current
  rw [hnone, ← lookup_replay, hrow] at hlast
  cases hlast

end SoundBlocks

namespace PartitionedTables
variable {L : Type} [LinearOrder L] (ord : Id → L)

def writeBlocks (horizon : NaiveDateTime) (t : PartitionedTables N Id)
    (batch : List (WrittenBlock N Id)) : Except StorageError (PartitionedTables N Id) :=
  t.write ord horizon (batch.flatMap WrittenBlock.indexed)

lemma Tracks.writeBlocks {t : PartitionedTables N Id} {blocks batch : List (WrittenBlock N Id)}
    (ht : t.Tracks (blockEntries blocks)) (h : SoundBlocks horizon (blocks ++ batch)) :
    ∃ t', t.writeBlocks ord horizon batch = .ok t' ∧ t'.Tracks (blockEntries (blocks ++ batch)) :=
      by
  have hall := h.inOrder
  rw [blockEntries_append, ← map_fst_batch batch] at hall ⊢
  apply ht.write ord h.of_append_left.inOrder hall
  · exact batch_sorted (pairwise_append.mp h.increasing).2.1
  · intro e he e' he'
    rw [map_fst_batch] at he'
    exact h.version_lt he he'
  · intro k pre t post hsplit
    rw [map_fst_batch, ← blockEntries_append] at hsplit
    exact h.current_ne_none hsplit

/-- All batches are written, and the tables hold the versions of all keys. -/
lemma tracks_of_batches {batches : List (List (WrittenBlock N Id))}
    (h : SoundBlocks horizon batches.flatten) :
    ∃ t, batches.foldlM (writeBlocks ord horizon) empty = .ok t ∧
      t.Tracks (blockEntries batches.flatten) := by
  induction batches using List.reverseRecOn with
  | nil => exact ⟨empty, rfl, fun _ => ⟨rfl, rfl⟩⟩
  | append_singleton _ _ ih =>
    rw [flatten_append, flatten_singleton] at h ⊢
    obtain ⟨t, hfold, ht⟩ := ih h.of_append_left
    obtain ⟨t', hwrite, ht'⟩ := ht.writeBlocks ord h
    refine ⟨t', ?_, ht'⟩
    rw [foldlM_append, hfold, ok_bind, foldlM_cons, hwrite]
    rfl

lemma filter_upTo {b : WrittenBlock N Id} (h : SoundBlocks horizon (before ++ b :: after))
    (k : Id) :
    (entriesOf k (blockEntries (before ++ b :: after))).filter (fun e => e.version ≤ b.ts) =
      entriesOf k (blockEntries (before ++ [b])) := by
  have hsplit : before ++ b :: after = (before ++ [b]) ++ after := by simp
  rw [hsplit] at h ⊢
  obtain ⟨hleft, -, hcross⟩ := pairwise_append.mp h.increasing
  rw [blockEntries_append (before ++ [b]), entriesOf_append, filter_append,
    filter_eq_self.mpr, filter_eq_nil_iff.mpr, append_nil]
  · intro e he
    obtain ⟨b', hb', -, hversion⟩ := exists_block (mem_of_mem_filter he)
    have hlt := hcross b (by simp) b' hb'
    rw [hversion]
    simpa using hlt
  · intro e he
    obtain ⟨b', hb', -, hversion⟩ := exists_block (mem_of_mem_filter he)
    rw [hversion]
    rcases mem_append.mp hb' with hb' | hb'
    · exact decide_eq_true ((pairwise_append.mp hleft).2.2 b' hb' b (by simp)).le
    · rw [mem_singleton.mp hb']
      exact decide_eq_true le_rfl

/-- The tables are a replay of the blocks: now, as of every block, and in the previous values. -/
theorem replay_of_batches {horizon : NaiveDateTime} {batches : List (List (WrittenBlock N Id))}
    (h : SoundBlocks horizon batches.flatten) :
    ∃ t, batches.foldlM (writeBlocks ord horizon) empty = .ok t ∧
      (∀ k, (t.latest.lookup k).map core = (replay (blockEntries batches.flatten)).lookup k) ∧
      (∀ before b after, batches.flatten = before ++ b :: after →
        ∀ k, ((t.rowsOf k).filter (validAt b.ts)).map core =
          ((replay (blockEntries (before ++ [b]))).lookup k).toList) ∧
      ∀ k, ∀ r ∈ t.rowsOf k, ∃ pre e post,
        blockEntries batches.flatten = pre ++ .update e :: post ∧ core r = e ∧
          previousValue r = ((replay pre).lookup k).bind value := by
  obtain ⟨t, hfold, ht⟩ := tracks_of_batches ord h
  have htimeline := fun k => h.inOrder.timeline k
  refine ⟨t, hfold, ?_, ?_, ?_⟩
  · intro k
    rw [(ht k).1, (htimeline k).current, lookup_replay]
  · intro before b after hsplit k
    rw [ht.rowsOf, (htimeline k).valid, lookup_replay]
    rw [hsplit] at h ⊢
    rw [filter_upTo h]
  · intro k r hr
    rw [ht.rowsOf] at hr
    obtain ⟨pre, e, post, hentries, hcore, hprev⟩ := (htimeline k).written r hr
    obtain ⟨pre', post', hall, rfl⟩ := split_of_entriesOf hentries
    exact ⟨pre', e, post', hall, hcore, by rw [lookup_replay]; exact hprev⟩

end PartitionedTables
end

def attrRow (value : UInt8) (ts : NaiveDateTime) : NewProtocolState :=
  .new 1 "a" ⟨[value]⟩ ts ts

lemma attrRow_writtenAt (value : UInt8) (ts : NaiveDateTime) :
    (VersioningEntry.update (attrRow value ts)).WrittenAt ts :=
  ⟨⟨rfl, rfl, rfl⟩, rfl⟩

/-- The attribute is set, set again and deleted in one block, and set twice in a third block. -/
def attrBlocks : List (WrittenBlock NewProtocolState (Int × AttrStoreKey)) :=
  [⟨1, [[.update (attrRow 1 1)]], by
      intro tx htx e he
      simp only [mem_singleton] at htx he
      subst htx
      rw [mem_singleton.mp he]
      exact attrRow_writtenAt 1 1⟩,
   ⟨2, [[.update (attrRow 2 2)], [.deletion (1, "a") 2]], by
      intro tx htx e he
      rcases mem_pair.mp htx with rfl | rfl
      · rw [mem_singleton.mp he]
        exact attrRow_writtenAt 2 2
      · rw [mem_singleton.mp he]
        rfl⟩,
   ⟨3, [[.update (attrRow 3 3)], [.update (attrRow 4 3)]], by
      intro tx htx e he
      rcases mem_pair.mp htx with rfl | rfl
      · rw [mem_singleton.mp he]
        exact attrRow_writtenAt 3 3
      · rw [mem_singleton.mp he]
        exact attrRow_writtenAt 4 3⟩]

lemma soundBlocks_attrBlocks : SoundBlocks 0 attrBlocks := by
  refine ⟨by decide +kernel, by decide +kernel, ?_⟩
  have hcheck : ∀ i ∈ List.range (blockEntries attrBlocks).length,
      ∀ e ∈ (blockEntries attrBlocks)[i]?, (∃ row, e = .update row) ∨
        e.getId ∈ replay ((blockEntries attrBlocks).take i) := by
    intro i hi e he
    have hcases : i = 0 ∨ i = 1 ∨ i = 2 ∨ i = 3 ∨ i = 4 := by
      have hlen : (blockEntries attrBlocks).length = 5 := by decide +kernel
      have hlt := mem_range.mp hi
      omega
    rcases hcases with rfl | rfl | rfl | rfl | rfl
    · cases he
      exact .inl ⟨_, rfl⟩
    · cases he
      exact .inl ⟨_, rfl⟩
    · cases he
      exact .inr (by decide +kernel)
    · cases he
      exact .inl ⟨_, rfl⟩
    · cases he
      exact .inl ⟨_, rfl⟩
  intro pre id t post hsplit
  have hlt : pre.length < (blockEntries attrBlocks).length := by
    rw [hsplit]
    simp
  have hget : (blockEntries attrBlocks)[pre.length]? = some (.deletion id t) := by
    rw [hsplit]
    simp
  have htaken : (blockEntries attrBlocks).take pre.length = pre := by
    rw [hsplit]
    simp
  rcases hcheck pre.length (mem_range.mpr hlt) _ hget with ⟨row, hrow⟩ | hmem
  · cases hrow
  · rw [htaken] at hmem
    exact hmem

theorem replay_of_batches_attrBlocks : ∃ t, [attrBlocks.take 2, attrBlocks.drop 2].foldlM
        (PartitionedTables.writeBlocks toLex 0) PartitionedTables.empty = .ok t ∧
      (t.latest.lookup (1, "a")).map core = some (attrRow 4 3) ∧
      ((t.rowsOf (1, "a")).filter (validAt 1)).map core = [attrRow 1 1] ∧
      ((t.rowsOf (1, "a")).filter (validAt 2)).map core = [] := by
  have hsound : SoundBlocks 0 [attrBlocks.take 2, attrBlocks.drop 2].flatten :=
    soundBlocks_attrBlocks
  obtain ⟨t, hfold, hlatest, hrows, -⟩ := PartitionedTables.replay_of_batches toLex hsound
  refine ⟨t, hfold, ?_, ?_, ?_⟩
  · rw [hlatest]
    decide +kernel
  · have hfirst := hrows [] _ _ rfl (1, "a")
    refine hfirst.trans ?_
    decide +kernel
  · have hsecond := hrows [_] _ _ rfl (1, "a")
    refine hsecond.trans ?_
    decide +kernel

end Tycho
