import Mathlib.Data.List.MinMax
import Tycho.Common.Partial

/-! Partial blocks that arrive in any order. -/
namespace Tycho
open Collections List TxWithChanges BlockChanges

structure PartialsOfBlock (ps : List BlockChanges) : Prop where
  oneBlock : ∀ p ∈ ps, ∀ q ∈ ps, p.extractor = q.extractor ∧ p.chain = q.chain ∧
    p.block.number = q.block.number ∧ p.revert = q.revert
  indexed : ∀ p ∈ ps, p.partialBlockIndex.isSome
  distinct : ps.Pairwise fun p q => p.partialBlockIndex ≠ q.partialBlockIndex

def BlockChanges.index (p : BlockChanges) : Nat := p.partialBlockIndex.getD 0

def TxWithContractChanges.withHash (hash : BlockHash) (t : TxWithContractChanges) :
    TxWithContractChanges :=
  { t with tx := { t.tx with blockHash := hash } }

def BlockChanges.bareTxs (p : BlockChanges) : List TxWithChanges :=
  p.txsWithUpdate.map (withHash .new)

namespace PartialsOfBlock
variable {ps : List BlockChanges} {p q : BlockChanges}

section
variable (h : PartialsOfBlock ps)
include h

lemma perm {ps' : List BlockChanges} (hp : ps'.Perm ps) : PartialsOfBlock ps' where
  oneBlock := fun p hp' q hq => h.oneBlock p (hp.mem_iff.mp hp') q (hp.mem_iff.mp hq)
  indexed := fun p hp' => h.indexed p (hp.mem_iff.mp hp')
  distinct := (hp.pairwise_iff fun hne => hne.symm).mpr h.distinct

lemma partialBlockIndex_eq (hp : p ∈ ps) : p.partialBlockIndex = some p.index := by
  obtain ⟨i, hi⟩ := Option.isSome_iff_exists.mp (h.indexed p hp)
  rw [index, hi]
  rfl

lemma eq_of_index_eq (hp : p ∈ ps) (hq : q ∈ ps) (hindex : p.index = q.index) : p = q := by
  by_contra hne
  have hsymm : Std.Symm fun p q : BlockChanges => p.partialBlockIndex ≠ q.partialBlockIndex :=
    ⟨fun _ _ hne => hne.symm⟩
  have hdistinct := h.distinct.forall hp hq hne
  exact hdistinct (by rw [h.partialBlockIndex_eq hp, h.partialBlockIndex_eq hq, hindex])

end

end PartialsOfBlock

/-- The order in which the merge puts partial blocks that arrive one after the other. One with a
new highest index goes to the front, the others go to the end. -/
def arrive (arranged : List BlockChanges) (p : BlockChanges) : List BlockChanges :=
  match arranged with
  | [] => [p]
  | top :: others =>
    if top.index < p.index then p :: top :: others else top :: others ++ [p]

/-- What the merge of some partial blocks holds, in the order in which it puts them. -/
structure MergedFrom (arranged : List BlockChanges) (acc : BlockChanges) : Prop where
  header : ∃ top others, arranged = top :: others ∧ (∀ q ∈ others, q.index < top.index) ∧
    acc = { top with
      newTokens := acc.newTokens, txsWithUpdate := acc.txsWithUpdate
      blockContractChanges := acc.blockContractChanges, traceResults := acc.traceResults }
  tokens : ∀ a, acc.newTokens.lookup a = arranged.findSome? fun p => p.newTokens.lookup a
  txs : ∀ i, atKey (fun t => t.tx.index) i acc.bareTxs =
    arranged.flatMap fun p => atKey (fun t => t.tx.index) i p.bareTxs
  changes : acc.blockContractChanges.map (TxWithContractChanges.withHash .new) =
    (arranged.flatMap blockContractChanges).map (TxWithContractChanges.withHash .new)
  traces : acc.traceResults = arranged.flatMap traceResults

/-- The merge of two or more partial blocks is sorted and points to the block. -/
structure Normalised (acc : BlockChanges) : Prop where
  sorted : acc.txsWithUpdate.Pairwise fun t u => t.tx.index ≤ u.tx.index
  txs : ∀ t ∈ acc.txsWithUpdate, t.tx.blockHash = acc.block.hash
  changes : ∀ t ∈ acc.blockContractChanges, t.tx.blockHash = acc.block.hash

namespace BlockChanges
variable {current previous : BlockChanges}

lemma absorbPartial_normalised : Normalised (current.absorbPartial previous) := by
  refine ⟨?_, ?_, ?_⟩
  · exact pairwise_map.mpr (sortBy_sorted (current.txsWithUpdate ++ previous.txsWithUpdate))
  · intro t ht
    obtain ⟨u, -, rfl⟩ := mem_map.mp ht
    rfl
  · intro t ht
    obtain ⟨u, -, rfl⟩ := mem_map.mp ht
    rfl

private lemma atKey_map_withHash (i : Nat) (h : BlockHash) (l : List TxWithChanges) :
    atKey (fun t => t.tx.index) i (l.map (withHash h)) =
      (atKey (fun t => t.tx.index) i l).map (withHash h) :=
  filter_map

lemma atKey_absorbPartial (i : Nat) :
    atKey (fun t => t.tx.index) i (current.absorbPartial previous).bareTxs =
      atKey (fun t => t.tx.index) i current.bareTxs ++
        atKey (fun t => t.tx.index) i previous.bareTxs := by
  have hbare : (current.absorbPartial previous).bareTxs = (sortBy (fun t => t.tx.index)
        (current.txsWithUpdate ++ previous.txsWithUpdate)).map (withHash .new) :=
    map_map
  rw [hbare, atKey_map_withHash, atKey_sortBy, atKey_append, map_append, bareTxs, bareTxs,
    atKey_map_withHash, atKey_map_withHash]

lemma changes_absorbPartial : (current.absorbPartial previous).blockContractChanges.map
      (TxWithContractChanges.withHash .new) =
    current.blockContractChanges.map (TxWithContractChanges.withHash .new) ++
      previous.blockContractChanges.map (TxWithContractChanges.withHash .new) := by
  rw [← map_append]
  exact map_map

lemma tokens_absorbPartial (a : Address) : (current.absorbPartial previous).newTokens.lookup a =
      (current.newTokens.lookup a).or (previous.newTokens.lookup a) :=
  (HashMap.lookup_foldl_orInsert (fun _ t => t) current.newTokens previous.newTokens a).trans
    (by rw [Option.map_id'])

end BlockChanges
namespace MergedFrom
variable {arranged arrived rest : List BlockChanges} {acc p : BlockChanges}

lemma singleton (p : BlockChanges) : MergedFrom [p] p where
  header := ⟨p, [], rfl, by simp, rfl⟩
  tokens := fun a => by simp
  txs := fun i => by simp
  changes := by simp
  traces := by simp

/-- A partial block is absorbed, or absorbs what was merged before. -/
lemma mergePartial (h : MergedFrom arranged acc) (hp : PartialsOfBlock (p :: arranged)) :
    ∃ acc', acc.mergePartial p = .ok acc' ∧ MergedFrom (arrive arranged p) acc' ∧
      Normalised acc' := by
  obtain ⟨top, others, rfl, hothers, hacc⟩ := h.header
  have hmem : p ∈ p :: top :: others := by simp
  have htop : top ∈ p :: top :: others := by simp
  obtain ⟨hname, hchain, hnum, hrev⟩ := hp.oneBlock top htop p hmem
  have hindex := hp.partialBlockIndex_eq hmem
  have hindex' : acc.partialBlockIndex = some top.index := by
    have htopIndex := hp.partialBlockIndex_eq htop
    rw [hacc]
    exact htopIndex
  have hne : top.index ≠ p.index := by
    intro heq
    have hdistinct := (pairwise_cons.mp hp.distinct).1 top mem_cons_self
    exact hdistinct (by rw [hindex, hp.partialBlockIndex_eq htop, heq])
  have hheader : acc.extractor = p.extractor ∧ acc.chain = p.chain ∧
      acc.block.number = p.block.number ∧ acc.revert = p.revert := by
    rw [hacc]
    exact ⟨hname, hchain, hnum, hrev⟩
  obtain ⟨hname, hchain, hnum, hrev⟩ := hheader
  unfold mergePartial
  simp only [hindex, hindex', hname, hchain, hnum, hrev, ne_eq, not_true_eq_false, if_false]
  by_cases hlt : top.index < p.index
  · rw [if_neg (by omega), if_pos hlt]
    refine ⟨_, rfl, ?_, absorbPartial_normalised⟩
    rw [arrive, if_pos hlt]
    constructor
    · refine ⟨p, top :: others, rfl, ?_, rfl⟩
      exact forall_mem_cons.mpr ⟨hlt, fun q hq => (hothers q hq).trans hlt⟩
    · intro a
      rw [tokens_absorbPartial, h.tokens, List.findSome?_cons (a := p)]
      cases p.newTokens.lookup a <;> rfl
    · intro i
      rw [atKey_absorbPartial, h.txs, flatMap_cons (x := p)]
    · rw [changes_absorbPartial, h.changes, ← map_append, flatMap_cons (x := p)]
    · rw [flatMap_cons (x := p), ← h.traces]
      rfl
  · rw [if_pos (by omega)]
    refine ⟨_, rfl, ?_, absorbPartial_normalised⟩
    rw [arrive, if_neg hlt]
    constructor
    · refine ⟨top, others ++ [p], rfl, ?_, ?_⟩
      · exact forall_mem_append.mpr ⟨hothers, forall_mem_singleton.mpr (by omega)⟩
      · rw [hacc]
        rfl
    · intro a
      rw [tokens_absorbPartial, h.tokens, List.findSome?_append]
      simp
    · intro i
      rw [atKey_absorbPartial, h.txs, flatMap_append, flatMap_singleton]
    · rw [changes_absorbPartial, h.changes, ← map_append, flatMap_append, flatMap_singleton]
    · rw [flatMap_append, flatMap_singleton, ← h.traces]
      rfl

lemma arrive_perm (arranged : List BlockChanges) (p : BlockChanges) :
    (arrive arranged p).Perm (p :: arranged) := by
  unfold arrive
  split
  · exact List.Perm.refl _
  · split_ifs
    · exact List.Perm.refl _
    · exact perm_append_singleton _ _

/-- Merging the rest of the partial blocks, in the order in which they arrive. -/
lemma foldlM_mergePartial (h : MergedFrom arranged acc) (hps : PartialsOfBlock (arranged ++ rest)) :
    ∃ merged, rest.foldlM BlockChanges.mergePartial acc = .ok merged ∧
      MergedFrom (rest.foldl arrive arranged) merged ∧ (rest ≠ [] → Normalised merged) := by
  induction rest generalizing arranged acc with
  | nil => exact ⟨acc, rfl, h, fun hne => absurd rfl hne⟩
  | cons p rest ih =>
    have hperm : (arrive arranged p ++ rest).Perm (arranged ++ p :: rest) :=
      ((arrive_perm arranged p).append_right rest).trans perm_middle.symm
    have hp : PartialsOfBlock (p :: arranged) := by
      have hall := hps.perm perm_middle.symm
      exact ⟨fun q hq r hr => hall.oneBlock q (mem_append_left rest hq) r
          (mem_append_left rest hr), fun q hq => hall.indexed q (mem_append_left rest hq),
        (pairwise_append.mp hall.distinct).1⟩
    obtain ⟨acc', hstep, hacc', hnormal⟩ := h.mergePartial hp
    obtain ⟨merged, hfold, hmerged, hnormal'⟩ := ih hacc' (hps.perm hperm)
    refine ⟨merged, ?_, hmerged, fun _ => ?_⟩
    · rw [foldlM_cons, hstep]
      exact hfold
    · cases rest with
      | nil =>
        cases hfold
        exact hnormal
      | cons => exact hnormal' (cons_ne_nil _ _)

lemma foldl_arrive_perm (arranged rest : List BlockChanges) :
    (rest.foldl arrive arranged).Perm (arranged ++ rest) := by
  induction rest generalizing arranged with
  | nil => simp
  | cons p rest ih =>
    exact (ih _).trans (((arrive_perm arranged p).append_right rest).trans perm_middle.symm)

/-- If the highest partial block comes first, the others stay in their order. -/
lemma foldl_arrive_of_top {top : BlockChanges} {others : List BlockChanges}
    (h : ∀ q ∈ rest, q.index < top.index) :
    rest.foldl arrive (top :: others) = top :: others ++ rest := by
  induction rest generalizing others with
  | nil => simp
  | cons p _ ih =>
    have hp := h p mem_cons_self
    have hstep : arrive (top :: others) p = top :: (others ++ [p]) := if_neg (by omega)
    rw [foldl_cons, hstep, ih fun q hq => h q (mem_cons_of_mem _ hq)]
    simp

end MergedFrom
structure SameMerge (r r' : BlockChanges) : Prop where
  txs : r.txsWithUpdate = r'.txsWithUpdate
  tokens : ∀ a, r.newTokens.lookup a = r'.newTokens.lookup a
  index : r.partialBlockIndex = r'.partialBlockIndex
  traces : r.traceResults.Perm r'.traceResults
  changes : r.blockContractChanges.Perm r'.blockContractChanges

/-- The value that a token has in the highest partial block that has it. -/
def HighestToken (ps : List BlockChanges) (a : Address) (v : Token) : Prop :=
  ∃ p ∈ ps, p.newTokens.lookup a = some v ∧ ∀ q ∈ ps, a ∈ q.newTokens → q.index ≤ p.index

/-- In every order, merging succeeds with the same result, and the highest partial block decides
about a token. -/
def OrderIndependent (ps : List BlockChanges) : Prop :=
  ∀ p rest p' rest', (p :: rest).Perm ps → (p' :: rest').Perm ps →
    ∃ r r', rest.foldlM mergePartial p = .ok r ∧
      rest'.foldlM mergePartial p' = .ok r' ∧ SameMerge r r' ∧
      ∀ a v, r.newTokens.lookup a = some v ↔ HighestToken ps a v

/-- A token that the highest partial block does not have is the same in all that have it. -/
def TokensAgree (ps : List BlockChanges) : Prop :=
  ∀ top ∈ ps, (∀ q ∈ ps, q.index ≤ top.index) → ∀ a, top.newTokens.lookup a = none →
    ∀ p ∈ ps, ∀ q ∈ ps, ∀ v w, p.newTokens.lookup a = some v → q.newTokens.lookup a = some w → v = w

/-- The transactions of two partial blocks below another one are sorted into the same list either
way around. -/
def TxsCommute (ps : List BlockChanges) : Prop :=
  ∀ p ∈ ps, ∀ q ∈ ps, ∀ r ∈ ps, p.index < r.index → q.index < r.index →
    sortBy (fun t => t.tx.index) (p.bareTxs ++ q.bareTxs) =
      sortBy (fun t => t.tx.index) (q.bareTxs ++ p.bareTxs)

variable {r : BlockChanges}

section
variable {ps : List BlockChanges} {p top : BlockChanges} {rest others : List BlockChanges}

/-- The arrangement of some partial blocks and what their merge holds. -/
lemma exists_merged (hps : PartialsOfBlock ps) (hperm : (p :: rest).Perm ps) :
    ∃ r top others, rest.foldlM mergePartial p = .ok r ∧
      rest.foldl arrive [p] = top :: others ∧ (top :: others).Perm ps ∧
      (∀ q ∈ others, q.index < top.index) ∧ r.partialBlockIndex = top.partialBlockIndex ∧
      r.block = top.block ∧ MergedFrom (top :: others) r ∧ (rest ≠ [] → Normalised r) := by
  obtain ⟨r, hfold, hmerged, hnormal⟩ :=
    @MergedFrom.foldlM_mergePartial [p] rest p (.singleton p) (hps.perm hperm)
  obtain ⟨top, others, harranged, hothers, hr⟩ := hmerged.header
  have harrived := MergedFrom.foldl_arrive_perm [p] rest
  rw [harranged] at hmerged harrived
  refine ⟨r, top, others, hfold, harranged, harrived.trans hperm, hothers, ?_, ?_, hmerged, hnormal⟩
  · rw [hr]
  · rw [hr]

lemma exists_top (hne : ps ≠ []) : ∃ top ∈ ps, ∀ q ∈ ps, q.index ≤ top.index := by
  cases htop : ps.argmax index with
  | none => exact absurd (argmax_eq_none.mp htop) hne
  | some top =>
    exact ⟨top, argmax_mem htop, fun q hq => le_of_mem_argmax hq htop⟩

/-- The partial blocks with the highest one and two others first. -/
lemma perm_top_pair {q : BlockChanges} (htop : top ∈ ps) (hp : p ∈ ps) (hq : q ∈ ps)
    (hpt : p ≠ top) (hqt : q ≠ top) (hqp : q ≠ p) :
    ∃ rest, (top :: p :: q :: rest).Perm ps := by
  have hp' : p ∈ ps.erase top := (mem_erase_of_ne hpt).mpr hp
  have hq' : q ∈ (ps.erase top).erase p :=
    (mem_erase_of_ne hqp).mpr ((mem_erase_of_ne hqt).mpr hq)
  refine ⟨((ps.erase top).erase p).erase q, ?_⟩
  exact (((perm_cons_erase hq').symm.cons p).trans
    (perm_cons_erase hp').symm |>.cons top).trans (perm_cons_erase htop).symm

/-- A merge in which the highest partial block comes first. -/
lemma exists_merged_of_top (hps : PartialsOfBlock ps) (hperm : (top :: rest).Perm ps)
    (htop : ∀ q ∈ ps, q.index ≤ top.index) :
    ∃ r, rest.foldlM mergePartial top = .ok r ∧ MergedFrom (top :: rest) r := by
  obtain ⟨r, top', others, hfold, harranged, -, -, -, -, hmerged, -⟩ := exists_merged hps hperm
  have hlt : ∀ q ∈ rest, q.index < top.index := by
    intro q hq
    have hmem : q ∈ ps := hperm.mem_iff.mp (mem_cons_of_mem _ hq)
    have hne : q ≠ top := by
      rintro rfl
      exact (pairwise_cons.mp (hps.perm hperm).distinct).1 q hq rfl
    have hindex : q.index ≠ top.index := fun heq =>
      hne (hps.eq_of_index_eq hmem (hperm.mem_iff.mp mem_cons_self) heq)
    have hle := htop q hmem
    omega
  rw [MergedFrom.foldl_arrive_of_top hlt, singleton_append] at harranged
  exact ⟨r, hfold, harranged ▸ hmerged⟩

/-- The highest partial block decides about a token, if the others agree where it says nothing. -/
lemma MergedFrom.lookup_newTokens {a : Address} {v : Token} (h : MergedFrom (top :: others) r)
    (hperm : (top :: others).Perm ps) (hlt : ∀ q ∈ others, q.index < top.index)
    (hagree : TokensAgree ps) :
    r.newTokens.lookup a = some v ↔ HighestToken ps a v := by
  have htop : top ∈ ps := hperm.mem_iff.mp mem_cons_self
  have hmax : ∀ q ∈ ps, q.index ≤ top.index := by
    intro q hq
    rcases mem_cons.mp (hperm.mem_iff.mpr hq) with rfl | hq
    · exact Nat.le_refl _
    · exact (hlt q hq).le
  rw [h.tokens, List.findSome?_cons]
  cases hw : top.newTokens.lookup a with
  | some =>
    constructor
    · intro hv
      exact ⟨top, htop, hw.trans hv, fun q hq _ => hmax q hq⟩
    · rintro ⟨p, hp, hv, hp'⟩
      have hle := hp' top htop (AList.lookup_isSome.mp (by rw [hw]; rfl))
      rcases mem_cons.mp (hperm.mem_iff.mpr hp) with rfl | hothers
      · exact hw.symm.trans hv
      · have hlt' := hlt p hothers
        omega
  | none =>
    -- the values of all partial blocks agree, so it does not matter which one is found
    have hvalue := hagree top htop hmax a hw
    constructor
    · intro hv
      obtain ⟨p, hp, hpv⟩ := exists_of_findSome?_eq_some hv
      have hps : p ∈ ps := hperm.mem_iff.mp (mem_cons_of_mem _ hp)
      have hmem : p ∈ ps.filter fun q => a ∈ q.newTokens :=
        mem_filter.mpr ⟨hps, decide_eq_true (AList.lookup_isSome.mp (by rw [hpv]; rfl))⟩
      obtain ⟨q, hq, hq'⟩ := exists_top (ne_nil_of_mem hmem)
      obtain ⟨hqs, hqa⟩ := mem_filter.mp hq
      obtain ⟨w, hqw⟩ :=
        Option.isSome_iff_exists.mp (AList.lookup_isSome.mpr (of_decide_eq_true hqa))
      refine ⟨q, hqs, ?_, fun u hu hua => hq' u (mem_filter.mpr ⟨hu, decide_eq_true hua⟩)⟩
      rw [hqw, hvalue q hqs p hps w v hqw hpv]
    · rintro ⟨p, hp, hpv, -⟩
      have hothers : p ∈ others := by
        rcases mem_cons.mp (hperm.mem_iff.mpr hp) with rfl | hothers
        · cases hw.symm.trans hpv
        · exact hothers
      cases hfound : others.findSome? fun q => q.newTokens.lookup a with
      | none => cases (List.findSome?_eq_none_iff.mp hfound p hothers).symm.trans hpv
      | some w =>
        obtain ⟨q, hq, hqw⟩ := exists_of_findSome?_eq_some hfound
        have hqs : q ∈ ps := hperm.mem_iff.mp (mem_cons_of_mem _ hq)
        exact congrArg some (hvalue q hqs p hp w v hqw hpv)

/-- A normalised merge is what it is apart from the hashes, with the hash of its block. -/
lemma Normalised.txsWithUpdate_eq (h : Normalised r) :
    r.txsWithUpdate = r.bareTxs.map (withHash r.block.hash) := by
  rw [bareTxs, map_map]
  refine (map_id r.txsWithUpdate).symm.trans (map_congr_left fun t ht => ?_)
  rw [← h.txs t ht]
  rfl

lemma Normalised.blockContractChanges_eq (h : Normalised r) :
    r.blockContractChanges = (r.blockContractChanges.map (TxWithContractChanges.withHash .new)).map
      (TxWithContractChanges.withHash r.block.hash) := by
  rw [map_map]
  refine (map_id r.blockContractChanges).symm.trans (map_congr_left fun t ht => ?_)
  rw [← h.changes t ht]
  rfl

lemma Normalised.bareTxs_sorted (h : Normalised r) :
    r.bareTxs.Pairwise fun t u => t.tx.index ≤ u.tx.index :=
  pairwise_map.mpr h.sorted

/-- Two arrangements below the same highest partial block give the same merge. -/
lemma SameMerge.of_merged {r' : BlockChanges} {others' : List BlockChanges}
    (hr : MergedFrom (top :: others) r) (hr' : MergedFrom (top :: others') r')
    (hnormal : Normalised r) (hnormal' : Normalised r') (hblock : r.block = r'.block)
    (hindex : r.partialBlockIndex = r'.partialBlockIndex) (hothers : others.Perm others')
    (htokens : ∀ a, r.newTokens.lookup a = r'.newTokens.lookup a)
    (hcommute : ∀ p ∈ others, ∀ q ∈ others, sortBy (fun t => t.tx.index) (p.bareTxs ++ q.bareTxs) =
      sortBy (fun t => t.tx.index) (q.bareTxs ++ p.bareTxs)) : SameMerge r r' := by
  have hbare : r.bareTxs = r'.bareTxs := by
    refine eq_of_sorted hnormal.bareTxs_sorted hnormal'.bareTxs_sorted fun i => ?_
    rw [hr.txs, hr'.txs, flatMap_cons, flatMap_cons]
    refine congrArg (_ ++ ·) (flatMap_perm hothers fun p hp q hq => ?_)
    have hwords := sortBy_eq_iff.mp (hcommute p hp q hq) i
    rwa [atKey_append, atKey_append] at hwords
  refine ⟨?_, htokens, hindex, ?_, ?_⟩
  · rw [hnormal.txsWithUpdate_eq, hnormal'.txsWithUpdate_eq, hbare, hblock]
  · rw [hr.traces, hr'.traces]
    exact (hothers.cons top).flatMap_right _
  · rw [hnormal.blockContractChanges_eq, hnormal'.blockContractChanges_eq, hr.changes, hr'.changes,
      hblock]
    exact (((hothers.cons top).flatMap_right _).map _).map _

lemma orderIndependent_of_agree (hps : PartialsOfBlock ps) (htokens : TokensAgree ps)
    (htxs : TxsCommute ps) : OrderIndependent ps := by
  intro p rest p' rest' hperm hperm'
  obtain ⟨r, top, others, hfold, -, harranged, hlt, hindex, hblock, hmerged, hnormal⟩ :=
    exists_merged hps hperm
  obtain ⟨r', top', others', hfold', -, harranged', hlt', hindex', hblock', hmerged', hnormal'⟩ :=
    exists_merged hps hperm'
  have hlookup : ∀ a v, r.newTokens.lookup a = some v ↔ HighestToken ps a v := fun a v =>
    hmerged.lookup_newTokens harranged hlt htokens
  have hlookup' : ∀ a v, r'.newTokens.lookup a = some v ↔ HighestToken ps a v := fun a v =>
    hmerged'.lookup_newTokens harranged' hlt' htokens
  refine ⟨r, r', hfold, hfold', ?_, hlookup⟩
  have hboth : (p :: rest).Perm (p' :: rest') := hperm.trans hperm'.symm
  by_cases hrest : rest = []
  · -- a single partial block is not merged at all
    subst hrest
    obtain ⟨rfl, rfl⟩ := List.cons.inj (singleton_perm.mp hboth)
    cases hfold.symm.trans hfold'
    exact ⟨rfl, fun _ => rfl, rfl, .refl _, .refl _⟩
  · have hrest' : rest' ≠ [] := by
      rintro rfl
      exact hrest (List.cons.inj (perm_singleton.mp hboth)).2
    have hsame := harranged.trans harranged'.symm
    have htop : top = top' := by
      have hmem := hsame.mem_iff.mp mem_cons_self
      have hmem' := hsame.mem_iff.mpr (mem_cons_self (a := top'))
      rcases mem_cons.mp hmem with heq | hin
      · exact heq
      · rcases mem_cons.mp hmem' with heq | hin'
        · exact heq.symm
        · have hbelow := hlt' top hin
          have habove := hlt top' hin'
          omega
    subst htop
    have hothers : others.Perm others' := hsame.cons_inv
    refine SameMerge.of_merged hmerged hmerged' (hnormal hrest) (hnormal' hrest')
      (hblock.trans hblock'.symm) (hindex.trans hindex'.symm) hothers (fun a => ?_)
      fun p hp q hq => ?_
    · exact Option.ext fun v => (hlookup a v).trans (hlookup' a v).symm
    · have hmem : ∀ q ∈ others, q ∈ ps := fun q hq =>
        harranged.mem_iff.mp (mem_cons_of_mem _ hq)
      exact htxs p (hmem p hp) q (hmem q hq) top (harranged.mem_iff.mp mem_cons_self)
        (hlt p hp) (hlt q hq)

/-- Two partial blocks below the highest one can change places. -/
lemma OrderIndependent.swapped {q : BlockChanges} (h : OrderIndependent ps)
    (hps : PartialsOfBlock ps) (htop : top ∈ ps) (hmax : ∀ q ∈ ps, q.index ≤ top.index)
      (hp : p ∈ ps)
    (hq : q ∈ ps) (hpt : p ≠ top) (hqt : q ≠ top) (hqp : q ≠ p) :
    ∃ rest s s', MergedFrom (top :: p :: q :: rest) s ∧ MergedFrom (top :: q :: p :: rest) s' ∧
      SameMerge s s' := by
  obtain ⟨rest, hperm⟩ := perm_top_pair htop hp hq hpt hqt hqp
  have hswap : (top :: q :: p :: rest).Perm ps := ((List.Perm.swap p q rest).cons top).trans hperm
  obtain ⟨s, hs, hmerged⟩ := exists_merged_of_top hps hperm hmax
  obtain ⟨s', hs', hmerged'⟩ := exists_merged_of_top hps hswap hmax
  obtain ⟨u, u', hu, hu', hsame, -⟩ := h _ _ _ _ hperm hswap
  cases hs.symm.trans hu
  cases hs'.symm.trans hu'
  exact ⟨rest, s, s', hmerged, hmerged', hsame⟩

section
variable (hps : PartialsOfBlock ps) (h : OrderIndependent ps)
include hps h

lemma tokensAgree_of_orderIndependent : TokensAgree ps := by
  intro top htop hmax a hnone p hp q hq v w hv hw
  by_cases hpq : q = p
  · subst hpq
    exact Option.some.inj (hv.symm.trans hw)
  · have hpt : p ≠ top := by
      rintro rfl
      cases hnone.symm.trans hv
    have hqt : q ≠ top := by
      rintro rfl
      cases hnone.symm.trans hw
    obtain ⟨rest, s, s', hmerged, hmerged', hsame⟩ :=
      h.swapped hps htop hmax hp hq hpt hqt hpq
    have hvalue := hsame.tokens a
    rw [hmerged.tokens, hmerged'.tokens] at hvalue
    simp only [List.findSome?_cons, hnone, hv, hw] at hvalue
    exact Option.some.inj hvalue

lemma txsCommute_of_orderIndependent : TxsCommute ps := by
  intro p hp q hq r hr hpr hqr
  by_cases hpq : q = p
  · rw [hpq]
  · obtain ⟨top, htop, hmax⟩ := exists_top (ne_nil_of_mem hp)
    have hle := hmax r hr
    have hpt : p ≠ top := by
      rintro rfl
      omega
    have hqt : q ≠ top := by
      rintro rfl
      omega
    obtain ⟨rest, s, s', hmerged, hmerged', hsame⟩ :=
      h.swapped hps htop hmax hp hq hpt hqt hpq
    refine sortBy_eq_iff.mpr fun i => ?_
    have hwords : atKey (fun t => t.tx.index) i s.bareTxs =
        atKey (fun t => t.tx.index) i s'.bareTxs := by
      rw [bareTxs, hsame.txs]
      rfl
    rw [hmerged.txs, hmerged'.txs] at hwords
    simp only [flatMap_cons, ← append_assoc] at hwords
    rw [atKey_append, atKey_append]
    have hcancel := append_cancel_right hwords
    rw [append_assoc, append_assoc] at hcancel
    exact append_cancel_left hcancel

end

/-- The order of arrival is irrelevant exactly if the partial blocks below the highest one agree on
the tokens it does not have and their transactions with equal indices can be swapped. -/
theorem orderIndependent_iff (hps : PartialsOfBlock ps) :
    OrderIndependent ps ↔ TokensAgree ps ∧ TxsCommute ps := by
  constructor
  · intro h
    exact ⟨tokensAgree_of_orderIndependent hps h, txsCommute_of_orderIndependent hps h⟩
  · rintro ⟨htokens, htxs⟩
    exact orderIndependent_of_agree hps htokens htxs

end

theorem orderIndependent_iff_feePartial : PartialsOfBlock [feePartial, balancePartial] ∧
    OrderIndependent [feePartial, balancePartial] := by
  have hps : PartialsOfBlock [feePartial, balancePartial] := ⟨by decide, by decide, by decide⟩
  have htokens : TokensAgree [feePartial, balancePartial] := by
    intro top _ _ a _ p hp q _ v w hv _
    have hnone : ∀ p ∈ [feePartial, balancePartial], p.newTokens.lookup a = none := by
      simp [feePartial, balancePartial, poolPartial]
    cases (hnone p hp).symm.trans hv
  have htxs : TxsCommute [feePartial, balancePartial] := by
    intro p hp q hq r hr hpr hqr
    have hlow : ∀ p ∈ [feePartial, balancePartial], ∀ r ∈ [feePartial, balancePartial],
        p.index < r.index → p.index = feePartial.index := by decide
    have hfee : feePartial ∈ [feePartial, balancePartial] := mem_cons_self
    rw [hps.eq_of_index_eq hp hfee (hlow p hp r hr hpr),
      hps.eq_of_index_eq hq hfee (hlow q hq r hr hqr)]
  exact ⟨hps, (orderIndependent_iff hps).mpr ⟨htokens, htxs⟩⟩

def tokenPartial (index : Nat) (decimals : Option Nat) : BlockChanges :=
  { feePartial with
    partialBlockIndex := some index, txsWithUpdate := []
    newTokens := match decimals with
      | some d => HashMap.ofList [(⟨[9]⟩, ⟨⟨[9]⟩, "WETH", d, 0, [], .ethereum, 100⟩)]
      | none => ∅ }

/-- If the second of three partial blocks comes last, the merge keeps the token of the first. -/
theorem not_orderIndependent_tokenPartial :
    PartialsOfBlock [tokenPartial 0 (some 6), tokenPartial 1 (some 18), tokenPartial 2 none] ∧
      ¬ OrderIndependent
        [tokenPartial 0 (some 6), tokenPartial 1 (some 18), tokenPartial 2 none] := by
  refine ⟨⟨by decide, by decide, by decide⟩, fun h => ?_⟩
  obtain ⟨r, r', hr, hr', hsame, -⟩ := h (tokenPartial 0 (some 6))
    [tokenPartial 1 (some 18), tokenPartial 2 none] (tokenPartial 0 (some 6))
    [tokenPartial 2 none, tokenPartial 1 (some 18)] (.refl _) ((List.Perm.swap _ _ _).cons _)
  cases hr
  cases hr'
  have htoken := hsame.tokens ⟨[9]⟩
  revert htoken
  decide

end Tycho
