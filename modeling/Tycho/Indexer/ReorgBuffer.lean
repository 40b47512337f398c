import Tycho.Collections.Contiguous
import Tycho.Common.Blockchain

/-! The buffer of blocks that are not in the database yet. -/
namespace Tycho
open Collections List

class BlockScoped (B : Type) where
  block : B → Block

export BlockScoped (block)

instance : BlockScoped BlockChanges := ⟨BlockChanges.block⟩

instance : BlockScoped BlockAggregatedChanges := ⟨BlockAggregatedChanges.block⟩

structure BlockUpdateWithCursor where
  blockUpdate : BlockChanges
  cursor : String

instance : BlockScoped BlockUpdateWithCursor := ⟨fun m => block m.blockUpdate⟩

inductive BlockNumberOrTimestamp where
  | number (n : Nat)
  | timestamp (ts : NaiveDateTime)
deriving DecidableEq

namespace BlockNumberOrTimestamp

def greaterThan : BlockNumberOrTimestamp → Block → Bool
  | .number n, other => n > other.number
  | .timestamp ts, other => ts > other.ts

def debug : BlockNumberOrTimestamp → String
  | .number n => "Number(" ++ n.repr ++ ")"
  | .timestamp ts => "Timestamp(" ++ NaiveDateTime.debug ts ++ ")"

end BlockNumberOrTimestamp

inductive CommitStatus where
  | committed | uncommitted | unseen
deriving DecidableEq

structure ReorgBuffer (B : Type) where
  blockMessages : List B
  strict : Bool

variable {height : Nat} {hash : BlockHash}

namespace ReorgBuffer
variable {B : Type} [BlockScoped B]

def new : ReorgBuffer B := ⟨[], false⟩

def insertBlock (b : ReorgBuffer B) (new : B) : Except StorageError (ReorgBuffer B) :=
  match b.blockMessages.getLast? with
  | some last =>
    if (block last).hash ≠ (block new).parentHash then
      .error (.unexpected ("Unexpected block sequence. Expected parent hash " ++
        (block last).hash.toString ++ " received " ++ (block new).parentHash.toString))
    else .ok { b with blockMessages := b.blockMessages ++ [new] }
  | none => .ok { b with blockMessages := b.blockMessages ++ [new] }

def drainBlocksUntil (b : ReorgBuffer B) (height : Nat) :
    Except StorageError (List B × ReorgBuffer B) :=
  let targetIndex := b.blockMessages.findIdx? fun m => (block m).number == height
  let first := b.blockMessages.head?.map fun m => (block m).number
  match targetIndex with
  | some idx =>
    .ok (b.blockMessages.take idx, { b with blockMessages := b.blockMessages.drop idx })
  | none =>
    if !b.strict && first.getD 0 < height then .ok ([], b)
    else .error (.notFound "block" height.repr)

/-- The purged blocks and the buffer they left. The newest block with the hash is kept. -/
def purge (b : ReorgBuffer B) (targetHash : BlockHash) :
    Except StorageError (List B × ReorgBuffer B) :=
  match b.blockMessages.reverse.findIdx? fun m => (block m).hash == targetHash with
  | some index =>
    let idx := b.blockMessages.length - index
    .ok (b.blockMessages.drop idx, { b with blockMessages := b.blockMessages.take idx })
  | none => .error (.notFound "block" targetHash.toString)

def getMostRecentBlock (b : ReorgBuffer B) : Option Block :=
  b.blockMessages.getLast?.map block

def countBlocksBefore (b : ReorgBuffer B) (target : Nat) : Nat :=
  (b.blockMessages.takeWhile fun m => (block m).number < target).length

/-- The first block that is not before a version. -/
def findVersion (b : ReorgBuffer B) (version : BlockNumberOrTimestamp) : Except StorageError Nat :=
  match b.blockMessages.findIdx? fun m => !version.greaterThan (block m) with
  | some idx => .ok idx
  | none => .error (.notFound "Block" version.debug)

def getBlockRange (b : ReorgBuffer B) (startVersion endVersion : Option BlockNumberOrTimestamp) :
    Except StorageError (List B) := do
  let startIndex ← match startVersion with
    | some version => b.findVersion version
    | none => pure 0
  match endVersion with
  | none => return b.blockMessages.drop startIndex
  | some version =>
    -- a timestamp beyond the last block selects everything
    if (match version, b.blockMessages.getLast? with
      | .timestamp ts, some last => decide (ts > (block last).ts)
      | _, _ => false) then
      return b.blockMessages.drop startIndex
    let endIdx ← b.findVersion version
    if endIdx < startIndex then
      throw (.unexpected "ReorgBuffer: Invalid block range")
    return (b.blockMessages.take (endIdx + 1)).drop startIndex

def getCommitStatus (b : ReorgBuffer B) (version : BlockNumberOrTimestamp) : Option CommitStatus :=
  match b.blockMessages.head?, b.blockMessages.getLast? with
  | some first, some last =>
    if !version.greaterThan (block first) then some .committed
    else if version.greaterThan (block first) && !version.greaterThan (block last) then
      some .uncommitted
    else some .unseen
  | _, _ => none

variable {new : B} {drained purged : List B}

section
variable {b b' : ReorgBuffer B}

lemma insertBlock_eq_ok (h : b.insertBlock new = .ok b') :
    b' = { b with blockMessages := b.blockMessages ++ [new] } ∧
      ∀ last, b.blockMessages.getLast? = some last → (block last).hash = (block new).parentHash :=
        by
  unfold insertBlock at h
  cases hl : b.blockMessages.getLast? with
  | none =>
    rw [hl] at h
    exact ⟨(Except.ok.inj h).symm, fun last hlast => by cases hlast⟩
  | some =>
    rw [hl] at h
    simp only at h
    split_ifs at h with hp
    refine ⟨(Except.ok.inj h).symm, fun last' hlast => ?_⟩
    cases hlast
    exact not_not.mp hp

lemma insertBlock_of_linked (h : ∀ last, b.blockMessages.getLast? = some last →
      (block last).hash = (block new).parentHash) :
    b.insertBlock new = .ok { b with blockMessages := b.blockMessages ++ [new] } := by
  unfold insertBlock
  cases hl : b.blockMessages.getLast? with
  | none => rfl
  | some last => exact if_neg (not_not.mpr (h last hl))

/-- What is left after draining begins at the height. -/
lemma drainBlocksUntil_ok (h : b.drainBlocksUntil height = .ok (drained, b')) :
    b.blockMessages = drained ++ b'.blockMessages ∧ (drained ≠ [] →
      ∃ first, b'.blockMessages.head? = some first ∧ (block first).number = height) := by
  unfold drainBlocksUntil at h
  cases hi : b.blockMessages.findIdx? fun m => (block m).number == height with
  | some idx =>
    simp only [hi] at h
    cases h
    refine ⟨(take_append_drop idx b.blockMessages).symm, fun _ => ?_⟩
    obtain ⟨l₁, first, l₂, heq, rfl, hfirst, -⟩ := split_of_findIdx? hi
    refine ⟨first, ?_, by simpa using hfirst⟩
    rw [heq, drop_left]
    rfl
  | none =>
    simp only [hi] at h
    split_ifs at h
    cases h
    exact ⟨rfl, fun hne => absurd rfl hne⟩

/-- Purging down to a block with a hash that no later block has. -/
lemma purge_of_split {kept reverted : List B} {target : B}
    (hb : b.blockMessages = kept ++ reverted) (ht : kept.getLast? = some target)
    (hh : (block target).hash = hash) (hr : ∀ m ∈ reverted, (block m).hash ≠ hash) :
    b.purge hash = .ok (reverted, { b with blockMessages := kept }) := by
  obtain ⟨front, rfl⟩ := List.getLast?_eq_some_iff.mp ht
  have hrev : (front ++ [target] ++ reverted).reverse =
      reverted.reverse ++ target :: front.reverse := by simp
  have hfind : (front ++ [target] ++ reverted).reverse.findIdx?
      (fun m => (block m).hash == hash) = some reverted.length := by
    rw [hrev, findIdx?_of_split (by simpa using hh)
      (fun m hm => by simpa using hr m (mem_reverse.mp hm)), length_reverse]
  have hlen : (front ++ [target] ++ reverted).length - reverted.length =
      (front ++ [target]).length := by
    rw [length_append]
    omega
  unfold purge
  rw [hb]
  simp only [hfind, hlen, drop_left, take_left]

/-- What is left of a purged buffer ends with the newest block that has the hash. -/
lemma purge_ok (h : b.purge hash = .ok (purged, b')) :
    b.blockMessages = b'.blockMessages ++ purged ∧
    ∃ target, b'.blockMessages.getLast? = some target ∧ (block target).hash = hash ∧
      ∀ m ∈ purged, (block m).hash ≠ hash := by
  unfold purge at h
  cases hi : b.blockMessages.reverse.findIdx? fun m => (block m).hash == hash with
  | none =>
    simp only [hi] at h
    cases h
  | some =>
    simp only [hi] at h
    cases h
    obtain ⟨l₁, target, l₂, heq, rfl, htarget, hl₁⟩ := split_of_findIdx? hi
    have hmsgs : b.blockMessages = (l₂.reverse ++ [target]) ++ l₁.reverse := by
      rw [← reverse_reverse b.blockMessages, heq]
      simp
    have hlen : b.blockMessages.length - l₁.length = (l₂.reverse ++ [target]).length := by
      have hlength := congrArg List.length hmsgs
      simp only [length_append, length_reverse, length_singleton] at hlength ⊢
      omega
    refine ⟨(take_append_drop _ b.blockMessages).symm, target, ?_, by simpa using htarget,
      fun m hm => ?_⟩
    · rw [hlen, hmsgs, take_left]
      exact List.getLast?_concat
    · rw [hlen, hmsgs, drop_left] at hm
      simpa using hl₁ m (mem_reverse.mp hm)

/-- Draining until a height of the buffer leaves the blocks from this height on. -/
lemma drainBlocksUntil_of_mem
    (hb : b.blockMessages.Pairwise fun m n => (block m).number < (block n).number)
    (hm : ∃ m ∈ b.blockMessages, (block m).number = height) :
    ∃ drained, b.drainBlocksUntil height = .ok (drained, { b with
      blockMessages := b.blockMessages.filter fun m => height ≤ (block m).number }) := by
  obtain ⟨m, hmem, rfl⟩ := hm
  obtain ⟨l₁, l₂, heq, h₁, h₂⟩ := @split_of_mem B (fun m => (block m).number) _ _ hb hmem
  have hfind : b.blockMessages.findIdx? (fun n => (block n).number == (block m).number) =
      some l₁.length := by
    rw [heq]
    exact findIdx?_of_split (by simp) fun a ha => by simpa using (h₁ a ha).ne
  have hfilter := filter_ge_of_split rfl h₁ h₂
  refine ⟨l₁, ?_⟩
  unfold drainBlocksUntil
  simp only [hfind]
  rw [heq, hfilter, take_left, drop_left]

end
end ReorgBuffer
end Tycho
