import Tycho.Collections.Lru
import Tycho.Collections.StableSort
import Tycho.Common.Basic

/-! The block history of the client: which block comes next on the chain that it follows. -/
namespace Tycho
open Collections

structure BlockHeader where
  hash : BlockHash
  number : Nat
  parentHash : BlockHash
  revert : Bool
  timestamp : Nat
  /-- There is none for full blocks. -/
  partialBlockIndex : Option Nat
deriving DecidableEq

instance : Inhabited BlockHeader := ⟨⟨.new, 0, .new, false, 0, none⟩⟩

def BlockHeader.isPartial (b : BlockHeader) : Bool := b.partialBlockIndex.isSome

inductive BlockHistoryError where
  | invalidCacheSize
  | emptyHistory
  | undeterminedBlockPosition
  | revertPositionNotFound
  | detachedBlock
  | expectedPartialBlock
deriving DecidableEq

inductive BlockPosition where
  | nextExpected
  | nextPartial
  | latest
  | delayed
  /-- Detached, and above the next expected block. -/
  | advanced
deriving DecidableEq

/-- The headers are stored from the oldest one on. -/
structure BlockHistory where
  history : List BlockHeader
  reverts : LruCache BlockHash BlockHeader
  size : Nat
deriving DecidableEq

namespace BlockHistory

/-- The blocks below a block that are connected to it, in a list that is sorted from the highest
number on. Blocks of the same height are skipped, and a gap ends the search. -/
def connect (currentHash : BlockHash) (currentNumber : Nat) : List BlockHeader → List BlockHeader
  | [] => []
  | block :: rest =>
    if block.number ≥ currentNumber then connect currentHash currentNumber rest
    else if block.number ≠ currentNumber - 1 then []
    else if block.hash = currentHash then block :: connect block.parentHash block.number rest
    else connect currentHash currentNumber rest

/-- The highest block of a list and the blocks below that are connected to it, highest first. -/
def connectedChain (headers : List BlockHeader) : List BlockHeader :=
  match (sortBy BlockHeader.number headers).reverse with
  | [] => []
  | latest :: rest => latest :: connect latest.parentHash latest.number rest

def new (headers : List BlockHeader) (size : Nat) : Except BlockHistoryError BlockHistory :=
  if h : 0 < size * 10 then
    .ok ⟨(connectedChain headers).reverse, .empty (size * 10) h, size⟩
  else .error .invalidCacheSize

variable (h : BlockHistory)

def latest : Option BlockHeader := h.history.getLast?

def oldest : Option BlockHeader := h.history.head?

def hashInHistory (hash : BlockHash) : Bool := h.history.any fun b => b.hash = hash

/-- Of two partial blocks at the same height the higher index is the later one. After a full block
all of them are late. -/
def partialPosition (latest incoming : Option Nat) : BlockPosition :=
  match latest, incoming with
  | some latestIdx, some incomingIdx =>
    if incomingIdx > latestIdx then .nextPartial
    else if incomingIdx = latestIdx then .latest
    else .delayed
  | _, _ => .delayed

/-- The position of a block that is not above the latest one. -/
def positionBelow (block oldest : BlockHeader) : Except BlockHistoryError BlockPosition :=
  if block.number < oldest.number then .ok .delayed
  else if h.hashInHistory block.hash then
    -- a revert to a known block is an expected update
    if block.revert then .ok .nextExpected else .ok .delayed
  else if block.isPartial && !block.revert then .ok .delayed
  -- a competing branch, which does not replace the known one
  else if !block.revert && h.hashInHistory block.parentHash then .ok .delayed
  else .error .undeterminedBlockPosition

def determineBlockPosition (block : BlockHeader) : Except BlockHistoryError BlockPosition :=
  match h.latest with
  | none => .error .emptyHistory
  | some latest =>
    if block.parentHash = latest.hash then .ok .nextExpected
    else if block.number = latest.number && block.isPartial then
      .ok (partialPosition latest.partialBlockIndex block.partialBlockIndex)
    else if block.hash = latest.hash && !block.revert then .ok .latest
    else if h.reverts.contains block.hash then .ok .delayed
    else if block.number ≤ latest.number then
      match h.oldest with
      | none => .error .emptyHistory
      | some oldest => h.positionBelow block oldest
    else .ok .advanced

/-- Remove the latest blocks until the parent of the new one is reached. -/
def rewindFrom (parentHash : BlockHash) :
    List BlockHeader → LruCache BlockHash BlockHeader →
      List BlockHeader × LruCache BlockHash BlockHeader
  | [], reverts => ([], reverts)
  | head :: rest, reverts =>
    if head.hash = parentHash then (head :: rest, reverts)
    else rewindFrom parentHash rest (reverts.push head.hash head)

def rewind (parentHash : BlockHash) : BlockHistory :=
  let (history, reverts) := rewindFrom parentHash h.history.reverse h.reverts
  ⟨history.reverse, reverts, h.size⟩

/-- The oldest block makes room. -/
def append (block : BlockHeader) : BlockHistory :=
  let history := h.history ++ [block]
  { h with history := if history.length > h.size then history.tail else history }

/-- Add the block as the next one. An error can leave a history that was rewound. -/
def push (block : BlockHeader) : Except BlockHistoryError Unit × BlockHistory :=
  match h.determineBlockPosition block with
  | .error e => (.error e, h)
  | .ok .nextExpected =>
    let h := if block.revert then h.rewind block.parentHash else h
    if block.revert && h.history.isEmpty then (.error .revertPositionNotFound, h)
    else if h.latest.any fun b => b.hash ≠ block.parentHash then (.error .detachedBlock, h)
    else (.ok (), h.append block)
  | .ok .nextPartial =>
    match h.latest with
    | none => (.error .emptyHistory, h)
    | some latest =>
      if !latest.isPartial then (.error .expectedPartialBlock, h)
      else (.ok (), { h with history := h.history.dropLast ++ [block] })
  | .ok .latest =>
    match h.latest with
    | none => if block.revert then (.error .emptyHistory, h) else (.ok (), h)
    | some latest =>
      -- the revert of a partial block removes it
      if block.revert && latest.isPartial then
        (.ok (), { h with
          history := h.history.dropLast, reverts := h.reverts.push latest.hash latest })
      else (.ok (), h)
  | .ok .delayed => (.ok (), h)
  | .ok .advanced => (.ok (), h)

end BlockHistory
end Tycho
