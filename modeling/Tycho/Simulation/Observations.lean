import Tycho.Common.Basic
import Tycho.Simulation.PoolState

/-! The observations of the price oracle of Slipstream pools, which are stored by their index. -/
namespace Tycho
open List

structure Observation where
  blockTimestamp : Nat
  tickCumulative : Int
  secondsPerLiquidityCumulativeX128 : Nat
  initialized : Bool
  index : Int
  deriving DecidableEq, Inhabited

def Observation.fromAttribute (index : Int) (bytes : Bytes) : Except SimulationError Observation :=
  let len := bytes.data.length
  if len ≠ 32 then
    .error (.fatalError s!"Invalid observation length: expected 32 bytes, got {len}")
  else
    let value := bytes.data.foldl (fun v b => v * 256 + b.toNat) 0
    let tickBits : Nat := value / 2 ^ 32 % 2 ^ 56
    .ok {
      blockTimestamp := value % 2 ^ 32
      -- the sign bit of 56 bits
      tickCumulative := if tickBits.testBit 55 then (tickBits : Int) - 2 ^ 56 else tickBits
      secondsPerLiquidityCumulativeX128 := value / 2 ^ 88 % 2 ^ 160
      initialized := value / 2 ^ 248 % 2 = 1
      index := index }

abbrev Observations := List Observation

namespace Observations

def upsertObservation (self : Observations) (index : Int) (bytes : Bytes) :
    Except SimulationError Observations :=
  let idx := index.toNat
  let len := self.length
  -- as a `usize` a negative index is past the end of any vector, and too large to be reserved
  if bytes.data = [] then
    if 0 ≤ index ∧ idx < len then .ok (self.eraseIdx idx)
    else .error (.fatalError s!"Cannot delete: index {index} out of bounds (len={len})")
  else
    match Observation.fromAttribute index bytes with
    | .error e => .error e
    | .ok obs =>
      if index < 0 then .error .panicked
      else if idx < len then .ok (self.set idx obs)
      else .ok (self ++ replicate (idx - len) default ++ [obs])

def timestampAt (self : Observations) (index cardinality : Nat) : Except SimulationError Nat :=
  match self[index]? with
  | some obs => .ok obs.blockTimestamp
  | none => .error (.fatalError <|
      s!"Observation index {index} out of bounds (len={self.length}), " ++
      s!"index={index} cardinality={cardinality}")

/-- The vector after a call. A call that fails leaves it as it was. -/
def next (self : Observations) (call : Int × Bytes) : Observations :=
  match self.upsertObservation call.1 call.2 with
  | .ok obs => obs
  | .error _ => self

/-- What was last written to each index, and not deleted. -/
def written : List (Int × Bytes) → Nat → Option Observation
  | [], _ => none
  | (index, bytes) :: calls, i =>
    if index = i then
      if bytes.data = [] then none
      else (Observation.fromAttribute index bytes).toOption.or (written calls i)
    else written calls i

/-- The observations after a list of calls, the last call first. -/
def after (calls : List (Int × Bytes)) : Observations := calls.foldr (fun c obs => obs.next c) []

/-- The vector is the map of what was written. -/
structure Keeps (obs : Observations) (live : Nat → Option Observation) : Prop where
  held : ∀ i o, live i = some o → obs[i]? = some o ∧ o.index = i
  absent : ∀ i o, live i = none → obs[i]? = some o → o.initialized = false
  timestamp : ∀ i o cardinality, live i = some o →
    obs.timestampAt i cardinality = .ok o.blockTimestamp
  timestamp_absent : ∀ i t cardinality, live i = none → obs.timestampAt i cardinality = .ok t →
    t = 0

/-- What was not written is a default entry, or past the end. -/
structure Slotted (obs : Observations) (live : Nat → Option Observation) : Prop where
  slot : ∀ i, obs[i]? = live i ∨ live i = none ∧ obs[i]? = some default
  index : ∀ i o, live i = some o → o.index = i

/-- The call deletes an index below one that holds a value. -/
def Shifts (live : Nat → Option Observation) (call : Int × Bytes) : Prop :=
  call.2.data = [] ∧ ∃ i j : Nat, call.1 = i ∧ i < j ∧ live j ≠ none

variable {obs : Observations} {live : Nat → Option Observation} {calls : List (Int × Bytes)}

lemma Slotted.keeps (h : Slotted obs live) : Keeps obs live := by
  have hslots := h.slot
  have hidx := h.index
  have hdeferred : (default : Observation).initialized = false := rfl
  have htime : (default : Observation).blockTimestamp = 0 := rfl
  constructor <;> grind [timestampAt]

lemma Slotted.erase {i : Nat} (h : Slotted obs live) (hi : ∀ j, i < j → live j = none) :
    Slotted (obs.eraseIdx i) fun j => if i = j then none else live j := by
  constructor
  · intro j
    have hj := h.slot j
    have hnext := h.slot (j + 1)
    grind
  · intro j o ho
    exact h.index j o (by grind)

lemma index_of_fromAttribute {index : Int} {bytes : Bytes} {o : Observation}
    (h : Observation.fromAttribute index bytes = .ok o) : o.index = index := by
  unfold Observation.fromAttribute at h
  dsimp only at h
  split at h
  · cases h
  · cases h
    rfl

lemma Slotted.put {i : Nat} {bytes : Bytes} {o : Observation} (h : Slotted obs live)
    (hbytes : bytes.data ≠ []) (ho : Observation.fromAttribute i bytes = .ok o) :
    Slotted (obs.next (i, bytes)) fun j => if i = j then some o else live j := by
  have hneg : ¬ (i : Int) < 0 := by omega
  constructor
  · intro j
    have hj := h.slot j
    simp only [next, upsertObservation, hbytes, ho, hneg, Int.toNat_natCast, if_false]
    grind
  · intro j o' ho'
    have hidx := h.index j o'
    have hnew := index_of_fromAttribute ho
    grind

lemma next_delete {i : Nat} {bytes : Bytes} (h : bytes.data = []) :
    obs.next (i, bytes) = obs.eraseIdx i := by
  by_cases hi : i < obs.length
  · simp [next, upsertObservation, h, hi]
  · simp [next, upsertObservation, h, hi, eraseIdx_of_length_le (not_lt.mp hi)]

lemma Slotted.next {c : Int × Bytes} (h : Slotted (after calls) (written calls))
    (hs : ¬ Shifts (written calls) c) : Slotted (after (c :: calls)) (written (c :: calls)) := by
  obtain ⟨index, bytes⟩ := c
  change Slotted ((after calls).next _) fun j => written _ j
  simp only [written]
  by_cases hempty : bytes.data = []
  · cases index with
    | negSucc => simpa [Observations.next, upsertObservation, hempty] using h
    | ofNat i =>
      have herase := h.erase fun j hlt => by
        by_contra hj
        exact hs ⟨hempty, i, j, rfl, hlt, hj⟩
      simpa [next_delete hempty, hempty] using herase
  · cases hattr : Observation.fromAttribute index bytes with
    | error => simpa [Observations.next, upsertObservation, hempty, hattr, Except.toOption] using h
    | ok o =>
      cases index with
      | negSucc => simpa [Observations.next, upsertObservation, hempty, hattr] using h
      | ofNat i =>
        rw [Int.ofNat_eq_natCast] at hattr
        simpa [hempty, hattr, Except.toOption] using h.put hempty hattr

lemma slotted_after (h : ∀ l c, c :: l <:+ calls → ¬ Shifts (written l) c) :
    Slotted (after calls) (written calls) := by
  induction calls with
  | nil => exact ⟨fun i => .inl rfl, fun i o ho => by cases ho⟩
  | cons c calls ih =>
    have hrest := ih fun l c' hl => h l c' (hl.trans (suffix_cons c calls))
    exact hrest.next (h calls c suffix_rfl)

/-- A deletion below an index that holds a value moves the value to another index. -/
lemma Slotted.not_shifts {c : Int × Bytes} (h : Slotted (after calls) (written calls))
    (hk : Keeps (after (c :: calls)) (written (c :: calls))) : ¬ Shifts (written calls) c := by
  obtain ⟨index, bytes⟩ := c
  rintro ⟨hempty, i, j, rfl, hlt, hj⟩
  obtain ⟨o, ho⟩ := Option.ne_none_iff_exists'.mp hj
  have hsame : written ((i, bytes) :: calls) j = some o := by
    rw [written, if_neg (by omega), ho]
  have hheld := (hk.held j o hsame).1
  change ((after calls).next _)[j]? = some o at hheld
  rw [next_delete hempty, getElem?_eraseIdx_of_ge hlt.le] at hheld
  have hidx := h.index j o ho
  have hslots := h.slot (j + 1)
  have hnext := h.index (j + 1) o
  have hdeferred : (default : Observation).index = 0 := rfl
  grind

/-- The observations keep their index throughout exactly if no index is deleted below one that
holds a value. -/
theorem keeps_iff (calls : List (Int × Bytes)) : (∀ l, l <:+ calls → Keeps (after l) (written l)) ↔
      ∀ l c, c :: l <:+ calls → ¬ Shifts (written l) c := by
  constructor
  · intro hk
    induction calls with
    | nil =>
      intro l c hl
      simp at hl
    | cons c calls ih =>
      have hrest := ih fun l hl => hk l (hl.trans (suffix_cons c calls))
      intro l c' hl
      rcases suffix_cons_iff.mp hl with heq | hl
      · cases heq
        exact (slotted_after hrest).not_shifts (hk _ suffix_rfl)
      · exact hrest l c' hl
  · intro hs l hl
    exact (slotted_after fun l' c hc => hs l' c (hc.trans hl)).keeps

/-- An initialised observation. -/
def stored (timestamp : UInt8) : Bytes := ⟨1 :: replicate 30 0 ++ [timestamp]⟩

/-- Two observations, of which the first is then deleted. -/
def deletedFirst : List (Int × Bytes) := [(0, .new), (1, stored 7), (0, stored 5)]

theorem not_keeps_deletedFirst : ¬ Keeps (after deletedFirst) (written deletedFirst) := by
  intro h
  have hheld := (h.held 1 ⟨7, 0, 0, true, 1⟩ (by decide)).1
  revert hheld
  decide

end Observations
end Tycho
