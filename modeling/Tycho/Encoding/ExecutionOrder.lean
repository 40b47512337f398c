import Tycho.Encoding.Groups

/-! Whether the hops of an accepted solution can be executed in the order in which they are
encoded. -/
namespace Tycho
open Collections List SplitSwapValidator

/-- Hops by their input and output tokens: each takes what the one before it puts out, from the
first token to the second. -/
def LeadsTo : Address → Address → List (Address × Address) → Prop
  | givenToken, checkedToken, [] => givenToken = checkedToken
  | givenToken, checkedToken, hop :: hops =>
    hop.1 = givenToken ∧ LeadsTo hop.2 checkedToken hops

instance decidableLeadsTo : ∀ givenToken checkedToken hops,
    Decidable (LeadsTo givenToken checkedToken hops)
  | givenToken, checkedToken, [] => inferInstanceAs (Decidable (givenToken = checkedToken))
  | givenToken, checkedToken, hop :: hops =>
    have := decidableLeadsTo hop.2 checkedToken hops
    inferInstanceAs (Decidable (hop.1 = givenToken ∧ LeadsTo hop.2 checkedToken hops))

lemma leadsTo_append (hops hops' : List (Address × Address)) (givenToken checkedToken : Address) :
    LeadsTo givenToken checkedToken (hops ++ hops') ↔
      ∃ token, LeadsTo givenToken token hops ∧ LeadsTo token checkedToken hops' := by
  induction hops generalizing givenToken with
  | nil => simp [LeadsTo]
  | cons _ _ ih => simp [LeadsTo, ih, and_assoc]

def hopsLead (givenToken checkedToken : Address) (groups : List SwapGroup) : Prop :=
  LeadsTo givenToken checkedToken (groups.map fun g => (g.tokenIn, g.tokenOut))

def swapsLead (givenToken checkedToken : Address) (swaps : List Swap) : Prop :=
  LeadsTo givenToken checkedToken (swaps.map fun swap => (swap.tokenIn, swap.tokenOut))

instance (givenToken checkedToken : Address) (groups : List SwapGroup) :
    Decidable (hopsLead givenToken checkedToken groups) :=
  decidableLeadsTo _ _ _

lemma swapsLead_append (swaps swaps' : List Swap) (givenToken checkedToken : Address) :
    swapsLead givenToken checkedToken (swaps ++ swaps') ↔
      ∃ token, swapsLead givenToken token swaps ∧ swapsLead token checkedToken swaps' := by
  rw [swapsLead, map_append, leadsTo_append]
  rfl

lemma swapsLead_cons (swap : Swap) (swaps : List Swap) (givenToken checkedToken : Address) :
    swapsLead givenToken checkedToken (swap :: swaps) ↔
      swap.tokenIn = givenToken ∧ swapsLead swap.tokenOut checkedToken swaps :=
  Iff.rfl

lemma swapsLead_nil (givenToken checkedToken : Address) :
    swapsLead givenToken checkedToken [] ↔ givenToken = checkedToken :=
  Iff.rfl

lemma SwapGroup.Formed.swapsLead_iff {g : SwapGroup} (h : g.Formed) (givenToken token : Address) :
    swapsLead givenToken token g.swaps ↔ g.tokenIn = givenToken ∧ g.tokenOut = token := by
  induction h generalizing token with
  | start => rfl
  | merge swap _ hin _ _ ih =>
    simp only [swapsLead_append, ih, swapsLead_cons, swapsLead_nil]
    constructor
    · rintro ⟨_, ⟨hgiven, -⟩, -, hout⟩
      exact ⟨hgiven, hout⟩
    · rintro ⟨hgiven, hout⟩
      exact ⟨swap.tokenIn, ⟨hgiven, hin.symm⟩, rfl, hout⟩

lemma hopsLead_iff {groups : List SwapGroup} (hformed : ∀ g ∈ groups, g.Formed)
    (givenToken checkedToken : Address) :
    hopsLead givenToken checkedToken groups ↔
      swapsLead givenToken checkedToken (swapsOf groups) := by
  induction groups generalizing givenToken with
  | nil => rfl
  | cons g groups ih =>
    have hg := hformed g mem_cons_self
    have hrest := ih fun g' hg' => hformed g' (mem_cons_of_mem g hg')
    change g.tokenIn = givenToken ∧ hopsLead g.tokenOut checkedToken groups ↔ _
    rw [swapsOf_cons, swapsLead_append, hrest]
    simp only [hg.swapsLead_iff]
    constructor
    · rintro ⟨hin, hlead⟩
      exact ⟨g.tokenOut, ⟨hin, rfl⟩, hlead⟩
    · rintro ⟨_, ⟨hin, rfl⟩, hlead⟩
      exact ⟨hin, hlead⟩

variable {chain : NativeTokens} {tokenA tokenB : Address}

namespace Solution

/-- The tokens are the same, or the native token and its wrapped counterpart. -/
def Connects (chain : NativeTokens) (tokenA tokenB : Address) : Prop :=
  tokenA = tokenB ∨ (wrappingBridge chain tokenA tokenB).isSome

/-- The swaps are given in the order of a path, up to native wraps. -/
def Connected (chain : NativeTokens) (checkedToken : Address) : Address → List Swap → Prop
  | token, [] => Connects chain token checkedToken
  | token, swap :: swaps =>
    Connects chain token swap.tokenIn ∧ Connected chain checkedToken swap.tokenOut swaps

lemma wrappingBridge_eq_some {swap : Swap} (h : wrappingBridge chain tokenA tokenB = some swap) :
    swap.tokenIn = tokenA ∧ swap.tokenOut = tokenB := by
  unfold wrappingBridge at h
  split_ifs at h with hunwrap hwrap
  · cases h
    exact ⟨hunwrap.1.symm, hunwrap.2.symm⟩
  · cases h
    exact ⟨hwrap.1.symm, hwrap.2.symm⟩

/-- The bridge between two tokens, before swaps that start at the second one. -/
lemma swapsLead_bridge {checkedToken : Address} {swaps : List Swap}
    (hstart : ∀ token, swapsLead token checkedToken swaps → token = tokenB) :
    swapsLead tokenA checkedToken ((wrappingBridge chain tokenA tokenB).toList ++ swaps) ↔
      Connects chain tokenA tokenB ∧ swapsLead tokenB checkedToken swaps := by
  unfold Connects
  cases hbridge : wrappingBridge chain tokenA tokenB with
  | none =>
    simp only [Option.toList_none, nil_append, Option.isSome_none, Bool.false_eq_true, or_false]
    constructor
    · intro hlead
      obtain rfl := hstart tokenA hlead
      exact ⟨rfl, hlead⟩
    · rintro ⟨rfl, hlead⟩
      exact hlead
  | some =>
    obtain ⟨hin, hout⟩ := wrappingBridge_eq_some hbridge
    simp [swapsLead_cons, hin, hout]

lemma swapsLead_bridgeSwaps (chain : NativeTokens) (checkedToken : Address) (swap : Swap)
    (swaps : List Swap) (token : Address) :
    swapsLead token checkedToken (bridgeSwaps chain checkedToken (swap :: swaps)) ↔
      swap.tokenIn = token ∧ Connected chain checkedToken swap.tokenOut swaps := by
  induction swaps generalizing swap token with
  | nil =>
    have hbridge : swapsLead swap.tokenOut checkedToken
        ((wrappingBridge chain swap.tokenOut checkedToken).toList ++ []) ↔ _ :=
      swapsLead_bridge fun token h => h
    rw [append_nil] at hbridge
    rw [bridgeSwaps, swapsLead_cons, hbridge, swapsLead_nil, Connected]
    simp
  | cons next _ ih =>
    rw [bridgeSwaps, swapsLead_cons, swapsLead_bridge, ih, Connected]
    · simp
    · intro token' hlead
      exact ((ih next token').mp hlead).1.symm

/-- With the native wraps the swaps lead to the checked token when they are given in the order of a
path. -/
lemma swapsLead_addNativeWrapSwaps (chain : NativeTokens) {solution : Solution}
    (hswaps : solution.swaps ≠ []) :
    swapsLead solution.tokenIn solution.tokenOut (solution.addNativeWrapSwaps chain).swaps ↔
      Connected chain solution.tokenOut solution.tokenIn solution.swaps := by
  obtain ⟨swap, swaps, heq⟩ := exists_cons_of_ne_nil hswaps
  simp only [addNativeWrapSwaps, heq, List.head?_cons, Option.bind_some]
  rw [swapsLead_bridge, swapsLead_bridgeSwaps, Connected]
  · simp
  · intro token hlead
    exact ((swapsLead_bridgeSwaps chain solution.tokenOut swap swaps token).mp hlead).1.symm

end Solution

def Intermediate (givenToken checkedToken token : Address) : Prop :=
  token ≠ givenToken ∧ token ≠ checkedToken

/-- The hops of a split solution: each swap comes after those that produce its intermediate token,
and after all hops that put out an intermediate token one takes all that remains of it. -/
structure SplitExecutable (givenToken checkedToken : Address) (hops : List SwapGroup) : Prop where
  ordered : ∀ (i j : Nat) (a b : Swap), (swapsOf hops)[i]? = some a →
    (swapsOf hops)[j]? = some b →
    Intermediate givenToken checkedToken a.tokenIn → b.tokenOut = a.tokenIn → j < i
  consumed : ∀ g ∈ hops, Intermediate givenToken checkedToken g.tokenOut →
    ∃ i h, hops[i]? = some h ∧ h.tokenIn = g.tokenOut ∧ percentageToUint24 h.split = 0 ∧
      ∀ (j : Nat) h', hops[j]? = some h' → h'.tokenOut = g.tokenOut → j < i

/-- The swaps of a split solution as they have to be listed: no swap puts out an intermediate token
that it or one before it takes, every such token is taken, and where two swaps on it are merged the
first of them is the only one that puts it out. -/
structure SplitListed (givenToken checkedToken : Address) (swaps : List Swap) : Prop where
  inOrder : ∀ p b q, swaps = p ++ b :: q → Intermediate givenToken checkedToken b.tokenOut →
    ∀ a ∈ p ++ [b], a.tokenIn ≠ b.tokenOut
  used : ∀ b ∈ swaps, Intermediate givenToken checkedToken b.tokenOut →
    ∃ a ∈ swaps, a.tokenIn = b.tokenOut
  merged : ∀ g ∈ groupSwaps swaps, ∀ p a b q, g.swaps = p ++ a :: b :: q →
    Intermediate givenToken checkedToken b.tokenIn →
    swaps.countP (fun swap => swap.tokenOut = b.tokenIn) = 1

variable {givenToken checkedToken : Address} {swaps : List Swap}

lemma ordered_iff : (∀ (i j : Nat) (a b : Swap), swaps[i]? = some a → swaps[j]? = some b →
      Intermediate givenToken checkedToken a.tokenIn → b.tokenOut = a.tokenIn → j < i) ↔
    ∀ p b q, swaps = p ++ b :: q → Intermediate givenToken checkedToken b.tokenOut →
      ∀ a ∈ p ++ [b], a.tokenIn ≠ b.tokenOut := by
  constructor
  · rintro h p b q rfl hmid a ha heq
    obtain ⟨i, hi⟩ := mem_iff_getElem?.mp ha
    have hlt : i < p.length + 1 := by
      have := (List.getElem?_eq_some_iff.mp hi).1
      simpa using this
    have hia : (p ++ b :: q)[i]? = some a := by
      rw [append_cons, List.getElem?_append_left (by simpa using hlt)]
      exact hi
    have := h i p.length a b hia (by simp) (heq ▸ hmid) heq.symm
    omega
  · intro h i j a b hi hj hmid heq
    by_contra hle
    obtain ⟨hjlt, hjb⟩ := List.getElem?_eq_some_iff.mp hj
    have hsplit : swaps = swaps.take j ++ b :: swaps.drop (j + 1) := by
      rw [← hjb, getElem_cons_drop, take_append_drop]
    refine h _ b _ hsplit (heq ▸ hmid) a ?_ heq.symm
    rw [← hjb, take_append_getElem]
    exact mem_iff_getElem?.mpr ⟨i, by rw [List.getElem?_take_of_lt (by omega)]; exact hi⟩

/-- The group of a swap, with what stands before and after it. -/
lemma exists_group {groups : List SwapGroup} {p q : List Swap} {swap : Swap}
    (h : swapsOf groups = p ++ swap :: q) :
    ∃ pre g post p' q', groups = pre ++ g :: post ∧ g.swaps = p' ++ swap :: q' ∧
      p = swapsOf pre ++ p' ∧ q = q' ++ swapsOf post := by
  induction groups generalizing p with
  | nil => simp at h
  | cons g groups ih =>
    rw [swapsOf_cons, append_eq_append_iff] at h
    obtain ⟨l, rfl, hrest⟩ | ⟨l, hg, hrest⟩ := h
    · obtain ⟨pre, g', post, p', q', rfl, hg', rfl, rfl⟩ := ih hrest
      exact ⟨g :: pre, g', post, p', q', rfl, hg', by simp, rfl⟩
    · cases l with
      | nil =>
        obtain ⟨pre, g', post, p', q', rfl, hg', hp, rfl⟩ := ih (p := []) hrest.symm
        refine ⟨g :: pre, g', post, p', q', rfl, hg', ?_, rfl⟩
        rw [append_nil] at hg
        rw [swapsOf_cons, append_assoc, ← hp, append_nil, hg]
      | cons _ l =>
        rw [cons_append] at hrest
        cases hrest
        exact ⟨[], g, groups, p, l, rfl, hg, rfl, rfl⟩

lemma exists_last_of_swapsFrom {token : Address} {init : List Swap} {c : Swap}
    (h : swapsFrom token swaps = init ++ [c]) :
    ∃ p q, swaps = p ++ c :: q ∧ swapsFrom token q = [] := by
  obtain ⟨l, l', rfl, -, hlast⟩ := filter_eq_append_iff.mp h
  obtain ⟨p, q, rfl, -, -, hq⟩ := filter_eq_cons_iff.mp hlast
  exact ⟨l ++ p, q, by simp, hq⟩

section
variable {g : SwapGroup} {p q : List Swap} {swap : Swap}

lemma SwapGroup.Formed.first (h : g.Formed) (hswaps : g.swaps = swap :: q) :
    swap.tokenIn = g.tokenIn ∧ swap.split = g.split := by
  obtain ⟨first, rest, heq, hin, hsplit⟩ := h.eq_cons
  cases hswaps.symm.trans heq
  exact ⟨hin, hsplit⟩

lemma SwapGroup.Formed.last (h : g.Formed) (hswaps : g.swaps = p ++ [swap]) :
    swap.tokenOut = g.tokenOut := by
  obtain ⟨rest, last, heq, hout⟩ := h.eq_concat
  obtain ⟨-, hlast⟩ := append_inj' (hswaps.symm.trans heq) rfl
  cases hlast
  exact hout

end

lemma mem_swapsOf {groups : List SwapGroup} {g : SwapGroup} {swap : Swap} (hg : g ∈ groups)
    (hswap : swap ∈ g.swaps) : swap ∈ swapsOf groups :=
  mem_flatMap.mpr ⟨g, hg, hswap⟩

/-- Nothing puts out an intermediate token from the first swap on that takes it. -/
lemma not_produced_after
    (h : ∀ p b q, swaps = p ++ b :: q → Intermediate givenToken checkedToken b.tokenOut →
      ∀ a ∈ p ++ [b], a.tokenIn ≠ b.tokenOut)
    {p q : List Swap} {c : Swap} (hswaps : swaps = p ++ c :: q)
    (hmid : Intermediate givenToken checkedToken c.tokenIn) :
    ∀ b ∈ c :: q, b.tokenOut ≠ c.tokenIn := by
  intro b hb heq
  obtain ⟨l, l', hl⟩ := append_of_mem hb
  refine h (p ++ l) b l' (by rw [hswaps, hl, append_assoc]) (heq ▸ hmid) c ?_ heq.symm
  have hc : c ∈ l ++ [b] := by
    cases l with
    | nil => simp [(List.cons.inj hl).1]
    | cons => simp [(List.cons.inj hl).1]
  rw [append_assoc]
  exact mem_append_right p hc

variable (hparts : ∀ token, swapsFrom token swaps ≠ [] →
  ∃ init last, swapsFrom token swaps = init ++ [last] ∧ SplitSwapValidator.Parts init last)

include hparts in
lemma splitExecutable_of_listed (h : SplitListed givenToken checkedToken swaps) :
    SplitExecutable givenToken checkedToken (groupSwaps swaps) := by
  have hswaps := swapsOf_groupSwaps swaps
  refine ⟨by rw [hswaps]; exact ordered_iff.mpr h.inOrder, fun g hg hmid => ?_⟩
  obtain ⟨rest, b, hgb, hb⟩ := (formed_of_mem_groupSwaps hg).eq_concat
  have hbmem : b ∈ swaps := hswaps ▸ mem_swapsOf hg (by simp [hgb])
  obtain ⟨a, ha, hain⟩ := h.used b hbmem (hb ▸ hmid)
  obtain ⟨init, c, hfrom, hlast⟩ := hparts g.tokenOut
    (ne_nil_of_mem (mem_swapsFrom.mpr ⟨ha, hain.trans hb⟩))
  have hc : c.tokenIn = g.tokenOut :=
    (mem_swapsFrom.mp (by rw [hfrom]; simp : c ∈ swapsFrom g.tokenOut swaps)).2
  obtain ⟨p, q, hpq, -⟩ := exists_last_of_swapsFrom hfrom
  obtain ⟨pre, hop, post, p', q', hgroups, hhop, rfl, rfl⟩ := exists_group (hswaps.trans hpq)
  have hformed : hop.Formed := formed_of_mem_groupSwaps (by rw [hgroups]; simp)
  have hafter := not_produced_after h.inOrder hpq (hc ▸ hmid)
  rw [hc] at hafter
  obtain rfl | ⟨p', a, rfl⟩ := p'.eq_nil_or_concat'
  · -- the last swap that takes the token is the first of its hop
    obtain ⟨hin, hsplit⟩ := hformed.first hhop
    refine ⟨pre.length, hop, by simp [hgroups], hin.symm.trans hc, ?_, fun j h' hj hout => ?_⟩
    · rw [← hsplit, hlast.remainder]
      decide +kernel
    · by_contra hle
      rw [hgroups, List.getElem?_append_right (by omega)] at hj
      have hmem : h' ∈ hop :: post := mem_of_getElem? hj
      have hmem' : h' ∈ groupSwaps swaps := hgroups ▸ mem_append_right pre hmem
      obtain ⟨l, x, hx, hxout⟩ := (formed_of_mem_groupSwaps hmem').eq_concat
      have hxmem : x ∈ swapsOf (hop :: post) := mem_swapsOf hmem (by simp [hx])
      rw [swapsOf_cons, hhop] at hxmem
      exact hafter x hxmem (hxout.trans hout)
  · -- inside a hop it takes what the only swap puts out that does
    exfalso
    rw [append_assoc, singleton_append] at hhop
    have ha : a.tokenOut = g.tokenOut := (hformed.link hhop).1.symm.trans hc
    have hcount := h.merged hop (by rw [hgroups]; simp) p' a c q' hhop (hc ▸ hmid)
    have hnone : (c :: (q' ++ swapsOf post)).countP (fun swap => swap.tokenOut = c.tokenIn) = 0 :=
      countP_eq_zero.mpr fun x hx => by simpa [hc] using hafter x hx
    have hone : [a].countP (fun swap => swap.tokenOut = c.tokenIn) = 1 := by simp [ha, hc]
    rw [hpq, countP_append, hnone, countP_append, countP_append, hone] at hcount
    have hpre : (swapsOf pre).countP (fun swap => swap.tokenOut = c.tokenIn) = 0 := by omega
    rw [hgroups, mem_append, mem_cons] at hg
    obtain hg | rfl | hg := hg
    · have := countP_eq_zero.mp hpre b (mem_swapsOf hg (by simp [hgb]))
      simp [hb, hc] at this
    · -- the last swap of the hop stands after the link
      have hlast' : b ∈ c :: q' := by
        have heq := congrArg List.getLast? (hhop.symm.trans hgb)
        simp only [List.getLast?_append, List.getLast?_cons_cons, List.getLast?_singleton,
          Option.some_or] at heq
        rw [List.getLast?_cons, Option.some_or, ← List.getLast?_cons] at heq
        exact mem_of_getLast? heq
      exact hafter b (by simpa using mem_append_left (swapsOf post) hlast') hb
    · refine hafter b ?_ hb
      have hbmem : b ∈ swapsOf post := mem_swapsOf hg (by simp [hgb])
      simp [hbmem]

/-- A swap that puts out an intermediate token is followed by one of its hop that takes it, or is
the last of its hop. -/
lemma SplitExecutable.exists_consumer
    (h : SplitExecutable givenToken checkedToken (groupSwaps swaps)) {g : SwapGroup}
    (hg : g ∈ groupSwaps swaps) {p q : List Swap} {b : Swap} (hswaps : g.swaps = p ++ b :: q)
    (hmid : Intermediate givenToken checkedToken b.tokenOut) :
    (∃ x q', q = x :: q' ∧ x.tokenIn = b.tokenOut) ∨
      ∃ hop ∈ groupSwaps swaps, hop.tokenIn = b.tokenOut := by
  have hformed := formed_of_mem_groupSwaps hg
  cases q with
  | nil =>
    have hout := hformed.last hswaps
    obtain ⟨i, hop, hi, hin, -⟩ := h.consumed g hg (hout ▸ hmid)
    exact .inr ⟨hop, mem_of_getElem? hi, hin.trans hout.symm⟩
  | cons x q' => exact .inl ⟨x, q', rfl, (hformed.link hswaps).1⟩

/-- The first element stands no later than any other. -/
lemma mem_of_cons_eq_append {A : Type} {x a : A} {l p q : List A} (h : x :: l = p ++ a :: q) :
    x ∈ p ++ [a] := by
  cases p with
  | nil => simp [(List.cons.inj h).1]
  | cons => simp [(List.cons.inj h).1]

include hparts in
/-- The remainder of an intermediate token that follows a swap that puts it out is the only swap
that takes it. -/
lemma not_taken_around
    (hord : ∀ p b q, swaps = p ++ b :: q → Intermediate givenToken checkedToken b.tokenOut →
      ∀ a ∈ p ++ [b], a.tokenIn ≠ b.tokenOut)
    {p q : List Swap} {a c : Swap} (hswaps : swaps = p ++ a :: c :: q)
    (hlink : c.tokenIn = a.tokenOut) (hsplit : c.split = 0)
    (hmid : Intermediate givenToken checkedToken c.tokenIn) :
    (∀ x ∈ p ++ [a], x.tokenIn ≠ c.tokenIn) ∧ ∀ x ∈ q, x.tokenIn ≠ c.tokenIn := by
  have hbefore : ∀ x ∈ p ++ [a], x.tokenIn ≠ c.tokenIn := by
    rw [hlink]
    exact hord p a _ hswaps (hlink ▸ hmid)
  refine ⟨hbefore, fun x hx hin => ?_⟩
  have hfrom : swapsFrom c.tokenIn swaps = c :: swapsFrom c.tokenIn q := by
    rw [hswaps, append_cons, swapsFrom, filter_append,
      filter_eq_nil_iff.mpr (by simpa using hbefore), nil_append,
      filter_cons_of_pos (by simp)]
    rfl
  obtain ⟨init, last, heq, hlast⟩ := hparts c.tokenIn (by rw [hfrom]; simp)
  rw [hfrom] at heq
  cases init with
  | nil =>
    have hmem := mem_swapsFrom.mpr ⟨hx, hin⟩
    rw [(List.cons.inj heq).2] at hmem
    cases hmem
  | cons y =>
    obtain rfl : c = y := (List.cons.inj heq).1
    exact (hlast.part c mem_cons_self).1.ne' hsplit

include hparts in
lemma SplitExecutable.count_merged
    (h : SplitExecutable givenToken checkedToken (groupSwaps swaps)) {g : SwapGroup}
    (hg : g ∈ groupSwaps swaps) {p q : List Swap} {a c : Swap}
    (hgswaps : g.swaps = p ++ a :: c :: q)
    (hmid : Intermediate givenToken checkedToken c.tokenIn) :
    swaps.countP (fun swap => swap.tokenOut = c.tokenIn) = 1 := by
  have hswaps := swapsOf_groupSwaps swaps
  have hord := h.ordered
  rw [hswaps, ordered_iff] at hord
  obtain ⟨hlink, hsplit⟩ := (formed_of_mem_groupSwaps hg).link hgswaps
  obtain ⟨pre, post, hgroups⟩ := append_of_mem hg
  have hpq : swaps = (swapsOf pre ++ p) ++ a :: c :: (q ++ swapsOf post) := by
    rw [← hswaps, hgroups]
    simp [hgswaps]
  obtain ⟨hbefore, hlater⟩ := not_taken_around hparts hord hpq hlink hsplit hmid
  have hafter := not_produced_after hord (hpq.trans (append_cons _ a _)) hmid
  -- so no hop starts with the token
  have hnohop : ∀ hop ∈ groupSwaps swaps, hop.tokenIn ≠ c.tokenIn := by
    intro hop hhop hin
    obtain ⟨first, rest, hcons, hfirst, -⟩ := (formed_of_mem_groupSwaps hhop).eq_cons
    have hmem : first ∈ hop.swaps := by simp [hcons]
    rw [hgroups, mem_append, mem_cons] at hhop
    obtain hhop | rfl | hhop := hhop
    · exact hbefore first (by simp [mem_swapsOf hhop hmem]) (hfirst.trans hin)
    · refine hbefore first ?_ (hfirst.trans hin)
      rw [append_assoc]
      exact mem_append_right _ (mem_of_cons_eq_append (hcons.symm.trans hgswaps))
    · exact hlater first (by simp [mem_swapsOf hhop hmem]) (hfirst.trans hin)
  -- and what another swap put out before would not be consumed
  have hnone : (swapsOf pre ++ p).countP (fun swap => swap.tokenOut = c.tokenIn) = 0 := by
    refine countP_eq_zero.mpr fun b hb => ?_
    rw [decide_eq_true_iff]
    intro hout
    obtain hb | hb := mem_append.mp hb
    · obtain ⟨g₀, hg₀, hbg₀⟩ := mem_flatMap.mp hb
      obtain ⟨p₁, q₁, hg₀swaps⟩ := append_of_mem hbg₀
      obtain ⟨x, q₂, rfl, hx⟩ | ⟨hop, hhop, hin⟩ := h.exists_consumer
        (by rw [hgroups]; exact mem_append_left _ hg₀) hg₀swaps (hout ▸ hmid)
      · have hxmem : x ∈ swapsOf pre := mem_swapsOf hg₀ (by simp [hg₀swaps])
        exact hbefore x (by simp [hxmem]) (hx.trans hout)
      · exact hnohop hop hhop (hin.trans hout)
    · obtain ⟨p₁, q₁, rfl⟩ := append_of_mem hb
      rw [append_assoc, cons_append] at hgswaps
      obtain ⟨x, q₂, hq, hx⟩ | ⟨hop, hhop, hin⟩ := h.exists_consumer hg hgswaps (hout ▸ hmid)
      · have hxmem := mem_of_cons_eq_append hq.symm
        refine hbefore x ?_ (hx.trans hout)
        rw [append_assoc, append_assoc, cons_append]
        exact mem_append_right _ (mem_append_right _ (mem_cons_of_mem b hxmem))
      · exact hnohop hop hhop (hin.trans hout)
  rw [hpq, countP_append, hnone, countP_cons, countP_eq_zero.mpr
    fun x hx => by simpa using hafter x hx]
  simp [hlink]

include hparts in
lemma listed_of_splitExecutable (h : SplitExecutable givenToken checkedToken (groupSwaps swaps)) :
    SplitListed givenToken checkedToken swaps := by
  have hswaps := swapsOf_groupSwaps swaps
  have hmem : ∀ g ∈ groupSwaps swaps, ∀ x ∈ g.swaps, x ∈ swaps :=
    fun g hg x hx => hswaps ▸ mem_swapsOf hg hx
  refine ⟨ordered_iff.mp (hswaps ▸ h.ordered), fun b hb hmid => ?_,
    fun g hg p a c q hgswaps hmid => h.count_merged hparts hg hgswaps hmid⟩
  obtain ⟨p, q, hpq⟩ := append_of_mem hb
  obtain ⟨pre, g, post, p', q', hgroups, hg, -, -⟩ := exists_group (hswaps.trans hpq)
  have hgmem : g ∈ groupSwaps swaps := by rw [hgroups]; simp
  obtain ⟨x, q'', rfl, hx⟩ | ⟨hop, hhop, hin⟩ := h.exists_consumer hgmem hg hmid
  · exact ⟨x, hmem g hgmem x (by simp [hg]), hx⟩
  · obtain ⟨first, rest, hcons, hfirst, -⟩ := (formed_of_mem_groupSwaps hhop).eq_cons
    exact ⟨first, hmem hop hhop first (by simp [hcons]), hfirst.trans hin⟩

namespace TychoRouterEncoder

/-- Hops form an executable route from the given to the checked token. -/
def Executable (strategy : Strategy) (givenToken checkedToken : Address) (hops : List SwapGroup) :
    Prop :=
  match strategy with
  | .single | .sequential => hopsLead givenToken checkedToken hops
  | .split => SplitExecutable givenToken checkedToken hops

/-- The swaps of the solution are listed in an order that can be executed. -/
def Listed (chain : NativeTokens) (solution : Solution) : Prop :=
  match strategyOf (solution.addNativeWrapSwaps chain) with
  | .single | .sequential => Solution.Connected chain solution.tokenOut solution.tokenIn
      solution.swaps
  | .split => SplitListed solution.tokenIn solution.tokenOut
      (solution.addNativeWrapSwaps chain).swaps

section
variable (self : TychoRouterEncoder)

/-- The bytes of a hop: the executor, and what its encoder writes for the swaps of the hop. -/
def HopBytes (hop : SwapGroup) (bytes : List UInt8) : Prop :=
  ∃ executor data, self.encodeGroup hop = .ok (executor, data) ∧
    bytes = encodeSwapHeader executor data

/-- In a split swap the positions of the tokens of the hop and its share stand before them. -/
def SplitHopBytes (tokens : List Address) (hop : SwapGroup) (bytes : List UInt8) : Prop :=
  ∃ executor data, ∃ tokenIn tokenOut : UInt8, self.encodeGroup hop = .ok (executor, data) ∧
    tokens[tokenIn.toNat]? = some hop.tokenIn ∧ tokens[tokenOut.toNat]? = some hop.tokenOut ∧
    bytes = encodeSplitSwapHeader tokenIn tokenOut (percentageToUint24 hop.split) executor data

/-- The call that was encoded has these hops, in this order. -/
def Calls (encoded : EncodedSolution) (solution : Solution) (hops : List SwapGroup) :
    Strategy → Prop
  | .single => encoded.functionSignature =
        functionSignature "singleSwap" "" solution.userTransferType ∧
      ∃ hop, hops = [hop] ∧ self.HopBytes hop encoded.swaps
  | .sequential => encoded.functionSignature =
        functionSignature "sequentialSwap" "" solution.userTransferType ∧
      ∃ elements, Forall₂ self.HopBytes hops elements ∧ encoded.swaps = pleEncode elements
  | .split => encoded.functionSignature =
        functionSignature "splitSwap" "uint256," solution.userTransferType ∧
      ∃ tokens elements, tokens.head? = some solution.tokenIn ∧
        tokens.getLast? = some solution.tokenOut ∧
        Forall₂ (self.SplitHopBytes tokens) hops elements ∧ encoded.swaps = pleEncode elements

end

variable {self : TychoRouterEncoder} {order : VisitOrder} {showF64 : ℚ → String}
  {solution : Solution} {encoded : EncodedSolution}

lemma encodeSolution_eq_ok (h : self.encodeSolution order showF64 solution = .ok encoded) :
    solution.swaps ≠ [] ∧
      self.encodeStrategy order showF64 (solution.addNativeWrapSwaps self.chain) = .ok encoded := by
  unfold encodeSolution at h
  obtain ⟨_, hvalid, h⟩ := ok_of_bind_ok h
  refine ⟨fun hnil => ?_, h⟩
  simp [Solution.validateSolution, hnil] at hvalid

lemma validated_of_encodeSplit (h : self.encodeSplit order showF64 solution = .ok encoded) :
    validateSplitPercentages showF64 order solution.swaps = .ok () := by
  obtain ⟨_, hvalid, -⟩ := ok_of_bind_ok h
  exact hvalid

lemma getElem?_of_getTokenPosition {tokens : List Address} {token : Address} {position : UInt8}
    (h : getTokenPosition tokens token = .ok position) :
    tokens[position.toNat]? = some token := by
  unfold getTokenPosition at h
  split at h
  next i hfound =>
    split_ifs at h with hlt
    cases h
    rw [UInt8.toNat_ofNat_of_lt' hlt]
    obtain ⟨hbound, heq, -⟩ := findIdx?_eq_some_iff_getElem.mp hfound
    rw [getElem?_eq_getElem hbound, beq_iff_eq.mp heq]
  next => cases h

lemma calls_of_encodeSingle (h : self.encodeSingle solution = .ok encoded) :
    self.Calls encoded solution (groupSwaps solution.swaps) .single := by
  unfold encodeSingle at h
  split at h
  next hop hgroups =>
    split_ifs at h with hsplit
    obtain ⟨⟨executor, data⟩, hdata, h⟩ := ok_of_bind_ok h
    cases h
    exact ⟨rfl, hop, hgroups, executor, data, hdata, rfl⟩
  next => cases h

lemma calls_of_encodeSequential (h : self.encodeSequential order solution = .ok encoded) :
    self.Calls encoded solution (groupSwaps solution.swaps) .sequential := by
  obtain ⟨_, -, h⟩ := ok_of_bind_ok h
  obtain ⟨elements, helements, h⟩ := ok_of_bind_ok h
  cases h
  refine ⟨rfl, elements, (forall₂_of_mapM_ok helements).imp fun hop bytes hhop => ?_, rfl⟩
  obtain ⟨⟨executor, data⟩, hdata, hhop⟩ := ok_of_bind_ok hhop
  cases hhop
  exact ⟨executor, data, hdata, rfl⟩

lemma calls_of_encodeSplit (h : self.encodeSplit order showF64 solution = .ok encoded) :
    self.Calls encoded solution (groupSwaps solution.swaps) .split := by
  obtain ⟨_, -, h⟩ := ok_of_bind_ok h
  obtain ⟨_, -, h⟩ := ok_of_bind_ok h
  obtain ⟨elements, helements, h⟩ := ok_of_bind_ok h
  cases h
  have hlast : (tokensOf solution (groupSwaps solution.swaps)).getLast? =
      some solution.tokenOut := by
    rw [tokensOf, ← cons_append, getLast?_concat]
  refine ⟨rfl, tokensOf solution (groupSwaps solution.swaps), elements, rfl, hlast,
    (forall₂_of_mapM_ok helements).imp fun hop bytes hhop => ?_, rfl⟩
  obtain ⟨⟨executor, data⟩, hdata, hhop⟩ := ok_of_bind_ok hhop
  obtain ⟨tokenIn, hin, hhop⟩ := ok_of_bind_ok hhop
  obtain ⟨tokenOut, hout, hhop⟩ := ok_of_bind_ok hhop
  cases hhop
  exact ⟨executor, data, tokenIn, tokenOut, hdata, getElem?_of_getTokenPosition hin,
    getElem?_of_getTokenPosition hout, rfl⟩

/-- Every strategy writes the groups of the swaps one after the other. -/
lemma calls_of_encodeStrategy (h : self.encodeStrategy order showF64 solution = .ok encoded) :
    self.Calls encoded solution (groupSwaps solution.swaps) (strategyOf solution) := by
  unfold encodeStrategy at h
  cases hs : strategyOf solution <;> rw [hs] at h
  · exact calls_of_encodeSingle h
  · exact calls_of_encodeSequential h
  · exact calls_of_encodeSplit h

/-- For every accepted solution: the encoded bytes hold the swaps, with the native wraps and in
their order, as hops that can be executed if and only if the swaps are listed in an order that can
be. -/
theorem executable_iff (h : self.encodeSolution order showF64 solution = .ok encoded) :
    ∃ hops, swapsOf hops = (solution.addNativeWrapSwaps self.chain).swaps ∧
      self.Calls encoded solution hops (strategyOf (solution.addNativeWrapSwaps self.chain)) ∧
      (Executable (strategyOf (solution.addNativeWrapSwaps self.chain)) solution.tokenIn
        solution.tokenOut hops ↔ Listed self.chain solution) := by
  obtain ⟨hswaps, hstrategy⟩ := encodeSolution_eq_ok h
  refine ⟨groupSwaps (solution.addNativeWrapSwaps self.chain).swaps, swapsOf_groupSwaps _,
    calls_of_encodeStrategy hstrategy, ?_⟩
  have hpath : hopsLead solution.tokenIn solution.tokenOut
      (groupSwaps (solution.addNativeWrapSwaps self.chain).swaps) ↔
      Solution.Connected self.chain solution.tokenOut solution.tokenIn solution.swaps := by
    rw [hopsLead_iff fun g hg => formed_of_mem_groupSwaps hg, swapsOf_groupSwaps,
      Solution.swapsLead_addNativeWrapSwaps self.chain hswaps]
  unfold Executable Listed encodeStrategy at *
  cases hs : strategyOf (solution.addNativeWrapSwaps self.chain) with
  | single => exact hpath
  | sequential => exact hpath
  | split =>
    rw [hs] at hstrategy
    have hparts := parts_of_validated (validated_of_encodeSplit hstrategy)
    exact ⟨listed_of_splitExecutable hparts, splitExecutable_of_listed hparts⟩

def sampleEncoder : TychoRouterEncoder :=
  ⟨⟨sampleToken 100, sampleToken 101⟩, fun _ => some ⟨sampleToken 50, fun _ _ => .ok []⟩,
    sampleToken 51⟩

def sampleSolution (tokenIn tokenOut : UInt8) (swaps : List Swap) : Solution :=
  ⟨sampleToken tokenIn, sampleToken tokenOut, swaps, .transferFrom⟩

def permutedSolution : Solution :=
  sampleSolution 1 3 [sampleSwap "uniswap_v2" 2 3 0, sampleSwap "uniswap_v2" 1 2 0]

def foreignSolution : Solution := sampleSolution 1 4 [sampleSwap "uniswap_v2" 2 3 0]

def branchSolution : Solution :=
  sampleSolution 1 3 [sampleSwap "uniswap_v2" 1 2 (1 / 2), sampleSwap "uniswap_v2" 1 3 0]

/-- The encoder accepts the solution and writes hops that cannot be executed. -/
def AcceptsBroken (self : TychoRouterEncoder) (solution : Solution) (strategy : Strategy) : Prop :=
  ∃ encoded hops, self.encodeSolution .asListed toString solution = .ok encoded ∧
    self.Calls encoded solution hops strategy ∧
    ¬ Executable strategy solution.tokenIn solution.tokenOut hops

lemma acceptsBroken_of_not_executable {strategy : Strategy}
    (hok : (self.encodeSolution .asListed toString solution).isOk)
    (hstrategy : strategyOf (solution.addNativeWrapSwaps self.chain) = strategy)
    (hbroken : ¬ Executable strategy solution.tokenIn solution.tokenOut
      (groupSwaps (solution.addNativeWrapSwaps self.chain).swaps)) :
    self.AcceptsBroken solution strategy := by
  cases hencoded : self.encodeSolution .asListed toString solution with
  | error => simp [hencoded, Except.isOk, Except.toBool] at hok
  | ok encoded =>
    obtain ⟨-, henc⟩ := encodeSolution_eq_ok hencoded
    exact ⟨encoded, _, hencoded, hstrategy ▸ calls_of_encodeStrategy henc, hbroken⟩

/-- Each strategy accepts a solution that cannot be executed. -/
theorem not_executable_accepted : sampleEncoder.AcceptsBroken permutedSolution .sequential ∧
    sampleEncoder.AcceptsBroken foreignSolution .single ∧
    sampleEncoder.AcceptsBroken branchSolution .split := by
  refine ⟨acceptsBroken_of_not_executable (by decide +kernel) (by decide +kernel) ?_,
    acceptsBroken_of_not_executable (by decide +kernel) (by decide +kernel) ?_,
    acceptsBroken_of_not_executable (by decide +kernel) (by decide +kernel) fun h => ?_⟩
  · change ¬ hopsLead _ _ _
    decide +kernel
  · change ¬ hopsLead _ _ _
    decide +kernel
  obtain ⟨g, hg, hout⟩ : ∃ g ∈ groupSwaps
      (branchSolution.addNativeWrapSwaps sampleEncoder.chain).swaps,
      g.tokenOut = sampleToken 2 := by decide +kernel
  have hnone : ∀ hop ∈ groupSwaps (branchSolution.addNativeWrapSwaps sampleEncoder.chain).swaps,
      hop.tokenIn ≠ sampleToken 2 := by decide +kernel
  obtain ⟨i, hop, hi, hin, -⟩ := h.consumed g hg
    (by rw [hout]; exact ⟨by decide +kernel, by decide +kernel⟩)
  exact hnone hop (mem_of_getElem? hi) (hin.trans hout)

/-- The first hop wraps the native token. -/
theorem executable_iff_wrapped :
    let wrapped := sampleSolution 100 3 [sampleSwap "uniswap_v2" 101 3 0]
    ∃ encoded hops, sampleEncoder.encodeSolution .asListed toString wrapped = .ok encoded ∧
      sampleEncoder.Calls encoded wrapped hops .sequential ∧
      Executable .sequential wrapped.tokenIn wrapped.tokenOut hops := by
  intro wrapped
  have hok : (sampleEncoder.encodeSolution .asListed toString wrapped).isOk := by decide +kernel
  have hstrategy : strategyOf (wrapped.addNativeWrapSwaps sampleEncoder.chain) = .sequential := by
    decide +kernel
  cases hencoded : sampleEncoder.encodeSolution .asListed toString wrapped with
  | error => simp [hencoded, Except.isOk, Except.toBool] at hok
  | ok encoded =>
    obtain ⟨hops, -, hcalls, hiff⟩ := executable_iff hencoded
    rw [hstrategy] at hcalls hiff
    refine ⟨encoded, hops, rfl, hcalls, hiff.mpr ?_⟩
    unfold Listed
    rw [hstrategy]
    exact ⟨.inr (by decide +kernel), .inl rfl⟩

end TychoRouterEncoder

end Tycho
