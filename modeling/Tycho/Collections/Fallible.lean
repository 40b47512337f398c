import Tycho.Collections.HashMap

/-! Loops whose steps can fail. -/
namespace Collections
open List
variable {E E' A B S X : Type}

lemma ok_of_mapError_ok {r : Except E A} {g : E → E'} {a : A} (h : r.mapError g = .ok a) :
    r = .ok a := by
  cases r with
  | error => cases h
  | ok =>
    cases h
    rfl

lemma ok_of_map_ok {r : Except E A} {g : A → B} {b : B} (h : r.map g = .ok b) :
    ∃ a, r = .ok a ∧ g a = b := by
  cases r with
  | error => cases h
  | ok a =>
    cases h
    exact ⟨a, rfl, rfl⟩

lemma exists_ok_of_any {r : Except E A} {p : A → Bool} (h : r.toOption.any p) :
    ∃ a, r = .ok a ∧ p a := by
  cases r with
  | ok a => exact ⟨a, rfl, h⟩
  | error => cases h

lemma ok_bind (a : A) (f : A → Except E B) : (Except.ok a >>= f) = f a := rfl

lemma ok_of_bind_ok {r : Except E A} {f : A → Except E B} {b : B} (h : r >>= f = .ok b) :
    ∃ a, r = .ok a ∧ f a = .ok b := by
  cases r with
  | error => cases h
  | ok a => exact ⟨a, rfl, h⟩

lemma foldlM_cons_ok {step : S → A → Except E S} {a : A} {l : List A} {s s' : S}
    (h : (a :: l).foldlM step s = .ok s') :
    ∃ t, step s a = .ok t ∧ l.foldlM step t = .ok s' := by
  rw [foldlM_cons] at h
  exact ok_of_bind_ok h

/-- What every accepted step keeps holds at the end of a loop. -/
lemma foldlM_ok_invariant {step : S → A → Except E S} {P : S → Prop} {l : List A}
    (hstep : ∀ s a s', a ∈ l → P s → step s a = .ok s' → P s') {s s' : S} (hs : P s)
    (h : l.foldlM step s = .ok s') : P s' := by
  induction l generalizing s with
  | nil =>
    cases h
    exact hs
  | cons a _ ih =>
    obtain ⟨t, ha, hl⟩ := foldlM_cons_ok h
    exact ih (fun s a' s' ha' => hstep s a' s' (mem_cons_of_mem a ha'))
      (hstep s a t mem_cons_self hs ha) hl

/-- What each step establishes for its element, and later steps keep, holds for all of them. -/
lemma foldlM_ok_forall {step : S → A → Except E S} {P : S → Prop} {Q : A → S → Prop} {l : List A}
    (hstep : ∀ s a s', a ∈ l → P s → step s a = .ok s' →
      P s' ∧ Q a s' ∧ ∀ a', Q a' s → Q a' s') {s s' : S} (hs : P s)
    (h : l.foldlM step s = .ok s') : ∀ a ∈ l, Q a s' := by
  induction l generalizing s with
  | nil =>
    intro a ha
    cases ha
  | cons a _ ih =>
    obtain ⟨t, ha, hl⟩ := foldlM_cons_ok h
    obtain ⟨ht, hq, -⟩ := hstep s a t mem_cons_self hs ha
    intro a' ha'
    rcases mem_cons.mp ha' with rfl | ha'
    · refine (foldlM_ok_invariant (P := fun s => P s ∧ Q a' s) ?_ ⟨ht, hq⟩ hl).2
      rintro s b s' hb ⟨hs, hqs⟩ hsb
      obtain ⟨hs', -, hkeep⟩ := hstep s b s' (mem_cons_of_mem a' hb) hs hsb
      exact ⟨hs', hkeep a' hqs⟩
    · exact ih (fun s b s' hb => hstep s b s' (mem_cons_of_mem a hb)) ht hl a' ha'

/-- An observation that every accepted step maps to a pure step can be computed purely. -/
lemma foldlM_ok_hom {step : S → A → Except E S} (f : S → X) {g : X → A → X}
    (h : ∀ s a s', step s a = .ok s' → f s' = g (f s) a) {l : List A} {s s' : S}
    (hl : l.foldlM step s = .ok s') : f s' = l.foldl g (f s) := by
  induction l generalizing s with
  | nil =>
    cases hl
    rfl
  | cons a _ ih =>
    obtain ⟨t, ha, hl⟩ := foldlM_cons_ok hl
    rw [foldl_cons, ← h s a t ha]
    exact ih hl

/-- A loop over a list succeeds when every step does. -/
lemma mapM_isOk {f : A → Except E B} {l : List A} (h : ∀ a ∈ l, ∃ b, f a = .ok b) :
    ∃ l', l.mapM f = .ok l' := by
  induction l with
  | nil => exact ⟨[], rfl⟩
  | cons a _ ih =>
    obtain ⟨b, hb⟩ := h a mem_cons_self
    obtain ⟨l', hl'⟩ := ih fun a' ha' => h a' (mem_cons_of_mem _ ha')
    refine ⟨b :: l', ?_⟩
    rw [mapM_cons, hb, hl']
    rfl

lemma mapM_congr {f f' : A → Except E B} {l : List A} (h : ∀ a ∈ l, f a = f' a) :
    l.mapM f = l.mapM f' := by
  induction l with
  | nil => rfl
  | cons a _ ih =>
    rw [mapM_cons, mapM_cons, h a mem_cons_self, ih fun a' ha' => h a' (mem_cons_of_mem _ ha')]

/-- The results of a loop are those of its steps, in order. -/
lemma forall₂_of_mapM_ok {f : A → Except E B} {l : List A} {l' : List B}
    (h : l.mapM f = .ok l') : List.Forall₂ (fun a b => f a = .ok b) l l' := by
  induction l generalizing l' with
  | nil =>
    cases h
    exact .nil
  | cons a l ih =>
    rw [mapM_cons] at h
    obtain ⟨b, hb, h⟩ := ok_of_bind_ok h
    obtain ⟨bs, hl, h⟩ := ok_of_bind_ok h
    cases h
    exact .cons hb (ih hl)

lemma exists_of_mem_right {R : A → B → Prop} {l : List A} {l' : List B}
    (h : List.Forall₂ R l l') {b : B} (hb : b ∈ l') : ∃ a ∈ l, R a b := by
  induction h with
  | nil => cases hb
  | cons hab _ ih =>
    rcases mem_cons.mp hb with rfl | hb
    · exact ⟨_, mem_cons_self, hab⟩
    · obtain ⟨a, ha, hr⟩ := ih hb
      exact ⟨a, mem_cons_of_mem _ ha, hr⟩

lemma exists_of_mem_left {R : A → B → Prop} {l : List A} {l' : List B}
    (h : List.Forall₂ R l l') {a : A} (ha : a ∈ l) : ∃ b ∈ l', R a b :=
  exists_of_mem_right (R := fun b a => R a b) h.flip ha

section
variable {K : Type} [DecidableEq K]

/-- Update the elements that were found and create those of the requested keys that were not. -/
def completeWith (key : A → K) (update : A → Except E A) (create : K → Except E A) (ids : List K)
    (found : List A) : Except E (List A) := do
  let updated ← found.mapM update
  let missing := HashMap.eraseAll (HashSet.ofList ids) (updated.map key)
  let created ← missing.keys.mapM create
  return updated ++ created

/-- If updates keep the key and the missing keys can be created, there is an element for every
requested key, and each is an updated or a created one. -/
lemma completeWith_isOk (key : A → K) {update : A → Except E A} (create : K → Except E A)
    (ids : List K) (found : List A)
    (hu : ∀ a ∈ found, ∃ b, update a = .ok b ∧ key b = key a)
    (hc : ∀ id ∈ ids, (∀ a ∈ found, key a ≠ id) → ∃ b, create id = .ok b ∧ key b = id) :
    ∃ l, completeWith key update create ids found = .ok l ∧
      (∀ b ∈ l, (∃ a ∈ found, update a = .ok b) ∨
        ∃ id ∈ ids, (∀ a ∈ found, key a ≠ id) ∧ create id = .ok b) ∧
      ∀ id ∈ ids, ∃ b ∈ l, key b = id := by
  obtain ⟨updated, hupdated⟩ := mapM_isOk fun a ha => ⟨_, (hu a ha).choose_spec.1⟩
  have hup := forall₂_of_mapM_ok hupdated
  have hmissing : ∀ id, id ∈ (HashMap.eraseAll (HashSet.ofList ids) (updated.map key)).keys ↔
      (∀ b ∈ updated, key b ≠ id) ∧ id ∈ ids := by
    intro id
    rw [← AList.mem_keys, HashMap.mem_eraseAll, HashSet.mem_ofList, mem_map]
    simp
  -- keys are kept by the updates, so what is missing after them was missing before
  have hold : ∀ id, (∀ b ∈ updated, key b ≠ id) → ∀ a ∈ found, key a ≠ id := by
    intro id hid a ha
    obtain ⟨b, hb, hab⟩ := exists_of_mem_left hup ha
    obtain ⟨b', hab', hkey⟩ := hu a ha
    cases hab'.symm.trans hab
    exact hkey ▸ hid _ hb
  obtain ⟨created, hcreated⟩ := mapM_isOk fun id hid =>
    have hid' := (hmissing id).mp hid
    ⟨_, (hc id hid'.2 (hold id hid'.1)).choose_spec.1⟩
  have hcr := forall₂_of_mapM_ok hcreated
  refine ⟨updated ++ created, ?_, ?_, ?_⟩
  · simp only [completeWith, hupdated, hcreated, bind, Except.bind, pure, Except.pure]
  · intro b hb
    rcases mem_append.mp hb with hb | hb
    · exact .inl (exists_of_mem_right hup hb)
    · obtain ⟨id, hid, hr⟩ := exists_of_mem_right hcr hb
      obtain ⟨hnot, hin⟩ := (hmissing id).mp hid
      exact .inr ⟨id, hin, hold id hnot, hr⟩
  · intro id hin
    by_cases hid : ∃ b ∈ updated, key b = id
    · obtain ⟨b, hb, hkey⟩ := hid
      exact ⟨b, mem_append_left _ hb, hkey⟩
    · have hnot : ∀ b ∈ updated, key b ≠ id := by simpa using hid
      obtain ⟨b, hb, hr⟩ := exists_of_mem_left hcr ((hmissing id).mpr ⟨hnot, hin⟩)
      obtain ⟨b', hr', hkey⟩ := hc id hin (hold id hnot)
      cases hr'.symm.trans hr
      exact ⟨_, mem_append_right _ hb, hkey⟩

end
end Collections
