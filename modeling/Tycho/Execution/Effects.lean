import Tycho.Execution.TychoRouter

/-! What the basic operations of the router do to its state when they return. None of them gives
others the chance to look at it. -/
namespace Tycho
open Collections Replay.Program RouterState

variable {s s' : RouterState} {u : Unit}

section
variable {n m k : Nat} {z w : Int}

@[simp]
lemma checkedUint256_eq_ok : checkedUint256 n s = .ok (m, s') ↔ n < 2 ^ 256 ∧ n = m ∧ s = s' := by
  simp [checkedUint256, and_right_comm, and_assoc]

@[simp]
lemma checkedSub_eq_ok : checkedSub n m s = .ok (k, s') ↔ m ≤ n ∧ n - m = k ∧ s = s' := by
  simp [checkedSub, and_comm, and_left_comm, and_assoc]

@[simp]
lemma checkedInt256_eq_ok :
    checkedInt256 z s = .ok (w, s') ↔ (-2 ^ 255 ≤ z ∧ z < 2 ^ 255) ∧ z = w ∧ s = s' := by
  simp [checkedInt256, and_right_comm, and_assoc]

@[simp]
lemma negInt256_eq_ok : negInt256 n s = .ok (z, s') ↔
    (-2 ^ 255 ≤ -int256 n ∧ -int256 n < 2 ^ 255) ∧ -int256 n = z ∧ s = s' :=
  checkedInt256_eq_ok

lemma quiet_checkedUint256 (n : Nat) : Quiet (checkedUint256 n) :=
  quiet_require.bind fun _ => quiet_pure n

lemma quiet_checkedSub (n m : Nat) : Quiet (checkedSub n m) :=
  quiet_require.bind fun _ => quiet_pure (n - m)

lemma quiet_checkedInt256 (z : Int) : Quiet (checkedInt256 z) :=
  quiet_require.bind fun _ => quiet_pure z

end

@[simp]
lemma emit_eq_ok {e : RouterEvent} : emit e s = .ok (u, s') ↔ s.emit e = s' := by simp [emit]

lemma quiet_emit (e : RouterEvent) : Quiet (emit e) := quiet_modify _

section
variable {token src dst : Address} {amount : Nat}

@[simp]
lemma moveToken_eq_ok : moveToken token src dst amount s = .ok (u, s') ↔
    amount ≤ s.balances token src ∧ s.move token src dst amount = s' := by
  simp [moveToken]

lemma quiet_moveToken (token src dst : Address) (amount : Nat) :
    Quiet (moveToken token src dst amount) :=
  quiet_get.bind fun _ => quiet_require.bind fun _ => quiet_set _

end

namespace RouterState

def vaultOf (s : RouterState) (user token : Address) : Nat := (s.vaultBalances token).balance user

lemma vaultOf_setVaultBalance (s : RouterState) (user token : Address) (amount : Nat)
    (a t : Address) : (s.setVaultBalance user token amount).vaultOf a t =
      if a = user ∧ t = token then amount else s.vaultOf a t := by
  unfold vaultOf setVaultBalance
  by_cases ht : t = token
  · simp [ht, Ledger.balance_setBalance]
  · simp [ht]

def credit (s : RouterState) (user token : Address) (amount : Nat) : RouterState :=
  s.setVaultBalance user token (s.vaultOf user token + amount)

def debit (s : RouterState) (user token : Address) (amount : Nat) : RouterState :=
  s.setVaultBalance user token (s.vaultOf user token - amount)

lemma vaultOf_credit (s : RouterState) (user token : Address) (amount : Nat) (a t : Address) :
    (s.credit user token amount).vaultOf a t =
      s.vaultOf a t + if a = user ∧ t = token then amount else 0 := by
  rw [credit, vaultOf_setVaultBalance]
  split_ifs with h
  · rw [h.1, h.2]
  · rfl

lemma vaultOf_debit (s : RouterState) (user token : Address) (amount : Nat) (a t : Address) :
    (s.debit user token amount).vaultOf a t =
      s.vaultOf a t - if a = user ∧ t = token then amount else 0 := by
  rw [debit, vaultOf_setVaultBalance]
  split_ifs with h
  · rw [h.1, h.2]
  · rfl

end RouterState

namespace Vault
variable {user src dst token : Address} {amount : Nat}

@[simp]
lemma increase_eq_ok : increase dst token amount s = .ok (u, s') ↔
    s.vaultOf dst token + amount < 2 ^ 256 ∧ s.credit dst token amount = s' := by
  simp [increase, credit, vaultOf]

@[simp]
lemma decrease_eq_ok : decrease src token amount s = .ok (u, s') ↔
    amount ≤ s.vaultOf src token ∧ s.debit src token amount = s' := by
  simp [decrease, debit, vaultOf]

lemma quiet_updateWithoutEvent (src dst token : Address) (amount : Nat) :
    Quiet (updateWithoutEvent src dst token amount) := by
  have hdecrease : Quiet (decrease src token amount) :=
    quiet_get.bind fun _ => quiet_require.bind fun _ => quiet_set _
  have hincrease : Quiet (increase dst token amount) :=
    quiet_get.bind fun _ => (quiet_checkedUint256 _).bind fun _ => quiet_set _
  exact (quiet_ite hdecrease (quiet_pure _)).bind fun _ => quiet_ite hincrease (quiet_pure _)

@[simp]
lemma mint_eq_ok : mint dst token amount s = .ok (u, s') ↔
    dst ≠ addressZero ∧ s.vaultOf dst token + amount < 2 ^ 256 ∧
      s.credit dst token amount = s' := by
  by_cases hdst : dst = addressZero <;> simp [mint, updateWithoutEvent, hdst]

@[simp]
lemma burn_eq_ok : burn src token amount s = .ok (u, s') ↔
    src ≠ addressZero ∧ amount ≤ s.vaultOf src token ∧ s.debit src token amount = s' := by
  by_cases hsrc : src = addressZero <;> simp [burn, updateWithoutEvent, hsrc]

/-- The source has enough, and its balance is set before that of the destination. -/
lemma of_transfer_ok {spender : Address} {allowance : Nat}
    (h : transfer spender src dst token allowance amount s = .ok (u, s')) :
    amount ≤ s.vaultOf src token ∧ s' = ((s.debit src token amount).credit dst token amount).emit
        (.transferred src token amount) := by
  simp only [transfer, bind_eq_ok, require_eq_ok, updateWithoutEvent] at h
  obtain ⟨_, _, ⟨-, rfl⟩, _, _, ⟨hsrc, rfl⟩, _, _, ⟨hdst, rfl⟩, _, _, ⟨_, _, hdecrease, hincrease⟩,
    hemit⟩ := h
  simp only [onlyIf_eq_ok, if_pos hsrc, if_pos hdst, decrease_eq_ok,
    increase_eq_ok] at hdecrease hincrease
  obtain ⟨hamount, rfl⟩ := hdecrease
  obtain ⟨-, rfl⟩ := hincrease
  exact ⟨hamount, (emit_eq_ok.mp hemit).symm⟩

lemma quiet_mint (dst token : Address) (amount : Nat) : Quiet (mint dst token amount) :=
  quiet_require.bind fun _ => quiet_updateWithoutEvent addressZero dst token amount

lemma quiet_burn (src token : Address) (amount : Nat) : Quiet (burn src token amount) :=
  quiet_require.bind fun _ => quiet_updateWithoutEvent src addressZero token amount

lemma quiet_transfer (spender src dst token : Address) (allowance amount : Nat) :
    Quiet (transfer spender src dst token allowance amount) :=
  quiet_require.bind fun _ => quiet_require.bind fun _ => quiet_require.bind fun _ =>
    (quiet_updateWithoutEvent src dst token amount).bind fun _ => quiet_emit _

lemma of_debitVault_ok (h : debitVault user token amount s = .ok (u, s')) :
    amount ≤ s.vaultOf user token ∧ (amount = 0 ∧ s' = s ∨ s' = s.debit user token amount) := by
  unfold debitVault at h
  split_ifs at h with hzero
  · cases h
    exact ⟨hzero ▸ Nat.zero_le _, .inl ⟨hzero, rfl⟩⟩
  · simp only [bind_eq_ok, get_eq_ok, require_eq_ok, burn_eq_ok] at h
    obtain ⟨_, _, ⟨rfl, rfl⟩, _, _, ⟨-, rfl⟩, -, hamount, rfl⟩ := h
    exact ⟨hamount, .inr rfl⟩

lemma quiet_debitVault (user token : Address) (amount : Nat) :
    Quiet (debitVault user token amount) :=
  quiet_ite (quiet_pure _) (quiet_get.bind fun _ => quiet_require.bind fun _ =>
    quiet_burn user token amount)

lemma of_creditVault_ok (h : creditVault user token amount s = .ok (u, s')) :
    amount = 0 ∧ s' = s ∨ s' = s.credit user token amount := by
  unfold creditVault at h
  split_ifs at h with hzero
  · cases h
    exact .inl ⟨hzero, rfl⟩
  · exact .inr (mint_eq_ok.mp h).2.2.symm

lemma quiet_creditVault (user token : Address) (amount : Nat) :
    Quiet (creditVault user token amount) :=
  quiet_ite (quiet_pure _) (quiet_mint user token amount)

/-- `count` tokens have a delta that is not zero. -/
def Counted (delta : Address → Int) (count : Nat) : Prop :=
  ∃ l : List Address, l.Nodup ∧ (∀ t, t ∈ l ↔ delta t ≠ 0) ∧ l.length = count

/-- What an entry of the delta accounting does. -/
structure Accounted (s : RouterState) (token : Address) (change : Int) (s' : RouterState) :
    Prop where
  state : s' = { s with delta := s'.delta, nonZeroDeltaCount := s'.nonZeroDeltaCount }
  delta : ∀ t, s'.delta t = s.delta t + if t = token then change else 0
  range : change ≠ 0 → -2 ^ 255 ≤ s'.delta token ∧ s'.delta token < 2 ^ 255
  counted : Counted s.delta s.nonZeroDeltaCount → Counted s'.delta s'.nonZeroDeltaCount

/-- Only the deltas and their count change. -/
lemma Accounted.exists {change : Int} (h : Accounted s token change s') :
    ∃ d c, s' = { s with delta := d, nonZeroDeltaCount := c } :=
  ⟨_, _, h.state⟩

section
variable {delta delta' : Address → Int} {count : Nat}

section
variable (h : Counted delta count)
include h

lemma Counted.erase (ht : delta token ≠ 0) (ht' : delta' token = 0)
    (hother : ∀ t, t ≠ token → delta' t = delta t) : Counted delta' (count - 1) := by
  obtain ⟨l, hnodup, hmem, rfl⟩ := h
  have hlen := List.length_erase_of_mem ((hmem _).mpr ht)
  refine ⟨l.erase token, hnodup.erase token, fun t => ?_, hlen⟩
  rw [hnodup.mem_erase_iff, hmem]
  by_cases heq : t = token
  · simp [heq, ht']
  · simp [heq, hother t heq]

lemma Counted.insert (ht : delta token = 0) (ht' : delta' token ≠ 0)
    (hother : ∀ t, t ≠ token → delta' t = delta t) : Counted delta' (count + 1) := by
  obtain ⟨l, hnodup, hmem, rfl⟩ := h
  have hnot : token ∉ l := fun hin => (hmem token).mp hin ht
  refine ⟨token :: l, List.nodup_cons.mpr ⟨hnot, hnodup⟩, fun t => ?_, rfl⟩
  rw [List.mem_cons, hmem]
  by_cases heq : t = token
  · simp [heq, ht']
  · simp [heq, hother t heq]

lemma Counted.congr (hzero : ∀ t, delta' t = 0 ↔ delta t = 0) : Counted delta' count := by
  obtain ⟨l, hnodup, hmem, rfl⟩ := h
  refine ⟨l, hnodup, fun t => ?_, rfl⟩
  rw [hmem, ne_eq, ne_eq, hzero]

end

end

lemma delta_setDelta (s : RouterState) (token : Address) (change : Int) (t : Address) :
    (s.setDelta token (s.delta token + change)).delta t =
      s.delta t + if t = token then change else 0 := by
  unfold setDelta
  by_cases ht : t = token
  · simp [ht]
  · simp [ht]

lemma quiet_updateDeltaAccounting (token : Address) (change : Int) :
    Quiet (updateDeltaAccounting token change) := by
  unfold updateDeltaAccounting
  apply quiet_ite (quiet_pure _)
  refine quiet_get.bind fun s => (quiet_checkedInt256 _).bind fun z => ?_
  refine quiet_ite ((quiet_checkedSub _ _).bind fun _ => quiet_set _) ?_
  exact quiet_ite ((quiet_checkedUint256 _).bind fun _ => quiet_set _) (quiet_set _)

lemma accounted_of_ok {change : Int} (h : updateDeltaAccounting token change s = .ok (u, s')) :
    Accounted s token change s' := by
  unfold updateDeltaAccounting at h
  split_ifs at h with hzero
  · cases h
    subst hzero
    exact ⟨rfl, fun t => by simp, fun hne => absurd rfl hne, id⟩
  simp only [bind_eq_ok, get_eq_ok, checkedInt256_eq_ok] at h
  obtain ⟨_, _, ⟨rfl, rfl⟩, new, _, ⟨hrange, rfl, rfl⟩, h⟩ := h
  have hdelta := delta_setDelta s token change
  have hself : (s.setDelta token (s.delta token + change)).delta token =
      s.delta token + change := by
    rw [hdelta, if_pos rfl]
  have hother : ∀ t, t ≠ token → (s.setDelta token (s.delta token + change)).delta t = s.delta t :=
    by
    intro t ht
    rw [hdelta, if_neg ht, Int.add_zero]
  rw [← hself] at hrange
  split_ifs at h with hdown hup
  · simp only [bind_eq_ok, checkedSub_eq_ok, set_eq_ok] at h
    obtain ⟨_, _, ⟨-, rfl, rfl⟩, rfl⟩ := h
    exact ⟨rfl, hdelta, fun _ => hrange, fun hc => hc.erase hdown.1 (hself.trans hdown.2) hother⟩
  · simp only [bind_eq_ok, checkedUint256_eq_ok, set_eq_ok] at h
    obtain ⟨_, _, ⟨-, rfl, rfl⟩, rfl⟩ := h
    exact ⟨rfl, hdelta, fun _ => hrange,
      fun hc => hc.insert hup.1 (fun hz => hup.2 (hself.symm.trans hz)) hother⟩
  · rw [set_eq_ok] at h
    subst h
    refine ⟨rfl, hdelta, fun _ => hrange, fun hc => hc.congr fun t => ?_⟩
    by_cases ht : t = token
    · subst ht
      rw [hself]
      constructor
      · intro hnew
        by_contra hold
        exact hdown ⟨hold, hnew⟩
      · intro hold
        by_contra hnew
        exact hup ⟨hold, hnew⟩
    · rw [hother t ht]

end Vault
end Tycho
