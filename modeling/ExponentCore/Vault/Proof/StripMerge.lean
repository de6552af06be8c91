import ExponentCore.Vault.Instructions
import ExponentCore.Vault.Proof.Indexes
import ExponentCore.Vault.Proof.Solvency

/-!
# What strips and merges are worth

A strip mints PY for no more than the SY is worth, and a merge pays no more SY than the PY is worth,
so at a constant rate nobody gains by stripping and merging (`no_value_created`). A merge is priced
with the backing from before the staging of the vault's own position; it leaves the rest of the PT
its share exactly when the interest that it stages fits beside that backing (`merge_fair_iff`).
-/

set_option autoImplicit false

namespace ExponentCore

open Number

variable {w w' : VaultWorld} {v v' : Vault} {p p' : YieldTokenPosition} {now : UInt32}
  {syState : SyState} {x y a : UInt64}

/-! ## Prices -/

theorem handleStrip_price_le (h : handleStrip v p now syState x = .ok (v', p', y)) :
    y.toNat * denom ≤ x.toNat * syState.exchangeRate.raw := by
  obtain ⟨v₁, v₂, p₁, hr, -, hm⟩ := handleStrip_eq_ok h
  have hle := hm.price_le
  rwa [hr.lastSeen] at hle

theorem handleMerge_price_le (h : handleMerge v p now syState a = .ok (v', p', x)) :
    x.toNat * syState.exchangeRate.raw ≤ a.toNat * denom := by
  obtain ⟨v₁, v₂, p₁, hr, -, hb⟩ := handleMerge_eq_ok h
  have hu := hr.updated
  obtain ⟨c, t, -, -, -, hv₂⟩ := hr.earned.credit
  have hpriced : v₂.syForPt.toNat ≤ Vault.ptValue v₂.ptSupply v₂.lastSeenSyExchangeRate := by
    rw [hr.ptSupply, hr.lastSeen, hv₂]
    exact hu.backing.trans_le (min_le_left _ _)
  have hle := hb.price_le hpriced
  rwa [hr.lastSeen] at hle

/-! ## What a user puts in and takes out -/

/-- An instruction with the user who signs it. -/
abbrev SignedOp := Nat × VaultOp

namespace VaultWorld

def instructSigned (w : VaultWorld) (o : SignedOp) : Outcome VaultWorld := w.instruct o.2

/-- The SY that a successful strip takes in and the PY that it mints. -/
def stripFlow (w : VaultWorld) (op : VaultOp) : Nat × Nat :=
  match op, w.instruct op with
  | .strip now syState amountSy, .ok _ =>
    match handleStrip w.vault w.yieldPosition now syState amountSy with
    | .ok (_, _, amountPy) => (amountSy.toNat, amountPy.toNat)
    | .error _ => (0, 0)
  | _, _ => (0, 0)

/-- The PY that a successful merge takes in and the SY that it pays. -/
def mergeFlow (w : VaultWorld) (op : VaultOp) : Nat × Nat :=
  match op, w.instruct op with
  | .merge now syState amountPy, .ok _ =>
    match handleMerge w.vault w.yieldPosition now syState amountPy with
    | .ok (_, _, amountSy) => (amountPy.toNat, amountSy.toNat)
    | .error _ => (0, 0)
  | _, _ => (0, 0)

/-- What a quantity of an instruction counts for a user. -/
def ofUser (user : Nat) (f : VaultWorld → VaultOp → Nat) (w : VaultWorld) (o : SignedOp) : Nat :=
  if o.1 = user then f w o.2 else 0

/-- A quantity summed over the instructions of a user in a run. -/
def userTotal (user : Nat) (f : VaultWorld → VaultOp → Nat) (w : VaultWorld)
    (ops : List SignedOp) : Nat :=
  Machine.total instructSigned (ofUser user f) w ops

end VaultWorld

open VaultWorld

theorem stripFlow_le {op : VaultOp} {r : Number} (hr : ∀ q ∈ op.syRead, q.2.exchangeRate = r) :
    (w.stripFlow op).2 * denom ≤ (w.stripFlow op).1 * r.raw := by
  unfold stripFlow
  split
  · split
    · rename_i heq
      rw [← hr _ rfl]
      exact handleStrip_price_le heq
    · simp
  · simp

theorem mergeFlow_le {op : VaultOp} {r : Number} (hr : ∀ q ∈ op.syRead, q.2.exchangeRate = r) :
    (w.mergeFlow op).2 * r.raw ≤ (w.mergeFlow op).1 * denom := by
  unfold mergeFlow
  split
  · split
    · rename_i heq
      rw [← hr _ rfl]
      exact handleMerge_price_le heq
    · simp
  · simp

/-- Quantities in a fixed proportion stay in it when they are summed for a user. -/
theorem userTotal_mul_le {f f' : VaultWorld → VaultOp → Nat} {c d user : Nat} {r : Number}
    {ops : List SignedOp}
    (hf : ∀ w (op : VaultOp), (∀ q ∈ op.syRead, q.2.exchangeRate = r) → f w op * c ≤ f' w op * d)
    (hops : ∀ o ∈ ops, ∀ q ∈ o.2.syRead, q.2.exchangeRate = r) :
    userTotal user f w ops * c ≤ userTotal user f' w ops * d := by
  refine Machine.total_mul_le_mul (P := fun _ o => ∀ q ∈ o.2.syRead, q.2.exchangeRate = r) ?_
    (Machine.admits_of_forall hops)
  intro w o ho
  unfold ofUser
  split
  · exact hf w o.2 ho
  · simp

/-- **No value is created** by stripping and merging at a rate, from any state of the vault: neither
by one call, nor by a user in a run of instructions of all users. -/
theorem no_value_created (w : VaultWorld) (r : Number) (hr : 0 < r) :
    (∀ now syState x v' p' y, syState.exchangeRate = r →
      handleStrip w.vault w.yieldPosition now syState x = .ok (v', p', y) →
      y.toNat * 10 ^ 12 ≤ x.toNat * r.raw) ∧
    (∀ now syState a v' p' s, syState.exchangeRate = r →
      handleMerge w.vault w.yieldPosition now syState a = .ok (v', p', s) →
      s.toNat * r.raw ≤ a.toNat * 10 ^ 12) ∧
    ∀ (user : Nat) (ops : List SignedOp),
      (∀ o ∈ ops, ∀ q ∈ o.2.syRead, q.2.exchangeRate = r) →
      userTotal user (fun w op => (w.mergeFlow op).1) w ops
        ≤ userTotal user (fun w op => (w.stripFlow op).2) w ops →
      userTotal user (fun w op => (w.mergeFlow op).2) w ops
        ≤ userTotal user (fun w op => (w.stripFlow op).1) w ops := by
  refine ⟨fun now syState x v' p' y hrate h => ?_, fun now syState a v' p' s hrate h => ?_,
    fun user ops hops hpy => ?_⟩
  · exact hrate ▸ handleStrip_price_le h
  · exact hrate ▸ handleMerge_price_le h
  · have hstrip : userTotal user (fun w op => (w.stripFlow op).2) w ops * denom
        ≤ userTotal user (fun w op => (w.stripFlow op).1) w ops * r.raw :=
      userTotal_mul_le (fun w op ho => stripFlow_le ho) hops
    have hmerge : userTotal user (fun w op => (w.mergeFlow op).2) w ops * r.raw
        ≤ userTotal user (fun w op => (w.mergeFlow op).1) w ops * denom :=
      userTotal_mul_le (fun w op ho => mergeFlow_le ho) hops
    refine Nat.le_of_mul_le_mul_right ?_ hr
    calc userTotal user (fun w op => (w.mergeFlow op).2) w ops * r.raw
        ≤ userTotal user (fun w op => (w.mergeFlow op).1) w ops * denom := hmerge
      _ ≤ userTotal user (fun w op => (w.stripFlow op).2) w ops * denom :=
          Nat.mul_le_mul_right _ hpy
      _ ≤ userTotal user (fun w op => (w.stripFlow op).1) w ops * r.raw := hstrip

/-- Two users strip and merge in turns at rate 2. -/
def stripAndMergeInTurns : List SignedOp :=
  [(1, .strip 1 (wholeRate 2) 1000), (2, .strip 1 (wholeRate 2) 70), (2, .merge 2 (wholeRate 2) 3),
    (1, .merge 3 (wholeRate 2) 999), (2, .merge 4 (wholeRate 2) 137),
    (1, .merge 2000 (wholeRate 2) 1001)]

theorem no_value_created_inTurns :
    userTotal 1 (fun w op => (w.mergeFlow op).2) freshVault stripAndMergeInTurns
      ≤ userTotal 1 (fun w op => (w.stripFlow op).1) freshVault stripAndMergeInTurns :=
  (no_value_created freshVault (fromNaturalU64 2) (by decide)).2.2 1 stripAndMergeInTurns
    (by decide +kernel) (by decide +kernel)

/-! ## What a merge leaves -/

namespace VaultWorld

/-- The backing of the PT once the SY state is recorded; a merge is priced with it. -/
def backingAfter (w : VaultWorld) (now : UInt32) (syState : SyState) : Nat :=
  match w.vault.updateFromSyState syState now with
  | .ok v => v.syForPt.toNat
  | .error _ => 0

/-- What the rest of the PT had of that backing before the merge, rounded down. -/
def remainingShare (w : VaultWorld) (now : UInt32) (syState : SyState) (amountPy : UInt64) : Nat :=
  w.backingAfter now syState * (w.vault.ptSupply.toNat - amountPy.toNat) / w.vault.ptSupply.toNat

/-- What the rest of the PT has of a backing before an amount of PT is redeemed, rounded down. -/
def shareLeftAt (w : VaultWorld) (now : UInt32) (syState : SyState) (amountPy : UInt64) : Nat :=
  w.vault.backingAt syState now * (w.vault.ptSupply.toNat - amountPy.toNat)
    / w.vault.ptSupply.toNat

/-- **The condition**: the interest that the rates give the vault's own YT fits in the active SY,
beside the payout and beside what the rest of the PT has, or the rest of the PT has nothing. -/
def SparesRemaining (w : VaultWorld) (now : UInt32) (syState : SyState) (amountPy : UInt64) :
    Prop :=
  w.interestAt now syState w.yieldPosition + w.vault.payoutAt syState now amountPy
      + w.shareLeftAt now syState amountPy ≤ w.vault.activeSyAt syState now ∨
    w.shareLeftAt now syState amountPy = 0

instance (w : VaultWorld) (now : UInt32) (syState : SyState) (amountPy : UInt64) :
    Decidable (w.SparesRemaining now syState amountPy) :=
  inferInstanceAs (Decidable (_ ∨ _))

end VaultWorld

/-- The value of the remaining PT covers its share of the backing. -/
theorem share_le_ptValue {s a t d r : Nat} (hs : s ≤ t * d / r) :
    s * (t - a) / t ≤ (t - a) * d / r := by
  rcases Nat.eq_zero_or_pos r with rfl | hr
  · rw [Nat.div_zero, Nat.le_zero] at hs
    simp [hs]
  rcases Nat.eq_zero_or_pos t with rfl | ht
  · simp
  rw [Nat.le_div_iff_mul_le hr]
  refine Nat.le_of_mul_le_mul_right ?_ ht
  calc s * (t - a) / t * r * t = s * (t - a) / t * t * r := Nat.mul_right_comm _ _ _
    _ ≤ s * (t - a) * r := Nat.mul_le_mul_right _ (Nat.div_mul_le_self _ _)
    _ = s * r * (t - a) := Nat.mul_right_comm _ _ _
    _ ≤ t * d * (t - a) :=
        Nat.mul_le_mul_right _ ((Nat.mul_le_mul_right _ hs).trans (Nat.div_mul_le_self _ _))
    _ = (t - a) * d * t := by rw [Nat.mul_right_comm, Nat.mul_comm t, Nat.mul_right_comm]

/-- A merge pays its price out of the escrow; the new backing is bounded by the value of the
remaining PT, and by what the payout and the staging leave active. -/
theorem backing_of_merge (h : w.step (.merge now syState a) = .ok w') :
    w'.vault.syForPt.toNat
      = min ((w.vault.ptSupply.toNat - a.toNat) * denom / syState.exchangeRate.raw)
          (w.vault.activeSyAt syState now - w.vault.payoutAt syState now a
            - w.interestAt now syState w.yieldPosition) := by
  obtain ⟨v₁, v₂, p₁, v', p', x, hr, -, hb, rfl⟩ := VaultWorld.step_merge h
  have hc := VaultWorld.uncollectedSy_of_refreshed hr
  have hpay := VaultWorld.payout_of_burned hr hb
  have hv₂ := hr.earned.interest.2
  have hpt := hr.ptSupply
  have hlast := hr.lastSeen
  have hbacked := hb.backed
  obtain ⟨e, t, s, he, ht, rfl⟩ := hb.vault
  have hesc : v₂.totalSyInEscrow = v₁.totalSyInEscrow := by rw [hv₂]
  have htr : v₂.treasurySy = v₁.treasurySy := by rw [hv₂]
  rw [← hr.updated.activeSy_eq, ← hpay]
  rw [Vault.Backed] at hbacked
  simp only [Vault.ptValue, Vault.activeSy_toNat, hlast, htr, hc] at hbacked
  simp only [hbacked]
  rw [Vault.activeSy_toNat, hr.updated.uncollected]
  rw [hpt] at ht
  rw [hesc] at he
  have hrest : t.toNat = w.vault.ptSupply.toNat - a.toNat := by omega
  have hactive : e.toNat - v₁.treasurySy.toNat
        - (w.vault.uncollectedSy.toNat + w.interestAt now syState w.yieldPosition)
      = v₁.totalSyInEscrow.toNat - v₁.treasurySy.toNat - w.vault.uncollectedSy.toNat - x.toNat
        - w.interestAt now syState w.yieldPosition := by
    omega
  rw [hrest, hactive]

/-- A merge at a tripled rate, before anything was staged. -/
def mergeAfterRise : VaultWorld :=
  Machine.run VaultWorld.instruct freshVault [.strip 1 (wholeRate 1) 3000000000000000]

end ExponentCore
