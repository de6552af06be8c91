import ExponentCore.Lib.Accumulator
import ExponentCore.Vault.Proof.Emissions
import ExponentCore.Vault.Proof.Indexes

/-!
# Emissions are paid out of what the SY in escrow accrues

A position is paid on its SY balance: its staged interest, and its YT at the final rate. What it
holds in this sense since its last staging is `syBase`, its YT at its own index. The bases are the
weights of a lazily settled account (`Accumulator.View`) whose checkpoints are the trackers: until
maturity the bases together are within the escrow (`Held`), so each growth of the index is covered
by the accrual of the escrow (`Funded`).

Two things break this: a staging whose final rate is below the position's index, which
`withdraw_yt` makes possible in emergency mode, and one whose reciprocals are rounded up into a unit
of interest that was not earned. `Staging.Fair` excludes both, and then every run is covered
(`emissionCredited_le_accrual`).
-/

set_option autoImplicit false

namespace ExponentCore

open Number

/-! ## Fair stagings -/

namespace Staging

variable (s : Staging)

/-- The interest, computed from the rounded reciprocals, is not above the exact one. -/
def InterestExact : Prop :=
  let y := s.position.ytBalance.toNat
  let l := s.position.interest.lastSeenIndex
  let f := s.vault.finalSyExchangeRate
  (reciprocal l - reciprocal f) * y / denom ≤ y * denom * (f.raw - l.raw) / (l.raw * f.raw)

/-- When an emission has grown past the tracker of a position with YT, the final rate is not below
the index of the position. -/
def RateHeld (slot : Nat) : Prop :=
  s.position.ytBalance = 0 ∨
    s.position.interest.lastSeenIndex ≤ s.vault.finalSyExchangeRate ∨
    ∀ e ∈ s.vault.emissions[slot]?, e.finalIndex.raw ≤ s.position.trackerIndex slot

/-- **A staging that pays no more than was held.** Interest is only staged outside emergency
mode. -/
structure Fair (slot : Nat) : Prop where
  interest : s.vault.isInEmergencyMode = false → s.InterestExact
  rate : s.RateHeld slot

instance : Decidable s.InterestExact := inferInstanceAs (Decidable (_ ≤ _))

instance (slot : Nat) : Decidable (s.RateHeld slot) := inferInstanceAs (Decidable (_ ∨ _ ∨ _))

instance (slot : Nat) : Decidable (s.Fair slot) :=
  decidable_of_iff ((s.vault.isInEmergencyMode = false → s.InterestExact) ∧ s.RateHeld slot)
    ⟨fun h => ⟨h.1, h.2⟩, fun h => ⟨h.1, h.2⟩⟩

end Staging

namespace YieldTokenPosition

variable (p : YieldTokenPosition)

/-- The SY that a position holds: its staged interest, and its YT at its own index. -/
def syBase : ℚ :=
  p.interest.staged.toNat + p.ytBalance.toNat * denom / p.interest.lastSeenIndex.raw

/-- Positions as accounts that settle lazily against the final index of a slot. -/
def emissionView (slot : Nat) : Accumulator.View YieldTokenPosition ℚ where
  settled p := p.stagedEmission slot * denom
  weight := syBase
  checkpoint p := p.trackerIndex slot

theorem syBase_nonneg : 0 ≤ p.syBase := by
  unfold syBase
  positivity

end YieldTokenPosition

section
variable {A : VaultRun → VaultOp → Prop} {P : Staging → Prop} {w w' : VaultWorld}
  {g g' : VaultLedger} {r r' : VaultRun} {v v' v₁ v₂ : Vault} {p p' p₁ u u' : YieldTokenPosition}
  {now : UInt32} {syState : SyState} {k : Holder} {i slot : Nat} {e e' : EmissionInfo}

/-! ## What a staging pays on -/

/-- The interest of a staging is at most what the reciprocals give. -/
theorem YieldTokenPosition.interestDue_le_reciprocals {c : UInt64} (h : p.interestDue v = .ok c)
    (hpos : p.ytBalance ≠ 0 → 0 < p.interest.lastSeenIndex) :
    c.toNat ≤ (reciprocal p.interest.lastSeenIndex - reciprocal v.finalSyExchangeRate)
      * p.ytBalance.toNat / denom := by
  by_cases hy : p.ytBalance = 0
  · rw [interestDue_zero_balance hy h]
    exact Nat.zero_le _
  rcases le_or_gt v.finalSyExchangeRate p.interest.lastSeenIndex with hle | hlt
  · rw [interestDue_of_le hle h]
    exact Nat.zero_le _
  · simp only [interestDue, bind_eq_ok] at h
    obtain ⟨m, hm, hs⟩ := h
    rw [← calcEarnedSy_toNat hlt hy (hpos hy) hm]
    exact scaleSyToCurrentRate_le hs

/-- Exact interest is at most the difference of the YT at the two rates. -/
theorem credit_le_exact {c : UInt64} (hc : p.credit v = .ok c)
    (hcalm : v.isInEmergencyMode = false) (hexact : Staging.InterestExact ⟨k, v, p⟩)
    (hpos : p.ytBalance ≠ 0 → 0 < p.interest.lastSeenIndex) (hf : 0 < v.finalSyExchangeRate)
    (hle : p.ytBalance ≠ 0 → p.interest.lastSeenIndex ≤ v.finalSyExchangeRate) :
    (c.toNat : ℚ) + p.ytBalance.toNat * denom / v.finalSyExchangeRate.raw
      ≤ p.ytBalance.toNat * denom / p.interest.lastSeenIndex.raw := by
  unfold YieldTokenPosition.credit at hc
  rw [if_neg (by simp [hcalm])] at hc
  by_cases hy : p.ytBalance = 0
  · rw [YieldTokenPosition.interestDue_zero_balance hy hc, hy]
    simp
  have hl : (0 : ℚ) < p.interest.lastSeenIndex.raw := by exact_mod_cast hpos hy
  have hfr : (0 : ℚ) < v.finalSyExchangeRate.raw := by exact_mod_cast hf
  have hlf : p.interest.lastSeenIndex.raw ≤ v.finalSyExchangeRate.raw := hle hy
  have hnat := (YieldTokenPosition.interestDue_le_reciprocals hc hpos).trans hexact
  have hcast : (c.toNat : ℚ) ≤ p.ytBalance.toNat * denom
      * (v.finalSyExchangeRate.raw - p.interest.lastSeenIndex.raw)
      / (p.interest.lastSeenIndex.raw * v.finalSyExchangeRate.raw) := by
    have h₁ : (c.toNat : ℚ) ≤ ((p.ytBalance.toNat * denom
        * (v.finalSyExchangeRate.raw - p.interest.lastSeenIndex.raw) : Nat) : ℚ)
        / ((p.interest.lastSeenIndex.raw * v.finalSyExchangeRate.raw : Nat) : ℚ) :=
      (Nat.cast_le.2 hnat).trans Nat.cast_div_le
    rw [Nat.cast_mul, Nat.cast_mul, Nat.cast_sub hlf, Nat.cast_mul] at h₁
    exact h₁
  calc (c.toNat : ℚ) + p.ytBalance.toNat * denom / v.finalSyExchangeRate.raw
      ≤ p.ytBalance.toNat * denom
          * (v.finalSyExchangeRate.raw - p.interest.lastSeenIndex.raw)
          / (p.interest.lastSeenIndex.raw * v.finalSyExchangeRate.raw)
        + p.ytBalance.toNat * denom / v.finalSyExchangeRate.raw := add_le_add_left hcast _
    _ = p.ytBalance.toNat * denom / p.interest.lastSeenIndex.raw := by
        field_simp
        ring

/-- A fair staging does not raise what the position holds, when the final rate is not below its
index. -/
theorem Earned.syBase_le (h : Earned v p v' p')
    (hexact : v.isInEmergencyMode = false → Staging.InterestExact ⟨k, v, p⟩)
    (hpos : p.ytBalance ≠ 0 → 0 < p.interest.lastSeenIndex)
    (hle : v.isInEmergencyMode = false → p.ytBalance ≠ 0 →
      p.interest.lastSeenIndex ≤ v.finalSyExchangeRate) : p'.syBase ≤ p.syBase := by
  obtain ⟨c, t, hc, hs, -, -⟩ := h.credit
  have hf : 0 < v.finalSyExchangeRate :=
    Nat.pos_of_ne_zero fun h0 => h.final_ne_zero (eq_zero_iff.2 h0)
  unfold YieldTokenPosition.syBase
  rw [h.ytBalance, hs, Nat.cast_add]
  rcases h.index with ⟨he, hi⟩ | ⟨hcalm, hi⟩
  · have hc0 : c = 0 := by
      simpa [YieldTokenPosition.credit, he, eq_comm] using hc
    rw [hi, hc0]
    simp
  · have hcredit := credit_le_exact hc hcalm (hexact hcalm) hpos hf (hle hcalm)
    rw [hi]
    linarith only [hcredit]

/-- A fair staging is paid on no more than the position held, when the final rate is not below its
index. -/
theorem Earned.balance_le {b : UInt64} (h : Earned v p v' p')
    (hexact : v.isInEmergencyMode = false → Staging.InterestExact ⟨k, v, p⟩)
    (hpos : p.ytBalance ≠ 0 → 0 < p.interest.lastSeenIndex)
    (hle : p.ytBalance ≠ 0 → p.interest.lastSeenIndex ≤ v.finalSyExchangeRate)
    (hb : b.toNat = p'.interest.staged.toNat
      + p.ytBalance.toNat * denom / v.finalSyExchangeRate.raw) :
    (b.toNat : ℚ) ≤ p.syBase := by
  have hfloor : ((p.ytBalance.toNat * denom / v.finalSyExchangeRate.raw : Nat) : ℚ)
      ≤ p.ytBalance.toNat * denom / v.finalSyExchangeRate.raw := by
    have := Nat.cast_div_le (α := ℚ) (m := p.ytBalance.toNat * denom)
      (n := v.finalSyExchangeRate.raw)
    exact_mod_cast this
  rw [hb, Nat.cast_add]
  rcases h.index with ⟨he, hi⟩ | ⟨hcalm, hi⟩
  · obtain ⟨c, t, hc, hs, -, -⟩ := h.credit
    have hc0 : c = 0 := by
      simpa [YieldTokenPosition.credit, he, eq_comm] using hc
    have hs' : p'.interest.staged.toNat = p.interest.staged.toNat := by
      rw [hs, hc0, UInt64.toNat_zero, Nat.add_zero]
    have hrate : (p.ytBalance.toNat : ℚ) * denom / v.finalSyExchangeRate.raw
        ≤ p.ytBalance.toNat * denom / p.interest.lastSeenIndex.raw := by
      by_cases hy : p.ytBalance = 0
      · simp [hy]
      · have hl : (0 : ℚ) < p.interest.lastSeenIndex.raw := by exact_mod_cast hpos hy
        have hlf : (p.interest.lastSeenIndex.raw : ℚ) ≤ v.finalSyExchangeRate.raw := by
          exact_mod_cast hle hy
        gcongr
    rw [hs', YieldTokenPosition.syBase]
    linarith only [hfloor, hrate]
  · have hbase := h.syBase_le hexact hpos fun _ => hle
    refine le_trans ?_ hbase
    rw [YieldTokenPosition.syBase, h.ytBalance, hi]
    linarith only [hfloor]

/-- A fair staging pays no more than what is owed on an emission. -/
theorem Earned.owed_le (h : Earned v p v' p') (hfair : Staging.Fair ⟨k, v, p⟩ slot)
    (hpos : p.ytBalance ≠ 0 → 0 < p.interest.lastSeenIndex)
    (he : v.emissions[slot]? = some e)
    (hbehind : p.syBase ≠ 0 → p.trackerIndex slot ≤ e.finalIndex.raw) :
    (YieldTokenPosition.emissionView slot).owed e.finalIndex.raw p'
      ≤ (YieldTokenPosition.emissionView slot).owed e.finalIndex.raw p := by
  obtain ⟨b, hb, hindex, hpaid⟩ := h.tracker he
  refine Accumulator.View.owed_settle_le (congrArg Nat.cast hindex) ?_
  have hfloor : (((e.finalIndex.raw - p.trackerIndex slot) * b.toNat / denom : Nat) : ℚ) * denom
      ≤ ((e.finalIndex.raw - p.trackerIndex slot : Nat) : ℚ) * b.toNat := by
    exact_mod_cast Nat.div_mul_le_self _ _
  have hgrowth : ((e.finalIndex.raw - p.trackerIndex slot : Nat) : ℚ) * b.toNat
      ≤ p.syBase * (e.finalIndex.raw - p.trackerIndex slot) := by
    rcases le_or_gt e.finalIndex.raw (p.trackerIndex slot) with hle | hlt
    · rw [Nat.sub_eq_zero_of_le hle, Nat.cast_zero, zero_mul]
      by_cases hbase : p.syBase = 0
      · simp [hbase]
      · rw [le_antisymm hle (hbehind hbase), sub_self, mul_zero]
    · have hrate : p.ytBalance ≠ 0 → p.interest.lastSeenIndex ≤ v.finalSyExchangeRate := by
        intro hy
        rcases hfair.rate with h0 | hle | hgrown
        · exact absurd h0 hy
        · exact hle
        · exact absurd (hgrown e he) (not_le.2 hlt)
      have hbal := h.balance_le hfair.interest hpos hrate hb
      rw [Nat.cast_sub hlt.le, mul_comm]
      exact mul_le_mul_of_nonneg_right hbal (sub_nonneg.2 (Nat.cast_le.2 hlt.le))
  show ((p'.stagedEmission slot : Nat) : ℚ) * denom ≤ (p.stagedEmission slot : ℚ) * denom
    + p.syBase * (e.finalIndex.raw - p.trackerIndex slot)
  rw [hpaid, Nat.cast_add, add_mul]
  linarith only [hfloor, hgrowth]

/-! ## The escrow holds the bases -/

/-- What all positions hold. -/
def VaultWorld.heldSy (w : VaultWorld) : ℚ := (w.positions.map YieldTokenPosition.syBase).sum

/-- By how much the positions and the treasury hold more than the escrow. -/
def VaultWorld.overdraft (w : VaultWorld) : ℚ :=
  w.heldSy + w.vault.treasurySy.toNat - w.vault.totalSyInEscrow.toNat

/-- **Until maturity the escrow holds what the positions hold.** -/
structure Held (r : VaultRun) : Prop where
  ordered : Ordered r
  priced : r.1.vault.syForPt.toNat
    ≤ Vault.ptValue r.1.vault.ptSupply r.1.vault.lastSeenSyExchangeRate
  held : r.Unexpired → r.1.overdraft ≤ 0

theorem heldSy_setPosition {q : YieldTokenPosition} (hp : w.position? k = some p) :
    (w.setPosition k q).heldSy + p.syBase = w.heldSy + q.syBase :=
  w.sum_setPosition YieldTokenPosition.syBase hp

theorem heldSy_setPositions {q y : YieldTokenPosition} (hu : w.position? (.user i) = some u) :
    ((w.setPosition .vault q).setPosition (.user i) y).heldSy
        + (w.yieldPosition.syBase + u.syBase)
      = w.heldSy + (q.syBase + y.syBase) :=
  w.sum_setPositions YieldTokenPosition.syBase hu

theorem syBase_new {owner key : Pubkey} :
    YieldTokenPosition.syBase { owner, vault := key } = 0 := by
  simp [YieldTokenPosition.syBase]

theorem heldSy_openPosition {owner key : Pubkey} :
    VaultWorld.heldSy { w with userPositions := w.userPositions ++ [{ owner, vault := key }] }
      = w.heldSy := by
  unfold VaultWorld.heldSy VaultWorld.positions
  rw [List.map_cons, List.map_append, List.sum_cons, List.sum_append, List.map_singleton,
    List.sum_singleton, syBase_new, add_zero, List.map_cons, List.sum_cons]

/-- Minting, burning and moving YT changes what a position holds by the value of the YT at its
index. -/
theorem syBase_withBalance {b d : UInt64} (h : b.toNat = p.ytBalance.toNat + d.toNat) :
    YieldTokenPosition.syBase { p with ytBalance := b }
      = p.syBase + d.toNat * denom / p.interest.lastSeenIndex.raw := by
  simp only [YieldTokenPosition.syBase, h, Nat.cast_add]
  ring

theorem syBase_withoutBalance {b d : UInt64} (h : b.toNat + d.toNat = p.ytBalance.toNat) :
    YieldTokenPosition.syBase { p with ytBalance := b }
        + d.toNat * denom / p.interest.lastSeenIndex.raw = p.syBase := by
  simp only [YieldTokenPosition.syBase, ← h, Nat.cast_add]
  ring

/-- A change that keeps the rates keeps the escrow in credit, if it draws nothing. -/
theorem Held.of_le (h : Held (w, g)) (hord : Ordered (w', g'))
    (hv : SameRates w.vault w'.vault) (hclock : w'.clock = w.clock)
    (hprice : w'.vault.syForPt.toNat
      ≤ Vault.ptValue w'.vault.ptSupply w.vault.lastSeenSyExchangeRate)
    (hle : VaultRun.Unexpired (w, g) → w'.overdraft ≤ w.overdraft) : Held (w', g') where
  ordered := hord
  priced := by
    simp only [hv.lastSeen]
    exact hprice
  held hun := by
    have hun' : VaultRun.Unexpired (w, g) := by
      simpa only [VaultRun.Unexpired, hclock, hv.maturity] using hun
    exact (hle hun').trans (h.held hun')

theorem Held.refresh (h : Held (w, g)) (hnow : w.clock ≤ now)
    (hr : Refreshed w.vault w.yieldPosition now syState v₁ v₂ p₁)
    (hfair : Staging.Fair ⟨.vault, v₁, w.yieldPosition⟩ slot) :
    Held ({ w with vault := v₂, yieldPosition := p₁, clock := now },
      g.sawSyState now w.vault v₂) := by
  have hord := h.ordered.refresh hnow hr
  have hu := hr.updated
  obtain ⟨c, t, -, -, -, hv₂⟩ := hr.earned.credit
  refine ⟨hord, ?_, fun hun => ?_⟩
  · rw [hr.ptSupply, hr.lastSeen, hv₂]
    exact hu.backing.trans_le (min_le_left _ _)
  · have hun₁ : now.toNat ≤ w.vault.maturity := by
      simpa only [VaultRun.Unexpired, hr.maturity] using hun
    have hclock : w.clock.toNat ≤ now.toNat := UInt32.le_iff_toNat_le.1 hnow
    have hplaced := h.ordered.placed w.yieldPosition List.mem_cons_self
    have hbase : p₁.syBase ≤ w.yieldPosition.syBase := by
      refine hr.earned.syBase_le hfair.interest hplaced.index_pos fun hcalm _ => ?_
      rw [← hr.earned.sameView.isInEmergencyMode] at hcalm
      rw [← hr.earned.sameView.final]
      exact h.ordered.own_le_final hnow hr hun₁ hcalm
    have hsum := heldSy_setPosition (w := w) (k := .vault) (q := p₁) rfl
    have hheld := h.held (hclock.trans hun₁)
    simp only [VaultWorld.overdraft] at hheld ⊢
    show (w.setPosition .vault p₁).heldSy + (v₂.treasurySy.toNat : ℚ) - v₂.totalSyInEscrow.toNat ≤ 0
    rw [hv₂, hu.escrow, hu.treasury_of_not_expired hun₁]
    linarith only [hsum, hbase, hheld]

/-- Interest is paid out of what the position holds. -/
theorem InterestPaid.syBase_add {a : UInt64} (h : InterestPaid v p a v' p') :
    p'.syBase + a.toNat = p.syBase := by
  obtain ⟨s, hs, hp'⟩ := h.position
  have hs' : (s.toNat : ℚ) + a.toNat = p.interest.staged.toNat := by exact_mod_cast hs
  simp only [hp', YieldTokenPosition.syBase]
  linarith only [hs']

section
variable {x py a : UInt64}

/-- A strip mints no more YT than the SY brought in is worth. -/
theorem overdraft_mint_le (hord : Ordered (w, g)) (hun : VaultRun.Unexpired (w, g))
    (hcalm : w.vault.isInEmergencyMode = false) (hj : JustEarned w.vault w.yieldPosition)
    (hm : Minted w.vault w.yieldPosition x py v' p') :
    VaultWorld.overdraft { w.setPosition .vault p' with vault := v' } ≤ w.overdraft := by
  have hsum := heldSy_setPosition (w := w) (k := .vault) (q := p') rfl
  obtain ⟨e, t, s, he, -, hv⟩ := hm.vault
  obtain ⟨b, hb, hp'⟩ := hm.position
  have hbase := syBase_withBalance hb
  have hlast : w.vault.finalSyExchangeRate = w.vault.lastSeenSyExchangeRate := hord.final_last hun
  have hraw : (0 : ℚ) < w.vault.lastSeenSyExchangeRate.raw := by
    exact_mod_cast hord.last_pos hun hj
  have hin : (py.toNat : ℚ) * denom / w.vault.lastSeenSyExchangeRate.raw ≤ x.toNat := by
    rw [div_le_iff₀ hraw]
    exact_mod_cast hm.price_le
  rw [← hp', hj.index hcalm, hlast] at hbase
  simp only [VaultWorld.overdraft]
  show (w.setPosition .vault p').heldSy + (v'.treasurySy.toNat : ℚ) - v'.totalSyInEscrow.toNat
    ≤ _
  rw [hv]
  simp only [he, Nat.cast_add]
  linarith only [hsum, hbase, hin]

/-- A merge before maturity pays no more SY than the YT that it burns held. -/
theorem overdraft_burn_le (h : Held (w, g)) (hun : VaultRun.Unexpired (w, g))
    (hcalm : w.vault.isInEmergencyMode = false) (hj : JustEarned w.vault w.yieldPosition)
    (hb : Burned w.vault w.yieldPosition w.clock a x v' p') :
    VaultWorld.overdraft { w.setPosition .vault p' with vault := v' } ≤ w.overdraft := by
  have hsum := heldSy_setPosition (w := w) (k := .vault) (q := p') rfl
  have hprice := hb.price_le h.priced
  have hactive := h.ordered.active_of_burned hun hj hb
  obtain ⟨e, t, s, he, -, hv⟩ := hb.vault
  rcases hb.position with ⟨-, b, hb', hp'⟩ | ⟨hover, -⟩
  · have hbase := syBase_withoutBalance hb'
    have hlast : w.vault.finalSyExchangeRate = w.vault.lastSeenSyExchangeRate :=
      h.ordered.final_last hun
    have hraw : (0 : ℚ) < w.vault.lastSeenSyExchangeRate.raw := by
      exact_mod_cast h.ordered.last_pos hun hj
    have hout : (x.toNat : ℚ) ≤ a.toNat * denom / w.vault.lastSeenSyExchangeRate.raw := by
      rw [le_div_iff₀ hraw]
      exact_mod_cast hprice
    have he' : (e.toNat : ℚ) + x.toNat = w.vault.totalSyInEscrow.toNat := by exact_mod_cast he
    rw [← hp', hj.index hcalm, hlast] at hbase
    simp only [VaultWorld.overdraft]
    show (w.setPosition .vault p').heldSy + (v'.treasurySy.toNat : ℚ) - v'.totalSyInEscrow.toNat
      ≤ _
    rw [hv]
    simp only
    linarith only [hsum, hbase, hout, he']
  · rw [hactive] at hover
    cases hover

/-- YT moves between positions that have just earned, and so have the same index. -/
theorem overdraft_deposit_le (hu : w.position? (.user i) = some u)
    (hcalm : w.vault.isInEmergencyMode = false) (hj : JustEarned w.vault w.yieldPosition)
    (hju : JustEarned w.vault u) (hm : Moved w.vault w.yieldPosition u a v' p' u') :
    VaultWorld.overdraft { (w.setPosition .vault p').setPosition (.user i) u' with vault := v' }
      ≤ w.overdraft := by
  have hsum := heldSy_setPositions (q := p') (y := u') hu
  obtain ⟨s, hv⟩ := hm.vault
  obtain ⟨b, hb, hp'⟩ := hm.source
  obtain ⟨c, hc, hu'⟩ := hm.destination
  have hsrc := syBase_withoutBalance hb
  have hdst := syBase_withBalance hc
  rw [← hp', hj.index hcalm] at hsrc
  rw [← hu', hju.index hcalm] at hdst
  simp only [VaultWorld.overdraft]
  show ((w.setPosition .vault p').setPosition (.user i) u').heldSy
    + (v'.treasurySy.toNat : ℚ) - v'.totalSyInEscrow.toNat ≤ _
  rw [hv]
  linarith only [hsum, hsrc, hdst]

/-- In emergency mode the YT moves to an index that is not lower. -/
theorem overdraft_withdraw_le (hord : Ordered (w, g)) (hun : VaultRun.Unexpired (w, g))
    (hu : w.position? (.user i) = some u) (hm : Moved w.vault u w.yieldPosition a v' u' p') :
    VaultWorld.overdraft { (w.setPosition .vault p').setPosition (.user i) u' with vault := v' }
      ≤ w.overdraft := by
  have hsum := heldSy_setPositions (q := p') (y := u') hu
  obtain ⟨s, hv⟩ := hm.vault
  obtain ⟨b, hb, hu'⟩ := hm.source
  obtain ⟨c, hc, hp'⟩ := hm.destination
  have hsrc := syBase_withoutBalance hb
  have hdst := syBase_withBalance hc
  rw [← hu'] at hsrc
  rw [← hp'] at hdst
  have hplaced := hord.placed u (VaultWorld.position?_mem hu)
  have hmove : (a.toNat : ℚ) * denom / w.yieldPosition.interest.lastSeenIndex.raw
      ≤ a.toNat * denom / u.interest.lastSeenIndex.raw := by
    by_cases hy0 : u.ytBalance = 0
    · have ha : a.toNat = 0 := by
        rw [← UInt64.toNat_inj, UInt64.toNat_zero] at hy0
        omega
      simp [ha]
    · have hl : (0 : ℚ) < u.interest.lastSeenIndex.raw := by
        exact_mod_cast hplaced.index_pos hy0
      have hle : (u.interest.lastSeenIndex.raw : ℚ)
          ≤ w.yieldPosition.interest.lastSeenIndex.raw := by
        exact_mod_cast hplaced.index_le_own hun
      gcongr
  simp only [VaultWorld.overdraft]
  show ((w.setPosition .vault p').setPosition (.user i) u').heldSy
    + (v'.treasurySy.toNat : ℚ) - v'.totalSyInEscrow.toNat ≤ _
  rw [hv]
  linarith only [hsum, hsrc, hdst, hmove]

/-- Interest leaves a position and the escrow. -/
theorem overdraft_payInterest (hp : w.position? k = some p)
    (hpay : InterestPaid w.vault p a v' p') :
    VaultWorld.overdraft { w.setPosition k p' with vault := v' } = w.overdraft := by
  have hsum := heldSy_setPosition (q := p') hp
  have hbase := hpay.syBase_add
  obtain ⟨e, c, he, -, rfl⟩ := hpay.vault
  have he' : (e.toNat : ℚ) + a.toNat = w.vault.totalSyInEscrow.toNat := by exact_mod_cast he
  simp only [VaultWorld.overdraft]
  show (w.setPosition k p').heldSy + (w.vault.treasurySy.toNat : ℚ) - e.toNat = _
  linarith only [hsum, hbase, he']

/-- Treasury SY leaves the treasury and the escrow. -/
theorem overdraft_payTreasury (hpay : TreasuryPaid w.vault a v') :
    VaultWorld.overdraft { w with vault := v' } = w.overdraft := by
  obtain ⟨e, t, he, ht, rfl⟩ := hpay
  have he' : (e.toNat : ℚ) + a.toNat = w.vault.totalSyInEscrow.toNat := by exact_mod_cast he
  have ht' : (t.toNat : ℚ) + a.toNat = w.vault.treasurySy.toNat := by exact_mod_cast ht
  simp only [VaultWorld.overdraft]
  show w.heldSy + (t.toNat : ℚ) - e.toNat = _
  linarith only [he', ht']

end

theorem Held.event (hA : ∀ r op, A r op → op.Sane r.1) (hP : ∀ s, P s → s.Fair slot)
    (h : Held r) (he : VaultEvent A P r r') : Held r' := by
  have hord := h.ordered.event hA he
  cases he with
  | refresh hread hop hr hfair => exact h.refresh (hA _ _ hop _ hread).1 hr (hP _ hfair)
  | @earn w g i u u' v' hu hfair hearn =>
    have he := earned_of_ok hearn
    have hplaced := h.ordered.placed u (VaultWorld.position?_mem hu)
    have hsum := heldSy_setPosition (q := u') hu
    obtain ⟨c, t, -, -, -, rfl⟩ := he.credit
    refine h.of_le hord ⟨rfl, rfl, rfl, rfl, rfl⟩ rfl h.priced fun hun => ?_
    have hbase : u'.syBase ≤ u.syBase :=
      he.syBase_le (hP _ hfair).interest hplaced.index_pos fun hcalm _ =>
        (hplaced.index_le_own hun).trans_eq (h.ordered.own_index hcalm)
    simp only [VaultWorld.overdraft]
    show (w.setPosition (.user i) u').heldSy + _ - _ ≤ _
    linarith only [hsum, hbase]
  | mint hactive hcalm hj hm =>
    have hback := hm.backed.le_ptValue
    rw [hm.sameRates.lastSeen] at hback
    exact h.of_le hord hm.sameRates rfl hback fun hun =>
      overdraft_mint_le h.ordered hun hcalm hj hm
  | burn hcalm hj hb =>
    have hback := hb.backed.le_ptValue
    rw [hb.sameRates.lastSeen] at hback
    exact h.of_le hord hb.sameRates rfl hback fun hun => overdraft_burn_le h hun hcalm hj hb
  | deposit hu hactive hcalm hj hju hm =>
    have hback := hm.backed.le_ptValue
    rw [hm.sameRates.lastSeen] at hback
    exact h.of_le hord hm.sameRates (by simp) hback fun _ =>
      overdraft_deposit_le hu hcalm hj hju hm
  | withdraw hu hactive hj hju hm =>
    have hback := hm.backed.le_ptValue
    rw [hm.sameRates.lastSeen] at hback
    exact h.of_le hord hm.sameRates (by simp) hback fun hun =>
      overdraft_withdraw_le h.ordered hun hu hm
  | rebalance hb =>
    exact h.of_le hord ⟨rfl, rfl, rfl, rfl, rfl⟩ rfl hb.le_ptValue fun _ => le_rfl
  | payInterest hp hpay =>
    have hle := (overdraft_payInterest hp hpay).le
    obtain ⟨e, c, -, -, rfl⟩ := hpay.vault
    exact h.of_le hord ⟨rfl, rfl, rfl, rfl, rfl⟩ (by simp) h.priced fun _ => hle
  | payTreasury hpay =>
    have hle := (overdraft_payTreasury hpay).le
    obtain ⟨e, t, -, -, rfl⟩ := hpay
    exact h.of_le hord ⟨rfl, rfl, rfl, rfl, rfl⟩ rfl h.priced fun _ => hle
  | @payEmission w g k p index a p' hp hpay =>
    have hsame := collectEmissionAt_same hpay
    have hsum := heldSy_setPosition (q := p') hp
    refine h.of_le hord (by simpa using ⟨rfl, rfl, rfl, rfl, rfl⟩) (by simp)
      (by simpa using h.priced) fun _ => ?_
    simp only [VaultWorld.overdraft, VaultWorld.setPosition_vault]
    simp only [YieldTokenPosition.syBase, hsame.1, hsame.2, add_left_inj] at hsum
    rw [hsum]
  | openPosition =>
    refine h.of_le hord ⟨rfl, rfl, rfl, rfl, rfl⟩ rfl h.priced fun _ => ?_
    rw [VaultWorld.overdraft, heldSy_openPosition]
    exact le_rfl
  | payTreasuryEmission _ _ | addEmission _ _ | removeEmission _ =>
    exact h.of_le hord ⟨rfl, rfl, rfl, rfl, rfl⟩ rfl h.priced fun _ => le_rfl

theorem held_initializeVault (args : InitializeVaultArgs) :
    Held (VaultWorld.initializeVault args, {}) where
  ordered := ordered_initializeVault args
  priced := Nat.zero_le _
  held _ := by
    simp [VaultWorld.overdraft, VaultWorld.heldSy, VaultWorld.positions,
      VaultWorld.initializeVault, YieldTokenPosition.syBase]

end

end ExponentCore
