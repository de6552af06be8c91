import ExponentCore.Vault.Proof.Interest
import ExponentCore.Vault.Proof.Uncollected

/-!
# The PT is worth its face value before maturity

At the reciprocals of their indexes, what the positions have staged and what their YT can still
earn is in the escrow beside the treasury's share, but for what rounding has cost (`FaceBacked`). A
strip books at most the SY that it brings in and half a unit for every PY; a merge takes out at most
what it unbooks and one unit for every PY; a staging only moves value within the books. When the
last seen rate is the all-time high, no index is above it, so the YT of all PT in circulation books
the face value (`face_value_le_backing`).
-/

set_option autoImplicit false

namespace ExponentCore

open Number

namespace VaultRun

variable (r : VaultRun)

/-- The rates at which a strip or a merge succeeded. -/
def tradeRates : List Number := r.2.strips.map StripRecord.rate ++ r.2.merges.map MergeRecord.rate

def mergedPy : Nat := (r.2.merges.map MergeRecord.py).sum

/-- What rounding has cost: for each PY that was minted half a unit over the rate, for each that was
burned a unit. -/
def roundingLoss : ℚ :=
  (r.2.strips.map fun s => (s.py : ℚ) / (2 * s.rate.raw)).sum + r.mergedPy / denom

end VaultRun

/-- The part of the handlers' `validate` that keeps an operation between the start and the
maturity. -/
def VaultOp.BeforeMaturity (w : VaultWorld) (op : VaultOp) : Prop :=
  ∀ r ∈ op.syRead, w.vault.isActive r.1 = .ok true

instance (w : VaultWorld) (op : VaultOp) : Decidable (op.BeforeMaturity w) :=
  inferInstanceAs (Decidable (∀ r ∈ op.syRead, _))

theorem VaultOp.BeforeMaturity.timely {w : VaultWorld} {op : VaultOp} (h : op.BeforeMaturity w) :
    op.Timely w := by
  cases op with
  | strip | depositYt | withdrawYt => exact h _ rfl
  | _ => trivial

/-- By how much the books exceed the SY in escrow beside the treasury's share. -/
def VaultWorld.shortfall (w : VaultWorld) : ℚ :=
  (w.booked reciprocal : ℚ) / denom + w.vault.treasurySy.toNat - w.vault.totalSyInEscrow.toNat

/-- **The escrow holds what is booked**, but for rounding, as long as the vault has not expired. -/
structure FaceBacked (r : VaultRun) : Prop where
  accounted : Accounted r
  unexpired : r.Unexpired
  supply : r.1.ytTotal = r.1.vault.ptSupply.toNat
  staged : r.1.stagedInterest = r.1.vault.uncollectedSy.toNat
  priced : r.1.vault.syForPt.toNat
    ≤ Vault.ptValue r.1.vault.ptSupply r.1.vault.lastSeenSyExchangeRate
  held : r.1.shortfall ≤ r.roundingLoss

section
variable {A : VaultRun → VaultOp → Prop} {P : Staging → Prop} {w w' : VaultWorld}
  {g g' : VaultLedger} {r r' : VaultRun} {v v' v₁ v₂ : Vault} {p p' p₁ u u' : YieldTokenPosition}
  {now : UInt32} {syState : SyState} {k : Holder} {i : Nat} {rate : Number} {x py a : UInt64}

/-! ## What rounding costs -/

theorem weight_eq_reciprocal (h : r.Unexpired) : r.weight = reciprocal :=
  funext (weight_unexpired h)

/-- A strip books the SY it brings in, and half a unit over the rate for each PY. -/
theorem strip_booked_le (hr : 0 < rate) (hmint : py.toNat * denom ≤ x.toNat * rate.raw) :
    (py.toNat * reciprocal rate : ℚ) / denom ≤ x.toNat + py.toNat / (2 * rate.raw) := by
  have hraw : (0 : ℚ) < rate.raw := by exact_mod_cast hr
  have hden : (0 : ℚ) < denom := by exact_mod_cast denom_pos
  have hrecip : (reciprocal rate : ℚ) * rate.raw ≤ denom * denom + denom / 2 := by
    have h := reciprocal_mul_le (a := rate)
    have hcast : ((reciprocal rate * rate.raw : Nat) : ℚ)
        ≤ ((denom * denom + roundingCorrection : Nat) : ℚ) := by exact_mod_cast h
    have hhalf : ((roundingCorrection : Nat) : ℚ) = denom / 2 := by
      norm_num [roundingCorrection, denom]
    push_cast at hcast
    rwa [hhalf] at hcast
  have hq : (reciprocal rate : ℚ) ≤ (denom * denom + denom / 2) / rate.raw := by
    rwa [le_div_iff₀ hraw]
  calc (py.toNat * reciprocal rate : ℚ) / denom
      ≤ py.toNat * ((denom * denom + denom / 2) / rate.raw) / denom := by gcongr
    _ = py.toNat * denom / rate.raw + py.toNat / (2 * rate.raw) := by
        field_simp
    _ ≤ x.toNat + py.toNat / (2 * rate.raw) := by
        gcongr
        rw [div_le_iff₀ hraw]
        exact_mod_cast hmint

/-- A reciprocal is rounded down by less than a unit. -/
theorem div_le_reciprocal_succ (rate : Number) :
    (denom : ℚ) * denom / rate.raw ≤ reciprocal rate + 1 := by
  rcases Nat.eq_zero_or_pos rate.raw with h0 | hr
  · rw [h0, Nat.cast_zero, div_zero]
    positivity
  · have hraw : (0 : ℚ) < rate.raw := by exact_mod_cast hr
    have h := lt_reciprocal_succ_mul (a := rate) hr
    have hcast : denom * denom ≤ (reciprocal rate + 1) * rate.raw := by omega
    rw [div_le_iff₀ hraw]
    exact_mod_cast hcast

/-- A merge takes out what it unbooks, and a unit for each PY. -/
theorem merge_payout_le (hr : 0 < rate) (hx : x.toNat * rate.raw ≤ a.toNat * denom) :
    (x.toNat : ℚ) ≤ (a.toNat * reciprocal rate : ℚ) / denom + a.toNat / denom := by
  have hraw : (0 : ℚ) < rate.raw := by exact_mod_cast hr
  have hden : (0 : ℚ) < denom := by exact_mod_cast denom_pos
  have hrecip := div_le_reciprocal_succ rate
  calc (x.toNat : ℚ) ≤ a.toNat * denom / rate.raw := by
        rw [le_div_iff₀ hraw]
        exact_mod_cast hx
    _ = a.toNat * (denom * denom / rate.raw) / denom := by field_simp
    _ ≤ a.toNat * (reciprocal rate + 1) / denom := by gcongr
    _ = a.toNat * reciprocal rate / denom + a.toNat / denom := by ring

/-! ## Every event -/

theorem roundingLoss_congr {q : VaultRun} (hs : q.2.strips = r.2.strips)
    (hm : q.2.merges = r.2.merges) :
    q.roundingLoss = r.roundingLoss := by
  simp only [VaultRun.roundingLoss, VaultRun.mergedPy, hs, hm]

/-- What keeps the YT and the PT keeps the vault backed, if the books grow by no more than the SY
beside the treasury's share. -/
theorem FaceBacked.of_books (h : FaceBacked (w, g)) (hacc : Accounted (w', g'))
    (hv : SameRates w.vault w'.vault) (hclock : w'.clock = w.clock)
    (hpt : w'.vault.ptSupply = w.vault.ptSupply) (hyt : w'.ytTotal = w.ytTotal)
    (hprice : w'.vault.syForPt.toNat
      ≤ Vault.ptValue w.vault.ptSupply w.vault.lastSeenSyExchangeRate)
    (hstaged : w'.UncollectedOwed)
    (hheld : w'.shortfall ≤ w.shortfall) (hs : g'.strips = g.strips)
    (hm : g'.merges = g.merges) : FaceBacked (w', g') where
  accounted := hacc
  unexpired := by
    have hun := h.unexpired
    simp only [VaultRun.Unexpired, hclock, hv.maturity] at hun ⊢
    exact hun
  supply := by
    have hsup := h.supply
    simp only at hsup ⊢
    rw [hyt, hpt, hsup]
  staged := hstaged
  priced := by
    simp only [hpt, hv.lastSeen]
    exact hprice
  held := by
    rw [roundingLoss_congr (r := (w, g)) hs hm]
    exact hheld.trans h.held

theorem shortfall_le_of_books (hbook : w'.booked reciprocal ≤ w.booked reciprocal)
    (ht : w'.vault.treasurySy = w.vault.treasurySy)
    (he : w'.vault.totalSyInEscrow = w.vault.totalSyInEscrow) : w'.shortfall ≤ w.shortfall := by
  have hden : (0 : ℚ) < denom := by exact_mod_cast denom_pos
  have hcast : (w'.booked reciprocal : ℚ) ≤ w.booked reciprocal := by exact_mod_cast hbook
  unfold VaultWorld.shortfall
  rw [ht, he]
  gcongr

theorem FaceBacked.refresh (h : FaceBacked (w, g)) (hnow : w.clock ≤ now)
    (hactive : w.vault.isActive now = .ok true)
    (hr : Refreshed w.vault w.yieldPosition now syState v₁ v₂ p₁) :
    FaceBacked ({ w with vault := v₂, yieldPosition := p₁, clock := now },
      g.sawSyState now w.vault v₂) := by
  have hun : now.toNat ≤ w.vault.maturity := (Vault.isActive_eq_true.1 hactive).2.1
  have hun₂ : VaultRun.Unexpired ({ w with vault := v₂, yieldPosition := p₁, clock := now },
      g.sawSyState now w.vault v₂) := by
    simpa only [VaultRun.Unexpired, hr.maturity] using hun
  have hbook := booked_refresh_le h.accounted.ordered hnow hr
  rw [weight_eq_reciprocal hun₂, weight_eq_reciprocal h.unexpired] at hbook
  have hu := hr.updated
  have hytb := hr.earned.ytBalance
  obtain ⟨c, t, -, hstage, ht, hv₂⟩ := hr.earned.credit
  have hsup := h.supply
  have howed : w.UncollectedOwed := h.staged
  refine
    { accounted := h.accounted.refresh hnow hr
      unexpired := hun₂
      supply := ?_
      staged := howed.earned (k := .vault) rfl hu.uncollected hr.earned
      priced := ?_
      held := ?_ }
  · rw [hr.ptSupply, ← hsup]
    exact ytTotal_same (w := w) (k := .vault) rfl hytb
  · rw [hr.ptSupply, hr.lastSeen, hv₂]
    exact hu.backing.trans_le (min_le_left _ _)
  · have hle := shortfall_le_of_books hbook (by rw [hv₂]; exact hu.treasury_of_not_expired hun)
      (by rw [hv₂]; exact hu.escrow)
    rw [roundingLoss_congr (r := (w, g)) (q := (_, g.sawSyState now w.vault v₂)) rfl rfl]
    exact hle.trans h.held

/-- A strip adds half a unit over the rate for each PY. -/
theorem shortfall_mint_le (hord : Ordered (w, g)) (hun : VaultRun.Unexpired (w, g))
    (hactive : w.vault.isActive w.clock = .ok true) (hcalm : w.vault.isInEmergencyMode = false)
    (hj : JustEarned w.vault w.yieldPosition)
    (hm : Minted w.vault w.yieldPosition x py v' p') :
    VaultWorld.shortfall { w.setPosition .vault p' with vault := v' }
      ≤ w.shortfall + py.toNat / (2 * w.vault.lastSeenSyExchangeRate.raw) := by
  have hbook := booked_mint hord hactive hcalm hj hm
  have hloss := strip_booked_le (hord.last_pos hun hj) hm.price_le
  obtain ⟨e, t, s, he, ht, rfl⟩ := hm.vault
  rw [weight_eq_reciprocal hun] at hbook
  have hbook' : ((w.setPosition .vault p').booked reciprocal : ℚ)
      = w.booked reciprocal + py.toNat * reciprocal w.vault.lastSeenSyExchangeRate := by
    exact_mod_cast hbook
  have he' : (e.toNat : ℚ) = w.vault.totalSyInEscrow.toNat + x.toNat := by exact_mod_cast he
  simp only [VaultWorld.shortfall]
  show ((w.setPosition .vault p').booked reciprocal : ℚ) / denom + _ - (e.toNat : ℚ) ≤ _
  rw [hbook', he', add_div]
  linarith only [hloss]

/-- A merge adds a unit for each PY. -/
theorem shortfall_burn_le (h : FaceBacked (w, g))
    (hcalm : w.vault.isInEmergencyMode = false) (hj : JustEarned w.vault w.yieldPosition)
    (hb : Burned w.vault w.yieldPosition w.clock a x v' p') :
    VaultWorld.shortfall { w.setPosition .vault p' with vault := v' }
      ≤ w.shortfall + a.toNat / denom := by
  have hord := h.accounted.ordered
  have hactive := hord.active_of_burned h.unexpired hj hb
  have hbook := booked_burn hord hcalm hj hb
  have hloss := merge_payout_le (hord.last_pos h.unexpired hj) (hb.price_le h.priced)
  obtain ⟨e, t, s, he, ht, rfl⟩ := hb.vault
  rw [weight_eq_reciprocal h.unexpired, if_pos hactive] at hbook
  have hbook' : ((w.setPosition .vault p').booked reciprocal : ℚ)
      + a.toNat * reciprocal w.vault.lastSeenSyExchangeRate = w.booked reciprocal := by
    exact_mod_cast hbook
  have he' : (e.toNat : ℚ) + x.toNat = w.vault.totalSyInEscrow.toNat := by exact_mod_cast he
  simp only [VaultWorld.shortfall]
  show ((w.setPosition .vault p').booked reciprocal : ℚ) / denom + _ - (e.toNat : ℚ) ≤ _
  rw [← hbook', ← he', add_div]
  linarith only [hloss]

/-- Interest is paid off the books. -/
theorem shortfall_payInterest (hp : w.position? k = some p)
    (hpay : InterestPaid w.vault p a v' p') :
    VaultWorld.shortfall { w.setPosition k p' with vault := v' } = w.shortfall := by
  have hden : (0 : ℚ) < denom := by exact_mod_cast denom_pos
  have hbook := booked_payInterest (W := reciprocal) hp hpay
  obtain ⟨e, c, he, -, rfl⟩ := hpay.vault
  have hbook' : ((w.setPosition k p').booked reciprocal : ℚ) + a.toNat * denom
      = w.booked reciprocal := by exact_mod_cast hbook
  have he' : (e.toNat : ℚ) + a.toNat = w.vault.totalSyInEscrow.toNat := by exact_mod_cast he
  show ((w.setPosition k p').booked reciprocal : ℚ) / denom + w.vault.treasurySy.toNat
    - e.toNat = w.shortfall
  rw [VaultWorld.shortfall, ← hbook', ← he', add_div, mul_div_cancel_right₀ _ hden.ne']
  linarith only

theorem shortfall_payTreasury (hpay : TreasuryPaid w.vault a v') :
    VaultWorld.shortfall { w with vault := v' } = w.shortfall := by
  obtain ⟨e, t, he, ht, rfl⟩ := hpay
  have he' : (e.toNat : ℚ) + a.toNat = w.vault.totalSyInEscrow.toNat := by exact_mod_cast he
  have ht' : (t.toNat : ℚ) + a.toNat = w.vault.treasurySy.toNat := by exact_mod_cast ht
  show (w.booked reciprocal : ℚ) / denom + t.toNat - e.toNat = w.shortfall
  rw [VaultWorld.shortfall, ← he', ← ht']
  linarith only

theorem FaceBacked.event (hA : ∀ r op, A r op → op.Sane r.1 ∧ op.BeforeMaturity r.1)
    (h : FaceBacked r) (he : VaultEvent A P r r') : FaceBacked r' := by
  have hacc := h.accounted.event (fun r op ha => (hA r op ha).1) he
  have hstaged : r'.1.UncollectedOwed := VaultWorld.UncollectedOwed.event h.staged he
  have hord := h.accounted.ordered
  have hweight := weight_eq_reciprocal h.unexpired
  cases he with
  | refresh hread hop hr hP =>
    exact h.refresh ((hA _ _ hop).1 _ hread).1 ((hA _ _ hop).2 _ hread) hr
  | @earn w g i u u' v' hu hP hearn =>
    have he := earned_of_ok hearn
    obtain ⟨c, t, -, hstage, ht, rfl⟩ := he.credit
    have hbook := booked_earn_le hord hu he
    rw [hweight] at hbook
    exact h.of_books hacc ⟨rfl, rfl, rfl, rfl, rfl⟩ rfl rfl (ytTotal_same hu he.ytBalance)
      h.priced hstaged (shortfall_le_of_books hbook rfl rfl) rfl rfl
  | @mint w g x py v' p' hactive hcalm hj hm =>
    have hloss := shortfall_mint_le hord h.unexpired hactive hcalm hj hm
    have hyt := ytTotal_mint hm
    obtain ⟨e, t, s, he, ht, rfl⟩ := hm.vault
    refine
      { accounted := hacc
        unexpired := h.unexpired
        supply := ?_
        staged := hstaged
        priced := hm.backed.le_ptValue
        held := ?_ }
    · show (w.setPosition .vault p').ytTotal = t.toNat
      rw [hyt, ht, ← h.supply]
    · have hheld := h.held
      simp only [VaultRun.roundingLoss, VaultRun.mergedPy, List.map_cons, List.sum_cons]
        at hheld ⊢
      linarith only [hheld, hloss]
  | @burn w g a x v' p' hcalm hj hb =>
    have hloss := shortfall_burn_le h hcalm hj hb
    have hyt := ytTotal_burn hb
    rw [if_pos (hord.active_of_burned h.unexpired hj hb)] at hyt
    obtain ⟨e, t, s, he, ht, rfl⟩ := hb.vault
    refine
      { accounted := hacc
        unexpired := h.unexpired
        supply := ?_
        staged := hstaged
        priced := hb.backed.le_ptValue
        held := ?_ }
    · have hsup : w.ytTotal = w.vault.ptSupply.toNat := h.supply
      show (w.setPosition .vault p').ytTotal = t.toNat
      omega
    · have hheld := h.held
      simp only [VaultRun.roundingLoss, VaultRun.mergedPy, List.map_cons, List.sum_cons,
        Nat.cast_add] at hheld ⊢
      rw [add_div]
      linarith only [hheld, hloss]
  | deposit hu hactive hcalm hj hju hm =>
    have hbook := booked_deposit hord hu hactive hcalm hj hju hm
    obtain ⟨s, rfl⟩ := hm.vault
    rw [hweight] at hbook
    exact h.of_books hacc ⟨rfl, rfl, rfl, rfl, rfl⟩ (by simp) rfl (ytTotal_move hu hm.sum_eq)
      hm.backed.le_ptValue hstaged
      (shortfall_le_of_books hbook.le rfl rfl) rfl rfl
  | withdraw hu hactive hj hju hm =>
    have hbook := booked_withdraw_le hord hu hactive hm
    obtain ⟨s, rfl⟩ := hm.vault
    rw [hweight] at hbook
    exact h.of_books hacc ⟨rfl, rfl, rfl, rfl, rfl⟩ (by simp) rfl
      (ytTotal_move hu ((Nat.add_comm _ _).trans (hm.sum_eq.trans (Nat.add_comm _ _))))
      hm.backed.le_ptValue hstaged
      (shortfall_le_of_books hbook rfl rfl) rfl rfl
  | rebalance hb =>
    exact h.of_books hacc ⟨rfl, rfl, rfl, rfl, rfl⟩ rfl rfl rfl
      hb.le_ptValue hstaged le_rfl rfl rfl
  | payInterest hp hpay =>
    have hle := (shortfall_payInterest hp hpay).le
    have hyt := ytTotal_same hp hpay.stake.1
    obtain ⟨e, c, he, hc, rfl⟩ := hpay.vault
    exact h.of_books hacc ⟨rfl, rfl, rfl, rfl, rfl⟩ (by simp) rfl hyt h.priced hstaged hle rfl rfl
  | payTreasury hpay =>
    have hle := (shortfall_payTreasury hpay).le
    obtain ⟨e, t, he, ht, rfl⟩ := hpay
    exact h.of_books hacc ⟨rfl, rfl, rfl, rfl, rfl⟩ rfl rfl rfl h.priced hstaged hle rfl rfl
  | payEmission hp hpay =>
    have hsame := collectEmissionAt_same hpay
    exact h.of_books hacc (by simpa using ⟨rfl, rfl, rfl, rfl, rfl⟩) (by simp) (by simp)
      (ytTotal_same hp hsame.1) (by simpa using h.priced) hstaged
      (shortfall_le_of_books (booked_payEmission hp hpay).le (by simp) (by simp)) rfl rfl
  | openPosition =>
    exact h.of_books hacc ⟨rfl, rfl, rfl, rfl, rfl⟩ rfl rfl ytTotal_openPosition h.priced hstaged
      (shortfall_le_of_books booked_openPosition.le rfl rfl) rfl rfl
  | payTreasuryEmission _ _ | addEmission _ _ | removeEmission _ =>
    exact h.of_books hacc ⟨rfl, rfl, rfl, rfl, rfl⟩ rfl rfl rfl h.priced hstaged le_rfl rfl rfl

/-! ## Whole runs -/

theorem faceBacked_initializeVault (args : InitializeVaultArgs) :
    FaceBacked (VaultWorld.initializeVault args, {}) where
  accounted := accounted_initializeVault args
  unexpired := Nat.zero_le _
  supply := rfl
  staged := rfl
  priced := Nat.zero_le _
  held := by
    simp [VaultWorld.shortfall, VaultWorld.booked, VaultWorld.positions,
      VaultWorld.initializeVault, YieldTokenPosition.booked, VaultRun.roundingLoss,
      VaultRun.mergedPy]

/-- At the all-time high no index is above the last seen rate, so the YT books the PT at it. -/
theorem FaceBacked.face_le_booked (h : FaceBacked r)
    (hr : r.1.vault.lastSeenSyExchangeRate = r.1.vault.allTimeHighSyExchangeRate) :
    r.1.vault.uncollectedSy.toNat * denom
        + r.1.vault.ptSupply.toNat * reciprocal r.1.vault.lastSeenSyExchangeRate
      ≤ r.1.booked reciprocal := by
  have hord := h.accounted.ordered
  rw [← h.staged, ← h.supply, VaultWorld.stagedInterest, VaultWorld.ytTotal, VaultWorld.booked,
    ← List.sum_map_mul_right, ← List.sum_map_mul_right, ← List.sum_map_add]
  refine List.sum_le_sum fun p hp => Nat.add_le_add_left ?_ _
  by_cases hy : p.ytBalance = 0
  · simp [hy]
  · have hplaced := hord.placed p hp
    refine Nat.mul_le_mul_left _ (reciprocal_anti (hplaced.index_pos hy) ?_)
    rw [hr]
    exact (hplaced.index_le_own h.unexpired).trans (hord.own_le h.unexpired)

/-- What rounding has cost, at the lowest rate of a strip. -/
theorem VaultRun.roundingLoss_le {rMin : ℚ} (hpos : 0 < rMin)
    (hmin : ∀ rate ∈ r.tradeRates, rMin ≤ rate.value) :
    r.roundingLoss ≤ (r.strippedPy / (2 * rMin) + r.mergedPy) / denom := by
  have hden : (0 : ℚ) < denom := by exact_mod_cast denom_pos
  have hstrips : (r.2.strips.map fun s => (s.py : ℚ) / (2 * s.rate.raw)).sum
      ≤ (r.2.strips.map fun s => (s.py : ℚ) * (1 / (2 * rMin) / denom)).sum := by
    refine List.sum_le_sum fun s hs => ?_
    have hrate : rMin ≤ (s.rate.raw : ℚ) / denom :=
      hmin _ (List.mem_append_left _ (List.mem_map_of_mem hs))
    rw [le_div_iff₀ hden] at hrate
    have hraw : (0 : ℚ) < s.rate.raw := (mul_pos hpos hden).trans_le hrate
    have hinv : 1 / (2 * (s.rate.raw : ℚ)) ≤ 1 / (2 * rMin * denom) :=
      one_div_le_one_div_of_le (by positivity) (by linarith only [hrate])
    rw [div_eq_mul_one_div (s.py : ℚ), div_div (1 : ℚ)]
    exact mul_le_mul_of_nonneg_left hinv (by positivity)
  have hsum : (r.2.strips.map fun s => (s.py : ℚ) * (1 / (2 * rMin) / denom)).sum
      = r.strippedPy * (1 / (2 * rMin) / denom) := by
    rw [List.sum_map_mul_right, VaultRun.strippedPy]
    push_cast [Nat.cast_list_sum, List.map_map]
    rfl
  calc r.roundingLoss
      ≤ r.strippedPy * (1 / (2 * rMin) / denom) + r.mergedPy / denom :=
        add_le_add_left (hstrips.trans_eq hsum) _
    _ = (r.strippedPy / (2 * rMin) + r.mergedPy) / denom := by ring

/-- What the books leave for the PT covers its face value, but for rounding. -/
theorem FaceBacked.face_value_le (h : FaceBacked r)
    (hr : r.1.vault.lastSeenSyExchangeRate = r.1.vault.allTimeHighSyExchangeRate) :
    (r.1.vault.ptSupply.toNat : ℚ) / r.1.vault.lastSeenSyExchangeRate.value
        - r.strippedPy / denom - r.roundingLoss
      ≤ r.1.vault.totalSyInEscrow.toNat - r.1.vault.treasurySy.toNat
        - r.1.vault.uncollectedSy.toNat := by
  have hden : (0 : ℚ) < denom := by exact_mod_cast denom_pos
  have hsupply : (r.1.vault.ptSupply.toNat : ℚ) ≤ r.strippedPy := by
    have hcons := h.accounted.conserved
    have hle : r.1.vault.ptSupply.toNat ≤ r.strippedPy := by
      rw [← h.supply]
      omega
    exact_mod_cast hle
  have hface : (r.1.vault.ptSupply.toNat : ℚ) / r.1.vault.lastSeenSyExchangeRate.value
      ≤ r.1.vault.ptSupply.toNat * reciprocal r.1.vault.lastSeenSyExchangeRate / denom
        + r.1.vault.ptSupply.toNat / denom := by
    have hone := div_le_reciprocal_succ r.1.vault.lastSeenSyExchangeRate
    calc (r.1.vault.ptSupply.toNat : ℚ) / r.1.vault.lastSeenSyExchangeRate.value
        = r.1.vault.ptSupply.toNat * (denom * denom / r.1.vault.lastSeenSyExchangeRate.raw)
            / denom := by
          rw [Number.value]
          field_simp
      _ ≤ r.1.vault.ptSupply.toNat * (reciprocal r.1.vault.lastSeenSyExchangeRate + 1) / denom := by
          gcongr
      _ = _ := by ring
  have hbooked : (r.1.vault.uncollectedSy.toNat : ℚ)
      + r.1.vault.ptSupply.toNat * reciprocal r.1.vault.lastSeenSyExchangeRate / denom
      ≤ r.1.booked reciprocal / denom := by
    rw [le_div_iff₀ hden, add_mul, div_mul_cancel₀ _ hden.ne']
    exact_mod_cast h.face_le_booked hr
  have hunit : (r.1.vault.ptSupply.toNat : ℚ) / denom ≤ r.strippedPy / denom := by gcongr
  have hheld := h.held
  rw [VaultWorld.shortfall] at hheld
  linarith only [hface, hbooked, hunit, hheld]

/-- **Before maturity PT is backed by its face value**, but for rounding. -/
theorem face_value_le_backing (args : InitializeVaultArgs) (ops : List VaultOp) (rMin : ℚ)
    (hops : Machine.Admits VaultWorld.step (fun w op => op.Sane w ∧ op.BeforeMaturity w)
      (VaultWorld.initializeVault args) ops)
    (hpos : 0 < rMin)
    (hmin : ∀ rate ∈ (VaultRun.of (VaultWorld.initializeVault args) ops).tradeRates,
      rMin ≤ rate.value)
    (hhigh : (VaultRun.of (VaultWorld.initializeVault args) ops).1.vault.lastSeenSyExchangeRate
      = (VaultRun.of (VaultWorld.initializeVault args) ops).1.vault.allTimeHighSyExchangeRate) :
    let r := VaultRun.of (VaultWorld.initializeVault args) ops
    (r.1.vault.ptSupply.toNat : ℚ) / r.1.vault.lastSeenSyExchangeRate.value - 1
        - (2 + 1 / rMin) * (1 / 10 ^ 12) * (r.strippedPy + r.mergedPy)
      ≤ r.1.vault.totalSyInEscrow.toNat - r.1.vault.treasurySy.toNat
        - r.1.vault.uncollectedSy.toNat := by
  intro r
  have hbacked : FaceBacked r :=
    VaultRun.induction (A := fun r op => op.Sane r.1 ∧ op.BeforeMaturity r.1) (P := fun _ => True)
      (fun r r' h he => h.event (fun _ _ hs => hs) he) (faceBacked_initializeVault args)
      ((VaultRun.admits hops).mono fun _ _ h => ⟨h, h.2.timely, fun _ _ => trivial⟩)
  have hface := hbacked.face_value_le hhigh
  have hloss := VaultRun.roundingLoss_le hpos hmin
  have hunit : (1 : ℚ) / 10 ^ 12 = 1 / denom := by norm_num [denom]
  have hslack : r.strippedPy / denom + (r.strippedPy / (2 * rMin) + r.mergedPy) / denom
      ≤ (2 + 1 / rMin) * (1 / 10 ^ 12) * (r.strippedPy + r.mergedPy) := by
    rw [hunit, ← sub_nonneg]
    have hdiff : (2 + 1 / rMin) * (1 / denom) * (r.strippedPy + r.mergedPy)
        - (r.strippedPy / denom + (r.strippedPy / (2 * rMin) + r.mergedPy) / denom)
        = (r.strippedPy + r.strippedPy / (2 * rMin) + r.mergedPy + r.mergedPy / rMin)
          / (denom : ℚ) := by ring
    rw [hdiff]
    positivity
  linarith only [hface, hloss, hslack]

/-- Two strips with a merge between them, while the rate rises, falls and recovers. -/
def VaultWorld.recoveryBeforeMaturity : List VaultOp :=
  [.strip 1 (wholeRate 1) 3000000, .initializeYieldPosition 0 0,
    .depositYt 2 (wholeRate 2) 0 1000000, .merge 3 (wholeRate 3) 500000,
    .withdrawYt 4 (wholeRate 1) 0 400000, .strip 5 (wholeRate 4) 1000000,
    .collectInterest 5 0 .all]

theorem face_value_le_backing_recovery :
    let r := VaultRun.of VaultWorld.freshVault VaultWorld.recoveryBeforeMaturity
    (r.1.vault.ptSupply.toNat : ℚ) / r.1.vault.lastSeenSyExchangeRate.value - 1
        - (2 + 1 / 1) * (1 / 10 ^ 12) * (r.strippedPy + r.mergedPy)
      ≤ r.1.vault.totalSyInEscrow.toNat - r.1.vault.treasurySy.toNat
        - r.1.vault.uncollectedSy.toNat :=
  face_value_le_backing ⟨0, 1000, 0, {}, 0, 0, 0, 0⟩ VaultWorld.recoveryBeforeMaturity 1
    (by decide +kernel) one_pos (by decide +kernel) (by decide +kernel)

end

end ExponentCore
