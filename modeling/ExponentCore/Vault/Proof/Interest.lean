import ExponentCore.Vault.Proof.Indexes
import ExponentCore.Vault.Proof.Skim

/-!
# Interest is never paid twice

A YT can still earn the difference between the reciprocal of the index of its position and the
reciprocal of the highest rate. `VaultRun.weight` is that reciprocal: the one of the index, or the
one of the highest rate once the index has reached the rate that was frozen at maturity. A staging
trades the weight of a balance for interest, a move of YT never raises its weight (`Ordered`), and a
strip adds the weight of the PY it mints. So all interest ever credited is at most what the strips
brought in (`interestCredited_le`).
-/

set_option autoImplicit false

namespace ExponentCore

open Number

namespace VaultRun

variable (r : VaultRun)

instance : Decidable r.Unexpired := inferInstanceAs (Decidable (_ ≤ _))

/-- The reciprocal up to which a YT at an index has been paid. -/
def weight (index : Number) : Nat :=
  if r.Unexpired ∨ index < r.1.vault.finalSyExchangeRate then reciprocal index
  else reciprocal r.2.highestRate

/-- The reciprocals of all minted PY. -/
def stripValue : Nat := (r.2.strips.map fun s => s.py * reciprocal s.rate).sum

/-- The reciprocals of all burned YT. -/
def mergeValue : Nat :=
  (r.2.merges.map fun m => if m.burnsYt then m.py * reciprocal m.rate else 0).sum

/-- What the minted PY can earn between the rate of its strip and the highest rate recorded while
the vault was active. -/
def interestBound : ℚ :=
  (r.2.strips.map fun s =>
    (s.py : ℚ) * ((reciprocal s.rate : ℚ) - reciprocal r.2.highestRate) / 10 ^ 12).sum

def strippedPy : Nat := (r.2.strips.map StripRecord.py).sum

/-- The PY whose YT was burned with the PT. -/
def burnedYt : Nat := (r.2.merges.map fun m => if m.burnsYt then m.py else 0).sum

end VaultRun

/-- What a position has staged and can still earn, for given weights of the indexes. -/
def YieldTokenPosition.booked (W : Number → Nat) (p : YieldTokenPosition) : Nat :=
  p.interest.staged.toNat * denom + p.ytBalance.toNat * W p.interest.lastSeenIndex

def VaultWorld.booked (W : Number → Nat) (w : VaultWorld) : Nat :=
  (w.positions.map fun p => p.booked W).sum

/-- All YT in the vault. -/
def VaultWorld.ytTotal (w : VaultWorld) : Nat :=
  (w.positions.map fun p => p.ytBalance.toNat).sum

/-- **The books balance**: what was credited and what can still be earned came in with a strip. -/
structure Accounted (r : VaultRun) : Prop where
  ordered : Ordered r
  covered : r.1.booked r.weight + r.2.interestPaid * denom + r.mergeValue ≤ r.stripValue
  conserved : r.1.ytTotal + r.burnedYt = r.strippedPy
  merged : ∀ m ∈ r.2.merges, m.burnsYt → 0 < m.rate ∧ m.rate ≤ r.2.highestRate

section
variable {A : VaultRun → VaultOp → Prop} {P : Staging → Prop} {w w' : VaultWorld}
  {g g' : VaultLedger} {r r' : VaultRun} {v v' v₁ v₂ : Vault} {p p' p₁ u u' : YieldTokenPosition}
  {now : UInt32} {syState : SyState} {k : Holder} {i : Nat} {W : Number → Nat}

/-! ## Weights -/

theorem weight_unexpired (h : r.Unexpired) (l : Number) : r.weight l = reciprocal l := by
  simp [VaultRun.weight, h]

theorem weight_congr (hun : r'.Unexpired ↔ r.Unexpired)
    (hf : r'.1.vault.finalSyExchangeRate = r.1.vault.finalSyExchangeRate)
    (hh : r'.2.highestRate = r.2.highestRate) : r'.weight = r.weight := by
  funext l
  simp only [VaultRun.weight, hun, hf, hh]

theorem weight_withVault {l : VaultLedger} {y : VaultWorld} (hv : SameRates w.vault v')
    (hg : l.highestRate = g.highestRate)
    (hw : y.vault = v') (hc : y.clock = w.clock) :
    VaultRun.weight (y, l) = VaultRun.weight (w, g) := by
  refine weight_congr ?_ ?_ hg
  · simp only [VaultRun.Unexpired, hw, hc, hv.maturity]
  · simp only [hw, hv.final]

/-- The weight is never below the reciprocal of the highest rate. -/
theorem reciprocal_highest_le_weight (h : Placed r p) (hy : p.ytBalance ≠ 0) :
    reciprocal r.2.highestRate ≤ r.weight p.interest.lastSeenIndex := by
  unfold VaultRun.weight
  split
  · exact reciprocal_anti (h.index_pos hy) h.index_le
  · exact le_rfl

/-- **A staging trades weight for interest.** The index is not beyond the final rate while the vault
has not expired. -/
theorem credit_le {q : YieldTokenPosition} {c : UInt64} (hplaced : Placed r p)
    (hf : r.1.vault.finalSyExchangeRate ≠ 0)
    (hh : r.1.vault.finalSyExchangeRate ≤ r.2.highestRate)
    (hun : r.Unexpired → r.1.vault.isInEmergencyMode = false →
      p.interest.lastSeenIndex ≤ r.1.vault.finalSyExchangeRate)
    (hc : p.credit r.1.vault = .ok c)
    (hindex : r.1.vault.isInEmergencyMode = true ∧
        q.interest.lastSeenIndex = p.interest.lastSeenIndex ∨
      r.1.vault.isInEmergencyMode = false ∧
        q.interest.lastSeenIndex = r.1.vault.finalSyExchangeRate) :
    c.toNat * denom + p.ytBalance.toNat * r.weight q.interest.lastSeenIndex
      ≤ p.ytBalance.toNat * r.weight p.interest.lastSeenIndex := by
  unfold YieldTokenPosition.credit at hc
  rcases hindex with ⟨he, hi⟩ | ⟨he, hi⟩
  · rw [if_pos he] at hc
    cases hc
    simp [hi]
  · rw [if_neg (by simp [he])] at hc
    rw [hi]
    by_cases hy : p.ytBalance = 0
    · rw [YieldTokenPosition.interestDue_zero_balance hy hc, hy]
      simp
    have hpos := hplaced.index_pos hy
    have hfpos : 0 < r.1.vault.finalSyExchangeRate :=
      Nat.pos_of_ne_zero fun h0 => hf (eq_zero_iff.2 h0)
    by_cases hlt : p.interest.lastSeenIndex < r.1.vault.finalSyExchangeRate
    · -- the index moves up to the final rate
      have hdue := YieldTokenPosition.interestDue_le hpos hlt.le hc
      have hold : r.weight p.interest.lastSeenIndex = reciprocal p.interest.lastSeenIndex := by
        simp [VaultRun.weight, hlt]
      have hnew : r.weight r.1.vault.finalSyExchangeRate
          ≤ reciprocal r.1.vault.finalSyExchangeRate := by
        unfold VaultRun.weight
        split
        · exact le_rfl
        · exact reciprocal_anti hfpos hh
      have hmul := Nat.mul_le_mul_left p.ytBalance.toNat hnew
      rw [hold]
      omega
    · -- the index is there or beyond: nothing is credited
      rw [not_lt] at hlt
      rw [YieldTokenPosition.interestDue_of_le hlt hc, UInt64.toNat_zero, Nat.zero_mul,
        Nat.zero_add]
      refine Nat.mul_le_mul_left _ ?_
      by_cases hr : r.Unexpired
      · rw [le_antisymm (hun hr he) hlt]
      · have hlow := reciprocal_highest_le_weight hplaced hy
        simpa [VaultRun.weight, hr] using hlow

/-- Recording a rate never raises a weight. -/
theorem weight_refresh_le (h : Ordered (w, g)) (hnow : w.clock ≤ now)
    (hr : Refreshed w.vault w.yieldPosition now syState v₁ v₂ p₁) (hp : Placed (w, g) p)
    (hy : p.ytBalance ≠ 0) (hv : v'.finalSyExchangeRate = v₁.finalSyExchangeRate)
    (hm : v'.maturity = w.vault.maturity) :
    VaultRun.weight ({ w with vault := v', clock := now }, g.sawSyState now w.vault v₂)
        p.interest.lastSeenIndex
      ≤ VaultRun.weight (w, g) p.interest.lastSeenIndex := by
  have hclock : w.clock.toNat ≤ now.toNat := UInt32.le_iff_toNat_le.1 hnow
  have hun : VaultRun.Unexpired ({ w with vault := v', clock := now },
      g.sawSyState now w.vault v₂) ↔ now.toNat ≤ w.vault.maturity := by
    simp [VaultRun.Unexpired, hm]
  by_cases hn : now.toNat ≤ w.vault.maturity
  · have hold : VaultRun.Unexpired (w, g) := hclock.trans hn
    rw [weight_unexpired (hun.2 hn), weight_unexpired hold]
  · rcases h.phase hnow hr with ⟨-, hle, -⟩ | ⟨ha, -, hf, -⟩
    · exact absurd hle hn
    · have hhigh : (g.sawSyState now w.vault v₂).highestRate = g.highestRate := by
        simp [VaultLedger.sawSyState, ha]
      have hlow := reciprocal_highest_le_weight hp hy
      simp only [VaultRun.weight, hun, hn, false_or, hv, hf, hhigh] at hlow ⊢
      split
      · split
        · exact le_rfl
        · rename_i h₁ h₂
          exact absurd (.inr h₁) h₂
      · exact hlow

/-! ## Bookings -/

theorem booked_setPosition {q : YieldTokenPosition} (hp : w.position? k = some p) :
    (w.setPosition k q).booked W + p.booked W = w.booked W + q.booked W :=
  w.sum_setPosition (fun q => q.booked W) hp

theorem booked_le {W' : Number → Nat}
    (h : ∀ p ∈ w.positions, p.ytBalance ≠ 0 →
      W' p.interest.lastSeenIndex ≤ W p.interest.lastSeenIndex) :
    w.booked W' ≤ w.booked W := by
  refine List.sum_le_sum fun p hp => Nat.add_le_add_left ?_ _
  by_cases hy : p.ytBalance = 0
  · simp [hy]
  · exact Nat.mul_le_mul_left _ (h p hp hy)

theorem Earned.booked_eq (h : Earned v p v' p') :
    ∃ c : UInt64, p.credit v = .ok c ∧
      p'.booked W = p.interest.staged.toNat * denom + (c.toNat * denom
        + p.ytBalance.toNat * W p'.interest.lastSeenIndex) := by
  obtain ⟨c, t, hc, hs, -, -⟩ := h.credit
  refine ⟨c, hc, ?_⟩
  rw [YieldTokenPosition.booked, h.ytBalance, hs, Nat.add_mul, Nat.add_assoc]

/-- Minting or burning YT changes what a position can still earn by the weight of its index. -/
theorem booked_withBalance {b d : UInt64} (h : b.toNat = p.ytBalance.toNat + d.toNat) :
    YieldTokenPosition.booked W { p with ytBalance := b }
      = p.booked W + d.toNat * W p.interest.lastSeenIndex := by
  simp only [YieldTokenPosition.booked, h, Nat.add_mul]
  omega

theorem booked_withoutBalance {b d : UInt64} (h : b.toNat + d.toNat = p.ytBalance.toNat) :
    YieldTokenPosition.booked W { p with ytBalance := b }
        + d.toNat * W p.interest.lastSeenIndex = p.booked W := by
  simp only [YieldTokenPosition.booked, ← h, Nat.add_mul]
  omega

/-! ## What events do to the books -/

theorem sawSyState_highestRate_le (before after : Vault) :
    g.highestRate ≤ (g.sawSyState now before after).highestRate := by
  simp only [VaultLedger.sawSyState]
  split
  · exact le_max_left _ _
  · exact le_rfl

/-- A refresh records the rates, then stages the vault's own position; neither adds to the books. -/
theorem booked_refresh_le (h : Ordered (w, g)) (hnow : w.clock ≤ now)
    (hr : Refreshed w.vault w.yieldPosition now syState v₁ v₂ p₁) :
    VaultWorld.booked
        (VaultRun.weight ({ w with vault := v₂, yieldPosition := p₁, clock := now },
          g.sawSyState now w.vault v₂))
        { w with vault := v₂, yieldPosition := p₁, clock := now }
      ≤ w.booked (VaultRun.weight (w, g)) := by
  have hord := h.refresh hnow hr
  have hview := hr.earned.sameView
  let r₁ : VaultRun := ({ w with vault := v₁, clock := now }, g.sawSyState now w.vault v₂)
  have hweight : VaultRun.weight ({ w with vault := v₂, yieldPosition := p₁, clock := now },
      g.sawSyState now w.vault v₂) = r₁.weight :=
    weight_withVault (w := { w with vault := v₁, clock := now }) hview.toSameRates rfl rfl rfl
  have hrates : w.booked r₁.weight ≤ w.booked (VaultRun.weight (w, g)) :=
    booked_le fun q hq hy =>
      weight_refresh_le h hnow hr (h.placed q hq) hy rfl hr.updated.maturity
  have hown := h.placed w.yieldPosition List.mem_cons_self
  have hmat : v₁.maturity = w.vault.maturity := hr.updated.maturity
  obtain ⟨c, hc, hbook⟩ := hr.earned.booked_eq (W := r₁.weight)
  have hplaced : Placed r₁ w.yieldPosition :=
    ⟨hown.index_le.trans (sawSyState_highestRate_le _ _), hown.index_pos, fun _ => le_rfl⟩
  have hahead : r₁.Unexpired → v₁.isInEmergencyMode = false →
      w.yieldPosition.interest.lastSeenIndex ≤ v₁.finalSyExchangeRate := by
    intro hun hcalm
    rw [← hview.final]
    refine h.own_le_final hnow hr ?_ (hview.isInEmergencyMode ▸ hcalm)
    simpa only [VaultRun.Unexpired, r₁, hmat] using hun
  have hcredit := credit_le (r := r₁) (q := p₁) hplaced hr.earned.final_ne_zero
    (hview.final ▸ hord.final_le) hahead hc hr.earned.index
  have hstage := booked_setPosition (w := w) (k := .vault) (q := p₁) (W := r₁.weight) rfl
  rw [YieldTokenPosition.booked] at hstage
  rw [hweight]
  show (w.setPosition .vault p₁).booked r₁.weight ≤ _
  omega

theorem booked_earn_le (h : Ordered (w, g)) (hu : w.position? (.user i) = some u)
    (he : Earned w.vault u v' u') :
    (w.setPosition (.user i) u').booked (VaultRun.weight (w, g))
      ≤ w.booked (VaultRun.weight (w, g)) := by
  have hplaced := h.placed u (VaultWorld.position?_mem hu)
  obtain ⟨c, hc, hbook⟩ := he.booked_eq (W := VaultRun.weight (w, g))
  have hcredit := credit_le (r := (w, g)) (q := u') hplaced he.final_ne_zero h.final_le
    (fun hun hcalm => (hplaced.index_le_own hun).trans_eq (h.own_index hcalm)) hc he.index
  have hstage := booked_setPosition (w := w) (q := u') (W := VaultRun.weight (w, g)) hu
  rw [YieldTokenPosition.booked] at hstage
  omega

/-- While the vault is active, a position at the final rate weighs its YT by the last seen rate. -/
theorem weight_justEarned (h : Ordered (w, g)) (hactive : w.vault.isActive w.clock = .ok true)
    (hcalm : w.vault.isInEmergencyMode = false) (hj : JustEarned w.vault p) :
    VaultRun.weight (w, g) p.interest.lastSeenIndex
      = reciprocal w.vault.lastSeenSyExchangeRate := by
  have hun := unexpired_of_active (g := g) hactive
  rw [weight_unexpired hun, hj.index hcalm]
  exact congrArg reciprocal (h.final_last hun)

theorem booked_mint {x py : UInt64} (h : Ordered (w, g))
    (hactive : w.vault.isActive w.clock = .ok true) (hcalm : w.vault.isInEmergencyMode = false)
    (hj : JustEarned w.vault w.yieldPosition)
    (hm : Minted w.vault w.yieldPosition x py v' p') :
    (w.setPosition .vault p').booked (VaultRun.weight (w, g))
      = w.booked (VaultRun.weight (w, g))
        + py.toNat * reciprocal w.vault.lastSeenSyExchangeRate := by
  have hbook := booked_setPosition (w := w) (k := .vault) (q := p')
    (W := VaultRun.weight (w, g)) rfl
  obtain ⟨b, hb, hp'⟩ := hm.position
  have hnew := booked_withBalance (W := VaultRun.weight (w, g)) hb
  rw [← hp', weight_justEarned h hactive hcalm hj] at hnew
  omega

theorem booked_burn {a x : UInt64} (h : Ordered (w, g))
    (hcalm : w.vault.isInEmergencyMode = false) (hj : JustEarned w.vault w.yieldPosition)
    (hb : Burned w.vault w.yieldPosition w.clock a x v' p') :
    (w.setPosition .vault p').booked (VaultRun.weight (w, g))
      + (if w.vault.isActive w.clock = .ok true then
          a.toNat * reciprocal w.vault.lastSeenSyExchangeRate else 0)
      = w.booked (VaultRun.weight (w, g)) := by
  have hbook := booked_setPosition (w := w) (k := .vault) (q := p')
    (W := VaultRun.weight (w, g)) rfl
  rcases hb.position with ⟨hactive, b, hb', hp'⟩ | ⟨hover, hp'⟩
  · have hnew := booked_withoutBalance (W := VaultRun.weight (w, g)) hb'
    rw [← hp', weight_justEarned h hactive hcalm hj] at hnew
    rw [if_pos hactive]
    omega
  · rw [hp'] at hbook ⊢
    rw [if_neg (by rw [hover]; decide)]
    omega

theorem booked_deposit {a : UInt64} (h : Ordered (w, g)) (hu : w.position? (.user i) = some u)
    (hactive : w.vault.isActive w.clock = .ok true) (hcalm : w.vault.isInEmergencyMode = false)
    (hj : JustEarned w.vault w.yieldPosition) (hju : JustEarned w.vault u)
    (hm : Moved w.vault w.yieldPosition u a v' p' u') :
    ((w.setPosition .vault p').setPosition (.user i) u').booked (VaultRun.weight (w, g))
      = w.booked (VaultRun.weight (w, g)) := by
  have hbook := w.sum_setPositions (q := p') (y := u')
    (fun q => q.booked (VaultRun.weight (w, g))) hu
  obtain ⟨b, hb, hp'⟩ := hm.source
  obtain ⟨c, hc, hu'⟩ := hm.destination
  have hsrc := booked_withoutBalance (W := VaultRun.weight (w, g)) hb
  have hdst := booked_withBalance (W := VaultRun.weight (w, g)) hc
  rw [← hp', weight_justEarned h hactive hcalm hj] at hsrc
  rw [← hu', weight_justEarned h hactive hcalm hju] at hdst
  simp only [VaultWorld.booked]
  omega

/-- A withdrawal moves YT to a position whose index is not behind. -/
theorem booked_withdraw_le {a : UInt64} (h : Ordered (w, g))
    (hu : w.position? (.user i) = some u) (hactive : w.vault.isActive w.clock = .ok true)
    (hm : Moved w.vault u w.yieldPosition a v' u' p') :
    ((w.setPosition .vault p').setPosition (.user i) u').booked (VaultRun.weight (w, g))
      ≤ w.booked (VaultRun.weight (w, g)) := by
  have hbook := w.sum_setPositions (q := p') (y := u')
    (fun q => q.booked (VaultRun.weight (w, g))) hu
  obtain ⟨b, hb, hu'⟩ := hm.source
  obtain ⟨c, hc, hp'⟩ := hm.destination
  have hsrc := booked_withoutBalance (W := VaultRun.weight (w, g)) hb
  have hdst := booked_withBalance (W := VaultRun.weight (w, g)) hc
  rw [← hu'] at hsrc
  rw [← hp'] at hdst
  have hun := unexpired_of_active (g := g) hactive
  have hplaced := h.placed u (VaultWorld.position?_mem hu)
  have hmove : a.toNat * VaultRun.weight (w, g) w.yieldPosition.interest.lastSeenIndex
      ≤ a.toNat * VaultRun.weight (w, g) u.interest.lastSeenIndex := by
    by_cases hy0 : u.ytBalance = 0
    · have ha : a.toNat = 0 := by
        rw [← UInt64.toNat_inj, UInt64.toNat_zero] at hy0
        omega
      simp [ha]
    · rw [weight_unexpired hun, weight_unexpired hun]
      exact Nat.mul_le_mul_left _
        (reciprocal_anti (hplaced.index_pos hy0) (hplaced.index_le_own hun))
  simp only [VaultWorld.booked]
  omega

theorem booked_payInterest {a : UInt64} (hp : w.position? k = some p)
    (hpay : InterestPaid v p a v' p') :
    (w.setPosition k p').booked W + a.toNat * denom = w.booked W := by
  have hbook := booked_setPosition (q := p') (W := W) hp
  obtain ⟨s, hs, hp'⟩ := hpay.position
  have hpaid : p'.booked W + a.toNat * denom = p.booked W := by
    simp only [hp', YieldTokenPosition.booked, ← hs, Nat.add_mul]
    omega
  omega

theorem booked_payEmission {index : UInt16} {a : UInt64} (hp : w.position? k = some p)
    (hpay : p.collectEmissionAt index a = .ok p') :
    (w.setPosition k p').booked W = w.booked W := by
  have hbook := booked_setPosition (q := p') (W := W) hp
  have hsame := collectEmissionAt_same hpay
  have heq : p'.booked W = p.booked W := by
    simp only [YieldTokenPosition.booked, hsame.1, hsame.2]
  omega

theorem booked_openPosition {owner key : Pubkey} :
    VaultWorld.booked W
        { w with userPositions := w.userPositions ++ [{ owner, vault := key }] }
      = w.booked W := by
  have hnew : YieldTokenPosition.booked W { owner, vault := key } = 0 := by
    simp [YieldTokenPosition.booked]
  simp [VaultWorld.booked, VaultWorld.positions, hnew]

/-! ## What events do to the YT -/

theorem ytTotal_setPosition {q : YieldTokenPosition} (hp : w.position? k = some p) :
    (w.setPosition k q).ytTotal + p.ytBalance.toNat = w.ytTotal + q.ytBalance.toNat :=
  w.sum_setPosition (fun q => q.ytBalance.toNat) hp

theorem ytTotal_same (hp : w.position? k = some p) (hy : p'.ytBalance = p.ytBalance) :
    (w.setPosition k p').ytTotal = w.ytTotal := by
  have h := ytTotal_setPosition (q := p') hp
  rw [hy] at h
  omega

theorem ytTotal_mint {x py : UInt64} (hm : Minted v w.yieldPosition x py v' p') :
    (w.setPosition .vault p').ytTotal = w.ytTotal + py.toNat := by
  have h := ytTotal_setPosition (w := w) (k := .vault) (q := p') rfl
  obtain ⟨b, hb, rfl⟩ := hm.position
  simp only at h
  omega

theorem ytTotal_burn {a x : UInt64} (hb : Burned v w.yieldPosition now a x v' p') :
    (w.setPosition .vault p').ytTotal + (if v.isActive now = .ok true then a.toNat else 0)
      = w.ytTotal := by
  have h := ytTotal_setPosition (w := w) (k := .vault) (q := p') rfl
  rcases hb.position with ⟨hactive, b, hb', rfl⟩ | ⟨hover, rfl⟩
  · rw [if_pos hactive]
    simp only at h
    omega
  · rw [if_neg (by rw [hover]; decide)]
    omega

/-- YT that moves between the vault's and a user's position stays in the vault. -/
theorem ytTotal_move (hu : w.position? (.user i) = some u)
    (hsum : p'.ytBalance.toNat + u'.ytBalance.toNat
      = w.yieldPosition.ytBalance.toNat + u.ytBalance.toNat) :
    ((w.setPosition .vault p').setPosition (.user i) u').ytTotal = w.ytTotal := by
  have h := w.sum_setPositions (q := p') (y := u') (fun q => q.ytBalance.toNat) hu
  simp only [VaultWorld.ytTotal]
  omega

theorem Moved.sum_eq {a : UInt64} (hm : Moved v p u a v' p' u') :
    p'.ytBalance.toNat + u'.ytBalance.toNat = p.ytBalance.toNat + u.ytBalance.toNat := by
  obtain ⟨b, hb, rfl⟩ := hm.source
  obtain ⟨c, hc, rfl⟩ := hm.destination
  simp only
  omega

theorem ytTotal_openPosition {owner key : Pubkey} :
    VaultWorld.ytTotal { w with userPositions := w.userPositions ++ [{ owner, vault := key }] }
      = w.ytTotal := by
  simp [VaultWorld.ytTotal, VaultWorld.positions]

/-! ## Every event -/

theorem Accounted.refresh (h : Accounted (w, g)) (hnow : w.clock ≤ now)
    (hr : Refreshed w.vault w.yieldPosition now syState v₁ v₂ p₁) :
    Accounted ({ w with vault := v₂, yieldPosition := p₁, clock := now },
      g.sawSyState now w.vault v₂) where
  ordered := h.ordered.refresh hnow hr
  covered := by
    have hcov := h.covered
    have hle := booked_refresh_le h.ordered hnow hr
    exact (Nat.add_le_add_right (Nat.add_le_add_right hle _) _).trans hcov
  conserved :=
    (congrArg (· + VaultRun.burnedYt (w, g))
      (ytTotal_same (w := w) (k := .vault) rfl hr.earned.ytBalance)).trans h.conserved
  merged m hm hb :=
    ⟨(h.merged m hm hb).1, (h.merged m hm hb).2.trans (sawSyState_highestRate_le _ _)⟩

/-- A change of one or two positions that keeps the books and the YT. -/
theorem Accounted.of_books (h : Accounted (w, g)) (hord : Ordered (w', g'))
    (hw : VaultRun.weight (w', g') = VaultRun.weight (w, g))
    (hbook : w'.booked (VaultRun.weight (w, g)) + g'.interestPaid * denom
      ≤ w.booked (VaultRun.weight (w, g)) + g.interestPaid * denom)
    (hyt : w'.ytTotal = w.ytTotal) (hs : g'.strips = g.strips) (hm : g'.merges = g.merges)
    (hh : g'.highestRate = g.highestRate) : Accounted (w', g') where
  ordered := hord
  covered := by
    have hcov := h.covered
    simp only [VaultRun.mergeValue, VaultRun.stripValue] at hcov ⊢
    rw [hw, hs, hm]
    omega
  conserved := by
    have hcons := h.conserved
    simp only [VaultRun.burnedYt, VaultRun.strippedPy] at hcons ⊢
    rw [hyt, hs, hm]
    exact hcons
  merged := by
    simp only [hm, hh]
    exact h.merged

theorem Accounted.event (hA : ∀ r op, A r op → op.Sane r.1) (h : Accounted r)
    (he : VaultEvent A P r r') : Accounted r' := by
  have hord := h.ordered.event hA he
  have hcov := h.covered
  have hcons := h.conserved
  cases he with
  | refresh hread hop hr hP => exact h.refresh (hA _ _ hop _ hread).1 hr
  | earn hu hP hearn =>
    have he := earned_of_ok hearn
    exact h.of_books hord (weight_withVault he.sameView.toSameRates rfl rfl rfl)
      (Nat.add_le_add_right (booked_earn_le h.ordered hu he) _)
      (ytTotal_same hu he.ytBalance) rfl rfl rfl
  | @mint w g x py v' p' hactive hcalm hj hm =>
    refine ⟨hord, ?_, ?_, h.merged⟩
    · have hw := weight_withVault (w := w) (g := g)
        (l := { g with strips := ⟨py.toNat, w.vault.lastSeenSyExchangeRate⟩ :: g.strips })
        (y := { w.setPosition .vault p' with vault := v' }) hm.sameRates rfl rfl rfl
      rw [hw]
      have hbook := booked_mint h.ordered hactive hcalm hj hm
      show (w.setPosition .vault p').booked _ + g.interestPaid * denom
        + VaultRun.mergeValue (w, g) ≤ py.toNat * reciprocal w.vault.lastSeenSyExchangeRate
          + VaultRun.stripValue (w, g)
      simp only at hcov
      omega
    · have hyt := ytTotal_mint hm
      show (w.setPosition .vault p').ytTotal + VaultRun.burnedYt (w, g)
        = py.toNat + VaultRun.strippedPy (w, g)
      simp only at hcons
      omega
  | @burn w g a x v' p' hcalm hj hb =>
    refine ⟨hord, ?_, ?_, fun m hm hburn => ?_⟩
    · have hw := weight_withVault (w := w) (g := g)
        (l := { g with merges := ⟨a.toNat, w.vault.lastSeenSyExchangeRate,
          decide (w.vault.isActive w.clock = .ok true)⟩ :: g.merges })
        (y := { w.setPosition .vault p' with vault := v' }) hb.sameRates rfl rfl rfl
      rw [hw]
      have hbook := booked_burn h.ordered hcalm hj hb
      show (w.setPosition .vault p').booked _ + g.interestPaid * denom
        + VaultRun.mergeValue _ ≤ VaultRun.stripValue (w, g)
      simp only [VaultRun.mergeValue, List.map_cons, List.sum_cons, decide_eq_true_eq] at hcov ⊢
      omega
    · have hyt := ytTotal_burn hb
      show (w.setPosition .vault p').ytTotal + VaultRun.burnedYt _ = VaultRun.strippedPy (w, g)
      simp only [VaultRun.burnedYt, List.map_cons, List.sum_cons, decide_eq_true_eq] at hcons ⊢
      omega
    · rcases List.mem_cons.1 hm with rfl | hm
      · -- only while the vault is active is YT burned, and then at the final rate
        have hlast := h.ordered.final_last (unexpired_of_active (of_decide_eq_true hburn))
        have hpos := hj.index_pos hcalm
        rw [hj.index hcalm] at hpos
        exact ⟨hlast ▸ hpos, hlast ▸ h.ordered.final_le⟩
      · exact h.merged m hm hburn
  | deposit hu hactive hcalm hj hju hm =>
    exact h.of_books hord (weight_withVault hm.sameRates rfl rfl rfl)
      (Nat.add_le_add_right (booked_deposit h.ordered hu hactive hcalm hj hju hm).le _)
      (ytTotal_move hu hm.sum_eq) rfl rfl rfl
  | withdraw hu hactive hj hju hm =>
    exact h.of_books hord (weight_withVault hm.sameRates rfl rfl rfl)
      (Nat.add_le_add_right (booked_withdraw_le h.ordered hu hactive hm) _)
      (ytTotal_move hu ((Nat.add_comm _ _).trans (hm.sum_eq.trans (Nat.add_comm _ _)))) rfl rfl rfl
  | rebalance _ => exact h.of_books hord rfl le_rfl rfl rfl rfl rfl
  | @payInterest w g k p a v' p' hp hpay =>
    have hbook := booked_payInterest (W := VaultRun.weight (w, g)) hp hpay
    refine h.of_books hord (weight_withVault hpay.sameRates rfl rfl (by simp)) ?_
      (ytTotal_same hp hpay.stake.1) rfl rfl rfl
    show (w.setPosition k p').booked _ + (g.interestPaid + a.toNat) * denom ≤ _
    rw [Nat.add_mul]
    omega
  | payTreasury hpay =>
    exact h.of_books hord (weight_withVault hpay.sameRates rfl rfl rfl) le_rfl rfl rfl rfl rfl
  | payEmission hp hpay =>
    exact h.of_books hord
      (weight_withVault ⟨rfl, rfl, rfl, rfl, rfl⟩ rfl (by simp) (by simp))
      (Nat.add_le_add_right (booked_payEmission hp hpay).le _)
      (ytTotal_same hp (collectEmissionAt_same hpay).1) rfl rfl rfl
  | payTreasuryEmission _ _ => exact h.of_books hord rfl le_rfl rfl rfl rfl rfl
  | openPosition =>
    exact h.of_books hord rfl (Nat.add_le_add_right booked_openPosition.le _)
      ytTotal_openPosition rfl rfl rfl
  | addEmission _ _ => exact h.of_books hord rfl le_rfl rfl rfl rfl rfl
  | removeEmission _ => exact h.of_books hord rfl le_rfl rfl rfl rfl rfl

/-! ## Whole runs -/

theorem accounted_initializeVault (args : InitializeVaultArgs) :
    Accounted (VaultWorld.initializeVault args, {}) where
  ordered := ordered_initializeVault args
  covered := by
    simp [VaultWorld.booked, VaultWorld.positions, VaultWorld.initializeVault,
      YieldTokenPosition.booked, VaultRun.mergeValue, VaultRun.stripValue]
  conserved := by
    simp [VaultWorld.ytTotal, VaultWorld.positions, VaultWorld.initializeVault,
      VaultRun.burnedYt, VaultRun.strippedPy]
  merged := by simp

/-- What the strips brought in covers the interest credited, and the weight that the PY keeps at the
highest rate. -/
theorem Accounted.interestCredited_le (h : Accounted r) :
    r.interestCredited * denom + r.strippedPy * reciprocal r.2.highestRate ≤ r.stripValue := by
  have hcov := h.covered
  have hpos : r.1.stagedInterest * denom
      + r.1.ytTotal * reciprocal r.2.highestRate ≤ r.1.booked r.weight := by
    rw [VaultWorld.stagedInterest, VaultWorld.booked, VaultWorld.ytTotal, ← List.sum_map_mul_right,
      ← List.sum_map_mul_right, ← List.sum_map_add]
    refine List.sum_le_sum fun p hp => Nat.add_le_add_left ?_ _
    by_cases hy : p.ytBalance = 0
    · simp [hy]
    · exact Nat.mul_le_mul_left _ (reciprocal_highest_le_weight (h.ordered.placed p hp) hy)
  have hburn : r.burnedYt * reciprocal r.2.highestRate ≤ r.mergeValue := by
    rw [VaultRun.burnedYt, VaultRun.mergeValue, ← List.sum_map_mul_right]
    refine List.sum_le_sum fun m hm => ?_
    split
    · rename_i hb
      exact Nat.mul_le_mul_left _
        (reciprocal_anti (h.merged m hm hb).1 (h.merged m hm hb).2)
    · simp
  rw [← h.conserved, VaultRun.interestCredited, Nat.add_mul, Nat.add_mul]
  omega

theorem VaultRun.interestBound_eq (r : VaultRun) :
    r.interestBound
      = ((r.stripValue : ℚ) - r.strippedPy * reciprocal r.2.highestRate) / 10 ^ 12 := by
  unfold VaultRun.interestBound VaultRun.stripValue VaultRun.strippedPy
  induction r.2.strips with
  | nil => simp
  | cons s l ih =>
    simp only [List.map_cons, List.sum_cons, ih]
    push_cast
    ring

/-- **Interest is never paid twice**: over the whole life of a vault, all interest ever added to
staged interest is at most what the minted PY can earn between the rate of its strip and the highest
rate recorded while the vault was active. -/
theorem interestCredited_le_interestBound (args : InitializeVaultArgs) (ops : List VaultOp)
    (hops : Machine.Admits VaultWorld.step (fun w op => op.Sane w ∧ op.Timely w)
      (VaultWorld.initializeVault args) ops) :
    ((VaultRun.of (VaultWorld.initializeVault args) ops).interestCredited : ℚ)
      ≤ (VaultRun.of (VaultWorld.initializeVault args) ops).interestBound := by
  have hacc : Accounted (VaultRun.of _ ops) :=
    VaultRun.induction (A := fun r op => op.Sane r.1) (P := fun _ => True)
      (fun r r' h he => h.event (fun _ _ hs => hs) he) (accounted_initializeVault args)
      ((VaultRun.admits hops).mono fun _ _ h => ⟨h.1, h.2, fun _ _ => trivial⟩)
  have hle := hacc.interestCredited_le
  rw [VaultRun.interestBound_eq, le_div_iff₀ (by norm_num), le_sub_iff_add_le]
  rw [denom] at hle
  exact_mod_cast hle

/-- A run through all phases: a rise, a dip that a withdrawal records, maturity and recovery. -/
theorem interestCredited_le_interestBound_dip :
    ((VaultRun.of VaultWorld.freshVault VaultWorld.dipBeforeMaturity).interestCredited : ℚ)
      ≤ (VaultRun.of VaultWorld.freshVault VaultWorld.dipBeforeMaturity).interestBound :=
  interestCredited_le_interestBound ⟨0, 1000, 0, {}, 0, 0, 0, 0⟩ VaultWorld.dipBeforeMaturity
    (by decide +kernel)

end

end ExponentCore
