import ExponentCore.Vault.Proof.Position

/-!
# The rounding of interest

A staging credits the difference of two rounded reciprocals times the balance, rounded down. The
reciprocals telescope, so staging often, or in parts, loses less than one unit for each staging and
gains nothing (`staged_often`).

The difference itself is not on one side of the exact entitlement: the reciprocal of the new rate
may be rounded down by more than that of the old one. `never_overpays_iff` says when a credit is
within the entitlement all the same.
-/

set_option autoImplicit false

namespace ExponentCore

open Number

variable {v v' : Vault} {p p' q : YieldTokenPosition} {vs : List Vault}
  {ps ps' : List YieldTokenPosition} {n m y : UInt64} {r s : Number}

/-! ## Staging often -/

/-- The growth of the yield between two rates, in units. -/
def yieldGrowth (r s : Number) : Nat := reciprocal r - reciprocal s

theorem calcEarnedSy_bounds (hr : 0 < r) (h : r ≤ s) (hn : calcEarnedSy y r s = .ok n) :
    n.toNat * denom ≤ yieldGrowth r s * y.toNat ∧
      yieldGrowth r s * y.toNat < (n.toNat + 1) * denom := by
  rcases h.lt_or_eq with hlt | rfl
  · by_cases hy : y = 0
    · subst hy
      rw [calcEarnedSy_zero_balance hn, UInt64.toNat_zero, Nat.zero_mul, Nat.zero_add, Nat.one_mul]
      exact ⟨Nat.zero_le _, denom_pos⟩
    · rw [calcEarnedSy_toNat hlt hy hr hn]
      refine ⟨Nat.div_mul_le_self _ _, ?_⟩
      rw [Nat.mul_comm _ denom]
      exact Nat.lt_mul_div_succ _ denom_pos
  · rw [calcEarnedSy_of_le le_rfl hn, yieldGrowth, Nat.sub_self, UInt64.toNat_zero, Nat.zero_mul,
      Nat.zero_mul, Nat.zero_add, Nat.one_mul]
    exact ⟨Nat.zero_le _, denom_pos⟩

/-- The vault is not in emergency mode, and its final rate is the current one. -/
structure Vault.Calm (v : Vault) : Prop where
  noEmergency : v.isInEmergencyMode = false
  final : v.finalSyExchangeRate = v.lastSeenSyExchangeRate

/-- Staging at every vault of a list in turn. -/
def YieldTokenPosition.earnSyInterestOver (p : YieldTokenPosition) :
    List Vault → Outcome YieldTokenPosition
  | [] => .ok p
  | v :: vs => do
    let (_, p) ← p.earnSyInterest v
    p.earnSyInterestOver vs

/-- **One staging** of a calm vault. -/
structure CalmlyStaged (p p' : YieldTokenPosition) (v : Vault) : Prop where
  ytBalance : p'.ytBalance = p.ytBalance
  index : p'.interest.lastSeenIndex = v.finalSyExchangeRate
  staged : ∃ c : UInt64, p'.interest.staged.toNat = p.interest.staged.toNat + c.toNat ∧
    calcEarnedSy p.ytBalance p.interest.lastSeenIndex v.finalSyExchangeRate = .ok c

theorem calmlyStaged_of_ok (hv : v.Calm) (h : p.earnSyInterest v = .ok (v', p')) :
    CalmlyStaged p p' v := by
  obtain ⟨c, u, hc, -, -, s, hs, rfl⟩ := earnSyInterest_eq_ok h
  refine ⟨rfl, by simp [hv.noEmergency], c, hs, ?_⟩
  simp only [YieldTokenPosition.credit, hv.noEmergency, Bool.false_eq_true, if_false,
    YieldTokenPosition.interestDue, bind_eq_ok] at hc
  obtain ⟨m, hm, hscale⟩ := hc
  rw [scaleSyToCurrentRate_of_le hv.final.ge] at hscale
  rw [hm, hscale]

theorem yieldGrowth_add {a b c : Number} (ha : 0 < a) (hab : a ≤ b) (hbc : b ≤ c) :
    yieldGrowth a b + yieldGrowth b c = yieldGrowth a c := by
  have h₁ := reciprocal_anti ha hab
  have h₂ := reciprocal_anti (ha.trans_le hab) hbc
  unfold yieldGrowth
  omega

/-- **What a position gains** by a sequence of stagings, against the growth of the yield. -/
structure Gained (p p' : YieldTokenPosition) (steps : Nat) : Prop where
  ytBalance : p'.ytBalance = p.ytBalance
  index_le : p.interest.lastSeenIndex ≤ p'.interest.lastSeenIndex
  gain : ∃ g, p'.interest.staged.toNat = p.interest.staged.toNat + g ∧
    g * denom ≤
      yieldGrowth p.interest.lastSeenIndex p'.interest.lastSeenIndex * p.ytBalance.toNat ∧
    yieldGrowth p.interest.lastSeenIndex p'.interest.lastSeenIndex * p.ytBalance.toNat
      ≤ (g + steps) * denom

theorem CalmlyStaged.gained (h : CalmlyStaged p p' v) (hp : 0 < p.interest.lastSeenIndex)
    (hle : p.interest.lastSeenIndex ≤ v.finalSyExchangeRate) : Gained p p' 1 := by
  obtain ⟨c, hstaged, hc⟩ := h.staged
  obtain ⟨hlow, hhigh⟩ := calcEarnedSy_bounds hp hle hc
  rw [← h.index] at hle hlow hhigh
  exact ⟨h.ytBalance, hle, c.toNat, hstaged, hlow, hhigh.le⟩

theorem Gained.trans {k l : Nat} (h : Gained p q k) (h' : Gained q p' l)
    (hp : 0 < p.interest.lastSeenIndex) : Gained p p' (l + k) := by
  obtain ⟨g, hg, hlow, hhigh⟩ := h.gain
  obtain ⟨g', hg', hlow', hhigh'⟩ := h'.gain
  refine ⟨h'.ytBalance.trans h.ytBalance, h.index_le.trans h'.index_le, g + g', by omega, ?_⟩
  rw [h.ytBalance] at hlow' hhigh'
  rw [← yieldGrowth_add hp h.index_le h'.index_le]
  simp only [Nat.add_mul] at hhigh hhigh' ⊢
  omega

theorem gained_of_earnSyInterestOver (hp : 0 < p.interest.lastSeenIndex)
    (hcalm : ∀ v ∈ vs, v.Calm)
    (hrates : (p.interest.lastSeenIndex :: vs.map Vault.finalSyExchangeRate).IsChain (· ≤ ·))
    (h : p.earnSyInterestOver vs = .ok p') :
    Gained p p' vs.length ∧
      ∀ last, vs.getLast? = some last → p'.interest.lastSeenIndex = last.finalSyExchangeRate := by
  induction vs generalizing p with
  | nil =>
    obtain rfl := Except.ok.inj h
    refine ⟨⟨rfl, le_rfl, 0, rfl, ?_⟩, fun last hlast => by cases hlast⟩
    rw [yieldGrowth, Nat.sub_self, Nat.zero_mul, Nat.zero_mul]
    exact ⟨Nat.zero_le _, Nat.zero_le _⟩
  | cons v vs ih =>
    simp only [YieldTokenPosition.earnSyInterestOver, bind_eq_ok, Prod.exists] at h
    obtain ⟨v', q, hq, h⟩ := h
    have hs := calmlyStaged_of_ok (hcalm v List.mem_cons_self) hq
    rw [List.map_cons, List.isChain_cons_cons] at hrates
    obtain ⟨hle, hchain⟩ := hrates
    have hfirst := hs.gained hp hle
    rw [← hs.index] at hle hchain
    obtain ⟨hrest, hlast⟩ := ih (hp.trans_le hle)
      (fun w hw => hcalm w (List.mem_cons_of_mem v hw)) hchain h
    refine ⟨hfirst.trans hrest hp, fun last hl => ?_⟩
    cases vs with
    | nil =>
      obtain rfl := Except.ok.inj h
      obtain rfl := Option.some.inj hl
      exact hs.index
    | cons w vs => exact hlast last hl

theorem forall₂_of_mem {α β : Type} {R S : α → β → Prop} {l : List α} {l' : List β}
    (h : List.Forall₂ R l l') (himp : ∀ a ∈ l, ∀ b, R a b → S a b) : List.Forall₂ S l l' := by
  induction h with
  | nil => exact .nil
  | cons hab _ ih =>
    exact .cons (himp _ List.mem_cons_self _ hab)
      (ih fun a ha => himp a (List.mem_cons_of_mem _ ha))

/-- What all positions together gain. -/
theorem gains_bounds {steps : Nat}
    (h : List.Forall₂ (fun x x' => Gained x x' steps ∧ x.interest.lastSeenIndex = r ∧
      x'.interest.lastSeenIndex = s) ps ps') :
    ∃ g, (ps'.map fun x => x.interest.staged.toNat).sum
        = (ps.map fun x => x.interest.staged.toNat).sum + g ∧
      g * denom ≤ yieldGrowth r s * (ps.map fun x => x.ytBalance.toNat).sum ∧
      yieldGrowth r s * (ps.map fun x => x.ytBalance.toNat).sum
        ≤ (g + ps.length * steps) * denom := by
  induction h with
  | nil => exact ⟨0, rfl, by simp, by simp⟩
  | @cons x x' ps ps' hx _ ih =>
    obtain ⟨g, hg, hlow, hhigh⟩ := ih
    obtain ⟨hgained, hr, hs⟩ := hx
    obtain ⟨k, hk, hxlow, hxhigh⟩ := hgained.gain
    rw [hr, hs] at hxlow hxhigh
    refine ⟨k + g, ?_, ?_, ?_⟩
    · simp only [List.map_cons, List.sum_cons]
      omega
    · simp only [List.map_cons, List.sum_cons, Nat.mul_add, Nat.add_mul]
      omega
    · simp only [List.map_cons, List.sum_cons, List.length_cons, Nat.mul_add, Nat.add_mul,
        Nat.one_mul] at hhigh hxhigh ⊢
      omega

/-- **Interest does not depend on how often it is staged**, nor on how the balance is split:
positions that stage at each of a number of rising rates gain together what a position with all of
the balance gains by staging at the last rate only, less at most one unit for each of the stagings.
-/
theorem staged_often (hps : ∀ x ∈ ps, x.interest.lastSeenIndex = p.interest.lastSeenIndex)
    (hsplit : (ps.map fun x => x.ytBalance.toNat).sum = p.ytBalance.toNat)
    (hp : 0 < p.interest.lastSeenIndex) (hcalm : ∀ v ∈ vs, v.Calm)
    (hrates : (p.interest.lastSeenIndex :: vs.map Vault.finalSyExchangeRate).IsChain (· ≤ ·))
    (hall : List.Forall₂ (fun x x' => x.earnSyInterestOver vs = .ok x') ps ps')
    (hlast : vs.getLast? = some v) (hone : p.earnSyInterest v = .ok (v', q)) :
    ∃ gain gains : Nat, q.interest.staged.toNat = p.interest.staged.toNat + gain ∧
      (ps'.map fun x => x.interest.staged.toNat).sum
        = (ps.map fun x => x.interest.staged.toNat).sum + gains ∧
      gains ≤ gain ∧ gain ≤ gains + ps.length * vs.length := by
  have hmem : v ∈ vs := List.mem_of_getLast? hlast
  have hv := hcalm v hmem
  have hle : p.interest.lastSeenIndex ≤ v.finalSyExchangeRate :=
    hrates.rel_cons (List.mem_map_of_mem hmem)
  obtain ⟨c, hgain, hc⟩ := (calmlyStaged_of_ok hv hone).staged
  obtain ⟨hlow, hhigh⟩ := calcEarnedSy_bounds hp hle hc
  have heach : List.Forall₂ (fun x x' => Gained x x' vs.length ∧
      x.interest.lastSeenIndex = p.interest.lastSeenIndex ∧
      x'.interest.lastSeenIndex = v.finalSyExchangeRate) ps ps' := by
    refine forall₂_of_mem hall fun x hx x' hok => ?_
    have hchain := hrates
    rw [← hps x hx] at hchain
    obtain ⟨hgained, hindex⟩ := gained_of_earnSyInterestOver (hps x hx ▸ hp) hcalm hchain hok
    exact ⟨hgained, hps x hx, hindex v hlast⟩
  obtain ⟨g, hg, hglow, hghigh⟩ := gains_bounds heach
  rw [hsplit] at hglow hghigh
  refine ⟨c.toNat, g, hgain, hg, ?_, ?_⟩
  · have hlt : g * denom < (c.toNat + 1) * denom := hglow.trans_lt hhigh
    have := Nat.lt_of_mul_lt_mul_right hlt
    omega
  · exact Nat.le_of_mul_le_mul_right (hlow.trans hghigh) denom_pos

/-- A vault that has only seen one rate. -/
def vaultAt (rate : Number) : Vault :=
  { lastSeenSyExchangeRate := rate, allTimeHighSyExchangeRate := rate, finalSyExchangeRate := rate }

def wholeNumber (n : UInt64) : Number := fromNaturalU64 n

/-- A position from when the rate was one. -/
def yieldHolder (ytBalance : UInt64) : YieldTokenPosition := { ytBalance, interest := ⟨1, 0⟩ }

/-- Two parts are staged at the rates two and three, and the whole at the rate three. -/
theorem staged_often_inParts :
    ∃ p₁ p₂ q v', (yieldHolder 1000).earnSyInterestOver
          [vaultAt (wholeNumber 2), vaultAt (wholeNumber 3)] = .ok p₁ ∧
      (yieldHolder 2000).earnSyInterestOver
          [vaultAt (wholeNumber 2), vaultAt (wholeNumber 3)] = .ok p₂ ∧
      (yieldHolder 3000).earnSyInterest (vaultAt (wholeNumber 3)) = .ok (v', q) ∧
      ∃ gain gains : Nat, q.interest.staged.toNat = 0 + gain ∧
        p₁.interest.staged.toNat + (p₂.interest.staged.toNat + 0) = 0 + gains ∧
        gains ≤ gain ∧ gain ≤ gains + 2 * 2 := by
  obtain ⟨p₁, hp₁, -⟩ : ∃ p, (yieldHolder 1000).earnSyInterestOver
      [vaultAt (wholeNumber 2), vaultAt (wholeNumber 3)] = .ok p ∧ True := by decide +kernel
  obtain ⟨p₂, hp₂, -⟩ : ∃ p, (yieldHolder 2000).earnSyInterestOver
      [vaultAt (wholeNumber 2), vaultAt (wholeNumber 3)] = .ok p ∧ True := by decide +kernel
  obtain ⟨⟨v', q⟩, hq, -⟩ : ∃ r, (yieldHolder 3000).earnSyInterest (vaultAt (wholeNumber 3))
      = .ok r ∧ True := by decide +kernel
  have hcalm : ∀ v ∈ [vaultAt (wholeNumber 2), vaultAt (wholeNumber 3)], v.Calm := by
    intro v hv
    rcases List.mem_pair.1 hv with rfl | rfl
    · exact ⟨by decide +kernel, rfl⟩
    · exact ⟨by decide +kernel, rfl⟩
  have hindex : ∀ x ∈ [yieldHolder 1000, yieldHolder 2000],
      x.interest.lastSeenIndex = (yieldHolder 3000).interest.lastSeenIndex := by
    simp [yieldHolder]
  have hgains := staged_often hindex
    (by decide) (by decide +kernel) hcalm (by simp only [List.map]; decide +kernel)
    (.cons hp₁ (.cons hp₂ .nil)) rfl hq
  exact ⟨p₁, p₂, q, v', hp₁, hp₂, hq, hgains⟩

/-! ## The exact entitlement -/

/-- The yield that a balance is entitled to between two rates, in SY. -/
def entitlement (y : UInt64) (r s : Number) : ℚ := y.toNat * (1 / r.value - 1 / s.value)

/-- What rounding adds to the reciprocal of a rate, in units. -/
def reciprocalExcess (r : Number) : ℚ :=
  ((roundingCorrection : ℚ) - ((denom * denom + roundingCorrection) % r.raw : Nat)) / r.raw

/-- What rounding adds to the quotient of two rates, in units. A numerator too large to widen is
divided first. -/
def quotientExcess (r s : Number) : ℚ :=
  if r.raw * denom < 2 ^ 256 then
    ((roundingCorrection : ℚ) - ((r.raw * denom + roundingCorrection) % s.raw : Nat)) / s.raw
  else
    ((r.raw + roundingCorrection) / s.raw * denom : Nat) - (r.raw * denom : ℚ) / s.raw

/-- **The rounding of the reciprocals does not overpay**: it does not carry the entitlement to the
next unit. -/
def YieldRoundsFairly (y : UInt64) (r s : Number) : Prop :=
  y.toNat * (reciprocalExcess r - reciprocalExcess s) / denom < 1 - Int.fract (entitlement y r s)

/-- The same for the scaling of an amount from a final rate to a current one. -/
def ScaleRoundsFairly (m : UInt64) (r s : Number) : Prop :=
  r = s ∨ m.toNat * quotientExcess r s / denom < 1 - Int.fract (m.toNat * (r.value / s.value))

/-- Rounding an amount down that an error has moved. -/
theorem floor_add_le_iff {x d : ℚ} : ((⌊x + d⌋ : ℤ) : ℚ) ≤ x ↔ d < 1 - Int.fract x := by
  rw [← Int.le_floor, ← Int.lt_add_one_iff, Int.floor_lt, Int.fract, Int.cast_add, Int.cast_one]
  constructor
  · intro h
    linarith
  · intro h
    linarith

theorem cast_div_eq_floor {k d : Nat} : ((k / d : Nat) : ℚ) = (⌊(k : ℚ) / d⌋ : ℤ) := by
  rw [Rat.floor_natCast_div_natCast]
  norm_cast

/-- A rounded quotient is the quotient and an excess. -/
theorem rounded_div {x c : Nat} (d : Nat) (hc : c ≠ 0) :
    (((x + d) / c : Nat) : ℚ) = x / c + (d - ((x + d) % c : Nat)) / c := by
  have hmod : (((x + d) / c * c + (x + d) % c : Nat) : ℚ) = (x + d : Nat) := by
    rw [Nat.div_add_mod']
  have hc' : (c : ℚ) ≠ 0 := Nat.cast_ne_zero.2 hc
  push_cast at hmod ⊢
  field_simp
  linarith

theorem reciprocal_cast (hr : 0 < r) :
    (reciprocal r : ℚ) = denom * (1 / r.value) + reciprocalExcess r := by
  have hr' : r.raw ≠ 0 := (lt_def.1 hr).ne'
  have hraw : (r.raw : ℚ) ≠ 0 := Nat.cast_ne_zero.2 hr'
  have hd := denom_cast_pos.ne'
  rw [reciprocal, rounded_div _ hr', reciprocalExcess, Number.value]
  push_cast
  field_simp

theorem calcEarnedSy_le_entitlement_iff (hr : 0 < r) (h : r ≤ s)
    (hn : calcEarnedSy y r s = .ok n) :
    (n.toNat : ℚ) ≤ entitlement y r s ↔ YieldRoundsFairly y r s := by
  have hanti := reciprocal_anti hr h
  have hgrowth : (n.toNat : ℚ) = (⌊entitlement y r s
      + y.toNat * (reciprocalExcess r - reciprocalExcess s) / denom⌋ : ℤ) := by
    have hn' : n.toNat = yieldGrowth r s * y.toNat / denom := by
      obtain ⟨hlow, hhigh⟩ := calcEarnedSy_bounds hr h hn
      exact (Nat.div_eq_of_lt_le hlow hhigh).symm
    rw [hn', cast_div_eq_floor, yieldGrowth]
    congr 2
    rw [Nat.cast_mul, Nat.cast_sub hanti, reciprocal_cast hr, reciprocal_cast (hr.trans_le h),
      entitlement]
    have hd := denom_cast_pos.ne'
    field_simp
    ring
  rw [hgrowth, floor_add_le_iff, YieldRoundsFairly]

theorem div_raw {k : Number} (h : r.div s = .ok k) :
    k.raw = if r.raw * denom < 2 ^ 256 then (r.raw * denom + roundingCorrection) / s.raw
      else (r.raw + roundingCorrection) / s.raw * denom := by
  rw [div, unwrap_eq_ok] at h
  unfold checkedDiv at h
  split at h
  · cases h
  · split at h
    · rename_i hfit
      rw [if_pos hfit]
      split at h
      · exact ofRaw_eq_some.1 h
      · cases h
    · rename_i hfit
      rw [if_neg hfit]
      split at h
      · exact ofRaw_eq_some.1 h
      · cases h

theorem div_cast {k : Number} (hs : 0 < s) (h : r.div s = .ok k) :
    (k.raw : ℚ) = denom * (r.value / s.value) + quotientExcess r s := by
  have hs' : s.raw ≠ 0 := (lt_def.1 hs).ne'
  have hraw : (s.raw : ℚ) ≠ 0 := Nat.cast_ne_zero.2 hs'
  have hd := denom_cast_pos.ne'
  have hvalue : (denom : ℚ) * (r.value / s.value) = (r.raw * denom : ℚ) / s.raw := by
    rw [Number.value, Number.value]
    field_simp
  rw [div_raw h, quotientExcess, hvalue]
  split
  · rw [rounded_div _ hs']
    push_cast
    rfl
  · rw [add_sub_cancel]

theorem scaleSyToCurrentRate_le_iff (hr : 0 < r) (h : r ≤ s)
    (hn : scaleSyToCurrentRate m r s = .ok n) :
    (n.toNat : ℚ) ≤ m.toNat * (r.value / s.value) ↔ ScaleRoundsFairly m r s := by
  unfold scaleSyToCurrentRate at hn
  split at hn
  · rename_i hle
    obtain rfl := le_antisymm h hle
    obtain rfl := Except.ok.inj hn
    have hval : r.value / r.value = 1 :=
      div_self (div_ne_zero (Nat.cast_ne_zero.2 (lt_def.1 hr).ne') denom_cast_pos.ne')
    rw [hval, mul_one]
    exact ⟨fun _ => .inl rfl, fun _ => le_rfl⟩
  · rename_i hlt
    have hne : r ≠ s := fun heq => hlt heq.ge
    rw [bind_eq_ok] at hn
    obtain ⟨k, hk, hfloor⟩ := hn
    rw [mul_natural_floor] at hfloor
    have hcast : (n.toNat : ℚ) = (⌊m.toNat * (r.value / s.value)
        + m.toNat * quotientExcess r s / denom⌋ : ℤ) := by
      rw [hfloor, cast_div_eq_floor]
      congr 2
      rw [Nat.cast_mul, div_cast (hr.trans_le h) hk]
      have hd := denom_cast_pos.ne'
      field_simp
    rw [hcast, floor_add_le_iff, ScaleRoundsFairly, or_iff_right hne]

/-- **When interest does not overpay**: what is earned up to the final rate is within the
entitlement exactly if the reciprocals round fairly, and what is left of an amount at the current
rate is within its value exactly if the quotient does. When both do, the credit of a position is
within its entitlement at the current rate. -/
theorem never_overpays_iff {rc : Number} {e k : UInt64} (hr : 0 < r) (h : r ≤ s) (h' : s ≤ rc)
    (he : calcEarnedSy y r s = .ok e) (hk : scaleSyToCurrentRate m s rc = .ok k) :
    ((e.toNat : ℚ) ≤ entitlement y r s ∧ (k.toNat : ℚ) ≤ m.toNat * (s.value / rc.value) ↔
      YieldRoundsFairly y r s ∧ ScaleRoundsFairly m s rc) ∧
    ∀ (p : YieldTokenPosition) (v : Vault), p.ytBalance = y → p.interest.lastSeenIndex = r →
      v.finalSyExchangeRate = s → v.lastSeenSyExchangeRate = rc →
      YieldRoundsFairly y r s → ScaleRoundsFairly e s rc →
      ∀ c, p.interestDue v = .ok c →
        (c.toNat : ℚ) ≤ entitlement y r s * (s.value / rc.value) := by
  refine ⟨and_congr (calcEarnedSy_le_entitlement_iff hr h he)
    (scaleSyToCurrentRate_le_iff (hr.trans_le h) h' hk), ?_⟩
  rintro p v rfl rfl rfl rfl hyield hscale c hc
  simp only [YieldTokenPosition.interestDue, bind_eq_ok] at hc
  obtain ⟨e', he', hc⟩ := hc
  obtain rfl : e' = e := Except.ok.inj (he'.symm.trans he)
  have hearned := (calcEarnedSy_le_entitlement_iff hr h he).2 hyield
  have hscaled := (scaleSyToCurrentRate_le_iff (hr.trans_le h) h' hc).2 hscale
  refine hscaled.trans (mul_le_mul_of_nonneg_right hearned ?_)
  exact div_nonneg value_nonneg value_nonneg

theorem never_overpays_iff_even :
    ∃ e k, calcEarnedSy 3000 (wholeNumber 1) (wholeNumber 2) = .ok e ∧
      scaleSyToCurrentRate 1500 (wholeNumber 2) (wholeNumber 4) = .ok k ∧
      ((e.toNat : ℚ) ≤ entitlement 3000 (wholeNumber 1) (wholeNumber 2) ∧
        (k.toNat : ℚ) ≤ (1500 : UInt64).toNat * ((wholeNumber 2).value / (wholeNumber 4).value) ↔
        YieldRoundsFairly 3000 (wholeNumber 1) (wholeNumber 2) ∧
          ScaleRoundsFairly 1500 (wholeNumber 2) (wholeNumber 4)) := by
  obtain ⟨e, he, -⟩ : ∃ e, calcEarnedSy 3000 (wholeNumber 1) (wholeNumber 2) = .ok e ∧ True := by
    decide +kernel
  obtain ⟨k, hk, -⟩ : ∃ k, scaleSyToCurrentRate 1500 (wholeNumber 2) (wholeNumber 4) = .ok k ∧
      True := by decide +kernel
  exact ⟨e, k, he, hk, (never_overpays_iff (by decide +kernel) (by decide +kernel)
    (by decide +kernel) he hk).1⟩

/-- One SY more than the entitlement: one third is rounded down, and what is left of one is too
much. -/
theorem overpays_third :
    ∃ e, calcEarnedSy 3000000000000 (wholeNumber 1) (wholeNumber 3) = .ok e ∧
      ¬ (e.toNat : ℚ) ≤ entitlement 3000000000000 (wholeNumber 1) (wholeNumber 3) := by
  decide +kernel

end ExponentCore
