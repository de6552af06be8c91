import ExponentCore.Num.Proof.PreciseNumber
import ExponentCore.Vault.State

/-!
# What the vault methods do

One lemma per method, from a successful call to the values of the new vault. `Vault.Updated` is the
effect of `updateFromSyState` on the SY counters and the rates; the emissions are in
`Emissions.lean`. The treasury's share of an update never exceeds the active SY
(`calcSyAppreciation_le`), so an update keeps the set-aside SY within the escrow.
-/

set_option autoImplicit false

namespace ExponentCore

open Number

variable {v v' : Vault} {now : UInt32} {syState : SyState} {amount n : UInt64}

theorem min_toNat (a b : UInt64) : (min a b).toNat = min a.toNat b.toNat := by
  show (if a ≤ b then a else b).toNat = _
  split
  · rename_i h
    rw [min_eq_left (UInt64.le_iff_toNat_le.1 h)]
  · rename_i h
    rw [UInt64.le_iff_toNat_le] at h
    omega

namespace Vault

/-! ## Time -/

/-- The last second at which the vault is active. -/
def maturity (v : Vault) : Nat := v.startTs.toNat + v.duration.toNat

theorem isExpired_eq_ok {b : Bool} :
    v.isExpired now = .ok b ↔ v.maturity < 2 ^ 32 ∧ b = decide (v.maturity < now.toNat) := by
  unfold isExpired
  simp only [bind_eq_ok, addU32_eq_ok, Except.ok.injEq]
  constructor
  · rintro ⟨m, hm, rfl⟩
    refine ⟨by rw [maturity, ← hm]; exact m.toNat_lt, ?_⟩
    rw [maturity, ← hm]; rfl
  · rintro ⟨hlt, rfl⟩
    refine ⟨UInt32.ofNat v.maturity, UInt32.toNat_ofNat_of_lt' hlt, ?_⟩
    simp only [UInt32.lt_iff_toNat_lt, UInt32.toNat_ofNat_of_lt' hlt]

theorem isActive_eq_true :
    v.isActive now = .ok true ↔
      v.startTs.toNat ≤ now.toNat ∧ now.toNat ≤ v.maturity ∧ v.maturity < 2 ^ 32 := by
  unfold isActive
  split
  · rename_i h
    rw [UInt32.le_iff_toNat_le] at h
    simp only [bind_eq_ok, isExpired_eq_ok, Except.ok.injEq, Bool.not_eq_true']
    constructor
    · rintro ⟨b, ⟨hlt, rfl⟩, hb⟩
      exact ⟨h, by simpa using hb, hlt⟩
    · rintro ⟨-, hle, hlt⟩
      exact ⟨false, ⟨hlt, by simpa using hle⟩, rfl⟩
  · rename_i h
    rw [UInt32.le_iff_toNat_le] at h
    simp [h]

theorem isActive_eq_false :
    v.isActive now = .ok false ↔
      now.toNat < v.startTs.toNat ∨ v.maturity < 2 ^ 32 ∧ v.maturity < now.toNat := by
  unfold isActive
  split
  · rename_i h
    rw [UInt32.le_iff_toNat_le] at h
    simp only [bind_eq_ok, isExpired_eq_ok, Except.ok.injEq, Bool.not_eq_false']
    constructor
    · rintro ⟨b, ⟨hlt, rfl⟩, hb⟩
      exact .inr ⟨hlt, by simpa using hb⟩
    · rintro (hlt | ⟨hlt, hm⟩)
      · omega
      · exact ⟨true, ⟨hlt, by simpa using hm⟩, rfl⟩
  · rename_i h
    rw [UInt32.le_iff_toNat_le] at h
    simp only [true_iff]
    omega

theorem isInEmergencyMode_eq_false :
    v.isInEmergencyMode = false ↔ v.allTimeHighSyExchangeRate ≤ v.lastSeenSyExchangeRate := by
  simp [isInEmergencyMode]

/-! ## Active SY and the backing of PT -/

theorem activeSy_toNat :
    v.activeSy.toNat
      = v.totalSyInEscrow.toNat - v.treasurySy.toNat - v.uncollectedSy.toNat := by
  unfold activeSy
  cases h₁ : checkedSub v.totalSyInEscrow v.treasurySy with
  | none =>
    have hlt := checkedSub_eq_none.1 h₁
    simp only [Option.bind_none, Option.getD_none, UInt64.toNat_zero]
    omega
  | some x =>
    rw [checkedSub_eq_some] at h₁
    rw [Option.bind_some]
    cases h₂ : checkedSub x v.uncollectedSy with
    | none =>
      have hlt := checkedSub_eq_none.1 h₂
      simp only [Option.getD_none, UInt64.toNat_zero]
      omega
    | some y =>
      rw [checkedSub_eq_some] at h₂
      rw [Option.getD_some]
      omega

/-- The value of the PT in SY at a rate, rounded down; `0` at rate zero. -/
def ptValue (ptSupply : UInt64) (rate : Number) : Nat := ptSupply.toNat * denom / rate.raw

theorem syBackingForPt_eq_ok {rate : Number} {pt sy : UInt64}
    (h : syBackingForPt rate pt sy = .ok n) : n.toNat = min (ptValue pt rate) sy.toNat := by
  unfold syBackingForPt at h
  split at h
  · rename_i h0
    cases h
    simp [ptValue, eq_zero_iff.1 h0]
  · have hdiv : ∃ m : UInt64, ((fromNaturalU64 pt).div rate >>= floorU64) = .ok m ∧
        min m sy = n := by
      simp only [bind_eq_ok, Except.ok.injEq] at h ⊢
      obtain ⟨q, hq, m, hm, hn⟩ := h
      exact ⟨m, ⟨q, hq, hm⟩, hn⟩
    obtain ⟨m, hm, rfl⟩ := hdiv
    rw [min_toNat, (natural_div_floor.1 hm).2, ptValue]

/-- `setSyForPt` changes one field: the value of the PT, but no more than the active SY. -/
theorem setSyForPt_eq_ok (h : v.setSyForPt = .ok v') :
    ∃ s : UInt64, v' = { v with syForPt := s } ∧
      s.toNat = min (ptValue v.ptSupply v.lastSeenSyExchangeRate) v.activeSy.toNat := by
  simp only [setSyForPt, syBackingPt, bind_eq_ok, Except.ok.injEq] at h
  obtain ⟨s, hs, rfl⟩ := h
  exact ⟨s, rfl, syBackingForPt_eq_ok hs⟩

/-! ## Counters -/

section
variable {t : UInt64}

theorem incTotalSyInEscrow_eq_ok : v.incTotalSyInEscrow amount = .ok v' ↔
    ∃ t : UInt64, t.toNat = v.totalSyInEscrow.toNat + amount.toNat ∧
      { v with totalSyInEscrow := t } = v' := by
  simp [incTotalSyInEscrow, bind_eq_ok, checkedAdd_eq_some]

theorem decTotalSyInEscrow_eq_ok : v.decTotalSyInEscrow amount = .ok v' ↔
    ∃ t : UInt64, t.toNat + amount.toNat = v.totalSyInEscrow.toNat ∧
      { v with totalSyInEscrow := t } = v' := by
  simp [decTotalSyInEscrow, bind_eq_ok, checkedSub_eq_some]

theorem incPtSupply_eq_ok : v.incPtSupply amount = .ok v' ↔
    ∃ t : UInt64, t.toNat = v.ptSupply.toNat + amount.toNat ∧ t ≤ v.maxPySupply ∧
      { v with ptSupply := t } = v' := by
  simp [incPtSupply, bind_eq_ok, checkedAdd_eq_some]

theorem decPtSupply_eq_ok : v.decPtSupply amount = .ok v' ↔
    ∃ t : UInt64, t.toNat + amount.toNat = v.ptSupply.toNat ∧ { v with ptSupply := t } = v' := by
  simp [decPtSupply, bind_eq_ok, checkedSub_eq_some]

theorem incTreasurySy_eq_ok : v.incTreasurySy amount = .ok v' ↔
    ∃ t : UInt64, t.toNat = v.treasurySy.toNat + amount.toNat ∧
      { v with treasurySy := t } = v' := by
  simp [incTreasurySy, bind_eq_ok, checkedAdd_eq_some]

theorem incUncollectedSy_eq_ok : v.incUncollectedSy amount = .ok v' ↔
    ∃ t : UInt64, t.toNat = v.uncollectedSy.toNat + amount.toNat ∧
      { v with uncollectedSy := t } = v' := by
  simp [incUncollectedSy, bind_eq_ok, checkedAdd_eq_some]

theorem decUncollectedSy_eq_ok : v.decUncollectedSy amount = .ok v' ↔
    ∃ t : UInt64, t.toNat + amount.toNat = v.uncollectedSy.toNat ∧
      { v with uncollectedSy := t } = v' := by
  simp [decUncollectedSy, bind_eq_ok, checkedSub_eq_some]

theorem collectTreasuryInterest_eq_ok : v.collectTreasuryInterest amount = .ok v' ↔
    ∃ t : UInt64, t.toNat + amount.toNat = v.treasurySy.toNat ∧
      { v with treasurySy := t } = v' := by
  simp [Vault.collectTreasuryInterest, bind_eq_ok, checkedSub_eq_some]

end

end Vault

/-! ## The treasury's share -/

/-- A product with a whole number is never rounded up. -/
theorem mul_natural_le {a p : Number} (h : a.mul (fromNaturalU64 n) = .ok p) :
    p.raw ≤ a.raw * n.toNat :=
  (mul_natural_eq_ok.1 h).trans_le (product_le _)

/-- A rounded-down quotient that is at most a `u64` before rounding stays so. -/
theorem div_floor_le {p c : Number} {k : UInt64} (h : (p.div c >>= floorU64) = .ok n)
    (hle : p.raw ≤ k.toNat * c.raw) : n ≤ k := by
  simp only [bind_eq_ok, div_eq_ok, floorU64_eq_ok] at h
  obtain ⟨q, ⟨-, -, hq⟩, hn⟩ := h
  rw [UInt64.le_iff_toNat_le, hn, hq]
  exact quotient_div_denom_le hle

/-- The treasury's share of an update is at most the SY it is taken from. -/
theorem calcSyAppreciation_le {last cur : Number} {a : UInt64}
    (h : calcSyAppreciation last cur a = .ok n) : n ≤ a := by
  unfold calcSyAppreciation at h
  split at h
  · cases h
    exact UInt64.zero_le
  · rw [bind_eq_ok] at h
    obtain ⟨d, hd, h⟩ := h
    rw [bind_eq_ok] at h
    obtain ⟨p, hp, h⟩ := h
    rw [sub_eq_ok] at hd
    refine div_floor_le h ((mul_natural_le hp).trans ?_)
    rw [Nat.mul_comm]
    exact Nat.mul_le_mul_left _ (by omega)

/-! ## Updating from the SY state -/

namespace Vault

/-- The SY that an update moves to the treasury. -/
def SkimmedBy (v : Vault) (syState : SyState) (now : UInt32) (n : UInt64) : Prop :=
  v.canCollectSyLambo now syState = .ok true ∧ v.calcSySurplus syState = .ok n ∨
    v.canCollectSyLambo now syState = .ok false ∧ n = 0

/-- **What an update does** to the SY counters and the rates. -/
structure Updated (v : Vault) (syState : SyState) (now : UInt32) (v' : Vault) : Prop where
  startTs : v'.startTs = v.startTs
  duration : v'.duration = v.duration
  escrow : v'.totalSyInEscrow = v.totalSyInEscrow
  ptSupply : v'.ptSupply = v.ptSupply
  uncollected : v'.uncollectedSy = v.uncollectedSy
  skim : ∃ n, v.SkimmedBy syState now n ∧ v'.treasurySy.toNat = v.treasurySy.toNat + n.toNat
  lastSeen : v'.lastSeenSyExchangeRate = syState.exchangeRate
  allTimeHigh :
    v'.allTimeHighSyExchangeRate = max syState.exchangeRate v.allTimeHighSyExchangeRate
  final : v.isActive now = .ok true ∧ v'.finalSyExchangeRate = syState.exchangeRate ∨
    v.isActive now = .ok false ∧ v'.finalSyExchangeRate = v.finalSyExchangeRate
  backing : v'.syForPt.toNat = min (ptValue v.ptSupply syState.exchangeRate) v'.activeSy.toNat

theorem skimSy_eq_ok (h : v.skimSy syState now = .ok v') :
    ∃ n t : UInt64, v.SkimmedBy syState now n ∧ t.toNat = v.treasurySy.toNat + n.toNat ∧
      v' = { v with treasurySy := t } := by
  rw [skimSy, bind_eq_ok] at h
  obtain ⟨b, hb, h⟩ := h
  cases b with
  | true =>
    simp only [↓reduceIte, bind_eq_ok, incTreasurySy_eq_ok] at h
    obtain ⟨n, hn, t, ht, rfl⟩ := h
    exact ⟨n, t, .inl ⟨hb, hn⟩, ht, rfl⟩
  | false =>
    simp only [Bool.false_eq_true, ↓reduceIte, Except.ok.injEq] at h
    exact ⟨0, v.treasurySy, .inr ⟨hb, rfl⟩, by simp, h.symm⟩

theorem skimEmissions_eq_ok (h : v.skimEmissions syState now = .ok v') :
    ∃ es, v' = { v with emissions := es } := by
  rw [skimEmissions, bind_eq_ok] at h
  obtain ⟨b, -, h⟩ := h
  cases b with
  | true =>
    simp only [↓reduceIte, increaseEmissionLamboFund, bind_eq_ok, Except.ok.injEq] at h
    obtain ⟨_, -, es, -, rfl⟩ := h
    exact ⟨es, rfl⟩
  | false =>
    simp only [Bool.false_eq_true, ↓reduceIte, Except.ok.injEq] at h
    exact ⟨v.emissions, h.symm⟩

theorem updated_of_ok (h : v.updateFromSyState syState now = .ok v') :
    v.Updated syState now v' := by
  simp only [updateFromSyState, bind_eq_ok] at h
  obtain ⟨v₁, h₁, v₂, h₂, v₃, h₃, h₄⟩ := h
  obtain ⟨n, t, hn, ht, rfl⟩ := skimSy_eq_ok h₁
  obtain ⟨es, rfl⟩ := skimEmissions_eq_ok h₂
  simp only [recordSyState, bind_eq_ok, Except.ok.injEq] at h₃
  obtain ⟨active, ha, es', -, rfl⟩ := h₃
  obtain ⟨s, rfl, hs⟩ := setSyForPt_eq_ok h₄
  exact
    { startTs := rfl
      duration := rfl
      escrow := rfl
      ptSupply := rfl
      uncollected := rfl
      skim := ⟨n, hn, ht⟩
      lastSeen := rfl
      allTimeHigh := rfl
      final := by
        cases active with
        | true => exact .inl ⟨ha, rfl⟩
        | false => exact .inr ⟨ha, rfl⟩
      backing := hs }

section
variable (hu : v.Updated syState now v')
include hu

theorem Updated.maturity : v'.maturity = v.maturity := by
  rw [Vault.maturity, hu.startTs, hu.duration, Vault.maturity]

theorem Updated.isActive (t : UInt32) : v'.isActive t = v.isActive t := by
  simp only [Vault.isActive, Vault.isExpired, hu.startTs, hu.duration]

/-- The treasury's share comes out of the active SY. -/
theorem Updated.treasury_le :
    v'.treasurySy.toNat ≤ v.treasurySy.toNat + v.activeSy.toNat := by
  obtain ⟨n, ⟨-, hn⟩ | ⟨-, rfl⟩, ht⟩ := hu.skim
  · have := UInt64.le_iff_toNat_le.1 (calcSyAppreciation_le hn)
    omega
  · simp at ht; omega

/-- Before maturity the treasury gets nothing. -/
theorem Updated.treasury_of_not_expired (hm : now.toNat ≤ v.maturity) :
    v'.treasurySy = v.treasurySy := by
  obtain ⟨n, ⟨hc, -⟩ | ⟨-, rfl⟩, ht⟩ := hu.skim
  · simp only [canCollectSyLambo, bind_eq_ok, isExpired_eq_ok, Except.ok.injEq,
      Bool.and_eq_true, decide_eq_true_eq] at hc
    obtain ⟨b, ⟨-, rfl⟩, hb, -⟩ := hc
    simp only [decide_eq_true_eq] at hb
    omega
  · rw [← UInt64.toNat_inj]; simpa using ht

end

end Vault

end ExponentCore
