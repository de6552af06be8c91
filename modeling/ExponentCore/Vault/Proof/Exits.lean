import ExponentCore.Vault.Proof.Emissions
import ExponentCore.Vault.Proof.Forecast

/-!
# When a merge does not abort

A merge refreshes the vault first, with what the SY program reports: a rate, and one index for each
of its emissions. The update indexes the vault's own list by the place in the report, and multiplies
and converts what it finds there; once it has gone through, nothing else of a merge can abort
(`noAbort_merge_of_refreshed`). So `noAbort_handleMerge_iff` says exactly which reports let the
holders of PT out: those that list no emission that the vault has not registered, and whose numbers
fit (`MergeFits`).
-/

set_option autoImplicit false

namespace ExponentCore

open Number

variable {v v' : Vault} {p p' : YieldTokenPosition} {now : UInt32} {syState : SyState}
  {a n m y : UInt64} {r s : Number}

/-! ## The treasury's share -/

/-- A product with a whole number can be divided. -/
theorem mul_natural_add_half_lt {q : Number} (h : r.mul (fromNaturalU64 m) = .ok q) :
    q.raw + roundingCorrection < 2 ^ 256 := by
  have hraw := mul_natural_eq_ok.1 h
  have hq := q.isLt
  unfold product at hraw
  split at hraw
  · rename_i hfit
    rw [hraw]
    exact (Nat.add_le_add_right (Nat.le_mul_of_pos_right _ denom_pos) _).trans_lt (add_half_lt hfit)
  · rw [hraw, Nat.mul_right_comm] at hq ⊢
    exact add_half_lt hq

theorem exists_calcSyAppreciation :
    (∃ n, calcSyAppreciation r s y = .ok n) ↔
      (s.raw - r.raw) / denom * denom * y.toNat < 2 ^ 256 := by
  unfold calcSyAppreciation
  split
  · rename_i hle
    rw [Nat.sub_eq_zero_of_le (le_def.1 hle), Nat.zero_div, Nat.zero_mul, Nat.zero_mul]
    exact ⟨fun _ => by decide, fun _ => ⟨0, rfl⟩⟩
  · rename_i hlt
    have hlt := lt_def.1 (not_le.1 hlt)
    obtain ⟨d, hd⟩ : ∃ d : Number, d.raw = s.raw - r.raw :=
      exists_raw.2 ((Nat.sub_le _ _).trans_lt s.isLt)
    have hsub : s.sub r = .ok d := sub_eq_ok.2 (by omega)
    rw [hsub, ok_bind, ← hd, ← exists_mul_natural]
    constructor
    · rintro ⟨n, h⟩
      obtain ⟨q, hq, -⟩ := bind_eq_ok.1 h
      exact ⟨q, hq⟩
    · rintro ⟨q, hq⟩
      have hle : q.raw ≤ y.toNat * s.raw := by
        refine (mul_natural_le hq).trans ?_
        rw [Nat.mul_comm]
        exact Nat.mul_le_mul_left _ (by omega)
      have hfloor := quotient_div_denom_le hle
      have hsmall : quotient q s < 2 ^ 256 := by
        have hy := y.toNat_lt
        have hlt := (Nat.div_lt_iff_lt_mul denom_pos).1 (hfloor.trans_lt hy)
        exact hlt.trans (by decide)
      obtain ⟨z, hz⟩ := exists_raw.2 hsmall
      have hdiv : q.div s = .ok z :=
        div_eq_ok.2 ⟨by omega, mul_natural_add_half_lt hq, hz⟩
      obtain ⟨n, hn⟩ := exists_toNat.2 (hfloor.trans_lt y.toNat_lt)
      refine ⟨n, ?_⟩
      rw [hq, ok_bind, hdiv, ok_bind, floorU64_eq_ok, hn, hz]

/-! ## The update -/

namespace Vault

/-- **The report fits the vault**: it lists no emission that is not registered, and everything that
an update computes from it stays within its type. -/
structure UpdateFits (v : Vault) (syState : SyState) (now : UInt32) : Prop where
  maturity : v.maturity < 2 ^ 32
  indexes : syState.emissionIndexes.length ≤ v.emissions.length
  ptValue : ptValue v.ptSupply syState.exchangeRate < 2 ^ 64
  /-- the treasury's share, as it is computed: a rise of the rate times the active SY -/
  treasurySy : v.maturity < now.toNat → v.allTimeHighSyExchangeRate < syState.exchangeRate →
    (syState.exchangeRate.raw - v.lastSeenSyExchangeRate.raw) / denom * denom * v.activeSy.toNat
      < 2 ^ 256
  treasuryEmissions : v.maturity < now.toNat → ∀ (slot : Nat) (e : EmissionInfo),
    v.emissions[slot]? = some e →
    e.treasuryEmission.toNat + ((reportedIndex syState slot e.lastSeenIndex).raw
      - e.lastSeenIndex.raw) * v.totalSyInEscrow.toNat / denom < 2 ^ 64

theorem exists_isExpired : (∃ b, v.isExpired now = .ok b) ↔ v.maturity < 2 ^ 32 := by
  simp only [isExpired_eq_ok, exists_and_left, exists_eq, and_true]

theorem exists_setSyForPt (hrate : v.lastSeenSyExchangeRate ≠ 0) :
    (∃ v', v.setSyForPt = .ok v') ↔ ptValue v.ptSupply v.lastSeenSyExchangeRate < 2 ^ 64 := by
  have hraw : v.lastSeenSyExchangeRate.raw ≠ 0 := fun h => hrate (eq_zero_iff.2 h)
  rw [ptValue, setSyForPt, syBackingPt, syBackingForPt, if_neg hrate]
  constructor
  · rintro ⟨v', h⟩
    simp only [bind_eq_ok] at h
    obtain ⟨-, ⟨q, hq, n, hn, -⟩, -⟩ := h
    have hfloor : ((fromNaturalU64 v.ptSupply).div v.lastSeenSyExchangeRate >>= floorU64) = .ok n :=
      bind_eq_ok.2 ⟨q, hq, hn⟩
    rw [← (natural_div_floor.1 hfloor).2]
    exact n.toNat_lt
  · intro h
    obtain ⟨n, hn⟩ := exists_toNat.2 h
    obtain ⟨q, hq, hfloor⟩ := bind_eq_ok.1 (natural_div_floor.2 ⟨hraw, hn⟩)
    exact ⟨_, by rw [hq, ok_bind, hfloor, ok_bind, ok_bind]⟩

/-- The treasury's share always fits beside what the treasury has. -/
theorem exists_skimSy (hm : v.maturity < 2 ^ 32) :
    (∃ v', v.skimSy syState now = .ok v') ↔
      (v.maturity < now.toNat → v.allTimeHighSyExchangeRate < syState.exchangeRate →
        (syState.exchangeRate.raw - v.lastSeenSyExchangeRate.raw) / denom * denom
          * v.activeSy.toNat < 2 ^ 256) := by
  have hcan : v.canCollectSyLambo now syState = .ok (decide (v.maturity < now.toNat)
      && decide (v.allTimeHighSyExchangeRate < syState.exchangeRate)) := by
    rw [canCollectSyLambo, isExpired_eq_ok.2 ⟨hm, rfl⟩, ok_bind]
  rw [skimSy, hcan, ok_bind]
  by_cases hlambo : v.maturity < now.toNat ∧ v.allTimeHighSyExchangeRate < syState.exchangeRate
  · rw [if_pos (by simpa using hlambo)]
    have hcond : (v.maturity < now.toNat → v.allTimeHighSyExchangeRate < syState.exchangeRate →
        (syState.exchangeRate.raw - v.lastSeenSyExchangeRate.raw) / denom * denom
          * v.activeSy.toNat < 2 ^ 256) ↔ ∃ n, v.calcSySurplus syState = .ok n := by
      rw [calcSySurplus, exists_calcSyAppreciation]
      exact ⟨fun h => h hlambo.1 hlambo.2, fun h _ _ => h⟩
    rw [hcond, exists_bind]
    constructor
    · rintro ⟨n, hn, -⟩
      exact ⟨n, hn⟩
    · rintro ⟨n, hn⟩
      have hle := UInt64.le_iff_toNat_le.1 (calcSyAppreciation_le hn)
      have ht := v.totalSyInEscrow.toNat_lt
      have ht' := v.treasurySy.toNat_lt
      rw [activeSy_toNat] at hle
      obtain ⟨t, ht⟩ := exists_toNat.2 (show v.treasurySy.toNat + n.toNat < 2 ^ 64 by omega)
      exact ⟨n, hn, _, incTreasurySy_eq_ok.2 ⟨t, ht, rfl⟩⟩
  · rw [if_neg (by simpa using hlambo)]
    exact ⟨fun _ h₁ h₂ => absurd ⟨h₁, h₂⟩ hlambo, fun _ => ⟨v, rfl⟩⟩

/-- A report can be recorded if it is no longer than the list of the vault. -/
theorem exists_recordIndexes {active : Bool} {es : List EmissionInfo} {xs : List Number} :
    (∃ es', recordIndexes active es xs = .ok es') ↔ xs.length ≤ es.length := by
  induction xs generalizing es with
  | nil => simp
  | cons x xs ih =>
    cases es with
    | nil => simp [recordIndexes]
    | cons e es =>
      rw [recordIndexes, exists_bind, List.length_cons, List.length_cons, Nat.add_le_add_iff_right,
        ← ih]
      constructor
      · rintro ⟨es', h, -⟩
        exact ⟨es', h⟩
      · rintro ⟨es', h⟩
        exact ⟨es', h, _, rfl⟩

/-- The treasury's shares of the emissions, one after the other. -/
theorem exists_addTreasuryEmissions {total : UInt64} {es : List EmissionInfo} {xs : List Number} :
    (∃ ss es', ((es.zip xs).mapM fun x => calcShareValue x.1.lastSeenIndex x.2 total) = .ok ss ∧
        addTreasuryEmissions es ss = .ok es') ↔
      ∀ (slot : Nat) (e : EmissionInfo) (x : Number), es[slot]? = some e → xs[slot]? = some x →
        e.treasuryEmission.toNat + (x.raw - e.lastSeenIndex.raw) * total.toNat / denom
          < 2 ^ 64 := by
  induction es generalizing xs with
  | nil =>
    refine ⟨fun _ slot e x he => by simp at he, fun _ => ⟨[], [], ?_, addTreasuryEmissions_nil⟩⟩
    rfl
  | cons e es ih =>
    cases xs with
    | nil =>
      refine ⟨fun _ slot e x _ hx => by simp at hx,
        fun _ => ⟨[], e :: es, rfl, addTreasuryEmissions_nil⟩⟩
    | cons x xs =>
      simp only [List.zip_cons_cons, List.mapM_cons, bind_eq_ok, pure_eq_ok, Except.ok.injEq,
        calcShareValue_eq_ok]
      constructor
      · rintro ⟨ss, es', ⟨n, hn, ns, hns, rfl⟩, h⟩
        simp only [addTreasuryEmissions, bind_eq_ok, unwrap_eq_ok, checkedAdd_eq_some] at h
        obtain ⟨t, ht, es₁, hes, -⟩ := h
        rintro (_ | slot) e' x' he' hx'
        · obtain rfl := Option.some.inj he'
          obtain rfl := Option.some.inj hx'
          rw [← hn, ← ht]
          exact t.toNat_lt
        · exact ih.1 ⟨ns, es₁, hns, hes⟩ slot e' x' he' hx'
      · intro h
        have hone := h 0 e x rfl rfl
        obtain ⟨n, hn⟩ := exists_toNat.2 ((Nat.le_add_left _ _).trans_lt hone)
        rw [← hn] at hone
        obtain ⟨t, ht⟩ := exists_toNat.2 hone
        obtain ⟨ns, es₁, hns, hes⟩ := ih.2 fun slot e' x' he' hx' => h (slot + 1) e' x' he' hx'
        refine ⟨n :: ns, { e with treasuryEmission := t } :: es₁, ⟨n, hn, ns, hns, rfl⟩, ?_⟩
        simp only [addTreasuryEmissions, bind_eq_ok, unwrap_eq_ok, checkedAdd_eq_some]
        exact ⟨t, ht, es₁, hes, rfl⟩

theorem exists_skimEmissions (hm : v.maturity < 2 ^ 32) :
    (∃ v', v.skimEmissions syState now = .ok v') ↔
      (v.maturity < now.toNat → ∀ (slot : Nat) (e : EmissionInfo), v.emissions[slot]? = some e →
        e.treasuryEmission.toNat + ((reportedIndex syState slot e.lastSeenIndex).raw
          - e.lastSeenIndex.raw) * v.totalSyInEscrow.toNat / denom < 2 ^ 64) := by
  have hcan : v.canCollectEmissionLambo now = .ok (decide (v.maturity < now.toNat)) :=
    isExpired_eq_ok.2 ⟨hm, rfl⟩
  rw [skimEmissions, hcan, ok_bind]
  by_cases hexp : v.maturity < now.toNat
  · have hlists : (∀ (slot : Nat) (e : EmissionInfo), v.emissions[slot]? = some e →
        e.treasuryEmission.toNat + ((reportedIndex syState slot e.lastSeenIndex).raw
          - e.lastSeenIndex.raw) * v.totalSyInEscrow.toNat / denom < 2 ^ 64) ↔
        ∀ (slot : Nat) (e : EmissionInfo) (x : Number), v.emissions[slot]? = some e →
          syState.emissionIndexes[slot]? = some x →
          e.treasuryEmission.toNat
            + (x.raw - e.lastSeenIndex.raw) * v.totalSyInEscrow.toNat / denom < 2 ^ 64 := by
      constructor
      · intro h slot e x he hx
        have hone := h slot e he
        rwa [reportedIndex, hx, Option.getD_some] at hone
      · intro h slot e he
        unfold reportedIndex
        cases hx : syState.emissionIndexes[slot]? with
        | none =>
          rw [Option.getD_none, Nat.sub_self, Nat.zero_mul, Nat.zero_div]
          exact e.treasuryEmission.toNat_lt
        | some x => exact h slot e x he hx
    rw [if_pos (by simpa using hexp), hlists, ← exists_addTreasuryEmissions]
    simp only [exists_bind, increaseEmissionLamboFund, calcEmissionSurpluses]
    constructor
    · rintro ⟨ss, hss, es, hes, -⟩ -
      exact ⟨ss, es, hss, hes⟩
    · intro h
      obtain ⟨ss, es, hss, hes⟩ := h hexp
      exact ⟨ss, hss, es, hes, _, rfl⟩
  · rw [if_neg (by simpa using hexp)]
    exact ⟨fun _ h => absurd h hexp, fun _ => ⟨v, rfl⟩⟩

/-- **An update goes through exactly if the report fits.** -/
theorem exists_updateFromSyState (hrate : syState.exchangeRate ≠ 0) :
    (∃ v', v.updateFromSyState syState now = .ok v') ↔ v.UpdateFits syState now := by
  constructor
  · rintro ⟨v', h⟩
    simp only [updateFromSyState, bind_eq_ok] at h
    obtain ⟨v₁, h₁, v₂, h₂, v₃, h₃, h₄⟩ := h
    have hm : v.maturity < 2 ^ 32 := by
      obtain ⟨b, hb, -⟩ := bind_eq_ok.1 h₁
      obtain ⟨e, he, -⟩ := bind_eq_ok.1 hb
      exact exists_isExpired.1 ⟨e, he⟩
    have hsy := (exists_skimSy hm).1 ⟨v₁, h₁⟩
    obtain ⟨n, t, -, -, rfl⟩ := skimSy_eq_ok h₁
    have hem := (exists_skimEmissions (v := { v with treasurySy := t }) hm).1 ⟨v₂, h₂⟩
    have hlen := skimEmissions_length h₂
    obtain ⟨es, rfl⟩ := skimEmissions_eq_ok h₂
    simp only [recordSyState, bind_eq_ok, Except.ok.injEq] at h₃
    obtain ⟨active, -, es', hes, rfl⟩ := h₃
    exact ⟨hm, (exists_recordIndexes.1 ⟨es', hes⟩).trans_eq hlen,
      (exists_setSyForPt hrate).1 ⟨v', h₄⟩, hsy, hem⟩
  · rintro ⟨hm, hindexes, hpt, hsy, hem⟩
    obtain ⟨v₁, h₁⟩ := (exists_skimSy hm).2 hsy
    obtain ⟨n, t, -, -, rfl⟩ := skimSy_eq_ok h₁
    obtain ⟨v₂, h₂⟩ := (exists_skimEmissions (v := { v with treasurySy := t }) hm).2 hem
    have hlen := skimEmissions_length h₂
    obtain ⟨es, rfl⟩ := skimEmissions_eq_ok h₂
    obtain ⟨active, hactive⟩ : ∃ b, v.isActive now = .ok b := by
      unfold isActive
      split
      · exact exists_bind.2 ⟨_, isExpired_eq_ok.2 ⟨hm, rfl⟩, _, rfl⟩
      · exact ⟨false, rfl⟩
    obtain ⟨es', hes⟩ : ∃ es', recordIndexes active es syState.emissionIndexes = .ok es' :=
      exists_recordIndexes.2 (hindexes.trans_eq hlen.symm)
    obtain ⟨v', h₄⟩ := (exists_setSyForPt (v := { v with
      treasurySy := t
      emissions := es'
      lastSeenSyExchangeRate := syState.exchangeRate
      allTimeHighSyExchangeRate := max syState.exchangeRate v.allTimeHighSyExchangeRate
      finalSyExchangeRate := if active then syState.exchangeRate else v.finalSyExchangeRate })
      hrate).2 hpt
    refine ⟨v', ?_⟩
    have hact : Vault.isActive { v with treasurySy := t, emissions := es } now = .ok active :=
      hactive
    rw [updateFromSyState, h₁, ok_bind, h₂, ok_bind, recordSyState, hact, ok_bind, hes, ok_bind]
    exact h₄

end Vault

/-! ## Staging -/

namespace YieldTokenPosition

/-- The balance that emissions are paid on then. -/
def balanceAt (p : YieldTokenPosition) (final current allTimeHigh : Number) : Nat :=
  p.interest.staged.toNat + p.interestAt final current allTimeHigh
    + p.ytBalance.toNat * denom / final.raw

/-- **What staging computes fits.** -/
structure StagingFits (p : YieldTokenPosition) (final current allTimeHigh : Number)
    (uncollectedSy : UInt64) (finalIndexes : List Number) : Prop where
  final_ne_zero : final ≠ 0
  earned : allTimeHigh ≤ current → earnedSy p.ytBalance p.interest.lastSeenIndex final < 2 ^ 64
  scale : allTimeHigh ≤ current → final < current → final.raw + roundingCorrection < 2 ^ 256
  uncollected : uncollectedSy.toNat + p.interestAt final current allTimeHigh < 2 ^ 64
  balance : p.balanceAt final current allTimeHigh < 2 ^ 64
  emissions : ∀ (slot : Nat) (x : Number), finalIndexes[slot]? = some x →
    p.stagedEmission slot + (x.raw - p.trackerIndex slot) * p.balanceAt final current allTimeHigh
      / denom < 2 ^ 64

theorem exists_earnTrackers {ts : List YieldTokenTracker} {es : List EmissionInfo}
    (hlen : es.length ≤ ts.length) :
    (∃ ts', earnTrackers y ts es = .ok ts') ↔
      ∀ (slot : Nat) (t : YieldTokenTracker) (e : EmissionInfo), ts[slot]? = some t →
        es[slot]? = some e →
        t.staged.toNat + (e.finalIndex.raw - t.lastSeenIndex.raw) * y.toNat / denom < 2 ^ 64 := by
  induction es generalizing ts with
  | nil => simp
  | cons e es ih =>
    cases ts with
    | nil => simp at hlen
    | cons t ts =>
      simp only [earnTrackers, bind_eq_ok, calcShareValue_eq_ok, YieldTokenTracker.incStaged,
        unwrap_eq_ok, checkedAdd_eq_some, Except.ok.injEq]
      have ih := ih (Nat.le_of_succ_le_succ hlen)
      constructor
      · rintro ⟨_, n, hn, _, ⟨s, hs, rfl⟩, ts₁, hts, rfl⟩
        rintro (_ | slot) t' e' ht he
        · obtain rfl := Option.some.inj ht
          obtain rfl := Option.some.inj he
          rw [← hn, ← hs]
          exact s.toNat_lt
        · exact ih.1 ⟨ts₁, hts⟩ slot t' e' ht he
      · intro h
        have hone := h 0 t e rfl rfl
        obtain ⟨n, hn⟩ := exists_toNat.2 ((Nat.le_add_left _ _).trans_lt hone)
        rw [← hn] at hone
        obtain ⟨s, hs⟩ := exists_toNat.2 hone
        obtain ⟨ts₁, hts⟩ := ih.2 fun slot t' e' ht he => h (slot + 1) t' e' ht he
        exact ⟨_, n, hn, _, ⟨s, hs, rfl⟩, ts₁, hts, rfl⟩

/-- The trackers of a position, one for each emission of the vault, can be paid. -/
theorem exists_earnTrackers_ensured :
    (∃ ts', earnTrackers y (p.ensureTrackers v).emissions v.emissions = .ok ts') ↔
      ∀ (slot : Nat) (x : Number), (v.emissions.map EmissionInfo.finalIndex)[slot]? = some x →
        p.stagedEmission slot + (x.raw - p.trackerIndex slot) * y.toNat / denom < 2 ^ 64 := by
  have hlen : v.emissions.length ≤ (p.ensureTrackers v).emissions.length := by
    rw [ensureTrackers, List.length_append, List.length_replicate]
    omega
  have htracker : ∀ {slot : Nat} {t : YieldTokenTracker}, slot < v.emissions.length →
      (p.ensureTrackers v).emissions[slot]? = some t →
      t.staged.toNat = p.stagedEmission slot ∧ t.lastSeenIndex.raw = p.trackerIndex slot := by
    intro slot t hslot ht
    rw [ensureTrackers_getElem? hslot] at ht
    obtain rfl := Option.some.inj ht
    unfold stagedEmission trackerIndex
    cases p.emissions[slot]? with
    | none => exact ⟨rfl, rfl⟩
    | some t => exact ⟨rfl, rfl⟩
  rw [exists_earnTrackers hlen]
  constructor
  · intro h slot x hx
    obtain ⟨e, he, rfl⟩ := Option.map_eq_some_iff.1 ((List.getElem?_map ..).symm.trans hx)
    have hslot := (List.getElem?_eq_some_iff.1 he).1
    have ht := ensureTrackers_getElem? (p := p) hslot
    obtain ⟨hs, hi⟩ := htracker hslot ht
    rw [← hs, ← hi]
    exact h slot _ e ht he
  · intro h slot t e ht he
    obtain ⟨hs, hi⟩ := htracker (List.getElem?_eq_some_iff.1 he).1 ht
    rw [hs, hi]
    exact h slot e.finalIndex (by rw [List.getElem?_map, he, Option.map_some])

/-- The interest is staged, and the vault counts it. -/
theorem earnSyInterest_of_credit {c k u : UInt64} (hc : p.credit v = .ok c)
    (hk : k.toNat = p.interest.staged.toNat + c.toNat)
    (hu : u.toNat = v.uncollectedSy.toNat + c.toNat) :
    ∃ i : Number, p.earnSyInterest v
      = .ok ({ v with uncollectedSy := u }, { p with interest := ⟨i, k⟩ }) := by
  unfold credit at hc
  unfold earnSyInterest
  cases he : v.isInEmergencyMode
  · rw [he, if_neg Bool.false_ne_true] at hc
    have hinc : p.interest.incStaged c = .ok { p.interest with staged := k } := by
      rw [YieldTokenTracker.incStaged, checkedAdd_eq_some.2 hk]
      rfl
    have hunc : v.incUncollectedSy c = .ok { v with uncollectedSy := u } :=
      Vault.incUncollectedSy_eq_ok.2 ⟨u, hu, rfl⟩
    refine ⟨v.finalSyExchangeRate, ?_⟩
    rw [if_neg Bool.false_ne_true, hc, ok_bind, hinc, ok_bind, hunc, ok_bind]
  · rw [he, if_pos rfl] at hc
    obtain rfl := Except.ok.inj hc
    obtain rfl : u = v.uncollectedSy := UInt64.toNat_inj.1 hu
    obtain rfl : k = p.interest.staged := UInt64.toNat_inj.1 hk
    exact ⟨p.interest.lastSeenIndex, by rw [if_pos rfl]⟩

/-- **A position stages exactly if what it computes fits.** -/
theorem exists_earnAllWithTracking :
    (∃ r, p.earnAllWithTracking v = .ok r) ↔
      p.StagingFits v.finalSyExchangeRate v.lastSeenSyExchangeRate v.allTimeHighSyExchangeRate
        v.uncollectedSy (v.emissions.map EmissionInfo.finalIndex) := by
  constructor
  · rintro ⟨⟨v', p'⟩, h⟩
    obtain ⟨c, u, hc, hs, hu, -⟩ := (earned_of_ok h).credit
    obtain ⟨b, hb, hts⟩ := (earned_of_ok h).trackers
    obtain ⟨hfits, hc⟩ := credit_eq_ok.1 hc
    have hbalance : b.toNat = p.balanceAt v.finalSyExchangeRate v.lastSeenSyExchangeRate
        v.allTimeHighSyExchangeRate := by
      rw [hb, hs, hc, balanceAt]
    exact
      { final_ne_zero := (earned_of_ok h).final_ne_zero
        earned := fun hcalm => (hfits hcalm).1
        scale := fun hcalm => (hfits hcalm).2
        uncollected := by rw [← hc, ← hu]; exact u.toNat_lt
        balance := by rw [← hbalance]; exact b.toNat_lt
        emissions := by
          rw [← hbalance]
          exact exists_earnTrackers_ensured.1 ⟨_, hts⟩ }
  · intro h
    have hbalance := h.balance
    rw [balanceAt] at hbalance
    obtain ⟨c, hc⟩ := exists_toNat.2 ((Nat.le_add_left _ _).trans_lt h.uncollected)
    obtain ⟨u, hu⟩ := exists_toNat.2 h.uncollected
    obtain ⟨k, hk⟩ := exists_toNat.2 ((Nat.le_add_right _ _).trans_lt hbalance)
    obtain ⟨y, hy⟩ := exists_toNat.2 ((Nat.le_add_left _ _).trans_lt hbalance)
    obtain ⟨b, hb⟩ := exists_toNat.2 h.balance
    obtain ⟨ts, hts⟩ := (exists_earnTrackers_ensured (v := v) (y := b)).2 (by
      rw [hb]
      exact h.emissions)
    have hdue : p.credit v = .ok c :=
      credit_eq_ok.2 ⟨fun hcalm => ⟨h.earned hcalm, h.scale hcalm⟩, hc⟩
    have hsy : pyToSy v.finalSyExchangeRate p.ytBalance = .ok y :=
      pyToSy_eq_ok.2 ⟨fun h0 => h.final_ne_zero (eq_zero_iff.2 h0), hy⟩
    have hadd : addU64 k y = .ok b := addU64_eq_ok.2 (by rw [hb, hk, hy, balanceAt])
    obtain ⟨i, hstage⟩ := earnSyInterest_of_credit (p := p.ensureTrackers v) hdue
      (hk.trans (by rw [hc]; rfl)) (hu.trans (by rw [hc]))
    refine ⟨({ v with uncollectedSy := u },
      { p.ensureTrackers v with interest := ⟨i, k⟩, emissions := ts }), ?_⟩
    rw [earnAllWithTracking, earnAll, hstage, ok_bind]
    simp only [earnEmissions, totalSyBalance]
    have hyt : pyToSy v.finalSyExchangeRate (p.ensureTrackers v).ytBalance = .ok y := hsy
    rw [hyt, ok_bind, hadd, ok_bind, hts, ok_bind, ok_bind]

end YieldTokenPosition

/-! ## Merging -/

section
variable {active : Bool} {es : List EmissionInfo} {ts : List YieldTokenTracker} {xs : List Number}
  {ss : List UInt64}

instance : OnlyAborts (calcSyAppreciation r s m) := by
  unfold calcSyAppreciation
  infer_instance

instance : OnlyAborts (syBackingForPt r m n) := by
  unfold syBackingForPt
  infer_instance

instance : OnlyAborts (v.isExpired now) := by
  unfold Vault.isExpired addU32
  infer_instance

instance : OnlyAborts (v.isActive now) := by
  unfold Vault.isActive
  infer_instance

instance : OnlyAborts (Vault.addTreasuryEmissions es ss) := by
  induction es generalizing ss with
  | nil =>
    cases ss with
    | nil => exact inferInstanceAs (OnlyAborts (.ok []))
    | cons s ss => exact inferInstanceAs (OnlyAborts (.error (.panic _)))
  | cons e es ih =>
    cases ss with
    | nil => exact inferInstanceAs (OnlyAborts (.ok _))
    | cons s ss =>
      unfold Vault.addTreasuryEmissions
      infer_instance

instance : OnlyAborts (Vault.recordIndexes active es xs) := by
  induction es generalizing xs with
  | nil =>
    cases xs with
    | nil => exact inferInstanceAs (OnlyAborts (.ok []))
    | cons x xs => exact inferInstanceAs (OnlyAborts (.error (.panic _)))
  | cons e es ih =>
    cases xs with
    | nil => exact inferInstanceAs (OnlyAborts (.ok _))
    | cons x xs =>
      unfold Vault.recordIndexes
      infer_instance

instance : OnlyAborts (v.updateFromSyState syState now) := by
  unfold Vault.updateFromSyState Vault.skimSy Vault.skimEmissions Vault.recordSyState
    Vault.setSyForPt Vault.canCollectSyLambo Vault.canCollectEmissionLambo Vault.calcSySurplus
    Vault.calcEmissionSurpluses Vault.increaseEmissionLamboFund Vault.incTreasurySy
      Vault.syBackingPt
  infer_instance

instance : OnlyAborts (YieldTokenPosition.earnTrackers y ts es) := by
  induction es generalizing ts with
  | nil => exact ⟨.inl ⟨ts, YieldTokenPosition.earnTrackers_nil⟩⟩
  | cons e es ih =>
    cases ts with
    | nil => exact inferInstanceAs (OnlyAborts (.error (.panic _)))
    | cons t ts =>
      unfold YieldTokenPosition.earnTrackers YieldTokenTracker.incStaged
      infer_instance

instance : OnlyAborts (p.earnSyInterest v) := by
  unfold YieldTokenPosition.earnSyInterest YieldTokenPosition.interestDue calcEarnedSy
    scaleSyToCurrentRate Vault.incUncollectedSy YieldTokenTracker.incStaged
  infer_instance

instance : OnlyAborts (p.earnEmissions v) := by
  unfold YieldTokenPosition.earnEmissions YieldTokenPosition.totalSyBalance
  infer_instance

instance : OnlyAborts (p.earnAllWithTracking v) :=
  OnlyAborts.bind inferInstance fun ⟨v, p⟩ =>
    inferInstanceAs (OnlyAborts (p.earnEmissions v >>= fun p => .ok (v, p)))

end

namespace Vault

/-- The final indexes that an update leaves, if it goes through. -/
def finalIndexesAt (v : Vault) (syState : SyState) (now : UInt32) : List Number :=
  v.emissions.mapIdx fun slot e =>
    if v.isActive now = .ok true then reportedIndex syState slot e.finalIndex else e.finalIndex

theorem finalIndexes_of_ok (h : v.updateFromSyState syState now = .ok v') :
    v'.emissions.map EmissionInfo.finalIndex = v.finalIndexesAt syState now := by
  refine List.ext_getElem? fun slot => ?_
  rw [finalIndexesAt, List.getElem?_map, List.getElem?_mapIdx]
  cases he : v.emissions[slot]? with
  | none =>
    rw [List.getElem?_eq_none_iff] at he
    rw [List.getElem?_eq_none ((updateFromSyState_length h).trans_le he), Option.map_none,
      Option.map_none]
  | some e =>
    obtain ⟨e', he', hu⟩ := emissionUpdated_of_ok h he
    rw [he', Option.map_some, Option.map_some]
    rcases hu.final with ⟨ha, hf⟩ | ⟨ha, hf⟩
    · rw [if_pos ha, hf]
    · rw [if_neg (by rw [ha]; decide), hf]

end Vault

/-- **What a merge computes fits**, for a vault, its own position, a report and a time. -/
structure MergeFits (v : Vault) (p : YieldTokenPosition) (now : UInt32) (syState : SyState) :
    Prop where
  update : v.UpdateFits syState now
  staging : p.StagingFits (v.finalRateAt syState now) syState.exchangeRate
    v.allTimeHighSyExchangeRate v.uncollectedSy (v.finalIndexesAt syState now)

/-- An amount that the PT supply backs, and the YT of the vault while it is active. -/
def MergeBacked (v : Vault) (p : YieldTokenPosition) (now : UInt32) (a : UInt64) : Prop :=
  a ≤ v.ptSupply ∧ (v.isActive now = .ok true → a ≤ p.ytBalance)

instance : Decidable (MergeBacked v p now a) := inferInstanceAs (Decidable (_ ∧ (_ → _)))

theorem stagingFits_max {final current high : Number} {u : UInt64} {xs : List Number} :
    p.StagingFits final current (max current high) u xs ↔
      p.StagingFits final current high u xs := by
  have hle : max current high ≤ current ↔ high ≤ current := by simp
  have hinterest : p.interestAt final current (max current high)
      = p.interestAt final current high := YieldTokenPosition.interestAt_max
  have hbalance : p.balanceAt final current (max current high)
      = p.balanceAt final current high := by
    rw [YieldTokenPosition.balanceAt, hinterest, YieldTokenPosition.balanceAt]
  constructor
  · rintro ⟨h₁, h₂, h₃, h₄, h₅, h₆⟩
    rw [hle] at h₂ h₃
    rw [hinterest] at h₄
    rw [hbalance] at h₅ h₆
    exact ⟨h₁, h₂, h₃, h₄, h₅, h₆⟩
  · rintro ⟨h₁, h₂, h₃, h₄, h₅, h₆⟩
    rw [← hle] at h₂ h₃
    rw [← hinterest] at h₄
    rw [← hbalance] at h₅ h₆
    exact ⟨h₁, h₂, h₃, h₄, h₅, h₆⟩

/-- **A vault is refreshed exactly if the report fits.** -/
theorem exists_updateVaultYield (hrate : syState.exchangeRate ≠ 0) :
    (∃ r, updateVaultYield v p now syState = .ok r) ↔ MergeFits v p now syState := by
  have hstaging : ∀ {v₁}, v.updateFromSyState syState now = .ok v₁ →
      ((∃ r, p.earnAllWithTracking v₁ = .ok r) ↔
        p.StagingFits (v.finalRateAt syState now) syState.exchangeRate v.allTimeHighSyExchangeRate
          v.uncollectedSy (v.finalIndexesAt syState now)) := by
    intro v₁ h
    have hu := Vault.updated_of_ok h
    rw [YieldTokenPosition.exists_earnAllWithTracking, Vault.finalRate_of_ok h,
      Vault.finalIndexes_of_ok h, hu.lastSeen, hu.allTimeHigh, hu.uncollected, stagingFits_max]
  rw [updateVaultYield, exists_bind]
  constructor
  · rintro ⟨v₁, h₁, h₂⟩
    exact ⟨(Vault.exists_updateFromSyState hrate).1 ⟨v₁, h₁⟩, (hstaging h₁).1 h₂⟩
  · rintro ⟨hupdate, hfits⟩
    obtain ⟨v₁, h₁⟩ := (Vault.exists_updateFromSyState hrate).2 hupdate
    exact ⟨v₁, h₁, (hstaging h₁).2 hfits⟩

/-- **After a refresh nothing of a merge aborts**: it is refused in an emergency, and the backing of
the PT covers what it pays otherwise. -/
theorem noAbort_merge_of_refreshed {v₁ v₂ : Vault} {p₁ : YieldTokenPosition}
    (hrate : syState.exchangeRate ≠ 0) (hr : Refreshed v p now syState v₁ v₂ p₁)
    (ha : MergeBacked v p now a) : NoAbort (handleMerge v p now syState a) := by
  obtain ⟨hpt, hyt⟩ := ha
  rw [UInt64.le_iff_toNat_le] at hpt
  have hu := hr.updated
  obtain ⟨c, u, -, -, -, hv₂⟩ := hr.earned.credit
  have hsupply : v₂.ptSupply = v.ptSupply := by rw [hv₂, ← hu.ptSupply]
  have hlast : v₂.lastSeenSyExchangeRate = syState.exchangeRate := by rw [hv₂, ← hu.lastSeen]
  have hbacking : v₂.syForPt.toNat ≤ v₂.totalSyInEscrow.toNat := by
    have hmin := hu.backing
    rw [hv₂]
    rw [Vault.activeSy_toNat] at hmin
    show v₁.syForPt.toNat ≤ v₁.totalSyInEscrow.toNat
    omega
  rw [handleMerge, (updateVaultYield_eq_ok (r := (v₂, p₁))).2 ⟨v₁, hr⟩, ok_bind]
  dsimp only
  cases hem : v₂.isInEmergencyMode with
  | true =>
    rw [requireNoEmergency, hem]
    intro q hq
    cases hq
  | false =>
    rw [(requireNoEmergency_eq_ok (k := ())).2 hem, ok_bind]
    obtain ⟨active, hactive⟩ : ∃ b, v.isActive now = .ok b := by
      rcases hu.final with ⟨h, -⟩ | ⟨h, -⟩
      · exact ⟨_, h⟩
      · exact ⟨_, h⟩
    have hactive₂ : v₂.isActive now = .ok active := by
      rw [← hactive, ← hu.isActive, hv₂]
      rfl
    obtain ⟨p₂, hp₂⟩ : ∃ p₂, p₁.burnYt active a = .ok p₂ := by
      cases active with
      | false => exact ⟨p₁, rfl⟩
      | true =>
        have hle := UInt64.le_iff_toNat_le.1 (hyt hactive)
        rw [← hr.earned.ytBalance] at hle
        obtain ⟨b, hb⟩ := exists_toNat.2 ((Nat.sub_le _ a.toNat).trans_lt p₁.ytBalance.toNat_lt)
        exact ⟨_, decYtBalance_eq_ok.2 ⟨b, by omega, rfl⟩⟩
    -- the payout is a share of the backing
    have hshare : a.toNat * v₂.ptRedemptionRate.raw / denom ≤ v₂.syForPt.toNat := by
      rw [Vault.ptRedemptionRate, fromRatio_raw, hsupply]
      refine Nat.div_le_of_le_mul ?_
      rw [Nat.mul_comm denom]
      exact (Nat.mul_le_mul_right _ hpt).trans (Nat.mul_div_le _ _)
    obtain ⟨x, hx⟩ := exists_toNat.2 (hshare.trans_lt v₂.syForPt.toNat_lt)
    have hprice : calcAmountSy v₂ a = .ok x := natural_mul_floor.2 hx
    obtain ⟨e, he⟩ := exists_toNat.2
      ((Nat.sub_le _ x.toNat).trans_lt v₂.totalSyInEscrow.toNat_lt)
    obtain ⟨t, ht⟩ := exists_toNat.2 ((Nat.sub_le _ a.toNat).trans_lt v₂.ptSupply.toNat_lt)
    have hadjust : adjustVaultBalances v₂ x a
        = .ok { v₂ with totalSyInEscrow := e, ptSupply := t } := by
      rw [adjustVaultBalances, Vault.decTotalSyInEscrow_eq_ok.2 ⟨e, by omega, rfl⟩, ok_bind]
      exact Vault.decPtSupply_eq_ok.2 ⟨t, by rw [hsupply] at ht ⊢; omega, rfl⟩
    have hvalue : Vault.ptValue t syState.exchangeRate < 2 ^ 64 := by
      have hfit := ((Vault.exists_updateFromSyState hrate).1 ⟨v₁, hr.update⟩).ptValue
      refine (Nat.div_le_div_right (Nat.mul_le_mul_right _ ?_)).trans_lt hfit
      rw [ht, hsupply]
      exact Nat.sub_le _ _
    obtain ⟨v₃, hv₃⟩ := (Vault.exists_setSyForPt
      (v := { v₂ with totalSyInEscrow := e, ptSupply := t }) (hlast ▸ hrate)).2 (by
        rw [← hlast] at hvalue
        exact hvalue)
    rw [hactive₂, ok_bind, hp₂, ok_bind, hprice, ok_bind, hadjust, ok_bind, hv₃, ok_bind]
    intro q hq
    cases hq

/-- **A merge does not abort exactly if the report fits.** -/
theorem noAbort_handleMerge_iff (hrate : syState.exchangeRate ≠ 0) (ha : MergeBacked v p now a) :
    NoAbort (handleMerge v p now syState a) ↔ MergeFits v p now syState := by
  constructor
  · intro h
    have : OnlyAborts (updateVaultYield v p now syState) :=
      OnlyAborts.bind inferInstance fun _ => inferInstance
    rw [handleMerge, noAbort_bind] at h
    obtain ⟨r, hr, -⟩ := h
    exact (exists_updateVaultYield hrate).1 ⟨r, hr⟩
  · intro h
    obtain ⟨⟨v₂, p₁⟩, hr⟩ := (exists_updateVaultYield hrate).2 h
    obtain ⟨v₁, hr⟩ := updateVaultYield_eq_ok.1 hr
    exact noAbort_merge_of_refreshed hrate hr ha

end ExponentCore
