import ExponentCore.Vault.Holding
import ExponentCore.Vault.Proof.Exits
import ExponentCore.Vault.Proof.Slots

/-!
# What a staging depends on

`Vault.outlook` is what of a vault a staging reads: its times, its rates and the final indexes of
its emissions. `YieldTokenPosition.earned` is what a staging credits and the position that it
leaves; it depends on the position and on the outlook alone (`earned_congr`), and a position that
has earned earns nothing more while the outlook stays (`earned_again`). What the vault keeps of a
staging is the credit, in its uncollected SY (`earnAllWithTracking_eq_ok`).
-/

set_option autoImplicit false

namespace ExponentCore

open Number

section
variable {v v' : Vault} (h : v'.outlook = v.outlook)
include h

theorem SameRates.of_outlook : SameRates v v' where
  startTs := congrArg Outlook.startTs h
  duration := congrArg Outlook.duration h
  lastSeen := congrArg Outlook.lastSeenSyExchangeRate h
  allTimeHigh := congrArg Outlook.allTimeHighSyExchangeRate h
  final := congrArg Outlook.finalSyExchangeRate h

theorem finalIndexes_of_outlook : v'.finalIndexes = v.finalIndexes :=
  congrArg Outlook.finalIndexes h

theorem length_of_outlook : v'.emissions.length = v.emissions.length := by
  have hlen := congrArg List.length (finalIndexes_of_outlook h)
  rwa [Vault.finalIndexes, Vault.finalIndexes, List.length_map, List.length_map] at hlen

end

/-! ## The earnings of a position -/

theorem scaleSyToCurrentRate_zero {m n : UInt64} {r s : Number}
    (h : scaleSyToCurrentRate m r s = .ok n) : scaleSyToCurrentRate 0 r s = .ok 0 := by
  unfold scaleSyToCurrentRate at h ⊢
  split at h
  · rename_i hle
    rw [if_pos hle]
  · rename_i hle
    obtain ⟨scale, hscale, -⟩ := bind_eq_ok.1 h
    rw [if_neg hle, hscale, ok_bind]
    exact mul_natural_floor.2 (by simp)

namespace YieldTokenPosition

variable {p p' : YieldTokenPosition} {v v' : Vault} {b b' c : UInt64}
  {ts ts' : List YieldTokenTracker} {es es' : List EmissionInfo}

theorem earnTrackers_congr
    (h : es'.map EmissionInfo.finalIndex = es.map EmissionInfo.finalIndex) :
    earnTrackers b ts es' = earnTrackers b ts es := by
  induction es generalizing es' ts with
  | nil =>
    rw [List.map_nil, List.map_eq_nil_iff] at h
    rw [h]
  | cons e es ih =>
    cases es' with
    | nil => cases h
    | cons e' es' =>
      rw [List.map_cons, List.map_cons, List.cons.injEq] at h
      cases ts with
      | nil => rfl
      | cons t ts =>
        unfold earnTrackers
        rw [h.1, ih h.2]

/-- Trackers at the final indexes earn nothing. -/
theorem earnTrackers_again (h : earnTrackers b ts es = .ok ts') :
    earnTrackers b' ts' es = .ok ts' := by
  induction es generalizing ts ts' with
  | nil => exact earnTrackers_nil
  | cons e es ih =>
    cases ts with
    | nil => cases h
    | cons t ts =>
      simp only [earnTrackers, YieldTokenTracker.incStaged, bind_eq_ok, unwrap_eq_ok,
        Except.ok.injEq] at h
      obtain ⟨n, -, t', ⟨s, -, rfl⟩, ts₁, hts, rfl⟩ := h
      have hsum : checkedAdd s 0 = some s := checkedAdd_eq_some.2 (by simp)
      simp only [earnTrackers, calcShareValue, le_refl, ↓reduceIte, ok_bind,
        YieldTokenTracker.incStaged, hsum, unwrap, ih hts]

/-- **A staging** leaves the position of its earnings, and the credit in the uncollected SY. -/
theorem earnAllWithTracking_eq_ok :
    p.earnAllWithTracking v = .ok (v', p') ↔ ∃ c t : UInt64, p.earned v = .ok (c, p') ∧
      t.toNat = v.uncollectedSy.toNat + c.toNat ∧ v' = { v with uncollectedSy := t } := by
  have hzero : checkedAdd (p.ensureTrackers v).interest.staged 0
      = some (p.ensureTrackers v).interest.staged := checkedAdd_eq_some.2 (by simp)
  cases he : v.isInEmergencyMode with
  | true =>
    simp only [earnAllWithTracking, earnAll, earnSyInterest, earned, he, ↓reduceIte,
      ok_bind, YieldTokenTracker.incStaged, hzero, unwrap, bind_eq_ok, Except.ok.injEq,
      Prod.mk.injEq]
    constructor
    · rintro ⟨q, hq, hv, hp⟩
      exact ⟨0, v.uncollectedSy, ⟨q, hq, rfl, hp⟩, by simp, hv.symm⟩
    · rintro ⟨c, t, ⟨q, hq, hc, hp⟩, ht, hv⟩
      refine ⟨q, hq, ?_, hp⟩
      rw [← hc] at ht
      obtain rfl : t = v.uncollectedSy := UInt64.toNat_inj.1 (by simpa using ht)
      exact hv.symm
  | false =>
    simp only [earnAllWithTracking, earnAll, earnSyInterest, earned, he,
      Bool.false_eq_true, ↓reduceIte, bind_eq_ok, Vault.incUncollectedSy_eq_ok, Except.ok.injEq,
      Prod.mk.injEq, Prod.exists]
    constructor
    · intro h
      obtain ⟨v₁, p₁, ⟨c, hc, i, hi, v₂, ⟨t, ht, hv₂⟩, hv₁, hp₁⟩, q, hq, hv, hp⟩ := h
      subst hv₂ hv₁ hp₁ hv
      exact ⟨c, t, ⟨c, hc, i, hi, q, hq, rfl, hp⟩, ht, rfl⟩
    · intro h
      obtain ⟨c, t, ⟨c', hc, i, hi, q, hq, hcc, hp⟩, ht, hv⟩ := h
      subst hcc hv
      exact ⟨_, _, ⟨c', hc, i, hi, _, ⟨t, ht, rfl⟩, rfl, rfl⟩, q, hq, rfl, hp⟩

/-- **The earnings depend on the outlook alone.** -/
theorem earned_congr (h : v'.outlook = v.outlook) : p.earned v' = p.earned v := by
  have hr := SameRates.of_outlook h
  have hensure : p.ensureTrackers v' = p.ensureTrackers v := by
    rw [ensureTrackers, length_of_outlook h]
    rfl
  have hdue : ∀ q : YieldTokenPosition, q.interestDue v' = q.interestDue v := fun q => by
    rw [interestDue, interestDue, hr.final, hr.lastSeen]
  have hearn : ∀ q : YieldTokenPosition, q.earnEmissions v' = q.earnEmissions v := fun q => by
    rw [earnEmissions, earnEmissions, totalSyBalance, totalSyBalance, hr.final]
    simp only [earnTrackers_congr (finalIndexes_of_outlook h)]
  rw [earned, earned, hensure, hr.isInEmergencyMode, hr.final]
  simp only [hdue, hearn]

/-- **A position that has earned earns nothing more**, in the same outlook. -/
theorem earned_again (hcalm : v.isInEmergencyMode = false) (h : p.earned v = .ok (c, p')) :
    p'.earned v = .ok (0, p') := by
  simp only [earned, hcalm, Bool.false_eq_true, ↓reduceIte, bind_eq_ok,
    YieldTokenTracker.incStaged, unwrap_eq_ok, Except.ok.injEq, Prod.mk.injEq] at h
  obtain ⟨c', hc, i, ⟨s, -, rfl⟩, q, hq, -, rfl⟩ := h
  simp only [earnEmissions, bind_eq_ok, Except.ok.injEq] at hq
  obtain ⟨b, hb, ts, hts, rfl⟩ := hq
  simp only [interestDue, bind_eq_ok] at hc
  obtain ⟨m, -, hscale⟩ := hc
  have hlen : v.emissions.length ≤ ts.length := by
    rw [length_earnTrackers hts]
    simp only [ensureTrackers, List.length_append, List.length_replicate]
    omega
  let q : YieldTokenPosition :=
    { p.ensureTrackers v with interest := ⟨v.finalSyExchangeRate, s⟩, emissions := ts }
  have hensure : q.ensureTrackers v = q := by
    simp [q, ensureTrackers, Nat.sub_eq_zero_of_le hlen]
  have hdue : q.interestDue v = .ok 0 := by
    simp only [q, interestDue, calcEarnedSy, le_refl, true_or, ↓reduceIte, ok_bind]
    exact scaleSyToCurrentRate_zero hscale
  have hsum : checkedAdd q.interest.staged 0 = some q.interest.staged :=
    checkedAdd_eq_some.2 (by simp)
  have hearn : q.earnEmissions v = .ok q := by
    have htotal : q.totalSyBalance v = .ok b := hb
    have htrackers : earnTrackers b q.emissions v.emissions = .ok q.emissions :=
      earnTrackers_again hts
    rw [earnEmissions, htotal, ok_bind, htrackers, ok_bind]
  show q.earned v = .ok (0, q)
  simp only [earned, hensure, hcalm, Bool.false_eq_true, ↓reduceIte, hdue, ok_bind,
    YieldTokenTracker.incStaged, hsum, unwrap]
  show (q.earnEmissions v >>= fun p => .ok (0, p)) = .ok (0, q)
  rw [hearn, ok_bind]

end YieldTokenPosition

end ExponentCore
