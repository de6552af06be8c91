import ExponentCore.Lib.Reorder
import ExponentCore.Vault.Proof.Earnings

/-!
# The order of stagings

`stage_yt_yield` may be called for every position, by anyone, at one time and on one report of the
SY program. After the first call the vault has recorded the report and its own position has earned,
so the others find nothing to record (`updateFromSyState_again`), and each of them adds the credit
of one position to the uncollected SY. Two stagings therefore swap, one absorbs its repetition, and
what a round of stagings leaves depends only on which positions it stages
(`stagings_in_any_order`).
-/

set_option autoImplicit false

namespace ExponentCore

open Number

/-! ## A report that is recorded already -/

namespace Vault

variable {v v₁ v₂ : Vault} {now : UInt32} {syState : SyState} {active : Bool}
  {es es' : List EmissionInfo} {xs : List Number}

theorem recordIndexes_again (h : recordIndexes active es xs = .ok es') :
    recordIndexes active es' xs = .ok es' := by
  induction xs generalizing es es' with
  | nil => exact recordIndexes_nil
  | cons x xs ih =>
    cases es with
    | nil => cases h
    | cons e es =>
      simp only [recordIndexes, bind_eq_ok, Except.ok.injEq] at h
      obtain ⟨es₁, hes, rfl⟩ := h
      simp only [recordIndexes, ih hes, ok_bind, Except.ok.injEq]
      cases active with
      | true => rfl
      | false => rfl

/-- The treasury's share of emissions at the reported indexes is nothing. -/
theorem surpluses_again (total : UInt64) (h : recordIndexes active es xs = .ok es') :
    ∃ ss, ((es'.zip xs).mapM fun x => calcShareValue x.1.lastSeenIndex x.2 total) = .ok ss ∧
      addTreasuryEmissions es' ss = .ok es' := by
  induction xs generalizing es es' with
  | nil => exact ⟨[], by rw [List.zip_nil_right]; rfl, addTreasuryEmissions_nil⟩
  | cons x xs ih =>
    cases es with
    | nil => cases h
    | cons e es =>
      simp only [recordIndexes, bind_eq_ok, Except.ok.injEq] at h
      obtain ⟨es₁, hes, rfl⟩ := h
      obtain ⟨ss, hss, hadd⟩ := ih hes
      have hsum : checkedAdd e.treasuryEmission 0 = some e.treasuryEmission :=
        checkedAdd_eq_some.2 (by simp)
      refine ⟨0 :: ss, ?_, ?_⟩
      · rw [List.zip_cons_cons, List.mapM_cons, hss]
        simp [calcShareValue]
      · simp only [addTreasuryEmissions, hsum, unwrap, ok_bind, hadd]

/-- No SY is skimmed at a rate that is not above the highest one. -/
theorem skimSy_of_recorded {expired : Bool} (hexpired : v.isExpired now = .ok expired)
    (hhigh : syState.exchangeRate ≤ v.allTimeHighSyExchangeRate) :
    v.skimSy syState now = .ok v := by
  have hlambo : v.canCollectSyLambo now syState = .ok false := by
    rw [canCollectSyLambo, hexpired, ok_bind, decide_eq_false (not_lt.2 hhigh), Bool.and_false]
  rw [skimSy, hlambo, ok_bind, if_neg Bool.false_ne_true]

/-- No emissions are skimmed at indexes that are recorded. -/
theorem skimEmissions_of_recorded {expired : Bool} (hexpired : v.isExpired now = .ok expired)
    (hes : recordIndexes active es syState.emissionIndexes = .ok v.emissions) :
    v.skimEmissions syState now = .ok v := by
  rw [skimEmissions, canCollectEmissionLambo, hexpired, ok_bind]
  cases expired with
  | false => rw [if_neg Bool.false_ne_true]
  | true =>
    obtain ⟨ss, hss, hadd⟩ := surpluses_again v.totalSyInEscrow hes
    rw [if_pos rfl, calcEmissionSurpluses, hss, ok_bind, increaseEmissionLamboFund, hadd, ok_bind]

/-- **A report that is recorded already** changes nothing but the backing of the PT. -/
theorem updateFromSyState_again (h : v.updateFromSyState syState now = .ok v₁) (t s : UInt64)
    (hv : v₂ = { v₁ with uncollectedSy := t, syForPt := s }) :
    v₂.updateFromSyState syState now = v₂.setSyForPt := by
  simp only [updateFromSyState, bind_eq_ok] at h
  obtain ⟨w₁, h₁, w₂, h₂, w₃, h₃, h₄⟩ := h
  obtain ⟨expired, hexpired⟩ : ∃ expired, v.isExpired now = .ok expired := by
    obtain ⟨_, hcan, -⟩ := bind_eq_ok.1 h₁
    obtain ⟨expired, hexpired, -⟩ := bind_eq_ok.1 hcan
    exact ⟨expired, hexpired⟩
  obtain ⟨n, u, -, -, rfl⟩ := skimSy_eq_ok h₁
  obtain ⟨es, rfl⟩ := skimEmissions_eq_ok h₂
  simp only [recordSyState, bind_eq_ok, Except.ok.injEq] at h₃
  obtain ⟨active, ha, es', hes, rfl⟩ := h₃
  obtain ⟨s', rfl, -⟩ := setSyForPt_eq_ok h₄
  have hexpired₂ : v₂.isExpired now = .ok expired := by
    rw [hv]
    exact hexpired
  have hhigh : syState.exchangeRate ≤ v₂.allTimeHighSyExchangeRate := by
    rw [hv]
    exact le_max_left _ _
  have hactive : v₂.isActive now = .ok active := by
    rw [hv]
    exact ha
  have hlist : recordIndexes active es syState.emissionIndexes = .ok v₂.emissions := by
    rw [hv]
    exact hes
  have hrecord : v₂.recordSyState syState now = .ok v₂ := by
    rw [recordSyState, hactive, ok_bind, recordIndexes_again hlist, ok_bind, hv]
    cases active <;> simp
  rw [updateFromSyState, skimSy_of_recorded hexpired₂ hhigh, ok_bind,
    skimEmissions_of_recorded hexpired₂ hlist, ok_bind, hrecord, ok_bind]

theorem setSyForPt_again (h : v.setSyForPt = .ok v₁) : v₁.setSyForPt = .ok v₁ := by
  simp only [setSyForPt, bind_eq_ok, Except.ok.injEq] at h
  obtain ⟨s, hs, rfl⟩ := h
  have hsame : syBackingPt { v with syForPt := s } = .ok s := hs
  rw [setSyForPt, hsame, ok_bind]

/-- Whether the backing of the PT can be computed does not depend on the uncollected SY. -/
theorem exists_setSyForPt_of_ok (h : v.setSyForPt = .ok v₁) (t : UInt64) :
    ∃ v', setSyForPt { v with uncollectedSy := t } = .ok v' := by
  simp only [setSyForPt, syBackingPt, syBackingForPt, bind_eq_ok] at h ⊢
  obtain ⟨s, hs, -⟩ := h
  by_cases hrate : v.lastSeenSyExchangeRate = 0
  · rw [if_pos hrate]
    exact ⟨_, 0, rfl, rfl⟩
  · rw [if_neg hrate] at hs ⊢
    simp only [bind_eq_ok] at hs ⊢
    obtain ⟨q, hq, n, hn, -⟩ := hs
    exact ⟨_, _, ⟨q, hq, n, hn, rfl⟩, rfl⟩

end Vault

/-! ## One staging -/

/-- **A staging of a user's position**: the vault records the report and its own position earns,
then the position earns, and the backing of the PT is set. -/
structure StagedUser (w : VaultWorld) (now : UInt32) (syState : SyState) (user : Nat)
    (v₁ v₂ : Vault) (p₁ u u₁ : YieldTokenPosition) (c t : UInt64) (v' : Vault) : Prop where
  refreshed : Refreshed w.vault w.yieldPosition now syState v₁ v₂ p₁
  calm : v₂.isInEmergencyMode = false
  position : w.userPositions[user]? = some u
  earned : u.earned v₂ = .ok (c, u₁)
  uncollected : t.toNat = v₂.uncollectedSy.toNat + c.toNat
  backed : Vault.setSyForPt { v₂ with uncollectedSy := t } = .ok v'

namespace VaultWorld

variable {w w' w₁ w₂ : VaultWorld} {now : UInt32} {syState : SyState} {user i j : Nat}
  {v₁ v₂ v' : Vault} {p₁ u u₁ : YieldTokenPosition} {c t : UInt64}

/-- What a staging leaves. -/
def afterStaging (w : VaultWorld) (now : UInt32) (user : Nat) (v' : Vault)
    (p₁ u₁ : YieldTokenPosition) : VaultWorld :=
  { w with
    vault := v', yieldPosition := p₁, userPositions := w.userPositions.set user u₁, clock := now }

theorem step_stageYield_iff : w.step (.stageYield now syState user) = .ok w' ↔
    ∃ v₁ v₂ p₁ u u₁ c t v', StagedUser w now syState user v₁ v₂ p₁ u u₁ c t v' ∧
      w' = w.afterStaging now user v' p₁ u₁ := by
  simp only [step, withUserPosition_eq_ok, handleStageYtYield, yieldPositionEarn, bind_eq_ok,
    updateVaultYield_eq_ok, requireNoEmergency_eq_ok,
    YieldTokenPosition.earnAllWithTracking_eq_ok, Prod.exists, Except.ok.injEq, Prod.mk.injEq]
  constructor
  · intro h
    obtain ⟨u, hu, v', p₁, u₁, hstaged, hw⟩ := h
    obtain ⟨v₂, q, ⟨v₁, hr⟩, _, he, v₃, q₁, ⟨c, t, hc, ht, hv₃⟩, v₄, hs, hv, hp, hq⟩ := hstaged
    subst hv₃ hv hp hq
    exact ⟨v₁, v₂, q, u, q₁, c, t, v₄, ⟨hr, he, hu, hc, ht, hs⟩, hw.symm⟩
  · intro h
    obtain ⟨v₁, v₂, p₁, u, u₁, c, t, v', ⟨hr, he, hu, hc, ht, hs⟩, hw⟩ := h
    exact ⟨u, hu, v', p₁, u₁, ⟨v₂, p₁, ⟨v₁, hr⟩, (), he, _, u₁, ⟨c, t, hc, ht, rfl⟩, v', hs, rfl,
      rfl, rfl⟩, hw.symm⟩

end VaultWorld

/-! ## After a staging -/

namespace StagedUser

open VaultWorld

variable {w : VaultWorld} {now : UInt32} {syState : SyState} {i j : Nat}
  {v₁ v₂ v' : Vault} {p₁ u u₁ : YieldTokenPosition} {c t : UInt64}
  (h : StagedUser w now syState i v₁ v₂ p₁ u u₁ c t v')
include h

theorem vault_eq : ∃ s : UInt64, v' = { v₂ with uncollectedSy := t, syForPt := s } := by
  obtain ⟨s, hs, -⟩ := Vault.setSyForPt_eq_ok h.backed
  exact ⟨s, hs⟩

theorem outlook : v'.outlook = v₂.outlook := by
  obtain ⟨s, rfl⟩ := h.vault_eq
  rfl

/-- The vault has nothing more to record, and its own position nothing to earn. -/
theorem refreshed_again : Refreshed v' p₁ now syState v' v' p₁ := by
  obtain ⟨s, hv⟩ := h.vault_eq
  obtain ⟨c₀, t₀, hown, ht₀, hv₂⟩ :=
    YieldTokenPosition.earnAllWithTracking_eq_ok.1 h.refreshed.earn
  have houtlook₂ : v₂.outlook = v₁.outlook := by rw [hv₂]; rfl
  have houtlook : v'.outlook = v₁.outlook := h.outlook.trans houtlook₂
  refine ⟨?_, ?_⟩
  · have hv₁ : v' = { v₁ with uncollectedSy := t, syForPt := s } := by rw [hv, hv₂]
    rw [Vault.updateFromSyState_again h.refreshed.update t s hv₁]
    exact Vault.setSyForPt_again h.backed
  · have hcalm : v₁.isInEmergencyMode = false := by
      rw [← h.calm, (SameRates.of_outlook houtlook₂).isInEmergencyMode]
    refine YieldTokenPosition.earnAllWithTracking_eq_ok.2 ⟨0, v'.uncollectedSy, ?_, by simp, rfl⟩
    rw [YieldTokenPosition.earned_congr houtlook]
    exact YieldTokenPosition.earned_again hcalm hown

/-- The same staging once more changes nothing. -/
theorem again : StagedUser (w.afterStaging now i v' p₁ u₁) now syState i v' v' p₁ u₁ u₁ 0
    v'.uncollectedSy v' where
  refreshed := h.refreshed_again
  calm := by
    rw [(SameRates.of_outlook h.outlook).isInEmergencyMode]
    exact h.calm
  position := by
    rw [afterStaging, List.getElem?_set_self (List.getElem?_eq_some_iff.1 h.position).1]
  earned := by
    rw [YieldTokenPosition.earned_congr h.outlook]
    exact YieldTokenPosition.earned_again h.calm h.earned
  uncollected := by simp
  backed := Vault.setSyForPt_again h.backed

/-- **A staging of another position that comes next** credits what it credits without the first. -/
theorem next {x₁ x₂ v'' : Vault} {q uj uj' : YieldTokenPosition} {cj tj : UInt64} (hij : i ≠ j)
    (hj : StagedUser (w.afterStaging now i v' p₁ u₁) now syState j x₁ x₂ q uj uj' cj tj v'') :
    q = p₁ ∧ w.userPositions[j]? = some uj ∧ uj.earned v₂ = .ok (cj, uj') ∧
      tj.toNat = v₂.uncollectedSy.toNat + c.toNat + cj.toNat ∧
      Vault.setSyForPt { v₂ with uncollectedSy := tj } = .ok v'' := by
  have hagain := h.refreshed_again
  obtain rfl : x₁ = v' := Except.ok.inj (hj.refreshed.update.symm.trans hagain.update)
  obtain ⟨rfl, rfl⟩ : x₂ = x₁ ∧ q = p₁ :=
    Prod.mk.inj (Except.ok.inj (hj.refreshed.earn.symm.trans hagain.earn))
  obtain ⟨s, hv⟩ := h.vault_eq
  have hposition := hj.position
  rw [afterStaging, List.getElem?_set_ne hij] at hposition
  have hearned := hj.earned
  rw [YieldTokenPosition.earned_congr h.outlook] at hearned
  have huncollected := hj.uncollected
  rw [hv] at huncollected
  have hbacked := hj.backed
  rw [hv] at hbacked
  refine ⟨rfl, hposition, hearned, ?_, hbacked⟩
  rw [huncollected, h.uncollected]

/-- **A staging of another position may come first.** -/
theorem first {uj uj' : YieldTokenPosition} {cj tj : UInt64}
    (hposition : w.userPositions[j]? = some uj) (hearned : uj.earned v₂ = .ok (cj, uj'))
    (htj : tj.toNat = v₂.uncollectedSy.toNat + cj.toNat) :
    ∃ x, StagedUser w now syState j v₁ v₂ p₁ uj uj' cj tj x := by
  obtain ⟨x, hx⟩ := Vault.exists_setSyForPt_of_ok h.backed tj
  exact ⟨x, h.refreshed, h.calm, hposition, hearned, htj, hx⟩

/-- **A staging of another position may come next.** -/
theorem second {x : Vault} {uj uj' : YieldTokenPosition} {cj tj : UInt64} (hij : i ≠ j)
    (hposition : w.userPositions[j]? = some uj) (hearned : uj.earned v₂ = .ok (cj, uj'))
    (htj : tj.toNat = v₂.uncollectedSy.toNat + c.toNat + cj.toNat)
    (hbacked : Vault.setSyForPt { v₂ with uncollectedSy := tj } = .ok x) :
    StagedUser (w.afterStaging now i v' p₁ u₁) now syState j v' v' p₁ uj uj' cj tj x := by
  obtain ⟨s, hv⟩ := h.vault_eq
  exact
    { refreshed := h.refreshed_again
      calm := h.again.calm
      position := by
        rw [afterStaging, List.getElem?_set_ne hij]
        exact hposition
      earned := by
        rw [YieldTokenPosition.earned_congr h.outlook]
        exact hearned
      uncollected := by rw [hv, htj, h.uncollected]
      backed := by
        rw [hv]
        exact hbacked }

end StagedUser

namespace VaultWorld

variable {now : UInt32} {syState : SyState}

/-- Stage the yield of a user's position. -/
def stageYield (now : UInt32) (syState : SyState) (w : VaultWorld) (user : Nat) :
    Outcome VaultWorld :=
  w.step (.stageYield now syState user)

theorem stageYield_absorbs : Machine.Absorbs (stageYield now syState) := by
  intro w i w₁ h
  obtain ⟨v₁, v₂, p₁, u, u₁, c, t, v', hi, rfl⟩ := step_stageYield_iff.1 h
  refine step_stageYield_iff.2 ⟨v', v', p₁, u₁, u₁, 0, _, v', hi.again, ?_⟩
  simp [afterStaging]

theorem stageYield_swaps : Machine.Swaps (stageYield now syState) := by
  intro w i j w₁ w₂ h₁ h₂
  by_cases hij : i = j
  · subst hij
    exact ⟨w₁, h₁, h₂⟩
  · obtain ⟨v₁, v₂, p₁, u, u₁, c, t, v', hi, rfl⟩ := step_stageYield_iff.1 h₁
    obtain ⟨x₁, x₂, q, uj, uj', cj, tj', v'', hj, rfl⟩ := step_stageYield_iff.1 h₂
    obtain ⟨rfl, hposition, hearned, huncollected, hbacked⟩ := hi.next hij hj
    obtain ⟨tj, htj⟩ : ∃ tj : UInt64, tj.toNat = v₂.uncollectedSy.toNat + cj.toNat := by
      have hlt := tj'.toNat_lt
      exact exists_toNat.2 (by omega)
    obtain ⟨x, hfirst⟩ := hi.first hposition hearned htj
    have htotal : tj'.toNat = v₂.uncollectedSy.toNat + cj.toNat + c.toNat := by omega
    have hsecond := hfirst.second (Ne.symm hij) hi.position hi.earned htotal hbacked
    refine ⟨_, step_stageYield_iff.2 ⟨v₁, v₂, q, uj, uj', cj, tj, x, hfirst, rfl⟩,
      step_stageYield_iff.2 ⟨x, x, q, u, u₁, c, tj', v'', hsecond, ?_⟩⟩
    simp only [afterStaging, List.set_comm _ _ hij]

/-- **The order of stagings does not matter**, and neither does their number: if positions are
staged at one time, on one report, then in every other order, and with any repetitions, the same
positions can be staged, and the vault and all positions end the same. -/
theorem stagings_in_any_order (now : UInt32) (syState : SyState) (w w' : VaultWorld)
    (users users' : List Nat) (hsame : ∀ user, user ∈ users ↔ user ∈ users')
    (h : users.foldlM (fun w user => w.step (.stageYield now syState user)) w = .ok w') :
    users'.foldlM (fun w user => w.step (.stageYield now syState user)) w = .ok w' :=
  Machine.foldlM_of_mem_iff stageYield_swaps stageYield_absorbs hsame h

/-- The rate of SY and the index of its one emission. -/
def report (rate index : UInt64) : SyState := ⟨fromNaturalU64 rate, [fromNaturalU64 index]⟩

/-- A vault with one emission, and two users with a half and a quarter of the YT. -/
def twoHolders : VaultWorld :=
  Machine.run step (initializeVault ⟨0, 1000, 0, {}, 0, 0, 0, 0⟩)
    [.addEmission {} (report 2 0) 0 0 0, .initializeYieldPosition 1 0,
      .initializeYieldPosition 2 0, .strip 1 (report 2 0) 100000000,
      .depositYt 2 (report 2 0) 0 100000000, .depositYt 3 (report 2 0) 1 50000000]

/-- After a rise of rate and index, in one order, and in the other with a repetition. -/
theorem stagings_in_any_order_twoHolders : ∃ w',
    [0, 1].foldlM (fun w user => w.step (.stageYield 4 (report 4 1) user)) twoHolders = .ok w' ∧
    [1, 0, 1].foldlM (fun w user => w.step (.stageYield 4 (report 4 1) user)) twoHolders
      = .ok w' := by
  have hrun : ∃ w', [0, 1].foldlM (fun w user => w.step (.stageYield 4 (report 4 1) user))
      twoHolders = .ok w' ∧ w'.vault.uncollectedSy = 50000000 := by
    decide +kernel
  obtain ⟨w', h, -⟩ := hrun
  refine ⟨w', h, stagings_in_any_order 4 (report 4 1) twoHolders w' [0, 1] [1, 0, 1] ?_ h⟩
  intro user
  simp only [List.mem_cons, List.not_mem_nil, or_false]
  omega

end VaultWorld

end ExponentCore
