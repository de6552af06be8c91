import ExponentCore.Market.Proof.Slots
import ExponentCore.Vault.Proof.Exits

/-!
# When LP tokens can be withdrawn

`withdraw_lp` looks at the market's position in the SY program and at the clock first, and stages
what the LP position has earned. In a market whose emissions are funded and whose trackers are not
ahead most of that cannot abort: the amounts that the SY program reports are not below those last
seen, and what a position is credited of an emission is within them. What is left is `WithdrawFits`:
no emission is reported that the market has not registered, the indexes stay numbers, and the farms
have not emitted more than a `u64`.

`exits_return_iff` puts this beside the merges of a vault.
-/

set_option autoImplicit false

namespace ExponentCore

open Number

variable {K : Type}

/-! ## The market's share -/

section
variable {lp c : UInt64} {e e' : MarketEmission} {es es' : List MarketEmission} {cs : List UInt64}
  {f f' : FarmEmission} {fs fs' : List FarmEmission} {last now : UInt32} {i : Nat}

namespace MarketEmission

theorem exists_update :
    (∃ e', e.update c lp = .ok e') ↔ e.lastSeenStaged ≤ c ∧
      e.lpShareIndex.raw + (c.toNat - e.lastSeenStaged.toNat) * denom / lp.toNat < 2 ^ 256 := by
  rw [UInt64.le_iff_toNat_le]
  constructor
  · rintro ⟨e', h⟩
    obtain ⟨d, hd, hraw⟩ := (updated_of_ok h).index
    rw [fromRatio_raw] at hraw
    refine ⟨by omega, ?_⟩
    rw [← hd, Nat.add_sub_cancel, ← hraw]
    exact e'.lpShareIndex.isLt
  · rintro ⟨hle, hfit⟩
    obtain ⟨d, hd⟩ := exists_toNat.2
      ((Nat.sub_le c.toNat e.lastSeenStaged.toNat).trans_lt c.toNat_lt)
    obtain ⟨x, hx⟩ := exists_raw.2 hfit
    have hsub : subU64 c e.lastSeenStaged = .ok d := subU64_eq_ok.2 (by omega)
    have hadd : e.lpShareIndex.add (fromRatio d lp) = .ok x :=
      add_eq_ok.2 (by rw [hx, fromRatio_raw, hd])
    refine ⟨{ e with lpShareIndex := x, lastSeenStaged := c }, ?_⟩
    rw [update, hsub, ok_bind]
    show (e.lpShareIndex.add (fromRatio d lp) >>= _) = _
    rw [hadd, ok_bind]

/-- A report can be taken over if it is no longer than the list of the market and every emission in
it can be updated. -/
theorem exists_updateAll :
    (∃ es', updateAll lp es cs = .ok es') ↔ cs.length ≤ es.length ∧
      ∀ (i : Nat) (e : MarketEmission) (c : UInt64), es[i]? = some e → cs[i]? = some c →
        ∃ e', e.update c lp = .ok e' := by
  induction cs generalizing es with
  | nil => exact ⟨fun _ => ⟨Nat.zero_le _, by simp⟩, fun _ => ⟨es, by cases es <;> rfl⟩⟩
  | cons c cs ih =>
    cases es with
    | nil => simp [updateAll]
    | cons e es =>
      rw [updateAll, exists_bind]
      simp only [exists_bind, List.length_cons, Nat.add_le_add_iff_right]
      constructor
      · rintro ⟨e', he, es', hes, -⟩
        obtain ⟨hlen, hall⟩ := ih.1 ⟨es', hes⟩
        refine ⟨hlen, ?_⟩
        rintro (_ | i) e₁ c₁ he₁ hc₁
        · obtain rfl := Option.some.inj he₁
          obtain rfl := Option.some.inj hc₁
          exact ⟨e', he⟩
        · exact hall i e₁ c₁ he₁ hc₁
      · rintro ⟨hlen, hall⟩
        obtain ⟨e', he⟩ := hall 0 e c rfl rfl
        obtain ⟨es', hes⟩ := ih.2 ⟨hlen, fun i e₁ c₁ he₁ hc₁ => hall (i + 1) e₁ c₁ he₁ hc₁⟩
        exact ⟨e', he, es', hes, _, rfl⟩

end MarketEmission

/-- What a farm has emitted since it was last seen. -/
def FarmEmission.emitted (f : FarmEmission) (lastSeen now : UInt32) : Nat :=
  f.tokenRate.toNat * (min f.expiryTimestamp.toNat now.toNat - lastSeen.toNat)

/-- The units of its index then. -/
def FarmEmission.indexAt (f : FarmEmission) (lastSeen now : UInt32) (lpStaked : UInt64) : Nat :=
  f.index.raw + f.emitted lastSeen now * denom / lpStaked.toNat

theorem FarmEmission.exists_incIndex :
    (∃ f', f.incIndex (deltaTimeFarm f.expiryTimestamp last now) lp = .ok f') ↔
      f.emitted last now < 2 ^ 64 ∧ f.indexAt last now lp < 2 ^ 256 := by
  unfold indexAt emitted
  constructor
  · rintro ⟨f', h⟩
    obtain ⟨n, hn, hraw⟩ := (advanced_of_ok h).index
    rw [← hn]
    rw [fromRatio_raw] at hraw
    exact ⟨n.toNat_lt, hraw ▸ f'.index.isLt⟩
  · rintro ⟨hn, hx⟩
    obtain ⟨n, hn⟩ := exists_toNat.2 hn
    rw [← hn] at hx
    obtain ⟨x, hx⟩ := exists_raw.2 hx
    have hmul : mulU64 f.tokenRate (deltaTimeFarm f.expiryTimestamp last now).toUInt64 = .ok n :=
      mulU64_eq_ok.2 (by rw [hn, UInt32.toNat_toUInt64, deltaTimeFarm_toNat])
    have hadd : f.index.add (fromRatio n lp) = .ok x := add_eq_ok.2 (by rw [hx, fromRatio_raw])
    exact ⟨{ f with index := x }, by rw [incIndex, hmul, ok_bind, hadd, ok_bind]⟩

theorem FarmEmission.Advanced.raw (h : Advanced last now lp f f') :
    f'.index.raw = f.indexAt last now lp := by
  obtain ⟨n, hn, hraw⟩ := h.index
  rw [hraw, fromRatio_raw, hn]
  rfl

theorem LpFarm.exists_increaseAll :
    (∃ fs', increaseAll last now lp fs = .ok fs') ↔
      ∀ f ∈ fs, f.emitted last now < 2 ^ 64 ∧ f.indexAt last now lp < 2 ^ 256 := by
  induction fs with
  | nil => simp [increaseAll]
  | cons f fs ih =>
    rw [increaseAll, exists_bind, List.forall_mem_cons, ← FarmEmission.exists_incIndex, ← ih]
    simp only [exists_bind]
    constructor
    · rintro ⟨f', hf, fs', hfs, -⟩
      exact ⟨⟨f', hf⟩, fs', hfs⟩
    · rintro ⟨⟨f', hf⟩, fs', hfs⟩
      exact ⟨f', hf, fs', hfs, _, rfl⟩

end

/-! ## Staging -/

section
variable {ts : List PersonalYieldTracker} {xs es fs : List Number} {y : UInt64} {p : LpPosition}

namespace PersonalYieldTrackers

/-- What a tracker is paid at an index fits, and the index is not below that of the tracker. -/
def Payable (y : UInt64) (x : Number) (t : PersonalYieldTracker) : Prop :=
  t.lastSeenIndex ≤ x ∧
    t.staged.toNat + (x.raw - t.lastSeenIndex.raw) * y.toNat / denom < 2 ^ 64

theorem exists_earn {t : PersonalYieldTracker} {x : Number} :
    (∃ t', earn y t x = .ok t') ↔ Payable y x t := by
  simp only [earn, exists_bind, calcEarnedEmissions_eq_ok, expect_eq_ok, checkedAdd_eq_some,
    Payable]
  constructor
  · rintro ⟨n, ⟨hle, hn⟩, s, hs, -⟩
    rw [← hn, ← hs]
    exact ⟨hle, s.toNat_lt⟩
  · rintro ⟨hle, hfit⟩
    obtain ⟨n, hn⟩ := exists_toNat.2 ((Nat.le_add_left _ _).trans_lt hfit)
    rw [← hn] at hfit
    obtain ⟨s, hs⟩ := exists_toNat.2 hfit
    exact ⟨n, ⟨hle, hn⟩, s, hs, _, rfl⟩

theorem exists_earnAll (hlen : xs.length ≤ ts.length) :
    (∃ ts', earnAll y ts xs = .ok ts') ↔
      ∀ (i : Nat) (x : Number), xs[i]? = some x → Payable y x (tracker ts i) := by
  induction xs generalizing ts with
  | nil => exact ⟨fun _ i x hx => by simp at hx, fun _ => ⟨ts, by cases ts <;> rfl⟩⟩
  | cons x xs ih =>
    cases ts with
    | nil => simp at hlen
    | cons t ts =>
      have ih := ih (Nat.le_of_succ_le_succ hlen)
      simp only [earnAll, exists_bind]
      constructor
      · rintro ⟨t', ht, ts', hts, -⟩
        rintro (_ | i) x' hx'
        · obtain rfl := Option.some.inj hx'
          exact exists_earn.1 ⟨t', ht⟩
        · exact ih.1 ⟨ts', hts⟩ i x' hx'
      · intro h
        obtain ⟨t', ht⟩ := exists_earn.2 (h 0 x rfl)
        obtain ⟨ts', hts⟩ := ih.2 fun i x' hx' => h (i + 1) x' hx'
        exact ⟨t', ht, ts', hts, _, rfl⟩

theorem exists_ensureTrackersAndEarnAll :
    (∃ ts', ensureTrackersAndEarnAll ts xs y = .ok ts') ↔
      ∀ (i : Nat) (x : Number), xs[i]? = some x → Payable y x (tracker ts i) := by
  rw [ensureTrackersAndEarnAll, exists_earnAll
    (by rw [length_ensureTrackers]; exact le_max_right _ _)]
  simp only [tracker_ensureTrackers]

end PersonalYieldTrackers

theorem LpPosition.exists_stageAll :
    (∃ p', p.stageAll es fs = .ok p') ↔
      ∀ r x, LpReward.indexIn es fs r = some x →
        PersonalYieldTrackers.Payable p.lpBalance x (p.tracker r) := by
  simp only [stageAll, exists_bind]
  constructor
  · rintro ⟨ts, hts, us, hus, -⟩ r x hx
    cases r with
    | emission i => exact PersonalYieldTrackers.exists_ensureTrackersAndEarnAll.1 ⟨ts, hts⟩ i x hx
    | farm i => exact PersonalYieldTrackers.exists_ensureTrackersAndEarnAll.1 ⟨us, hus⟩ i x hx
  · intro h
    obtain ⟨ts, hts⟩ := PersonalYieldTrackers.exists_ensureTrackersAndEarnAll.2 fun i x hx =>
      h (.emission i) x hx
    obtain ⟨us, hus⟩ := PersonalYieldTrackers.exists_ensureTrackersAndEarnAll.2 fun i x hx =>
      h (.farm i) x hx
    exact ⟨ts, hts, us, hus, _, rfl⟩

end

/-! ## Withdrawing -/

section
variable {m m' : MarketTwo K} {p p' : LpPosition} {now : UInt32} {cs : List UInt64} {a : UInt64}
  {w w' : LpWorld K} {i : Nat} {e e' : MarketEmission}

instance {lp : UInt64} {es : List MarketEmission} :
    OnlyAborts (MarketEmission.updateAll lp es cs) := by
  induction es generalizing cs with
  | nil =>
    cases cs with
    | nil => exact inferInstanceAs (OnlyAborts (.ok []))
    | cons c cs => exact inferInstanceAs (OnlyAborts (.error (.panic _)))
  | cons e es ih =>
    cases cs with
    | nil => exact inferInstanceAs (OnlyAborts (.ok _))
    | cons c cs =>
      unfold MarketEmission.updateAll MarketEmission.update
      infer_instance

instance {lp : UInt64} {last : UInt32} {fs : List FarmEmission} :
    OnlyAborts (LpFarm.increaseAll last now lp fs) := by
  induction fs with
  | nil => exact inferInstanceAs (OnlyAborts (.ok []))
  | cons f fs ih =>
    unfold LpFarm.increaseAll FarmEmission.incIndex
    infer_instance

instance {y : UInt64} {ts : List PersonalYieldTracker} {xs : List Number} :
    OnlyAborts (PersonalYieldTrackers.earnAll y ts xs) := by
  induction xs generalizing ts with
  | nil =>
    cases ts with
    | nil => exact inferInstanceAs (OnlyAborts (.ok []))
    | cons t ts => exact inferInstanceAs (OnlyAborts (.ok _))
  | cons x xs ih =>
    cases ts with
    | nil => exact inferInstanceAs (OnlyAborts (.error (.panic _)))
    | cons t ts =>
      unfold PersonalYieldTrackers.earnAll PersonalYieldTrackers.earn
        PersonalYieldTracker.calcEarnedEmissions
      infer_instance

instance : OnlyAborts (updateAndStage m p now cs) := by
  unfold updateAndStage MarketTwo.updateEmissionsFromPositionState LpFarm.increaseShareIndexes
    LpPosition.stageAll PersonalYieldTrackers.ensureTrackersAndEarnAll
  infer_instance

/-- **What a withdrawal computes fits**, for a market, a position, a time and the amounts that the
SY program reports. -/
structure WithdrawFits (m : MarketTwo K) (p : LpPosition) (now : UInt32) (cs : List UInt64) :
    Prop where
  reported : cs.length ≤ m.emissions.length
  emissionIndexes : ∀ (i : Nat) (e : MarketEmission) (c : UInt64), m.emissions[i]? = some e →
    cs[i]? = some c → e.lpShareIndex.raw
      + (c.toNat - e.lastSeenStaged.toNat) * denom / m.lpEscrowAmount.toNat < 2 ^ 256
  farmEmitted : ∀ f ∈ m.lpFarm.farmEmissions, f.emitted m.lpFarm.lastSeenTimestamp now < 2 ^ 64
  farmIndexes : ∀ f ∈ m.lpFarm.farmEmissions,
    f.indexAt m.lpFarm.lastSeenTimestamp now m.lpEscrowAmount < 2 ^ 256
  farmCredits : ∀ (i : Nat) (f : FarmEmission), m.lpFarm.farmEmissions[i]? = some f →
    (p.tracker (.farm i)).staged.toNat
      + (f.indexAt m.lpFarm.lastSeenTimestamp now m.lpEscrowAmount
          - (p.tracker (.farm i)).lastSeenIndex.raw) * p.lpBalance.toNat / denom < 2 ^ 64

namespace LpWorld

/-- Nothing that the SY program reports has dropped below what could be claimed. -/
def Reported (w : LpWorld K) (cs : List UInt64) : Prop :=
  ∀ i < cs.length, w.amountsClaimable.getD i 0 ≤ cs.getD i 0

instance (w : LpWorld K) (cs : List UInt64) : Decidable (w.Reported cs) :=
  Nat.decidableBallLT _ _

theorem Reported.le (h : w.Reported cs) {c : UInt64} (hc : cs[i]? = some c) :
    w.amountsClaimable.getD i 0 ≤ c := by
  have hle := h i (List.getElem?_eq_some_iff.1 hc).1
  rwa [getD_of_some hc] at hle

/-- What holds of a market before every withdrawal. -/
structure Sound (w : LpWorld K) : Prop where
  emissions : EmissionInv w
  notAhead : w.NotAhead

/-- An updated emission still covers what the positions are owed. -/
theorem Sound.funded_updated {es : List MarketEmission} (h : w.Sound) (hcs : w.Reported cs)
    (hes : MarketEmission.updateAll w.market.lpEscrowAmount w.market.emissions cs = .ok es)
    (he' : es[i]? = some e') :
    (LpPosition.rewardView (.emission i)).Funded e'.lpShareIndex.value e'.lastSeenStaged.toNat
      w.lpPositions := by
  have hlt : i < w.market.emissions.length := by
    rw [← MarketEmission.length_updateAll hes]
    exact (List.getElem?_eq_some_iff.1 he').1
  obtain ⟨e₁, he₁, hsome, hnone⟩ :=
    MarketEmission.updateAll_get hes (List.getElem?_eq_getElem hlt)
  obtain rfl : e₁ = e' := Option.some.inj (he₁.symm.trans he')
  have hf := h.emissions.funded i _ (List.getElem?_eq_getElem hlt)
  cases hc : cs[i]? with
  | none =>
    rw [hnone hc]
    exact hf.funded
  | some c =>
    have hw : EmissionFunded { w with amountsClaimable := cs } i _ :=
      ⟨hf.funded, by
        rw [getD_of_some hc]
        exact UInt64.le_trans hf.claimable (hcs.le hc)⟩
    exact (hw.update h.emissions.staked hc (hsome c hc)).funded

/-- What a position is credited of an emission is within what the market has seen. -/
theorem Sound.payable_emission {es : List MarketEmission} (h : w.Sound) (hcs : w.Reported cs)
    (hes : MarketEmission.updateAll w.market.lpEscrowAmount w.market.emissions cs = .ok es)
    (he' : es[i]? = some e') (hp : p ∈ w.lpPositions) :
    PersonalYieldTrackers.Payable p.lpBalance e'.lpShareIndex (p.tracker (.emission i)) := by
  have hf := h.funded_updated hcs hes he'
  have hbehind := value_le_value.1 (hf.behind p hp)
  refine ⟨hbehind, ?_⟩
  have howed := hf.owed_le (fun _ _ => Nat.cast_nonneg _) (fun _ _ => Nat.cast_nonneg _) hp
  have hgrowth := earned_le_growth hbehind (x := p.lpBalance.toNat) rfl
  have hle : (((p.tracker (.emission i)).staged.toNat + (e'.lpShareIndex.raw
      - (p.tracker (.emission i)).lastSeenIndex.raw) * p.lpBalance.toNat / denom : Nat) : ℚ)
        ≤ e'.lastSeenStaged.toNat := by
    rw [Nat.cast_add]
    exact (add_le_add_right hgrowth _).trans howed
  exact (Nat.cast_le.1 hle).trans_lt e'.lastSeenStaged.toNat_lt

/-- **The market is updated and the position stages exactly if what they compute fits.** -/
theorem Sound.exists_updateAndStage (h : w.Sound) (hcs : w.Reported cs) (hp : p ∈ w.lpPositions) :
    (∃ r, updateAndStage w.market p now cs = .ok r) ↔ WithdrawFits w.market p now cs := by
  have hseen : ∀ (i : Nat) (e : MarketEmission) (c : UInt64), w.market.emissions[i]? = some e →
      cs[i]? = some c → e.lastSeenStaged ≤ c := fun i e c he hc =>
    UInt64.le_trans (h.emissions.funded i e he).claimable (hcs.le hc)
  constructor
  · rintro ⟨⟨m', p'⟩, hok⟩
    obtain ⟨es, f, hes, hf, rfl, hstaged⟩ := updateAndStage_eq_ok hok
    obtain ⟨hlen, hall⟩ := MarketEmission.exists_updateAll.1 ⟨es, hes⟩
    obtain ⟨fs, hfs, rfl⟩ : ∃ fs, LpFarm.increaseAll w.market.lpFarm.lastSeenTimestamp now
        w.market.lpEscrowAmount w.market.lpFarm.farmEmissions = .ok fs ∧ f = ⟨now, fs⟩ := by
      obtain ⟨fs, hfs, hf⟩ := bind_eq_ok.1 hf
      exact ⟨fs, hfs, (Except.ok.inj hf).symm⟩
    have hfarms := LpFarm.exists_increaseAll.1 ⟨fs, hfs⟩
    refine ⟨hlen, fun i e c he hc => (MarketEmission.exists_update.1 (hall i e c he hc)).2,
      fun f hf => (hfarms f hf).1, fun f hf => (hfarms f hf).2, fun i f hf => ?_⟩
    have hadv := LpFarm.increaseAll_forall hfs
    obtain ⟨hlt, rfl⟩ := List.getElem?_eq_some_iff.1 hf
    obtain ⟨f', hf'⟩ : ∃ f', fs[i]? = some f' :=
      ⟨_, List.getElem?_eq_getElem (hadv.length_eq ▸ hlt)⟩
    obtain ⟨f₀, hf₀, hadv⟩ := getElem?_of_forall₂ hadv hf'
    obtain rfl := Option.some.inj (hf₀.symm.trans hf)
    have hset := hstaged.settles (.farm i) f'.index (by
      show (fs.map FarmEmission.index)[i]? = _
      rw [List.getElem?_map, hf', Option.map_some])
    rw [← hadv.raw, ← hset.paid]
    exact UInt64.toNat_lt _
  · intro hfits
    obtain ⟨es, hes⟩ := MarketEmission.exists_updateAll.2 ⟨hfits.reported, fun i e c he hc =>
      MarketEmission.exists_update.2 ⟨hseen i e c he hc, hfits.emissionIndexes i e c he hc⟩⟩
    obtain ⟨fs, hfs⟩ := LpFarm.exists_increaseAll.2 fun f hf =>
      ⟨hfits.farmEmitted f hf, hfits.farmIndexes f hf⟩
    have hadv := LpFarm.increaseAll_forall hfs
    have hf : w.market.lpFarm.increaseShareIndexes now w.market.lpEscrowAmount = .ok ⟨now, fs⟩ := by
      rw [LpFarm.increaseShareIndexes, hfs, ok_bind]
    have hpayable : ∀ r x,
        LpReward.indexIn (es.map MarketEmission.lpShareIndex) (fs.map FarmEmission.index) r
          = some x → PersonalYieldTrackers.Payable p.lpBalance x (p.tracker r) := by
      intro r x hx
      cases r with
      | emission i =>
        obtain ⟨e', he', rfl⟩ := Option.map_eq_some_iff.1 ((List.getElem?_map ..).symm.trans hx)
        exact h.payable_emission hcs hes he' hp
      | farm i =>
        obtain ⟨f', hf', rfl⟩ := Option.map_eq_some_iff.1 ((List.getElem?_map ..).symm.trans hx)
        obtain ⟨f₀, hf₀, hadv⟩ := getElem?_of_forall₂ hadv hf'
        refine ⟨?_, ?_⟩
        · refine (h.notAhead.behind (.farm i) _ (farmIndexes_get hf₀) p hp).trans (le_def.2 ?_)
          rw [hadv.raw]
          exact Nat.le_add_right _ _
        · rw [hadv.raw]
          exact hfits.farmCredits i f₀ hf₀
    obtain ⟨p', hp'⟩ := LpPosition.exists_stageAll.2 hpayable
    refine ⟨({ w.market with emissions := es, lpFarm := ⟨now, fs⟩ }, p'), ?_⟩
    rw [updateAndStage, MarketTwo.updateEmissionsFromPositionState, hes, ok_bind, ok_bind, hf,
      ok_bind]
    show (p.stageAll (es.map MarketEmission.lpShareIndex) (fs.map FarmEmission.index) >>= _) = _
    rw [hp', ok_bind]

/-- **A withdrawal does not abort exactly if what it computes fits.** -/
theorem Sound.noAbort_withdrawLp_iff (h : w.Sound) (hcs : w.Reported cs) (hmem : p ∈ w.lpPositions)
    (ha : a ≤ p.lpBalance) :
    NoAbort (withdrawLp w.market p now cs a) ↔ WithdrawFits w.market p now cs := by
  rw [← h.exists_updateAndStage hcs hmem, withdrawLp, noAbort_bind]
  constructor
  · rintro ⟨r, hr, -⟩
    exact ⟨r, hr⟩
  · rintro ⟨⟨m', p'⟩, hr⟩
    refine ⟨_, hr, ?_⟩
    obtain ⟨es, f, -, -, rfl, hstaged⟩ := updateAndStage_eq_ok hr
    have ha := UInt64.le_iff_toNat_le.1 ha
    have hstaked : p.lpBalance.toNat ≤ w.market.lpEscrowAmount.toNat := by
      rw [h.emissions.staked]
      exact List.single_le_sum (fun _ _ => Nat.zero_le _) _ (List.mem_map_of_mem hmem)
    obtain ⟨b, hb⟩ := exists_toNat.2 ((Nat.sub_le _ a.toNat).trans_lt p.lpBalance.toNat_lt)
    obtain ⟨l, hl⟩ := exists_toNat.2
      ((Nat.sub_le _ a.toNat).trans_lt w.market.lpEscrowAmount.toNat_lt)
    have hbalance : checkedSub p.lpBalance a = some b := checkedSub_eq_some.2 (by omega)
    have hrm : p'.rmLp a = .ok { p' with lpBalance := b } := by
      rw [LpPosition.rmLp, hstaged.lpBalance, hbalance]
      rfl
    have hescrow : checkedSub w.market.lpEscrowAmount a = some l := checkedSub_eq_some.2 (by omega)
    dsimp only
    rw [hrm, ok_bind, hescrow]
    intro q hq
    cases hq

/-- A market stays sound as long as the SY program takes nothing back and no emission is removed. -/
theorem Sound.step {op : LpOp} (hs : w.Sound) (hop : op.Accrues w ∧ ¬ op.RemovesMarketEmission)
    (h : w.step op = .ok w') : w'.Sound := by
  have hkeeps : op.KeepsSlots w := by
    intro _ _
    cases op with
    | addMarketEmission => exact hs.emissions.listed
    | removeMarketEmission => exact absurd trivial hop.2
    | _ => trivial
  exact ⟨step_induction (A := fun w op => op.Accrues w ∧ ¬ op.RemovesMarketEmission)
      (fun _ _ hi he => hi.event (fun _ _ hA => hA) he) hs.emissions hop h,
    step_induction (fun _ _ hn he => hn.event he) hs.notAhead hkeeps h⟩

end LpWorld

end

/-! ## A vault and a market -/

/-- A way out: PT is merged, or LP tokens are withdrawn, at some time and on some report of the SY
program. -/
inductive Exit
  | merge (now : UInt32) (syState : SyState) (amountPy : UInt64)
  | withdrawLp (now : UInt32) (lpPosition : LpPosition) (amountsClaimable : List UInt64)
      (amount : UInt64)

namespace Exit

variable (s : VaultWorld × LpWorld K)

/-- The amount is backed, the rate is positive, and nothing claimable has dropped. -/
def Allowed : Exit → Prop
  | merge now syState a =>
    0 < syState.exchangeRate ∧ MergeBacked s.1.vault s.1.yieldPosition now a
  | withdrawLp _ p cs a => s.2.Reported cs ∧ p ∈ s.2.lpPositions ∧ a ≤ p.lpBalance

/-- **The exit is open**: the handler succeeds, or is refused with an error of the program. -/
def Open : Exit → Prop
  | merge now syState a => NoAbort (handleMerge s.1.vault s.1.yieldPosition now syState a)
  | withdrawLp now p cs a => NoAbort (ExponentCore.withdrawLp s.2.market p now cs a)

/-- The report lists nothing that is not registered, and its numbers fit. -/
def Fits : Exit → Prop
  | merge now syState _ => MergeFits s.1.vault s.1.yieldPosition now syState
  | withdrawLp now p cs _ => WithdrawFits s.2.market p now cs

instance : ∀ x : Exit, Decidable (x.Allowed s)
  | merge _ _ _ => inferInstanceAs (Decidable (_ ∧ _))
  | withdrawLp _ _ _ _ => inferInstanceAs (Decidable (_ ∧ _))

instance : ∀ x : Exit, Decidable (x.Open s)
  | merge _ _ _ => inferInstanceAs (Decidable (NoAbort _))
  | withdrawLp _ _ _ _ => inferInstanceAs (Decidable (NoAbort _))

end Exit

/-- The SY program takes nothing back from the market, and no emission of the market is removed. -/
def Undisturbed (s : VaultWorld × LpWorld K) : VaultOp ⊕ LpOp → Prop
  | .inl _ => True
  | .inr op => op.Accrues s.2 ∧ ¬ op.RemovesMarketEmission

instance (s : VaultWorld × LpWorld K) : ∀ op : VaultOp ⊕ LpOp, Decidable (Undisturbed s op)
  | .inl _ => instDecidableTrue
  | .inr op => inferInstanceAs (Decidable (op.Accrues s.2 ∧ ¬ op.RemovesMarketEmission))

section
variable {s : VaultWorld × LpWorld K}

/-- What holds of a market on its own holds of it beside a vault. -/
theorem sound_of_run_both {ops : List (VaultOp ⊕ LpOp)} (h : s.2.Sound)
    (hops : Machine.Admits (Machine.par VaultWorld.step LpWorld.step) Undisturbed s ops) :
    (Machine.run (Machine.par VaultWorld.step LpWorld.step) s ops).2.Sound := by
  refine Machine.run_induction (I := fun s => s.2.Sound) ?_ h hops
  rintro s₁ (op | op) s₂ hs hop hstep
  · obtain ⟨v, -, rfl⟩ := Machine.map_eq_ok.1 hstep
    exact hs
  · obtain ⟨w, hw, rfl⟩ := Machine.map_eq_ok.1 hstep
    exact hs.step hop hw

/-- **When the exits are open**: in every state that a run of a new vault and a new market reaches,
at whatever time and on whatever report, a merge or a withdrawal that is allowed does not abort
exactly if the report lists nothing unregistered and its numbers fit. -/
theorem exits_open_iff (args : InitializeVaultArgs) (w : LpWorld K) (hw : w.Fresh)
    (ops : List (VaultOp ⊕ LpOp))
    (hops : Machine.Admits (Machine.par VaultWorld.step LpWorld.step) Undisturbed
      (VaultWorld.initializeVault args, w) ops) (x : Exit)
    (hx : x.Allowed (Machine.run (Machine.par VaultWorld.step LpWorld.step)
      (VaultWorld.initializeVault args, w) ops)) :
    x.Open (Machine.run (Machine.par VaultWorld.step LpWorld.step)
        (VaultWorld.initializeVault args, w) ops) ↔
      x.Fits (Machine.run (Machine.par VaultWorld.step LpWorld.step)
        (VaultWorld.initializeVault args, w) ops) := by
  have hsound := sound_of_run_both (s := (VaultWorld.initializeVault args, w))
    ⟨.fresh hw, LpWorld.notAhead_fresh hw⟩ hops
  cases x with
  | merge now syState a => exact noAbort_handleMerge_iff hx.1.ne' hx.2
  | withdrawLp now p cs a => exact hsound.noAbort_withdrawLp_iff hx.1 hx.2.1 hx.2.2

end

/-- SY is stripped, and LP tokens are staked. -/
def stripAndStake : List (VaultOp ⊕ LpOp) :=
  [.inl (.strip 1 ⟨1, []⟩ 1000), .inr (.initLpPosition 1), .inr (.depositLp 10 0 100)]

theorem exits_open_iff_stripAndStake :
    let s := Machine.run (Machine.par VaultWorld.step LpWorld.step)
      (VaultWorld.initializeVault ⟨0, 1000, 0, {}, 0, 0, 0, 0⟩, LpWorld.freshMarket) stripAndStake
    (Exit.merge 20 ⟨1, []⟩ 1000).Open s ↔ (Exit.merge 20 ⟨1, []⟩ 1000).Fits s :=
  exits_open_iff _ _ LpWorld.freshMarket_fresh stripAndStake (by decide +kernel) _
    (by decide +kernel)

/-- The SY program lists a reward that nobody has registered: nothing of it is due, and the holders
can neither merge nor withdraw. -/
theorem not_exits_open_unregistered :
    let s := Machine.run (Machine.par VaultWorld.step LpWorld.step)
      (VaultWorld.initializeVault ⟨0, 1000, 0, {}, 0, 0, 0, 0⟩, LpWorld.freshMarket) stripAndStake
    Machine.Admits (Machine.par VaultWorld.step LpWorld.step) Undisturbed
        (VaultWorld.initializeVault ⟨0, 1000, 0, {}, 0, 0, 0, 0⟩, LpWorld.freshMarket)
        stripAndStake ∧
      (Exit.merge 20 ⟨1, [0]⟩ 1000).Allowed s ∧ ¬ (Exit.merge 20 ⟨1, [0]⟩ 1000).Open s ∧
      (Exit.withdrawLp 20 ⟨1, 100, [], []⟩ [0] 100).Allowed s ∧
      ¬ (Exit.withdrawLp 20 ⟨1, 100, [], []⟩ [0] 100).Open s := by
  decide +kernel

end ExponentCore
