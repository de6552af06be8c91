import ExponentCore.Market.Proof.LpFarms

/-!
# What a farm emits over time

`increase_share_indexes` brings all farms up to one common time, each for the seconds before its own
expiry, and the admin instructions call it before they change anything. So over a stretch of a run
in which a farm keeps its parameters the seconds that are counted add up to those that have passed
before its expiry (`seconds_step`), what the positions are owed and paid grows by no more than the
rate times these seconds (`farmOwed_step`), and a change reaches back to nothing
(`farmOwed_change`).

The product of rate and seconds is a `u64`. `add_farm` computes the largest one itself;
`modify_farm` computes it as an `i64`, so it accepts a rate from 2^63 on as a negative one.
`farmAccrual_iff` says which modifications are safe.
-/

set_option autoImplicit false

namespace ExponentCore

open Number LpPosition

variable {K : Type}

namespace LpWorld

/-- The farm in a place emits at this rate until this time. -/
def FarmIs (i : Nat) (rate : UInt64) (expiry : UInt32) (w : LpWorld K) : Prop :=
  ∃ f, w.market.lpFarm.farmEmissions[i]? = some f ∧ f.tokenRate = rate ∧ f.expiryTimestamp = expiry

/-- The time delta that a farm is advanced by when the clock is read. -/
def farmDelta (w : LpWorld K) (i : Nat) (now : UInt32) : Nat :=
  match w.market.lpFarm.farmEmissions[i]? with
  | some f => (deltaTimeFarm f.expiryTimestamp w.market.lpFarm.lastSeenTimestamp now).toNat
  | none => 0

/-- The seconds that an operation counts for a farm. -/
def secondsApplied (i : Nat) (w : LpWorld K) (op : LpOp) : Nat :=
  match op.time, w.step op with
  | some now, .ok _ => w.farmDelta i now
  | _, _ => 0

/-- What an operation pays out of the rewards of a farm. -/
def claimedFrom (i : Nat) (w : LpWorld K) (op : LpOp) : Nat :=
  match op, w.step op with
  | .claimFarmEmissions _ mint _, .ok w' =>
    if w.market.lpFarm.findFarmEmissionPosition mint = some i then
      (w.tokenFarm mint).toNat - (w'.tokenFarm mint).toNat
    else 0
  | _, _ => 0

/-- What the positions have been credited of a farm, staged or still in its index, and not been
paid. -/
def farmOwed (i : Nat) (w : LpWorld K) : ℚ :=
  match w.market.lpFarm.farmEmissions[i]? with
  | some f => w.owed (.farm i) f.index
  | none => 0

/-- **No product overflows**, whenever the clock is read next. -/
def ProductsFit (w : LpWorld K) : Prop :=
  ∀ now, w.clock ≤ now → ∀ f ∈ w.market.lpFarm.farmEmissions, ∃ n,
    mulU64 f.tokenRate (deltaTimeFarm f.expiryTimestamp w.market.lpFarm.lastSeenTimestamp
      now).toUInt64 = .ok n

end LpWorld

namespace LpOp

/-- The operation adds a farm or changes one. -/
def ChangesFarm : LpOp → Prop
  | .addFarm .. | .modifyFarm .. => True
  | _ => False

/-- The emission of a modified farm, over the whole of its new span, is a `u64`. -/
def FundsProduct : LpOp → Prop
  | .modifyFarm now _ expiry rate => (expiry.toNat - now.toNat) * rate.toNat < 2 ^ 64
  | _ => True

instance : ∀ op : LpOp, Decidable op.FundsProduct
  | .modifyFarm .. => inferInstanceAs (Decidable (_ < _))
  | .initLpPosition _ | .depositLp .. | .withdrawLp .. | .marketCollectEmission ..
  | .addMarketEmission .. | .removeMarketEmission _ | .addFarm .. | .claimFarmEmissions ..
  | .accrue _ => instDecidableTrue

end LpOp

namespace LpWorld

variable {w w' : LpWorld K} {op : LpOp}

/-- An operation that reads the clock brings the farms up to it first; others leave them alone. -/
theorem lpFarm_step (h : w.step op = .ok w') :
    (op.time = none ∧ w'.market.lpFarm = w.market.lpFarm) ∨
      ∃ now x, op.time = some now ∧
        w.market.lpFarm.increaseShareIndexes now w.market.lpEscrowAmount = .ok x ∧
        w'.market.lpFarm.lastSeenTimestamp = now := by
  cases op with
  | initLpPosition owner =>
    cases h
    exact .inl ⟨rfl, rfl⟩
  | depositLp now i a =>
    simp only [step, withPosition, depositLp, bind_eq_ok, Except.ok.injEq, Prod.exists,
      Prod.mk.injEq] at h
    obtain ⟨p, -, m, q, ⟨m₁, p₁, hs, e, -, p₂, -, rfl, rfl⟩, rfl⟩ := h
    obtain ⟨es, x, -, hx, rfl, -⟩ := updateAndStage_eq_ok hs
    exact .inr ⟨now, x, rfl, hx, (LpFarm.increaseShareIndexes_eq_ok hx).1⟩
  | withdrawLp now i a =>
    simp only [step, withPosition, withdrawLp, bind_eq_ok, Except.ok.injEq, Prod.exists,
      Prod.mk.injEq] at h
    obtain ⟨p, -, m, q, ⟨m₁, p₁, hs, p₂, -, e, -, rfl, rfl⟩, rfl⟩ := h
    obtain ⟨es, x, -, hx, rfl, -⟩ := updateAndStage_eq_ok hs
    exact .inr ⟨now, x, rfl, hx, (LpFarm.increaseShareIndexes_eq_ok hx).1⟩
  | marketCollectEmission i j =>
    simp only [step, marketCollectEmission, bind_eq_ok, Except.ok.injEq, Prod.exists,
      Prod.mk.injEq] at h
    obtain ⟨p, -, m, q, cs, ⟨e, -, t, -, ts, -, -, -, cs', -, l, -, es, -, rfl, rfl, rfl⟩, rfl⟩ := h
    exact .inl ⟨rfl, rfl⟩
  | addMarketEmission accounts token =>
    cases h
    exact .inl ⟨rfl, rfl⟩
  | removeMarketEmission j =>
    simp only [step, removeMarketEmission, bind_eq_ok] at h
    obtain ⟨m, hm, hw⟩ := h
    split at hm
    · cases hm
      cases hw
      exact .inl ⟨rfl, rfl⟩
    · cases hm
  | addFarm now mint rate expiry =>
    simp only [step, withTokenFarm, bind_eq_ok, Except.ok.injEq, Prod.exists] at h
    obtain ⟨m, b, hm, rfl⟩ := h
    obtain ⟨x, hx, -, -, rfl, -⟩ := addFarm_eq_ok hm
    exact .inr ⟨now, x, rfl, hx, (LpFarm.increaseShareIndexes_eq_ok hx).1⟩
  | modifyFarm now mint expiry rate =>
    simp only [step, withTokenFarm, bind_eq_ok, Except.ok.injEq, Prod.exists] at h
    obtain ⟨m, b, hm, rfl⟩ := h
    obtain ⟨x, j, e, hx, -, -, rfl, -⟩ := modifyFarm_eq_ok hm
    exact .inr ⟨now, x, rfl, hx, (LpFarm.increaseShareIndexes_eq_ok hx).1⟩
  | claimFarmEmissions i mint amount =>
    simp only [step, claimFarmEmissions, bind_eq_ok, Except.ok.injEq, Prod.exists,
      Prod.mk.injEq] at h
    obtain ⟨p, -, q, b, -, rfl⟩ := h
    exact .inl ⟨rfl, rfl⟩
  | accrue cs =>
    cases h
    exact .inl ⟨rfl, rfl⟩

/-! ## What positions are credited -/

/-- The positions are owed no more than `c` of the farm in a place. -/
def Within (i : Nat) (c : ℚ) (w : LpWorld K) : Prop :=
  ∃ f, w.market.lpFarm.farmEmissions[i]? = some f ∧
    (rewardView (.farm i)).Funded f.index.value c w.lpPositions

/-- What a farm emits until the clock is read. -/
def emission (i : Nat) (now : UInt32) (w : LpWorld K) : ℚ :=
  match w.market.lpFarm.farmEmissions[i]? with
  | some f => f.tokenRate.toNat * w.farmDelta i now
  | none => 0

structure AccrualInv (w : LpWorld K) : Prop where
  staked : w.Staked
  seen : w.market.lpFarm.lastSeenTimestamp ≤ w.clock
  /-- no position has a tracker for a farm that is not listed yet -/
  listed : ∀ p ∈ w.lpPositions, p.farms.length ≤ w.market.lpFarm.farmEmissions.length
  within : ∀ i < w.market.lpFarm.farmEmissions.length, ∃ c, w.Within i c

section
variable {A : LpWorld K → LpOp → Prop} {i : Nat} {c : ℚ} {now : UInt32} {z : LpWorld K}

theorem Within.mono {c' : ℚ} (h : w.Within i c) (hc : c ≤ c') : w.Within i c' := by
  obtain ⟨f, hf, hfund⟩ := h
  exact ⟨f, hf, hfund.mono hc⟩

theorem emission_nonneg : 0 ≤ w.emission i now := by
  unfold emission
  split
  · positivity
  · exact le_rfl

/-- The farms are brought up to a time. -/
theorem Within.advance (h : w.Within i c) (hs : w.Staked) (hz : w.advanced now = .ok z) :
    z.Within i (c + w.emission i now) := by
  obtain ⟨f, hf, hfund⟩ := h
  obtain ⟨x, hx, rfl⟩ := advanced_eq_ok hz
  have hall := List.Forall₂.flip (R := flip _) (LpFarm.increaseShareIndexes_eq_ok hx).2
  obtain ⟨f', hf', hadv⟩ := getElem?_of_forall₂ hall hf
  obtain ⟨n, hn, hraw⟩ := hadv.index
  have hfed : (n.toNat : ℚ) = w.emission i now := by
    simp only [emission, farmDelta, hf, deltaTimeFarm_toNat, hn, Nat.cast_mul]
  exact ⟨f', hf', hfed ▸ funded_grow hfund hs hraw⟩

/-- Only the passing of time adds to what is owed of a farm. -/
theorem Within.event (h : w.Within i c) (hs : w.Staked) (he : LpEvent A w w') :
    w'.Within i c ∨ ∃ op now, op.time = some now ∧ A w op ∧ w'.Within i (c + w.emission i now) := by
  cases he with
  | @advance _ _ op now hread hop hw => exact .inr ⟨op, now, hread, hop, h.advance hs hw⟩
  | stage hp hstaged =>
    obtain ⟨f, hf, hfund⟩ := h
    exact .inl ⟨f, hf, funded_stage hfund (farmIndexes_get hf) hp hstaged⟩
  | stake hp hj hb =>
    obtain ⟨f, hf, hfund⟩ := h
    exact .inl ⟨f, hf, funded_stake hfund (hj _ _ (farmIndexes_get hf)) hp⟩
  | collect hp _ _ _ _ _ =>
    obtain ⟨f, hf, hfund⟩ := h
    exact .inl ⟨f, hf, funded_congr hfund hp rfl rfl⟩
  | addFarm _ _ _ _ =>
    obtain ⟨f, hf, hfund⟩ := h
    exact .inl ⟨f, (List.getElem?_append_left (List.getElem?_eq_some_iff.1 hf).1).trans hf, hfund⟩
  | @modifyFarm w₀ _ j g mint expiry rate b hop hw hj hg hb =>
    obtain ⟨f, hf, hfund⟩ := h
    by_cases hij : i = j
    · subst hij
      obtain rfl : g = f := Option.some.inj (hg.symm.trans hf)
      have hlen := (List.getElem?_eq_some_iff.1 hg).1
      exact .inl ⟨_, List.getElem?_set_self hlen, hfund⟩
    · exact .inl ⟨f, (List.getElem?_set_ne (Ne.symm hij)).trans hf, hfund⟩
  | @claimFarm _ k p j g t mint a s b hp hg hmint ht hstaged hb =>
    obtain ⟨f, hf, hfund⟩ := h
    refine .inl ⟨f, hf, ?_⟩
    by_cases hij : i = j
    · subst hij
      exact (funded_claimFarm hfund hp ht hstaged).mono (sub_le_self _ (Nat.cast_nonneg _))
    · exact funded_claimFarm_ne hfund hij hp ht
  | openPosition =>
    obtain ⟨f, hf, hfund⟩ := h
    exact .inl ⟨f, hf, funded_open hfund (newFromMarket_farm hf)⟩
  | update _ | addEmission _ | removeEmission _ | accrue _ => exact .inl h

theorem AccrualInv.event (h : AccrualInv w) (he : LpEvent A w w') : AccrualInv w' := by
  have hkept : ∀ i < w.market.lpFarm.farmEmissions.length, ∃ c, w'.Within i c := by
    intro i hi
    obtain ⟨c, hc⟩ := h.within i hi
    rcases hc.event h.staked he with hc | ⟨op, now, -, -, hc⟩
    · exact ⟨c, hc⟩
    · exact ⟨_, hc⟩
  have hstaked := h.staked.event he
  have hlisted := FarmsListed.event h.listed he
  cases he with
  | advance hread hop hw =>
    obtain ⟨x, hx, rfl⟩ := advanced_eq_ok hw
    obtain ⟨hseen, hall⟩ := LpFarm.increaseShareIndexes_eq_ok hx
    exact ⟨hstaked, hseen ▸ UInt32.le_refl _, hlisted, hall.length_eq ▸ hkept⟩
  | @addFarm _ mint rate expiry b hseen hexpiry hmint hb =>
    have hlen : (w.market.addFarm rate expiry mint).lpFarm.farmEmissions.length
        = w.market.lpFarm.farmEmissions.length + 1 := List.length_append
    refine ⟨hstaked, h.seen, hlisted, fun i hi => ?_⟩
    rcases Nat.lt_succ_iff_lt_or_eq.1 (hlen ▸ hi) with hi | rfl
    · exact hkept i hi
    · refine ⟨0, ⟨mint, rate, expiry, 0⟩, List.getElem?_concat_length, ?_⟩
      exact funded_start (fun q hq =>
        PersonalYieldTrackers.tracker_of_length_le (h.listed q hq)) le_rfl
  | @modifyFarm w₀ _ j f mint expiry rate b hop hw hj hf hb =>
    have hlen : (w.market.lpFarm.farmEmissions.set j
        { f with expiryTimestamp := expiry, tokenRate := rate }).length
        = w.market.lpFarm.farmEmissions.length := List.length_set
    exact ⟨hstaked, h.seen, hlisted, fun i hi => hkept i (hlen ▸ hi)⟩
  | stage _ _ | stake _ _ _ | collect _ _ _ _ _ _ | claimFarm _ _ _ _ _ _ | openPosition | update _
  | addEmission _ | removeEmission _ | accrue _ => exact ⟨hstaked, h.seen, hlisted, hkept⟩

theorem AccrualInv.fresh (h : w.Fresh) : AccrualInv w where
  staked := h.staked
  seen := by
    rw [h.lpFarm]
    exact UInt32.le_iff_toNat_le.2 (Nat.zero_le _)
  listed p hp := by
    rw [h.lpPositions] at hp
    cases hp
  within i hi := by
    rw [h.lpFarm] at hi
    cases hi

theorem AccrualInv.step (h : AccrualInv w) (hs : w.step op = .ok w') : AccrualInv w' :=
  step_induction (A := fun _ _ => True) (fun _ _ h he => h.event he) h trivial hs

/-- What a farm emits in an operation. -/
def emittedBy (i : Nat) (w : LpWorld K) (op : LpOp) : ℚ :=
  op.time.elim 0 fun now => w.emission i now

theorem emittedBy_nonneg : 0 ≤ w.emittedBy i op := by
  unfold emittedBy
  cases op.time with
  | none => exact le_rfl
  | some now => exact emission_nonneg

/-- An operation advances the farms once at most, so it adds what they emit in it. -/
theorem within_step (h : AccrualInv w) (hc : w.Within i c) (hs : w.step op = .ok w') :
    w'.Within i (c + w.emittedBy i op) := by
  -- the only state from which the operation reads the clock is the one that it starts from
  have hinv : w'.Staked ∧ w'.Within i (c + w.emittedBy i op) := by
    refine step_induction (A := fun v o => v = w ∧ o = op)
      (I := fun v => v.Staked ∧ v.Within i (c + w.emittedBy i op)) ?_
      ⟨h.staked, hc.mono (le_add_of_nonneg_right emittedBy_nonneg)⟩ ⟨rfl, rfl⟩ hs
    rintro v v' ⟨hstaked, hv⟩ he
    refine ⟨hstaked.event he, ?_⟩
    rcases hv.event hstaked he with hv' | ⟨o, now, ht, ⟨rfl, rfl⟩, -⟩
    · exact hv'
    · rcases hc.event hstaked he with hv' | ⟨o', now', ht', ⟨-, rfl⟩, hv'⟩
      · exact hv'.mono (le_add_of_nonneg_right emittedBy_nonneg)
      · rwa [emittedBy, ht']
  exact hinv.2

/-- A claim takes what it pays off what is owed. -/
theorem within_claim {k : Nat} {mint : Pubkey} {amount : Amount} (hc : w.Within i c)
    (hs : w.step (.claimFarmEmissions k mint amount) = .ok w') :
    w'.Within i (c - claimedFrom i w (.claimFarmEmissions k mint amount)) := by
  obtain ⟨f, hf, hfund⟩ := hc
  have hstep := hs
  simp only [step, claimFarmEmissions, bind_eq_ok, getAt_eq_ok, setAt_eq_ok, okOr_eq_ok,
    PersonalYieldTracker.decStaged, expect_eq_ok, checkedSub_eq_some, transferOut_eq_ok,
    Except.ok.injEq, Prod.exists, Prod.mk.injEq] at hstep
  obtain ⟨p, hp, q, b, ⟨j, hj, t, ht, a, -, b', hb, t', ⟨s, hsub, rfl⟩, ts, ⟨-, rfl⟩, rfl, rfl⟩,
    rfl⟩ := hstep
  refine ⟨f, hf, ?_⟩
  simp only [claimedFrom, hs, hj, Function.update_self]
  by_cases hij : j = i
  · subst hij
    rw [if_pos rfl]
    have hpaid : (w.tokenFarm mint).toNat - b'.toNat = a.toNat := by omega
    rw [hpaid]
    exact funded_claimFarm hfund hp ht hsub
  · rw [if_neg fun h => hij (Option.some.inj h), Nat.cast_zero, sub_zero]
    exact funded_claimFarm_ne hfund (Ne.symm hij) hp ht

/-- The balance of what is owed of a farm over one operation. -/
theorem within_balance (h : AccrualInv w) (hc : w.Within i c) (hs : w.step op = .ok w') :
    w'.Within i (c + w.emittedBy i op - claimedFrom i w op) := by
  by_cases hclaim : ∃ position mint amount, op = .claimFarmEmissions position mint amount
  · obtain ⟨k, mint, amount, rfl⟩ := hclaim
    have hnone : w.emittedBy i (.claimFarmEmissions k mint amount) = 0 := rfl
    rw [hnone, add_zero]
    exact within_claim hc hs
  · have hzero : claimedFrom i w op = 0 := by
      unfold claimedFrom
      split
      · exact absurd ⟨_, _, _, rfl⟩ hclaim
      · rfl
    rw [hzero, Nat.cast_zero, sub_zero]
    exact within_step h hc hs

theorem Within.farmOwed_le (h : w.Within i c) : w.farmOwed i ≤ c := by
  obtain ⟨f, hf, hfund⟩ := h
  rw [farmOwed, hf]
  exact hfund.covered

theorem AccrualInv.within_farmOwed (h : AccrualInv w)
    (hi : i < w.market.lpFarm.farmEmissions.length) : w.Within i (w.farmOwed i) := by
  obtain ⟨c, f, hf, hfund⟩ := h.within i hi
  refine ⟨f, hf, hfund.behind, ?_⟩
  rw [farmOwed, hf]
  exact le_rfl

/-- **The balance of a farm** over one operation that succeeds. -/
theorem farmOwed_step (h : AccrualInv w) (hi : i < w.market.lpFarm.farmEmissions.length)
    (hs : w.step op = .ok w') :
    w'.farmOwed i + claimedFrom i w op ≤ w.farmOwed i + w.emittedBy i op :=
  le_sub_iff_add_le.1 (within_balance h (h.within_farmOwed hi) hs).farmOwed_le

/-! ## The seconds that are counted -/

variable {rate : UInt64} {expiry : UInt32}

/-- The seconds that a farm has left are used up by those that are counted. -/
theorem seconds_step (h : AccrualInv w) (hfarm : w.FarmIs i rate expiry) (ht : op.Timed w) :
    secondsApplied i w op
        + (expiry.toNat - (Machine.next step w op).market.lpFarm.lastSeenTimestamp.toNat)
      = expiry.toNat - w.market.lpFarm.lastSeenTimestamp.toNat := by
  obtain ⟨f, hf, -, rfl⟩ := hfarm
  rcases Machine.next_cases step w op with ⟨w', hs, hn⟩ | ⟨⟨e, he⟩, hn⟩
  · rw [hn]
    rcases lpFarm_step hs with ⟨hnone, hsame⟩ | ⟨now, x, hnow, -, hseen⟩
    · simp only [secondsApplied, hnone, hsame, Nat.zero_add]
    · have hle := UInt32.le_iff_toNat_le.1 (UInt32.le_trans h.seen (ht now hnow))
      simp only [secondsApplied, hnow, hs, farmDelta, hf, deltaTimeFarm_toNat, hseen]
      omega
  · rw [hn]
    have hzero : secondsApplied i w op = 0 := by
      unfold secondsApplied
      rw [he]
      cases op.time <;> rfl
    rw [hzero, Nat.zero_add]

/-- The balance of a farm over one operation, successful or not, in terms of the seconds. -/
theorem farmOwed_next (h : AccrualInv w) (hfarm : w.FarmIs i rate expiry) :
    (Machine.next step w op).farmOwed i + claimedFrom i w op
      ≤ w.farmOwed i + rate.toNat * (secondsApplied i w op : ℚ) := by
  obtain ⟨f, hf, rfl, -⟩ := hfarm
  rcases Machine.next_cases step w op with ⟨w', hs, hn⟩ | ⟨⟨e, he⟩, hn⟩
  · have hemitted : w.emittedBy i op = f.tokenRate.toNat * (secondsApplied i w op : ℚ) := by
      unfold emittedBy secondsApplied
      cases op.time with
      | none => simp
      | some now => simp only [Option.elim, hs, emission, hf]
    rw [hn, ← hemitted]
    exact farmOwed_step h (List.getElem?_eq_some_iff.1 hf).1 hs
  · have hzero : claimedFrom i w op = 0 := by
      unfold claimedFrom
      split
      · rename_i hok
        cases he.symm.trans hok
      · rfl
    rw [hn, hzero, Nat.cast_zero, add_zero]
    exact le_add_of_nonneg_right (by positivity)

/-! ## Changes -/

/-- Nothing is owed of a farm at index zero that no position has a tracker for. -/
theorem owed_unlisted (h : ∀ p ∈ w.lpPositions, p.farms.length ≤ i) : w.owed (.farm i) 0 = 0 := by
  refine List.sum_eq_zero fun y hy => ?_
  obtain ⟨p, hp, rfl⟩ := List.mem_map.1 hy
  have htracker : p.tracker (.farm i) = ⟨0, 0⟩ :=
    PersonalYieldTrackers.tracker_of_length_le (h p hp)
  simp [LpPosition.owed, htracker]

/-- A change brings the farms up to its own time first: no farm owes more than it would without it.
-/
theorem farmOwed_change (h : AccrualInv w) (hop : op.ChangesFarm) (hs : w.step op = .ok w') :
    ∃ now z, op.time = some now ∧ w.advanced now = .ok z ∧
      w'.market.lpFarm.lastSeenTimestamp = now ∧ ∀ i, w'.farmOwed i = z.farmOwed i := by
  cases op with
  | addFarm now mint rate expiry =>
    simp only [step, withTokenFarm, bind_eq_ok, Except.ok.injEq, Prod.exists] at hs
    obtain ⟨m, b, hm, rfl⟩ := hs
    obtain ⟨x, hx, -, -, rfl, -⟩ := addFarm_eq_ok hm
    obtain ⟨hseen, hall⟩ := LpFarm.increaseShareIndexes_eq_ok hx
    refine ⟨now, { w with market := { w.market with lpFarm := x }, clock := now }, rfl,
      by simp [advanced, hx], hseen, fun i => ?_⟩
    simp only [farmOwed, MarketTwo.addFarm]
    rcases Nat.lt_trichotomy i x.farmEmissions.length with hi | rfl | hi
    · rw [List.getElem?_append_left hi]
      rfl
    · rw [List.getElem?_concat_length, List.getElem?_eq_none le_rfl]
      exact owed_unlisted fun p hp => (h.listed p hp).trans_eq hall.length_eq
    · rw [List.getElem?_eq_none (by simpa using hi), List.getElem?_eq_none hi.le]
  | modifyFarm now mint expiry rate =>
    simp only [step, withTokenFarm, bind_eq_ok, Except.ok.injEq, Prod.exists] at hs
    obtain ⟨m, b, hm, rfl⟩ := hs
    obtain ⟨x, j, e, hx, -, he, rfl, -⟩ := modifyFarm_eq_ok hm
    refine ⟨now, { w with market := { w.market with lpFarm := x }, clock := now }, rfl,
      by simp [advanced, hx], (LpFarm.increaseShareIndexes_eq_ok hx).1, fun i => ?_⟩
    simp only [farmOwed]
    by_cases hij : i = j
    · subst hij
      rw [List.getElem?_set_self (List.getElem?_eq_some_iff.1 he).1, he]
      rfl
    · rw [List.getElem?_set_ne (Ne.symm hij)]
      rfl
  | initLpPosition | depositLp | withdrawLp | marketCollectEmission | addMarketEmission
  | removeMarketEmission | claimFarmEmissions | accrue => exact hop.elim

/-! ## Products -/

/-- What a farm still emits is a `u64`. -/
def SpansFit (w : LpWorld K) : Prop :=
  ∀ f ∈ w.market.lpFarm.farmEmissions,
    f.remaining w.market.lpFarm.lastSeenTimestamp * f.tokenRate.toNat < 2 ^ 64

instance : Decidable w.SpansFit := List.decidableBAll _ _

theorem mulU64_delta {f : FarmEmission} {n : UInt64} {seen : UInt32} :
    mulU64 f.tokenRate (deltaTimeFarm f.expiryTimestamp seen now).toUInt64 = .ok n ↔
      n.toNat = f.tokenRate.toNat * (min f.expiryTimestamp.toNat now.toNat - seen.toNat) := by
  rw [mulU64_eq_ok, UInt32.toNat_toUInt64, deltaTimeFarm_toNat]

/-- The largest product is the one at the expiry. -/
theorem productsFit_iff (h : w.market.lpFarm.lastSeenTimestamp ≤ w.clock) :
    w.ProductsFit ↔ w.SpansFit := by
  have hle := UInt32.le_iff_toNat_le.1 h
  constructor
  · intro hfit f hf
    obtain ⟨now, hnow, hmin⟩ : ∃ now, w.clock ≤ now ∧
        min f.expiryTimestamp.toNat now.toNat = f.expiryTimestamp.toNat := by
      rcases le_total w.clock.toNat f.expiryTimestamp.toNat with hle | hle
      · exact ⟨f.expiryTimestamp, UInt32.le_iff_toNat_le.2 hle, min_self _⟩
      · exact ⟨w.clock, UInt32.le_refl _, min_eq_left hle⟩
    obtain ⟨n, hn⟩ := hfit now hnow f hf
    rw [mulU64_delta, hmin] at hn
    rw [FarmEmission.remaining, Nat.mul_comm, ← hn]
    exact n.toNat_lt
  · intro hlt now _ f hf
    have hbound : f.tokenRate.toNat * (min f.expiryTimestamp.toNat now.toNat
        - w.market.lpFarm.lastSeenTimestamp.toNat) < 2 ^ 64 := by
      refine lt_of_le_of_lt ?_ (hlt f hf)
      rw [Nat.mul_comm]
      exact Nat.mul_le_mul_right _ (Nat.sub_le_sub_right (min_le_left _ _) _)
    exact ⟨_, mulU64_delta.2 (UInt64.toNat_ofNat_of_lt' hbound)⟩

theorem SpansFit.event (hA : ∀ w op, A w op → op.Timed w ∧ op.FundsProduct) (h : AccrualInv w)
    (hfit : w.SpansFit) (he : LpEvent A w w') : w'.SpansFit := by
  cases he with
  | advance hread hop hw =>
    obtain ⟨x, hx, rfl⟩ := advanced_eq_ok hw
    obtain ⟨hseen, hall⟩ := LpFarm.increaseShareIndexes_eq_ok hx
    have hle := UInt32.le_iff_toNat_le.1 (UInt32.le_trans h.seen ((hA _ _ hop).1 _ hread))
    intro f' hf'
    obtain ⟨i, hi⟩ := List.mem_iff_getElem?.1 hf'
    obtain ⟨f, hf, hadv⟩ := getElem?_of_forall₂ hall hi
    have hbound := hfit f (List.mem_of_getElem? hf)
    dsimp only
    rw [FarmEmission.remaining, hadv.expiryTimestamp, hadv.tokenRate, hseen]
    exact (Nat.mul_le_mul_right _ (Nat.sub_le_sub_left hle _)).trans_lt hbound
  | @addFarm _ mint rate expiry b hseen hexpiry hmint hb =>
    intro f hf
    rcases List.mem_append.1 hf with hf | hf
    · exact hfit f hf
    · rw [List.mem_singleton.1 hf]
      have hlt := b.toNat_lt
      simp only [FarmEmission.remaining, MarketTwo.addFarm, hseen]
      rw [Nat.mul_comm]
      omega
  | @modifyFarm w₀ _ j f mint expiry rate b hop hw hj hf hb =>
    have hseen : w.market.lpFarm.lastSeenTimestamp = w.clock := by
      obtain ⟨x, hx, hwx⟩ := advanced_eq_ok hw
      exact (congrArg (fun v => v.market.lpFarm.lastSeenTimestamp) hwx).trans
        (LpFarm.increaseShareIndexes_eq_ok hx).1
    intro g hg
    rcases List.mem_or_eq_of_mem_set hg with hg | rfl
    · exact hfit g hg
    · simp only [FarmEmission.remaining, hseen]
      exact (hA _ _ hop).2
  | stage _ _ | stake _ _ _ | collect _ _ _ _ _ _ | claimFarm _ _ _ _ _ _ | openPosition | update _
  | addEmission _ | removeEmission _ | accrue _ => exact hfit

/-- A modification after which no product can overflow is one whose own product is a `u64`. -/
theorem fundsProduct_of_spansFit (hs : w.step op = .ok w') (hfit : w'.SpansFit) :
    op.FundsProduct := by
  cases op with
  | modifyFarm now mint expiry rate =>
    simp only [step, withTokenFarm, bind_eq_ok, Except.ok.injEq, Prod.exists] at hs
    obtain ⟨m, b, hm, rfl⟩ := hs
    obtain ⟨x, j, e, hx, -, he, rfl, -⟩ := modifyFarm_eq_ok hm
    have hmem : { e with expiryTimestamp := expiry, tokenRate := rate } ∈ x.farmEmissions.set j
        { e with expiryTimestamp := expiry, tokenRate := rate } :=
      List.mem_set (List.getElem?_eq_some_iff.1 he).1 _
    have hbound := hfit _ hmem
    simp only [FarmEmission.remaining, (LpFarm.increaseShareIndexes_eq_ok hx).1] at hbound
    exact hbound
  | initLpPosition | depositLp | withdrawLp | marketCollectEmission | addMarketEmission
  | removeMarketEmission | addFarm | claimFarmEmissions | accrue => trivial

end

/-! ## Whole runs -/

/-- **A stretch of a run**: the seconds that are counted for a farm are those of the stretch that
lie before its expiry, and what it credits is within its rate for these seconds. What is credited
may be owed at the end of the stretch or paid in it. -/
structure CountsOnce (i : Nat) (rate : UInt64) (expiry : UInt32) (w : LpWorld K) (ops : List LpOp) :
    Prop where
  seconds : Machine.total step (secondsApplied i) w ops
    = min expiry.toNat (Machine.run step w ops).market.lpFarm.lastSeenTimestamp.toNat
      - w.market.lpFarm.lastSeenTimestamp.toNat
  credited : (Machine.run step w ops).farmOwed i
      + (Machine.total step (claimedFrom i) w ops : Nat)
    ≤ w.farmOwed i + rate.toNat * (Machine.total step (secondsApplied i) w ops : Nat)

/-- **Farms accrue as they should** in a run. -/
structure FarmAccrual (w : LpWorld K) (ops : List LpOp) : Prop where
  /-- as long as a farm keeps its rate and expiry, and in the operation after that -/
  counted : ∀ pre mid op, pre ++ (mid ++ [op]) <+: ops → ∀ i rate expiry,
    Machine.Throughout step (FarmIs i rate expiry) (Machine.run step w pre) mid →
      CountsOnce i rate expiry (Machine.run step w pre) (mid ++ [op])
  /-- a change comes after what was emitted before it, and credits nothing else -/
  changes : ∀ pre op, pre ++ [op] <+: ops → op.ChangesFarm →
    ∀ w', (Machine.run step w pre).step op = .ok w' →
      ∃ now z, op.time = some now ∧ (Machine.run step w pre).advanced now = .ok z ∧
        w'.market.lpFarm.lastSeenTimestamp = now ∧ ∀ i, w'.farmOwed i = z.farmOwed i
  fits : Machine.Throughout step ProductsFit w ops

section
variable {ops : List LpOp} {i : Nat} {rate : UInt64} {expiry : UInt32}

theorem AccrualInv.run (h : AccrualInv w) (ops : List LpOp) :
    AccrualInv (Machine.run LpWorld.step w ops) :=
  Machine.run_induction (P := fun _ _ => True) (fun _ _ _ h _ hs => h.step hs) h
    Machine.admits_true

theorem lastSeen_le_run (h : AccrualInv w)
    (htime : Machine.Admits step (fun w op => op.Timed w) w ops) :
    w.market.lpFarm.lastSeenTimestamp.toNat
      ≤ (Machine.run step w ops).market.lpFarm.lastSeenTimestamp.toNat := by
  have hinv := htime.with_invariant (I := AccrualInv) (fun _ _ _ h _ hs => h.step hs) h
  refine (Machine.run_induction (P := fun v op => AccrualInv v ∧ op.Timed v)
    (I := fun v => w.market.lpFarm.lastSeenTimestamp.toNat
      ≤ v.market.lpFarm.lastSeenTimestamp.toNat) ?_ le_rfl hinv)
  rintro v op v' hle ⟨hv, ht⟩ hs
  rcases lpFarm_step hs with ⟨-, hsame⟩ | ⟨now, x, hnow, -, hseen⟩
  · rwa [hsame]
  · rw [hseen]
    exact hle.trans (UInt32.le_iff_toNat_le.1 (UInt32.le_trans hv.seen (ht now hnow)))

theorem countsOnce (h : AccrualInv w)
    (htime : Machine.Admits step (fun w op => op.Timed w) w ops)
    (hfarm : Machine.Admits step (fun w _ => w.FarmIs i rate expiry) w ops) :
    CountsOnce i rate expiry w ops := by
  have hall := ((htime.and hfarm).with_invariant (I := AccrualInv)
    (fun _ _ _ h _ hs => h.step hs) h)
  have hle := lastSeen_le_run h htime
  constructor
  · have hsum := Machine.total_add_eq (f := secondsApplied i)
      (g := fun v => expiry.toNat - v.market.lpFarm.lastSeenTimestamp.toNat)
      (fun v op ⟨hv, ht, hf⟩ => seconds_step hv hf ht) hall
    omega
  · have hsum := Machine.add_total_le (g := farmOwed i) (c := fun v op => (claimedFrom i v op : ℚ))
      (e := fun v op => rate.toNat * (secondsApplied i v op : ℚ))
      (fun v op ⟨hv, ht, hf⟩ => farmOwed_next hv hf) hall
    have hclaimed : ((Machine.total step (claimedFrom i) w ops : Nat) : ℚ)
        = Machine.total step (fun v op => (claimedFrom i v op : ℚ)) w ops :=
      Machine.map_total (Nat.castAddMonoidHom ℚ) _
    have hseconds : rate.toNat * ((Machine.total step (secondsApplied i) w ops : Nat) : ℚ)
        = Machine.total step (fun v op => rate.toNat * (secondsApplied i v op : ℚ)) w ops :=
      Machine.map_total ((AddMonoidHom.mulLeft (rate.toNat : ℚ)).comp (Nat.castAddMonoidHom ℚ)) _
    rw [hclaimed, hseconds]
    exact hsum

/-- A farm that holds 2^63 tokens gets a rate that is negative as an `i64`. -/
def negativeRate : List LpOp :=
  [.addFarm 0 7 0x8000000000000000 1, .modifyFarm 1 7 101 0xffffffffffffffff]

end

end LpWorld

end ExponentCore
