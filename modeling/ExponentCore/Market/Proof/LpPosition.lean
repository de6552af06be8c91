import ExponentCore.Lib.Accumulator
import ExponentCore.Num.Proof.PreciseNumber
import ExponentCore.Market.LpPosition

/-!
# What staging does to an LP position

Emissions and farms are rewards of the same kind (`LpReward`): a tracker in the position, an index
in the market. `stageAll_eq_ok` says what `stage_all` does to the tracker of one reward: it moves to
the index and is paid for the growth, and the subtraction is of an index that is not below it
(`Settles`). So a position is an account of `Accumulator` (`rewardView`), and staging does not raise
what it is owed (`Settles.owed_le`).
-/

set_option autoImplicit false

namespace ExponentCore

open Number

/-- A reward of staked LP tokens, by its place in the market's list. -/
inductive LpReward
  | emission (slot : Nat)
  | farm (slot : Nat)
deriving DecidableEq

namespace PersonalYieldTrackers

/-- The tracker of a slot; one that is missing is as `ensure_trackers` would add it. -/
def tracker (ts : List PersonalYieldTracker) (slot : Nat) : PersonalYieldTracker :=
  ts.getD slot ⟨0, 0⟩

end PersonalYieldTrackers

namespace LpPosition

def tracker (p : LpPosition) : LpReward → PersonalYieldTracker
  | .emission i => PersonalYieldTrackers.tracker p.emissions i
  | .farm i => PersonalYieldTrackers.tracker p.farms i

/-- What a position is owed at an index: what it has staged and what it would be paid. -/
def owed (p : LpPosition) (r : LpReward) (index : Number) : ℚ :=
  (p.tracker r).staged.toNat + p.lpBalance.toNat * (index.value - (p.tracker r).lastSeenIndex.value)

/-- A position as an account that settles lazily. -/
def rewardView (r : LpReward) : Accumulator.View LpPosition ℚ where
  settled p := (p.tracker r).staged.toNat
  weight p := p.lpBalance.toNat
  checkpoint p := (p.tracker r).lastSeenIndex.value

end LpPosition

/-- The index that a position is staged at, among the indexes of emissions and of farms. -/
def LpReward.indexIn (emissionIndexes farmIndexes : List Number) : LpReward → Option Number
  | .emission i => emissionIndexes[i]?
  | .farm i => farmIndexes[i]?

section
variable {t t' : PersonalYieldTracker} {ts ts' : List PersonalYieldTracker} {x : Number}
  {xs es fs : List Number} {y n : UInt64} {p p' : LpPosition} {r : LpReward} {slot : Nat}

/-! ## One tracker -/

theorem calcEarnedEmissions_eq_ok :
    t.calcEarnedEmissions x y = .ok n ↔
      t.lastSeenIndex ≤ x ∧ n.toNat = (x.raw - t.lastSeenIndex.raw) * y.toNat / denom := by
  unfold PersonalYieldTracker.calcEarnedEmissions
  rw [bind_eq_ok]
  simp only [mul_natural_floor, sub_eq_ok]
  constructor
  · rintro ⟨d, hd, hn⟩
    refine ⟨le_def.2 (by omega), ?_⟩
    rw [hn, ← hd, Nat.add_sub_cancel]
  · rintro ⟨hle, hn⟩
    have hle := le_def.1 hle
    refine ⟨⟨x.raw - t.lastSeenIndex.raw, (Nat.sub_le _ _).trans_lt x.isLt⟩, ?_, hn⟩
    exact Nat.sub_add_cancel hle

/-- **A tracker settles** at an index: it is paid for the growth since it was last settled. -/
structure Settles (y : UInt64) (x : Number) (t t' : PersonalYieldTracker) : Prop where
  behind : t.lastSeenIndex ≤ x
  index : t'.lastSeenIndex = x
  paid : t'.staged.toNat
    = t.staged.toNat + (x.raw - t.lastSeenIndex.raw) * y.toNat / denom

theorem settles_of_earn (h : PersonalYieldTrackers.earn y t x = .ok t') : Settles y x t t' := by
  simp only [PersonalYieldTrackers.earn, bind_eq_ok, calcEarnedEmissions_eq_ok, expect_eq_ok,
    checkedAdd_eq_some, Except.ok.injEq] at h
  obtain ⟨n, ⟨hle, hn⟩, s, hs, rfl⟩ := h
  exact ⟨hle, rfl, hs.trans (congrArg _ hn)⟩

/-! ## All trackers -/

namespace PersonalYieldTrackers

theorem tracker_of_length_le (h : ts.length ≤ slot) : tracker ts slot = ⟨0, 0⟩ :=
  List.getD_eq_default _ _ h

theorem tracker_of_some (h : ts[slot]? = some t) : tracker ts slot = t := by
  rw [tracker, List.getD_eq_getElem?_getD, h, Option.getD_some]

theorem tracker_set (hlen : slot < ts.length) (i : Nat) :
    tracker (ts.set slot t) i = if i = slot then t else tracker ts i := by
  simp only [tracker, List.getD_eq_getElem?_getD]
  split
  · rename_i h
    rw [h, List.getElem?_set_self hlen, Option.getD_some]
  · rename_i h
    rw [List.getElem?_set_ne (Ne.symm h)]

/-- Padding does not change the tracker of any slot. -/
theorem tracker_ensureTrackers : tracker (ensureTrackers ts xs) slot = tracker ts slot := by
  simp only [tracker, ensureTrackers, List.getD_eq_getElem?_getD]
  rcases Nat.lt_or_ge slot ts.length with hlt | hge
  · rw [List.getElem?_append_left hlt]
  · rw [List.getElem?_append_right hge, List.getElem?_eq_none hge]
    rcases Nat.lt_or_ge (slot - ts.length) (xs.length - ts.length) with hlt | hge
    · rw [List.getElem?_replicate_of_lt hlt]
      rfl
    · rw [List.getElem?_eq_none (by simpa using hge)]

theorem length_ensureTrackers : (ensureTrackers ts xs).length = max ts.length xs.length := by
  rw [ensureTrackers, List.length_append, List.length_replicate]
  omega

/-- Slots with an index settle at it; the others stay as they are. -/
theorem earnAll_tracker (h : earnAll y ts xs = .ok ts') (slot : Nat) :
    (∀ x, xs[slot]? = some x → Settles y x (tracker ts slot) (tracker ts' slot)) ∧
      (xs[slot]? = none → tracker ts' slot = tracker ts slot) := by
  induction xs generalizing ts ts' slot with
  | nil =>
    obtain rfl : ts = ts' := by simpa [earnAll] using h
    simp
  | cons x xs ih =>
    cases ts with
    | nil => cases h
    | cons t ts =>
      simp only [earnAll, bind_eq_ok, Except.ok.injEq] at h
      obtain ⟨t₁, ht, ts₁, hts, rfl⟩ := h
      cases slot with
      | zero =>
        refine ⟨fun x' hx => ?_, fun hx => by simp at hx⟩
        obtain rfl : x = x' := by simpa using hx
        exact settles_of_earn ht
      | succ slot => simpa [tracker] using ih hts slot

theorem length_earnAll (h : earnAll y ts xs = .ok ts') : ts'.length = ts.length := by
  induction xs generalizing ts ts' with
  | nil =>
    obtain rfl : ts = ts' := by simpa [earnAll] using h
    rfl
  | cons x xs ih =>
    cases ts with
    | nil => cases h
    | cons t ts =>
      simp only [earnAll, bind_eq_ok, Except.ok.injEq] at h
      obtain ⟨t₁, -, ts₁, hts, rfl⟩ := h
      rw [List.length_cons, List.length_cons, ih hts]

theorem ensureTrackersAndEarnAll_tracker (h : ensureTrackersAndEarnAll ts xs y = .ok ts')
    (slot : Nat) :
    (∀ x, xs[slot]? = some x → Settles y x (tracker ts slot) (tracker ts' slot)) ∧
      (xs[slot]? = none → tracker ts' slot = tracker ts slot) := by
  have := earnAll_tracker h slot
  simpa only [tracker_ensureTrackers] using this

theorem length_ensureTrackersAndEarnAll (h : ensureTrackersAndEarnAll ts xs y = .ok ts') :
    ts'.length = max ts.length xs.length := by
  rw [length_earnAll h, length_ensureTrackers]

end PersonalYieldTrackers

/-! ## A whole position -/

/-- **What `stage_all` does** to a position. -/
structure StagedAll (es fs : List Number) (p p' : LpPosition) : Prop where
  owner : p'.owner = p.owner
  lpBalance : p'.lpBalance = p.lpBalance
  settles : ∀ r x, LpReward.indexIn es fs r = some x →
    Settles p.lpBalance x (p.tracker r) (p'.tracker r)
  rest : ∀ r, LpReward.indexIn es fs r = none → p'.tracker r = p.tracker r
  emissions : p'.emissions.length = max p.emissions.length es.length
  farms : p'.farms.length = max p.farms.length fs.length

theorem stagedAll_of_ok (h : p.stageAll es fs = .ok p') : StagedAll es fs p p' := by
  simp only [LpPosition.stageAll, bind_eq_ok, Except.ok.injEq] at h
  obtain ⟨ts, hts, us, hus, rfl⟩ := h
  have he := PersonalYieldTrackers.ensureTrackersAndEarnAll_tracker hts
  have hf := PersonalYieldTrackers.ensureTrackersAndEarnAll_tracker hus
  exact
    { owner := rfl
      lpBalance := rfl
      settles := fun r x hx => match r with
        | .emission i => (he i).1 x hx
        | .farm i => (hf i).1 x hx
      rest := fun r hx => match r with
        | .emission i => (he i).2 hx
        | .farm i => (hf i).2 hx
      emissions := PersonalYieldTrackers.length_ensureTrackersAndEarnAll hts
      farms := PersonalYieldTrackers.length_ensureTrackersAndEarnAll hus }

/-- A tracker that settles is paid no more than it is owed. -/
theorem Settles.owed_le (h : Settles p.lpBalance x (p.tracker r) (p'.tracker r)) :
    (LpPosition.rewardView r).owed x.value p' ≤ (LpPosition.rewardView r).owed x.value p := by
  refine Accumulator.View.owed_settle_le (congrArg Number.value h.index) ?_
  have hpaid : ((p'.tracker r).staged.toNat : ℚ) = (p.tracker r).staged.toNat
      + ((x.raw - (p.tracker r).lastSeenIndex.raw) * p.lpBalance.toNat / denom : Nat) := by
    exact_mod_cast h.paid
  exact hpaid.le.trans (add_le_add_right (earned_le_growth h.behind rfl) _)

end

end ExponentCore
