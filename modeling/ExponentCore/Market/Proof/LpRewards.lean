import ExponentCore.Market.Proof.LpEvents

/-!
# What emissions and farms have in common

The divisor of every index is the total of the staked balances (`LpWorld.Staked`, kept by every
event). The invariant of a reward is `Accumulator.View.Funded` at the index of the market, with a
fund that is different for emissions and farms. What does not depend on the fund is proved here, for
the list of positions of the market: a position stages (`funded_stage`), moves LP tokens
(`funded_stake`), is opened (`funded_open`), is paid (`funded_pay`), and the index grows by a share
of what the fund is fed (`funded_grow`).
-/

set_option autoImplicit false

namespace ExponentCore

open Number LpPosition

variable {K : Type}

section
variable {A : LpWorld K → LpOp → Prop} {w w' : LpWorld K} {l : List LpPosition} {p p' : LpPosition}
  {i j : Nat} {r : LpReward} {x y : Number} {fund : ℚ} {m : MarketTwo K} {owner : Pubkey}

/-! ## Accounts of a reward -/

theorem totalWeight_rewardView :
    (rewardView r).totalWeight l = ((l.map fun p => p.lpBalance.toNat).sum : Nat) := by
  rw [Accumulator.View.totalWeight, Nat.cast_list_sum, List.map_map]
  rfl

theorem tracker_withBalance {b : UInt64} : tracker { p with lpBalance := b } r = p.tracker r := by
  cases r <;> rfl

/-- A position that is settled at the index is owed what it has staged. -/
theorem rewardView_owed_settled (h : (p.tracker r).lastSeenIndex = x) :
    (rewardView r).owed x.value p = (p.tracker r).staged.toNat :=
  Accumulator.View.owed_of_checkpoint (congrArg Number.value h)

theorem funded_stage {es fs : List Number} (h : (rewardView r).Funded x.value fund l)
    (hx : r.indexIn es fs = some x) (hp : l[i]? = some p) (hs : StagedAll es fs p p') :
    (rewardView r).Funded x.value fund (l.set i p') := by
  have hset := hs.settles r x hx
  exact h.set hp (congrArg Number.value hset.index).le (add_le_add_left hset.owed_le _)

/-- A position that has just staged is owed the same whatever its balance is. -/
theorem funded_stake {b : UInt64} (h : (rewardView r).Funded x.value fund l)
    (hx : (p.tracker r).lastSeenIndex = x) (hp : l[i]? = some p) :
    (rewardView r).Funded x.value fund (l.set i { p with lpBalance := b }) := by
  have hx' : (tracker { p with lpBalance := b } r).lastSeenIndex = x := by
    rw [tracker_withBalance, hx]
  refine h.set hp (congrArg Number.value hx').le ?_
  rw [rewardView_owed_settled hx, rewardView_owed_settled hx', tracker_withBalance]

/-- A position is paid out of what it has staged. -/
theorem funded_pay {a : UInt64} (h : (rewardView r).Funded x.value fund l)
    (hp : l[i]? = some p) (hb : p'.lpBalance = p.lpBalance)
    (hi : (p'.tracker r).lastSeenIndex = (p.tracker r).lastSeenIndex)
    (hs : (p'.tracker r).staged.toNat + a.toNat = (p.tracker r).staged.toNat) :
    (rewardView r).Funded x.value (fund - a.toNat) (l.set i p') := by
  have hbehind := h.behind p (List.mem_of_getElem? hp)
  have hcast : ((p'.tracker r).staged.toNat : ℚ) + a.toNat = (p.tracker r).staged.toNat := by
    exact_mod_cast hs
  refine h.set hp (by simpa only [rewardView, hi] using hbehind) ?_
  simp only [Accumulator.View.owed, rewardView, hb, hi]
  linarith only [hcast]

/-- Nothing happens to the reward. -/
theorem funded_congr (h : (rewardView r).Funded x.value fund l) (hp : l[i]? = some p)
    (hb : p'.lpBalance = p.lpBalance) (ht : p'.tracker r = p.tracker r) :
    (rewardView r).Funded x.value fund (l.set i p') := by
  have hpay := funded_pay (a := 0) h hp hb (congrArg _ ht) (by rw [ht]; rfl)
  simpa using hpay

/-- A farm's reward is paid out. -/
theorem funded_claimFarm {t : PersonalYieldTracker} {a s : UInt64}
    (h : (rewardView (.farm j)).Funded x.value fund l) (hp : l[i]? = some p)
    (ht : p.farms[j]? = some t) (hs : s.toNat + a.toNat = t.staged.toNat) :
    (rewardView (.farm j)).Funded x.value (fund - a.toNat)
      (l.set i { p with farms := p.farms.set j { t with staged := s } }) := by
  have hlen := (List.getElem?_eq_some_iff.1 ht).1
  have htp : p.tracker (.farm j) = t := PersonalYieldTrackers.tracker_of_some ht
  have htp' : LpPosition.tracker { p with farms := p.farms.set j { t with staged := s } } (.farm j)
      = { t with staged := s } :=
    (PersonalYieldTrackers.tracker_set hlen j).trans (if_pos rfl)
  exact funded_pay h hp rfl (by rw [htp', htp]) (by rw [htp', htp]; exact hs)

/-- The other farms owe the same. -/
theorem funded_claimFarm_ne {t t' : PersonalYieldTracker} {k : Nat}
    (h : (rewardView (.farm k)).Funded x.value fund l) (hk : k ≠ j) (hp : l[i]? = some p)
    (ht : p.farms[j]? = some t) :
    (rewardView (.farm k)).Funded x.value fund
      (l.set i { p with farms := p.farms.set j t' }) := by
  have hlen := (List.getElem?_eq_some_iff.1 ht).1
  exact funded_congr h hp rfl ((PersonalYieldTrackers.tracker_set hlen k).trans (if_neg hk))

theorem funded_open (h : (rewardView r).Funded x.value fund l)
    (hnew : (newFromMarket m owner).tracker r = ⟨x, 0⟩) :
    (rewardView r).Funded x.value fund (l ++ [newFromMarket m owner]) := by
  have hx : ((newFromMarket m owner).tracker r).lastSeenIndex = x :=
    congrArg PersonalYieldTracker.lastSeenIndex hnew
  refine h.push (congrArg Number.value hx).le ?_
  rw [rewardView_owed_settled hx, hnew, UInt64.toNat_zero, Nat.cast_zero]

/-- The index grows by a share of what the fund is fed, for as many LP tokens as there are. -/
theorem funded_grow {d lp : UInt64} (h : (rewardView r).Funded x.value fund l)
    (hlp : lp.toNat = (l.map fun p => p.lpBalance.toNat).sum)
    (hy : y.raw = x.raw + (fromRatio d lp).raw) :
    (rewardView r).Funded y.value (fund + d.toNat) l := by
  rw [value_of_add hy]
  refine h.advance value_nonneg ?_
  rw [totalWeight_rewardView, ← hlp]
  exact fromRatio_value_mul_le

/-- A reward starts at index zero, where missing trackers are. -/
theorem funded_start (hnew : ∀ q ∈ l, q.tracker r = ⟨0, 0⟩) (hf : 0 ≤ fund) :
    (rewardView r).Funded (0 : Number).value fund l where
  behind q hq := by
    simp only [rewardView, hnew q hq]
    exact le_rfl
  covered := by
    have hzero : ∀ y ∈ l.map ((rewardView r).owed (0 : Number).value), y = 0 := by
      intro y hy
      obtain ⟨q, hq, rfl⟩ := List.mem_map.1 hy
      rw [rewardView_owed_settled (by rw [hnew q hq]), hnew q hq, UInt64.toNat_zero, Nat.cast_zero]
    rw [Accumulator.View.totalOwed, List.sum_eq_zero hzero]
    exact hf

/-! ## The total of the balances -/

/-- **The divisor of the indexes is right**: it is the total of the balances. -/
def LpWorld.Staked (w : LpWorld K) : Prop :=
  w.market.lpEscrowAmount.toNat = (w.lpPositions.map fun p => p.lpBalance.toNat).sum

/-- What all positions together are owed of a reward at an index. -/
def LpWorld.owed (w : LpWorld K) (r : LpReward) (index : Number) : ℚ :=
  (w.lpPositions.map fun p => p.owed r index).sum

theorem sum_lpBalance_set {q : LpPosition} (hp : l[i]? = some p) (hb : q.lpBalance = p.lpBalance) :
    ((l.set i q).map fun p => p.lpBalance.toNat).sum
      = (l.map fun p => p.lpBalance.toNat).sum := by
  have hsum := ListSum.sum_map_set (f := fun p : LpPosition => p.lpBalance.toNat) (b := q) hp
  rw [hb] at hsum
  exact Nat.add_right_cancel hsum

theorem LpWorld.Staked.event (h : w.Staked) (he : LpEvent A w w') : w'.Staked := by
  unfold LpWorld.Staked at h ⊢
  cases he with
  | advance _ _ hw =>
    obtain ⟨f, -, rfl⟩ := LpWorld.advanced_eq_ok hw
    exact h
  | stage hp hs =>
    rw [sum_lpBalance_set hp hs.lpBalance]
    exact h
  | @stake _ i p b e hp _ hb =>
    have hsum := ListSum.sum_map_set (f := fun p : LpPosition => p.lpBalance.toNat)
      (b := { p with lpBalance := b }) hp
    simp only at hsum ⊢
    omega
  | @collect _ i p j e t l c c' hp _ _ _ _ _ =>
    rw [sum_lpBalance_set (q := { p with emissions := p.emissions.set j { t with staged := 0 } })
      hp rfl]
    exact h
  | @claimFarm _ i p j f t mint a s b hp _ _ _ _ _ =>
    rw [sum_lpBalance_set (q := { p with farms := p.farms.set j { t with staged := s } }) hp rfl]
    exact h
  | openPosition =>
    rw [ListSum.sum_map_append_singleton]
    exact h
  | update _ | addEmission _ | removeEmission _ | addFarm _ _ _ _ | modifyFarm _ _ _ _ _
  | accrue _ => exact h

theorem LpWorld.Fresh.staked (h : w.Fresh) : w.Staked := by
  rw [LpWorld.Staked, h.lpEscrowAmount, h.lpPositions]
  rfl

end

/-- A new market, with prices that the rewards do not depend on. -/
def LpWorld.freshMarket : LpWorld ℚ where
  market :=
    { feeTreasurySyBps := 0, statusFlags := 0b00111111, maxLpSupply := 0xffffffffffffffff
      financials := ⟨1000, 100, 100, 1, 1, 1⟩, cpiAccounts := {}
      liquidityNetBalanceLimits := ⟨0, 0, 10000, 0xffffffff, 0⟩ }
  lpPositions := []
  amountsClaimable := []
  tokenFarm := fun _ => 0
  clock := 0

theorem LpWorld.freshMarket_fresh : freshMarket.Fresh := ⟨rfl, rfl, rfl, rfl⟩

end ExponentCore
