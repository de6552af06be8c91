import ExponentCore.Curve.Proof.Liquidity
import ExponentCore.Curve.Proof.Trade
import ExponentCore.Market.Financials
import ExponentCore.Num.Proof.PreciseNumber

/-!
# No profit from a PT round trip

A trader buys PT and sells them again, or the other way round, at one instant and one SY rate, in
exact arithmetic. `Traded` says what a trade does to the books. The second trade is priced with the
anchor of the first (`anchor_stable`), and the balances that the first one left put it at a rate
that is not better for the trader: by `le_of_bought` and `le_of_sold`, which compare the odds of the
two trades, the SY received is at most the SY paid (`no_round_trip_profit`).
-/

set_option autoImplicit false

namespace ExponentCore

open Exact TimeCurve

/-! ## Two trades on one curve -/

section
variable {K : Type} [Field K] [LinearOrder K] [IsStrictOrderedRing K]
variable {s anchor x pt sy sy' asset asset' r rate rate' δ : K} {paid received : Nat}

/-- SY received for an asset amount that SY was paid for. -/
theorem le_of_paid (hr : 0 < r) (hδ : δ ≤ 1) {a : K} (hpaid : a < (paid + δ) * r)
    (hreceived : received * r ≤ a) : received ≤ paid := by
  have hlt : (received : K) < paid + 1 := by
    refine lt_of_mul_lt_mul_right (hreceived.trans_lt (hpaid.trans_le ?_)) hr.le
    exact mul_le_mul_of_nonneg_right (by linarith) hr.le
  exact Nat.lt_succ_iff.1 (by exact_mod_cast hlt)

variable [LnExp K]

/-- PT that were bought are sold again. -/
theorem le_of_bought (hs : 0 < s) (hr : 0 < r) (hδ : δ ≤ 1) (hx : 0 < x) (hpt : x ≤ pt)
    (hodds : 0 < (pt - x) / (asset + x)) (hodds' : 0 < (pt - x - -x) / (asset' + -x))
    (hrate : rate = rateAt s anchor ((pt - x) / (asset + x)))
    (hrate' : rate' = rateAt s anchor ((pt - x - -x) / (asset' + -x)))
    (hone : 1 < rate) (hone' : 1 < rate')
    (hasset : sy * r ≤ asset) (hasset' : asset' ≤ (sy + paid) * r)
    (hpaid : x / rate < (paid + δ) * r) (hreceived : received * r ≤ x / rate') :
    received ≤ paid := by
  by_contra hlt
  rw [not_le] at hlt
  -- more SY received than paid is worth less asset than PT were sold
  have hworth : (paid + 1 : K) * r ≤ x := by
    have hmore : ((paid + 1 : Nat) : K) ≤ received := Nat.cast_le.2 hlt
    push_cast at hmore
    calc (paid + 1 : K) * r ≤ received * r := mul_le_mul_of_nonneg_right hmore hr.le
      _ ≤ x / rate' := hreceived
      _ ≤ x := div_le_self hx.le hone'.le
  have hle : rate ≤ rate' := by
    rw [hrate, hrate']
    refine rateAt_mono hs hodds ?_
    have hasset₀ : 0 < asset' + -x := by
      rw [sub_neg_eq_add, sub_add_cancel] at hodds'
      exact (div_pos_iff_of_pos_left (hx.trans_le hpt)).1 hodds'
    have hless : asset' + -x ≤ asset + x := by
      rw [add_mul, one_mul] at hworth
      rw [add_mul] at hasset'
      linarith
    exact div_le_div₀ (by linarith) (by linarith) hasset₀ hless
  have hless : x / rate' ≤ x / rate := div_le_div_of_nonneg_left hx.le (by linarith) hle
  exact absurd (le_of_paid hr hδ (hpaid.trans_le' hless) hreceived) (not_le.2 hlt)

/-- PT that were sold are bought back. -/
theorem le_of_sold (hs : 0 < s) (hr : 0 < r) (hδ : δ ≤ 1) (hx : 0 < x) (hpt : 0 ≤ pt)
    (hodds : 0 < (pt - -x) / (asset + -x)) (hodds' : 0 < (pt + x - x) / (asset' + x))
    (hrate : rate = rateAt s anchor ((pt - -x) / (asset + -x)))
    (hrate' : rate' = rateAt s anchor ((pt + x - x) / (asset' + x)))
    (hone : 1 < rate) (hone' : 1 < rate')
    (hasset : asset ≤ sy * r) (hasset' : sy' * r ≤ asset')
    (hleft : sy * r ≤ sy' * r + x / rate)
    (hpaid : x / rate' < (paid + δ) * r) (hreceived : received * r ≤ x / rate) :
    received ≤ paid := by
  have hle : rate' ≤ rate := by
    rw [hrate, hrate']
    refine rateAt_mono hs hodds' ?_
    have hasset₀ : 0 < asset + -x := (div_pos_iff_of_pos_left (by linarith)).1 hodds
    have hworth : x / rate ≤ x := div_le_self hx.le hone.le
    exact div_le_div₀ (by linarith) (by linarith) hasset₀ (by linarith)
  have hless : x / rate ≤ x / rate' := div_le_div_of_nonneg_left hx.le (by linarith) hle
  exact le_of_paid hr hδ (hpaid.trans_le' hless) hreceived

end

/-! ## Amounts of SY -/

section
variable {K : Type} [Field K]

/-- The asset that one SY is worth. -/
def Number.exact (K : Type) [Field K] (a : Number) : K := (a.raw : K) / (Number.denom : K)

variable [LinearOrder K] [IsStrictOrderedRing K] {rate : Number} {net fee : K} {n m : UInt64}
  {i : Int}

theorem Number.exact_pos (hrate : 0 < rate) : 0 < rate.exact K :=
  div_pos (Nat.cast_pos.2 hrate) (Nat.cast_pos.2 Number.denom_pos)

/-- A unit of the twelfth decimal. -/
theorem unit_le_one : 1 / (Number.denom : K) ≤ 1 := by
  rw [div_le_one (Nat.cast_pos.2 Number.denom_pos)]
  exact Nat.one_le_cast.2 Number.denom_pos

theorem div_ceil_exact (h : ((Number.fromNaturalU64 m).div rate >>= Number.ceilU64) = .ok n) :
    (m.toNat : K) < (n.toNat + 1 / (Number.denom : K)) * rate.exact K := by
  have hd : (0 : K) < Number.denom := Nat.cast_pos.2 Number.denom_pos
  have hK : ((m.toNat * Number.denom * Number.denom : Nat) : K)
      < (((n.toNat * Number.denom + 1) * rate.raw : Nat) : K) :=
    Nat.cast_lt.2 (Number.natural_div_ceil h)
  push_cast at hK
  rw [Number.exact, ← mul_div_assoc, lt_div_iff₀ hd]
  refine lt_of_mul_lt_mul_right (hK.trans_eq ?_) hd.le
  field_simp

theorem div_floor_exact (h : ((Number.fromNaturalU64 m).div rate >>= Number.floorU64) = .ok n) :
    n.toNat * rate.exact K ≤ m.toNat := by
  have hd : (0 : K) < Number.denom := Nat.cast_pos.2 Number.denom_pos
  obtain ⟨-, hn⟩ := Number.natural_div_floor.1 h
  have hK : ((n.toNat * rate.raw : Nat) : K) ≤ ((m.toNat * Number.denom : Nat) : K) := by
    rw [Nat.cast_le, hn]
    exact Nat.div_mul_le_self _ _
  push_cast at hK
  rwa [Number.exact, ← mul_div_assoc, div_le_iff₀ hd]

theorem mul_ceil_exact (h : ((Number.fromNaturalU64 m).mul rate >>= Number.ceilU64) = .ok n) :
    m.toNat * rate.exact K ≤ n.toNat := by
  have hd : (0 : K) < Number.denom := Nat.cast_pos.2 Number.denom_pos
  have hK : ((m.toNat * rate.raw : Nat) : K) ≤ ((n.toNat * Number.denom : Nat) : K) :=
    Nat.cast_le.2 (Number.natural_mul_ceil h)
  push_cast at hK
  rwa [Number.exact, ← mul_div_assoc, div_le_iff₀ hd]

theorem mul_floor_exact (h : ((Number.fromNaturalU64 m).mul rate >>= Number.floorU64) = .ok n) :
    (n.toNat : K) ≤ m.toNat * rate.exact K := by
  have hd : (0 : K) < Number.denom := Nat.cast_pos.2 Number.denom_pos
  have hK : ((n.toNat * Number.denom : Nat) : K) ≤ ((m.toNat * rate.raw : Nat) : K) := by
    rw [Nat.cast_le, Number.natural_mul_floor.1 h]
    exact Nat.div_mul_le_self _ _
  push_cast at hK
  rwa [Number.exact, ← mul_div_assoc, le_div_iff₀ hd]

/-- The treasury's part of a fee. -/
theorem treasuryFee_le {bps : UInt16} (hbps : bps ≤ 10000)
    (h : mulU64 n bps.toUInt64 = .ok m) : (m / 10000).toNat ≤ n.toNat := by
  have hle : bps.toNat ≤ 10000 := hbps
  rw [mulU64_eq_ok, UInt16.toNat_toUInt64] at h
  rw [UInt64.toNat_div, h]
  exact Nat.div_le_of_le_mul ((Nat.mul_le_mul_left _ hle).trans_eq (Nat.mul_comm _ _))

variable [FloorRing K] [LnExp K]

/-- The cost of a purchase is rounded up twice: to a whole asset, and in SY. -/
theorem netTraderSy_of_neg (hnet : net < 0)
    (h : netTraderSyFromNetTraderAsset (num net) rate = .ok i) :
    ∃ asset paid : UInt64, (asset.toNat : Int) = -⌊net⌋ ∧
      ((Number.fromNaturalU64 asset).div rate >>= Number.ceilU64) = .ok paid ∧
      paid.toNat < 2 ^ 63 ∧ i = -paid.toNat := by
  have hsign : Num.isSignNegative (num net) = true := decide_eq_true hnet
  simp only [netTraderSyFromNetTraderAsset, syMagnitudeFromNetTraderAsset, hsign, if_true,
    bind_eq_ok, expect_eq_ok, toI64_eq_some, Except.ok.injEq, floor_num, abs_num,
    ← Int.cast_abs] at h
  obtain ⟨paid, ⟨asset, hasset, hpaid⟩, _, ⟨hlt, rfl⟩, rfl⟩ := h
  have hfloor : ⌊net⌋ < 0 := Int.floor_lt.2 (by simpa using hnet)
  refine ⟨asset, paid, ?_, bind_eq_ok.2 hpaid, hlt, by ring⟩
  rw [f64ToU64Checked_intCast hasset, abs_of_neg hfloor]

/-- The proceeds of a sale are rounded down twice. -/
theorem netTraderSy_of_nonneg (hnet : 0 ≤ net)
    (h : netTraderSyFromNetTraderAsset (num net) rate = .ok i) :
    ∃ asset received : UInt64, (asset.toNat : Int) = ⌊net⌋ ∧
      ((Number.fromNaturalU64 asset).div rate >>= Number.floorU64) = .ok received ∧
      received.toNat < 2 ^ 63 ∧ i = received.toNat := by
  have hsign : Num.isSignNegative (num net) = false := decide_eq_false (not_lt.2 hnet)
  simp only [netTraderSyFromNetTraderAsset, syMagnitudeFromNetTraderAsset, hsign,
    Bool.false_eq_true, if_false, bind_eq_ok, expect_eq_ok, toI64_eq_some, Except.ok.injEq,
    floor_num, abs_num, ← Int.cast_abs] at h
  obtain ⟨received, ⟨asset, hasset, hreceived⟩, _, ⟨hlt, rfl⟩, rfl⟩ := h
  refine ⟨asset, received, ?_, bind_eq_ok.2 hreceived, hlt, rfl⟩
  rw [f64ToU64Checked_intCast hasset, abs_of_nonneg (Int.floor_nonneg.2 hnet)]

/-- What a trader pays covers the asset up to a unit of the twelfth decimal. -/
theorem netTraderSy_paid (hnet : net < 0)
    (h : netTraderSyFromNetTraderAsset (num net) rate = .ok i) :
    ∃ paid : Nat, i = -paid ∧ paid < 2 ^ 63 ∧
      -net < (paid + 1 / (Number.denom : K)) * rate.exact K := by
  obtain ⟨asset, paid, hasset, hpaid, hlt, rfl⟩ := netTraderSy_of_neg hnet h
  refine ⟨paid.toNat, rfl, hlt, lt_of_le_of_lt ?_ (div_ceil_exact hpaid)⟩
  calc -net ≤ -(⌊net⌋ : K) := neg_le_neg (Int.floor_le net)
    _ = ((-⌊net⌋ : Int) : K) := (Int.cast_neg _).symm
    _ = asset.toNat := by rw [← hasset, Int.cast_natCast]

theorem netTraderSy_received (hnet : 0 ≤ net)
    (h : netTraderSyFromNetTraderAsset (num net) rate = .ok i) :
    ∃ received : Nat, i = received ∧ received < 2 ^ 63 ∧ received * rate.exact K ≤ net := by
  obtain ⟨asset, received, hasset, hreceived, hlt, rfl⟩ := netTraderSy_of_nonneg hnet h
  refine ⟨received.toNat, rfl, hlt, (div_floor_exact hreceived).trans ?_⟩
  calc (asset.toNat : K) = ((asset.toNat : Int) : K) := (Int.cast_natCast _).symm
    _ = ⌊net⌋ := by rw [hasset]
    _ ≤ net := Int.floor_le net

theorem syFee_le (hrate : 0 < rate) (h : syFeeFromAssetFee (num fee) rate = .ok n) :
    n.toNat * rate.exact K ≤ fee := by
  have hd : UInt64.ofNat Number.denom ≠ 0 := by decide
  simp only [syFeeFromAssetFee, bind_eq_ok, expect_eq_ok, unwrap_eq_ok, Number.toF64,
    Option.ite_none_right_eq_some, Option.some.injEq, fromRatio_eq hd] at h
  obtain ⟨_, ⟨hsmall, rfl⟩, h⟩ := h
  have hexact : (((UInt64.ofNat rate.raw).toNat : K) / (UInt64.ofNat Number.denom).toNat)
      = rate.exact K := by
    rw [Number.exact, UInt64.toNat_ofNat_of_lt' (hsmall.trans_lt (by decide))]
    rfl
  have hpos : 0 < rate.exact K := Number.exact_pos hrate
  rw [hexact, num_div_num hpos.ne', floor_num] at h
  rw [← le_div_iff₀ hpos]
  calc (n.toNat : K) = ((n.toNat : Int) : K) := (Int.cast_natCast _).symm
    _ = ⌊fee / rate.exact K⌋ := by rw [f64ToU64Checked_intCast h]
    _ ≤ fee / rate.exact K := Int.floor_le _

end

/-! ## What a trade does to the books -/

namespace MarketFinancials

section
variable {N : Type} {f f' : MarketFinancials N} {n : Int} {change treasury : UInt64}

/-- The balances after a trade; everything else stays. -/
structure Exchanged (f : MarketFinancials N) (n : Int) (change treasury : UInt64)
    (f' : MarketFinancials N) : Prop where
  frame : f' = { f with ptBalance := f'.ptBalance, syBalance := f'.syBalance }
  buy : 0 < n → f'.ptBalance.toNat + (asU64 n).toNat = f.ptBalance.toNat ∧
    f'.syBalance.toNat + treasury.toNat = f.syBalance.toNat + change.toNat
  sell : n ≤ 0 → f'.ptBalance.toNat = f.ptBalance.toNat + (asU64 (-n)).toNat ∧
    f'.syBalance.toNat + treasury.toNat + change.toNat = f.syBalance.toNat

theorem exchange_spec {g : MarketFinancials N} (h : f.exchange (decide (0 < n)) n change = .ok g)
    (hg : g.decSyBalance treasury = .ok f') : Exchanged f n change treasury f' := by
  simp only [decSyBalance, bind_eq_ok, expect_eq_ok, checkedSub_eq_some, Except.ok.injEq] at hg
  obtain ⟨sy, hsy, rfl⟩ := hg
  unfold exchange at h
  by_cases hn : 0 < n
  · simp only [hn, decide_true, if_true, decPtBalance, incSyBalance, bind_eq_ok, expect_eq_ok,
      checkedSub_eq_some, checkedAdd_eq_some, Except.ok.injEq] at h
    obtain ⟨_, ⟨pt, hpt, rfl⟩, sy₁, hsy₁, rfl⟩ := h
    exact ⟨rfl, fun _ => ⟨hpt, hsy.trans hsy₁⟩, fun hle => absurd hn (not_lt.2 hle)⟩
  · simp only [hn, decide_false, Bool.false_eq_true, if_false, incPtBalance, decSyBalance,
      bind_eq_ok, expect_eq_ok, checkedSub_eq_some, checkedAdd_eq_some, Except.ok.injEq,
      inI64_eq_ok] at h
    obtain ⟨_, ⟨-, rfl⟩, _, ⟨pt, hpt, rfl⟩, sy₁, hsy₁, rfl⟩ := h
    refine ⟨rfl, fun hlt => absurd hlt hn, fun _ => ⟨hpt, ?_⟩⟩
    rw [hsy]
    exact hsy₁

end

section
variable {K : Type} [Field K] [LinearOrder K] [FloorRing K] [LnExp K]

/-- A trade outside a flash swap, for the scalar `s` of its time: priced at `asset` units of the
asset with the anchor that the market finds, and booked. -/
structure Traded (f f' : MarketFinancials (Exact K)) (syExchangeRate : Number) (n : Int)
    (now asset : UInt64) (s anchor rate fee : K) (r : MarketTradeResult) : Prop where
  anchor_eq : f.currentRateAnchor syExchangeRate now = .ok (num anchor)
  odds_pos : 0 < ((f.ptBalance.toNat : K) - n) / (asset.toNat + n)
  rate_eq : rate = rateAt s anchor (((f.ptBalance.toNat : K) - n) / (asset.toNat + n))
  one_lt_rate : 1 < rate
  fee_nonneg : 0 ≤ fee
  sy : netTraderSyFromNetTraderAsset (num (-n / rate - fee)) syExchangeRate = .ok r.netTraderSy
  treasury : r.treasuryFeeAmount.toNat * syExchangeRate.exact K ≤ fee
  le_asset : 0 < n → f.syBalance.toNat * syExchangeRate.exact K ≤ asset.toNat
  asset_le : n ≤ 0 → (asset.toNat : K) ≤ f.syBalance.toNat * syExchangeRate.exact K
  booked : ∃ g, Exchanged f n (asU64 |r.netTraderSy|) r.treasuryFeeAmount g ∧
    ∃ newAsset, (g.assetBalance syExchangeRate >>= Number.floorU64) = .ok newAsset ∧
      f' = { g with lastLnImpliedRate :=
        lnImpliedRate g.ptBalance newAsset (num s) (num anchor) (g.secRemaining now) }

variable {f f' f₁ f₂ : MarketFinancials (Exact K)} {syExchangeRate : Number} {n : Int}
variable {now asset asset₁ : UInt64} {bps : UInt16} {r r₁ r₂ : MarketTradeResult}
variable {s anchor anchor₁ rate rate₁ fee fee₁ : K}

/-- The curve depends on the time that remains, which a trade does not change. -/
theorem Traded.secRemaining_eq (h : Traded f f₁ syExchangeRate n now asset s anchor rate fee r) :
    f₁.secRemaining now = f.secRemaining now := by
  obtain ⟨g, hg, newAsset, hnew, rfl⟩ := h.booked
  have hexp : g.expirationTs = f.expirationTs := by rw [hg.frame]
  simp only [secRemaining, hexp]

theorem Traded.rateScalarRoot_eq
    (h : Traded f f₁ syExchangeRate n now asset s anchor rate fee r) :
    f₁.rateScalarRoot = f.rateScalarRoot := by
  obtain ⟨g, hg, newAsset, hnew, rfl⟩ := h.booked
  exact (congrArg MarketFinancials.rateScalarRoot hg.frame :)

variable [IsStrictOrderedRing K]

theorem tradePt_spec (hs : f.currentRateScalar now = num s) (hrate : 0 < syExchangeRate)
    (hbps : bps ≤ 10000) (h : f.tradePt syExchangeRate n now false bps = .ok (f', r)) :
    ∃ asset anchor rate fee, Traded f f' syExchangeRate n now asset s anchor rate fee r := by
  simp only [tradePt, bind_eq_ok, hs, Except.ok.injEq, Prod.mk.injEq, fromI64_eq] at h
  obtain ⟨a, ha, asset, hasset, x, hx, tr, htr, sy, hsy, syFee, hsyFee, prod, hprod, g₁, hg₁, g, hg,
    b, hb, newAsset, hnew, rfl, rfl⟩ := h
  obtain ⟨anchor, rate, fee, rfl, hpriced⟩ := trade_spec htr
  rw [hpriced.net] at hsy
  rw [hpriced.assetFee] at hsyFee
  refine ⟨asset, anchor, rate, fee, hx, hpriced.odds_pos, hpriced.rate_eq, hpriced.one_lt_rate,
    hpriced.fee_nonneg, hsy, ?_, ?_, ?_, g, exchange_spec hg₁ hg, newAsset,
    bind_eq_ok.2 ⟨b, hb, hnew⟩, rfl⟩
  · refine le_trans ?_ (syFee_le hrate hsyFee)
    refine mul_le_mul_of_nonneg_right (Nat.cast_le.2 ?_) (Number.exact_pos hrate).le
    exact treasuryFee_le hbps hprod
  · intro hn
    rw [decide_eq_true hn] at hasset
    exact mul_ceil_exact (bind_eq_ok.2 ⟨a, ha, hasset⟩)
  · intro hn
    rw [decide_eq_false (not_lt.2 hn)] at hasset
    exact mul_floor_exact (bind_eq_ok.2 ⟨a, ha, hasset⟩)

/-! ## The second trade -/

theorem currentRateScalar_pos (hroot : Num.zero < f.rateScalarRoot)
    (hsec : f.secRemaining now ≠ 0) : ∃ s : K, f.currentRateScalar now = num s ∧ 0 < s := by
  obtain ⟨_, root, h₀, hr, hpos⟩ := lt_iff.1 hroot
  obtain rfl := num.inj h₀
  obtain ⟨v, hv, hv₀⟩ := normalizedSecRemaining_pos (K := K) hsec
  refine ⟨root / v, ?_, div_pos hpos hv₀⟩
  rw [currentRateScalar, rateScalar, if_neg hsec, hr, hv, num_div_num hv₀.ne']

/-- The second trade of an instant finds the anchor of the first. -/
theorem Traded.anchor_next (h : Traded f f₁ syExchangeRate n now asset s anchor rate fee r)
    (hs : f₁.currentRateScalar now = num s) (hsec : f₁.secRemaining now ≠ 0)
    (h₁ : f₁.currentRateAnchor syExchangeRate now = .ok (num anchor₁)) : anchor₁ = anchor := by
  obtain ⟨g, hg, newAsset, hnew, rfl⟩ := h.booked
  simp only [currentRateAnchor, hs, ← bind_assoc] at h₁
  rw [bind_eq_ok] at h₁
  obtain ⟨a, ha, h₁⟩ := h₁
  obtain rfl : a = newAsset := Except.ok.inj (ha.symm.trans hnew)
  exact anchor_stable hsec (Except.ok.inj h₁)

theorem asU64_natCast {k : Nat} (hk : k < 2 ^ 64) : (asU64 (k : Int)).toNat = k := by
  have := asU64_toNat k
  omega

/-- PT bought and sold again. -/
theorem le_of_bought_sold {x : Nat} (hs : 0 < s) (hrate : 0 < syExchangeRate) (hx : 0 < x)
    (hx' : x < 2 ^ 63)
    (h₁ : Traded f f₁ syExchangeRate x now asset s anchor rate fee r₁)
    (h₂ : Traded f₁ f₂ syExchangeRate (-x) now asset₁ s anchor rate₁ fee₁ r₂) :
    r₁.netTraderSy + r₂.netTraderSy ≤ 0 := by
  obtain ⟨g, hg, newAsset, hnew, rfl⟩ := h₁.booked
  have hxK : (0 : K) < x := Nat.cast_pos.2 hx
  have hfee := h₁.fee_nonneg
  have hone := h₁.one_lt_rate
  have hprice : 0 < (x : K) / rate := div_pos hxK (by linarith)
  have hnet : -((x : Int) : K) / rate - fee < 0 := by
    rw [Int.cast_natCast, neg_div]
    linarith
  obtain ⟨paid, hpaid, hpaid', hcover⟩ := netTraderSy_paid hnet h₁.sy
  rcases lt_or_ge (-((-(x : Int) : Int) : K) / rate₁ - fee₁) 0 with hneg | hnonneg
  · obtain ⟨paid₁, hpaid₁, -⟩ := netTraderSy_paid hneg h₂.sy
    omega
  · obtain ⟨received, hreceived, -, hworth⟩ := netTraderSy_received hnonneg h₂.sy
    obtain ⟨hpt, hsy⟩ := hg.buy (Int.natCast_pos.2 hx)
    rw [asU64_natCast (by omega)] at hpt
    rw [hpaid, abs_neg, Nat.abs_cast, asU64_natCast (by omega)] at hsy
    have hptK : (g.ptBalance.toNat : K) = f.ptBalance.toNat - x := by
      rw [eq_sub_iff_add_eq]
      exact_mod_cast hpt
    have hsyK : (g.syBalance.toNat : K) ≤ f.syBalance.toNat + paid := by
      exact_mod_cast Nat.le.intro hsy
    have hodds := h₁.odds_pos
    have hrate' := h₁.rate_eq
    have hodds₁ := h₂.odds_pos
    have hrate₁ := h₂.rate_eq
    simp only [Int.cast_neg, Int.cast_natCast, neg_neg, hptK] at hodds hrate' hodds₁ hrate₁ hworth
    have hr : 0 < syExchangeRate.exact K := Number.exact_pos hrate
    have hpt₀ : (x : K) ≤ f.ptBalance.toNat := Nat.cast_le.2 (by omega)
    have hasset₁ : (asset₁.toNat : K) ≤ (f.syBalance.toNat + paid) * syExchangeRate.exact K :=
      (h₂.asset_le (by omega)).trans (mul_le_mul_of_nonneg_right hsyK hr.le)
    have hpaidK : (x : K) / rate < (paid + 1 / (Number.denom : K)) * syExchangeRate.exact K := by
      rw [Int.cast_natCast, neg_div] at hcover
      linarith
    have hfee₁ := h₂.fee_nonneg
    have hle : received ≤ paid :=
      le_of_bought hs hr unit_le_one hxK hpt₀ hodds hodds₁ hrate' hrate₁ hone h₂.one_lt_rate
        (h₁.le_asset (by omega)) hasset₁ hpaidK (hworth.trans (by linarith))
    omega

theorem le_of_sold_bought {x : Nat} (hs : 0 < s) (hrate : 0 < syExchangeRate) (hx : 0 < x)
    (hx' : x < 2 ^ 63)
    (h₁ : Traded f f₁ syExchangeRate (-x) now asset s anchor rate fee r₁)
    (h₂ : Traded f₁ f₂ syExchangeRate x now asset₁ s anchor rate₁ fee₁ r₂) :
    r₁.netTraderSy + r₂.netTraderSy ≤ 0 := by
  obtain ⟨g, hg, newAsset, hnew, rfl⟩ := h₁.booked
  have hxK : (0 : K) < x := Nat.cast_pos.2 hx
  have hone := h₁.one_lt_rate
  have hone₁ := h₂.one_lt_rate
  have hfee₁ := h₂.fee_nonneg
  have hprice₁ : 0 < (x : K) / rate₁ := div_pos hxK (by linarith)
  have hnet : -((x : Int) : K) / rate₁ - fee₁ < 0 := by
    rw [Int.cast_natCast, neg_div]
    linarith
  obtain ⟨paid, hpaid, hpaid', hcover⟩ := netTraderSy_paid hnet h₂.sy
  rcases lt_or_ge (-((-(x : Int) : Int) : K) / rate - fee) 0 with hneg | hnonneg
  · obtain ⟨paid₁, hpaid₁, -⟩ := netTraderSy_paid hneg h₁.sy
    omega
  · obtain ⟨received, hreceived, hreceived', hworth⟩ := netTraderSy_received hnonneg h₁.sy
    obtain ⟨hpt, hsy⟩ := hg.sell (by omega)
    rw [neg_neg, asU64_natCast (by omega)] at hpt
    rw [hreceived, Nat.abs_cast, asU64_natCast (by omega)] at hsy
    have hptK : (g.ptBalance.toNat : K) = f.ptBalance.toNat + x := by exact_mod_cast hpt
    have hsyK : (g.syBalance.toNat : K) + r₁.treasuryFeeAmount.toNat + received
        = f.syBalance.toNat := by exact_mod_cast hsy
    have hodds := h₁.odds_pos
    have hrate' := h₁.rate_eq
    have hodds₁ := h₂.odds_pos
    have hrate₁ := h₂.rate_eq
    simp only [Int.cast_neg, Int.cast_natCast, neg_neg, hptK] at hodds hrate' hodds₁ hrate₁ hworth
    have hr : 0 < syExchangeRate.exact K := Number.exact_pos hrate
    have hfee := h₁.fee_nonneg
    have hleft : f.syBalance.toNat * syExchangeRate.exact K
        ≤ g.syBalance.toNat * syExchangeRate.exact K + x / rate := by
      have htreasury := h₁.treasury
      rw [← hsyK, add_mul, add_mul]
      linarith
    have hpaidK : (x : K) / rate₁ < (paid + 1 / (Number.denom : K)) * syExchangeRate.exact K := by
      rw [Int.cast_natCast, neg_div] at hcover
      linarith
    have hle : received ≤ paid :=
      le_of_sold hs hr unit_le_one hxK (Nat.cast_nonneg _) hodds hodds₁ hrate' hrate₁ hone hone₁
        (h₁.asset_le (by omega)) (h₂.le_asset (by omega)) hleft hpaidK
        (hworth.trans (by linarith))
    omega

/-- **A PT round trip makes no profit**, in either order, at any SY rate and for any fee. -/
theorem no_round_trip_profit (f : MarketFinancials (Exact K)) (syExchangeRate : Number)
    (now : UInt64) (bps : UInt16) (x : Nat) (hroot : Num.zero < f.rateScalarRoot)
    (hsec : f.secRemaining now ≠ 0) (hbps : bps ≤ 10000) (hrate : 0 < syExchangeRate)
    (hx : 0 < x) (hx' : x < 2 ^ 63) :
    (∀ f₁ r₁ f₂ r₂, f.tradePt syExchangeRate x now false bps = .ok (f₁, r₁) →
      f₁.tradePt syExchangeRate (-x) now false bps = .ok (f₂, r₂) →
      r₁.netTraderSy + r₂.netTraderSy ≤ 0) ∧
    (∀ f₁ r₁ f₂ r₂, f.tradePt syExchangeRate (-x) now false bps = .ok (f₁, r₁) →
      f₁.tradePt syExchangeRate x now false bps = .ok (f₂, r₂) →
      r₁.netTraderSy + r₂.netTraderSy ≤ 0) := by
  obtain ⟨s, hs, hpos⟩ := currentRateScalar_pos hroot hsec
  have hsecond {f₁ : MarketFinancials (Exact K)} {n : Int} {asset : UInt64} {anchor rate fee : K}
      {r : MarketTradeResult} (h : Traded f f₁ syExchangeRate n now asset s anchor rate fee r) :
      f₁.currentRateScalar now = num s ∧ f₁.secRemaining now ≠ 0 := by
    rw [currentRateScalar, h.secRemaining_eq, h.rateScalarRoot_eq]
    exact ⟨hs, hsec⟩
  constructor
  · intro f₁ r₁ f₂ r₂ h₁ h₂
    obtain ⟨asset, anchor, rate, fee, ht₁⟩ := tradePt_spec hs hrate hbps h₁
    obtain ⟨hs₁, hsec₁⟩ := hsecond ht₁
    obtain ⟨asset₁, anchor₁, rate₁, fee₁, ht₂⟩ := tradePt_spec hs₁ hrate hbps h₂
    obtain rfl := ht₁.anchor_next hs₁ hsec₁ ht₂.anchor_eq
    exact le_of_bought_sold hpos hrate hx hx' ht₁ ht₂
  · intro f₁ r₁ f₂ r₂ h₁ h₂
    obtain ⟨asset, anchor, rate, fee, ht₁⟩ := tradePt_spec hs hrate hbps h₁
    obtain ⟨hs₁, hsec₁⟩ := hsecond ht₁
    obtain ⟨asset₁, anchor₁, rate₁, fee₁, ht₂⟩ := tradePt_spec hs₁ hrate hbps h₂
    obtain rfl := ht₁.anchor_next hs₁ hsec₁ ht₂.anchor_eq
    exact le_of_sold_bought hpos hrate hx hx' ht₁ ht₂

end

/-- A market with a year to go, a yield of one and a fee of one percent. -/
def yearMarket : MarketFinancials (Exact ℚ) where
  expirationTs := 31536000
  ptBalance := 1000000
  syBalance := 800000
  lnFeeRateRoot := .num (1 / 101)
  lastLnImpliedRate := .num 1
  rateScalarRoot := .num 10

theorem no_round_trip_profit_yearMarket :
    ∃ q₁, yearMarket.tradePt 1 10000 0 false 2000 = .ok q₁ ∧
      ∃ q₂, q₁.1.tradePt 1 (-10000) 0 false 2000 = .ok q₂ ∧
        q₁.2.netTraderSy + q₂.2.netTraderSy ≤ 0 := by
  obtain ⟨q₁, h₁, q₂, h₂, -⟩ : ∃ q₁, yearMarket.tradePt 1 10000 0 false 2000 = .ok q₁ ∧
      ∃ q₂, q₁.1.tradePt 1 (-10000) 0 false 2000 = .ok q₂ ∧ True := by
    decide +kernel
  refine ⟨q₁, h₁, q₂, h₂, ?_⟩
  exact (no_round_trip_profit yearMarket 1 0 2000 10000 (by decide +kernel) (by decide) (by decide)
    (by decide) (by decide) (by decide)).1 q₁.1 q₁.2 q₂.1 q₂.2 h₁ h₂

end MarketFinancials

end ExponentCore
