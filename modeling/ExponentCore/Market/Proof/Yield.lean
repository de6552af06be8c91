import ExponentCore.Market.Proof.Holdings
import ExponentCore.Market.Proof.Scope

/-!
# The implied yield moves with trades

The yield that a market implies is stored, as a logarithm, by each trade, and the anchor of the next
trade is solved for from it, so that the time that passes, new SY rates and liquidity leave it
alone. A purchase of PT lowers it and a sale raises it (`yield_of_bought`, `yield_of_sold`), in
exact arithmetic: the odds of PT to asset go down, or up, while scalar and anchor are those that the
trade was made with.

So over a run the yield moves only to the sides on which PT were traded (`yield_throughout`).
-/

set_option autoImplicit false

namespace ExponentCore

open Exact TimeCurve

/-! ## The curve -/

namespace TimeCurve

section
variable {K : Type} [Field K] [LinearOrder K] [LnExp K]

theorem ln_lt_ln_iff {a b : K} (ha : 0 < a) (hb : 0 < b) : LnExp.ln a < LnExp.ln b ↔ a < b := by
  have hmono : StrictMonoOn (LnExp.ln : K → K) (Set.Ioi 0) := fun x hx y _ => LnExp.ln_lt_ln x y hx
  exact hmono.lt_iff_lt ha hb

/-- The rate grows with the odds. -/
theorem rateAt_lt_iff [IsStrictOrderedRing K] {s anchor q q' : K} (hs : 0 < s) (hq : 0 < q)
    (hq' : 0 < q') : rateAt s anchor q < rateAt s anchor q' ↔ q < q' := by
  rw [rateAt, rateAt, add_lt_add_iff_right, div_lt_div_iff_of_pos_right hs, ln_lt_ln_iff hq hq']

variable [FloorRing K] {s a anchor : K} {x y : Exact K} {pt asset sec : UInt64}

/-- The logit of balances is the logarithm of their odds. -/
theorem logit_proportionPt {l : K} (h : logit (proportionPt pt asset) = num l) :
    0 < (pt.toNat : K) / asset.toNat ∧ LnExp.ln ((pt.toNat : K) / asset.toNat) = l := by
  simp only [proportionPt, fromU64_eq, num_add_num] at h
  have hodds := logit_share h
  rwa [add_sub_cancel_left] at hodds

/-- An anchor is found from a yield: it takes the odds of the balances to the rate of the yield. -/
theorem findRateAnchor_spec (h : findRateAnchor pt asset (num s) x sec = num anchor) :
    ∃ a v, x = num a ∧ normalizedSecRemaining sec = num v ∧
      0 < (pt.toNat : K) / asset.toNat ∧
      rateAt s anchor ((pt.toNat : K) / asset.toNat) = LnExp.exp (a * v) := by
  simp only [findRateAnchor, exchangeRateFromLnImpliedRate, sub_eq_num, exp_eq_num, mul_eq_num,
    div_eq_num, num.injEq] at h
  obtain ⟨_, _, ⟨_, ⟨a, v, rfl, hv, rfl⟩, rfl⟩, ⟨l, _, hl, rfl, hs, rfl⟩, rfl⟩ := h
  obtain ⟨hodds, rfl⟩ := logit_proportionPt hl
  exact ⟨a, v, rfl, hv, hodds, by rw [rateAt, add_sub_cancel]⟩

/-- The yield of balances is the logarithm of the rate that their odds are taken to. -/
theorem lnImpliedRate_spec {b : K}
    (h : lnImpliedRate pt asset (num s) (num anchor) sec = num b) :
    ∃ v, normalizedSecRemaining sec = num v ∧ 0 < (pt.toNat : K) / asset.toNat ∧
      0 < rateAt s anchor ((pt.toNat : K) / asset.toNat) ∧
      LnExp.ln (rateAt s anchor ((pt.toNat : K) / asset.toNat)) / v = b := by
  simp only [lnImpliedRate, div_eq_num, ln_eq_num, exchangeRate_eq_num, num.injEq] at h
  obtain ⟨_, v, ⟨_, ⟨l, _, _, hl, rfl, rfl, -, rfl⟩, hrate, rfl⟩, hv, -, rfl⟩ := h
  obtain ⟨hodds, rfl⟩ := logit_proportionPt hl
  exact ⟨v, hv, hodds, hrate, rfl⟩

/-- The yields of old and of new balances compare as the odds do. -/
theorem lnImpliedRate_lt_iff [IsStrictOrderedRing K] {pt' asset' : UInt64} {b : K} (hs : 0 < s)
    (hsec : sec ≠ 0) (hfind : findRateAnchor pt asset (num s) (num a) sec = num anchor)
    (himplied : lnImpliedRate pt' asset' (num s) (num anchor) sec = num b) :
    (b < a ↔ (pt'.toNat : K) / asset'.toNat < pt.toNat / asset.toNat) ∧
      (a < b ↔ (pt.toNat : K) / asset.toNat < pt'.toNat / asset'.toNat) := by
  obtain ⟨_, v, ha, hv, hodds, hrate⟩ := findRateAnchor_spec hfind
  obtain rfl := num.inj ha
  obtain ⟨_, hv', hodds', hrate', rfl⟩ := lnImpliedRate_spec himplied
  obtain rfl := num.inj (hv.symm.trans hv')
  obtain ⟨_, hv', hpos⟩ := normalizedSecRemaining_pos (K := K) hsec
  obtain rfl := num.inj (hv.symm.trans hv')
  have hexp : 0 < rateAt s anchor ((pt.toNat : K) / asset.toNat) := by
    rw [hrate]
    exact LnExp.exp_pos _
  have hln : LnExp.ln (rateAt s anchor ((pt.toNat : K) / asset.toNat)) = a * v := by
    rw [hrate, LnExp.ln_exp]
  constructor
  · rw [div_lt_iff₀ hpos, ← hln, ln_lt_ln_iff hrate' hexp, rateAt_lt_iff hs hodds' hodds]
  · rw [lt_div_iff₀ hpos, ← hln, ln_lt_ln_iff hexp hrate', rateAt_lt_iff hs hodds hodds']

end

end TimeCurve

/-! ## Trades -/

variable {K : Type} [Field K] [LinearOrder K] [FloorRing K] [LnExp K]

/-- A trade that is priced has a scalar and an anchor. -/
theorem TimeCurve.trade_numbers {pt asset : UInt64} {x y z w : Exact K} {flash : Bool}
    {r : TradeResult (Exact K)} (h : trade pt asset y x z w flash = .ok r) :
    ∃ s anchor, y = num s ∧ x = num anchor := by
  simp only [trade, bind_eq_ok, assertTrue_eq_ok, Except.ok.injEq] at h
  obtain ⟨-, -, -, hrate, -⟩ := h
  obtain ⟨_, e, -, her, -⟩ := lt_iff.1 hrate
  obtain ⟨l, s, anchor, -, hs, hanchor, -⟩ := exchangeRate_eq_num.1 her
  exact ⟨s, anchor, hs, hanchor⟩

namespace MarketFinancials

variable {f f' : MarketFinancials (Exact K)} {rate : Number} {n : Int} {now : UInt64} {flash : Bool}
  {bps : UInt16} {r : MarketTradeResult}

/-- What a trade stores is the yield of the balances that it leaves, on the curve that it was made
on. -/
structure Repriced (f f' : MarketFinancials (Exact K)) (rate : Number) (now : UInt64)
    (s anchor : K) (asset asset' : UInt64) : Prop where
  scalar : f.currentRateScalar now = num s
  floor : (f.assetBalance rate >>= Number.floorU64) = .ok asset
  floor' : (f'.assetBalance rate >>= Number.floorU64) = .ok asset'
  found : findRateAnchor f.ptBalance asset (num s) f.lastLnImpliedRate (f.secRemaining now)
    = num anchor
  stored : f'.lastLnImpliedRate
    = lnImpliedRate f'.ptBalance asset' (num s) (num anchor) (f.secRemaining now)

theorem tradePt_repriced (h : f.tradePt rate n now flash bps = .ok (f', r)) :
    ∃ s anchor asset asset', Repriced f f' rate now s anchor asset asset' := by
  simp only [tradePt, bind_eq_ok, Except.ok.injEq, Prod.mk.injEq] at h
  obtain ⟨_, -, _, -, x, hx, tr, htr, sy, -, syFee, -, prod, -, g₁, hg₁, g, hg, a, ha, asset',
    hasset', rfl, -⟩ := h
  obtain ⟨s, anchor, hs, rfl⟩ := trade_numbers htr
  have hframe := (exchange_spec hg₁ hg).frame
  have hexp : g.expirationTs = f.expirationTs := by rw [hframe]
  rw [currentRateAnchor, ← bind_assoc, bind_eq_ok] at hx
  obtain ⟨asset, hasset, hanchor⟩ := hx
  rw [hs] at hanchor
  refine ⟨s, anchor, asset, asset', hs, hasset, bind_eq_ok.2 ⟨a, ha, hasset'⟩,
    Except.ok.inj hanchor, ?_⟩
  simp only [hs, secRemaining, hexp]

end MarketFinancials

/-- A trade is priced on the yield that is stored. -/
theorem MarketFinancials.ne_nan_of_tradePt {f f' : MarketFinancials (Exact K)} {rate : Number}
    {n : Int} {now : UInt64} {flash : Bool} {bps : UInt16} {r : MarketTradeResult}
    (h : f.tradePt rate n now flash bps = .ok (f', r)) : f.lastLnImpliedRate ≠ nan := by
  obtain ⟨s, anchor, asset, asset', hrepriced⟩ := tradePt_repriced h
  obtain ⟨a, _, hold, -⟩ := findRateAnchor_spec hrepriced.found
  simp [hold]

/-- Where a trade on a side takes the yield. -/
def Side.Moves : Side → K → K → Prop
  | buyPt, a, b => b < a
  | sellPt, a, b => a < b

/-- A yield that is lost, or that has moved to a side. -/
def Side.Moved (side : Side) (y y' : Exact K) : Prop :=
  y' = nan ∨ ∃ a b, y = num a ∧ y' = num b ∧ side.Moves a b

namespace MarketFinancials

section
variable {f f' : MarketFinancials (Exact K)} {rate : Number} {now : UInt64} {s anchor : K}
  {asset asset' : UInt64}

theorem secRemaining_ne_zero (h : f.currentRateScalar now = num s) : f.secRemaining now ≠ 0 := by
  intro hsec
  rw [currentRateScalar, rateScalar, if_pos hsec] at h
  cases h

/-- More SY is worth more. -/
theorem floor_le {N : Type} {g g' : MarketFinancials N} (hsy : g.syBalance ≤ g'.syBalance)
    (h : (g.assetBalance rate >>= Number.floorU64) = .ok asset)
    (h' : (g'.assetBalance rate >>= Number.floorU64) = .ok asset') : asset ≤ asset' := by
  rw [UInt64.le_iff_toNat_le, Number.natural_mul_floor.1 h, Number.natural_mul_floor.1 h']
  exact Nat.div_le_div_right (Nat.mul_le_mul_right _ (UInt64.le_iff_toNat_le.1 hsy))

variable [IsStrictOrderedRing K]

omit [FloorRing K] [LnExp K] in
/-- Fewer PT and more asset make lower odds. -/
theorem odds_lt {pt pt' : UInt64} (hpt : pt' < pt) (hasset : asset ≤ asset')
    (h : 0 < (pt.toNat : K) / asset.toNat) :
    (pt'.toNat : K) / asset'.toNat < pt.toNat / asset.toNat := by
  have hpos : 0 < (pt.toNat : K) := Nat.cast_pos.2 (Nat.zero_lt_of_lt hpt)
  have hasset₀ : 0 < (asset.toNat : K) := (div_pos_iff_of_pos_left hpos).1 h
  exact div_lt_div₀ (Nat.cast_lt.2 hpt) (Nat.cast_le.2 hasset) hpos.le hasset₀

/-- **The yield after a trade** is less where there are fewer PT and no less SY, and more where there
are more PT and no more SY. -/
theorem Repriced.moved (hroot : Num.zero < f.rateScalarRoot)
    (h : Repriced f f' rate now s anchor asset asset') :
    (f'.ptBalance < f.ptBalance → f.syBalance ≤ f'.syBalance →
      Side.buyPt.Moved f.lastLnImpliedRate f'.lastLnImpliedRate) ∧
    (f.ptBalance < f'.ptBalance → f'.syBalance ≤ f.syBalance →
      Side.sellPt.Moved f.lastLnImpliedRate f'.lastLnImpliedRate) := by
  have hsec := secRemaining_ne_zero h.scalar
  obtain ⟨s', hs', hpos⟩ := currentRateScalar_pos hroot hsec
  obtain rfl := num.inj (h.scalar.symm.trans hs')
  obtain ⟨a, v, hold, -, hodds, -⟩ := findRateAnchor_spec h.found
  cases hnew : f'.lastLnImpliedRate with
  | nan => exact ⟨fun _ _ => .inl rfl, fun _ _ => .inl rfl⟩
  | num b =>
    have hfound := h.found
    have hstored := h.stored
    rw [hold] at hfound
    rw [hnew] at hstored
    obtain ⟨-, -, hodds', -⟩ := lnImpliedRate_spec hstored.symm
    obtain ⟨hlt, hgt⟩ := lnImpliedRate_lt_iff hpos hsec hfound hstored.symm
    constructor
    · intro hpt hsy
      exact .inr ⟨a, b, hold, rfl, hlt.2 (odds_lt hpt (floor_le hsy h.floor h.floor') hodds)⟩
    · intro hpt hsy
      exact .inr ⟨a, b, hold, rfl, hgt.2 (odds_lt hpt (floor_le hsy h.floor' h.floor) hodds')⟩

end

end MarketFinancials

/-! ## The yield of a bank -/

namespace Bank

section
variable {N : Type} {b b' : Bank N} {user : Nat} {amount fee : UInt64}

/-- The logarithm of the yearly yield that the market implies. -/
def impliedYield (b : Bank N) : N := b.market.financials.lastLnImpliedRate

/-- No trade can be priced, neither a real one nor one that a wrapper simulates. -/
def Unpriced [Num N] (b : Bank N) : Prop :=
  ∀ rate netTraderPt now flash bps p,
    b.market.financials.tradePt rate netTraderPt now flash bps ≠ .ok p

/-- A purchase pays the treasury's part of the fee out of its price. -/
theorem fee_le_of_transferSy (h : b.transferSy user true amount fee = .ok b') : fee ≤ amount := by
  simp only [transferSy, if_true, bind_eq_ok, unwrap_eq_ok, checkedSub_eq_some] at h
  obtain ⟨x, hx, -⟩ := h
  exact UInt64.le_iff_toNat_le.2 (by omega)

variable [Num N]

theorem fee_le_of_tradePt {now : UInt64} {rate : Number} {n c : Int} {r : MarketTradeResult}
    (hn : 0 < n) (h : b.tradePt user now rate n c = .ok (b', r)) :
    r.treasuryFeeAmount ≤ asU64 |r.netTraderSy| := by
  simp only [tradePt, hn, decide_true, bind_eq_ok, Prod.exists, Except.ok.injEq,
    Prod.mk.injEq] at h
  obtain ⟨_, -, _, -, f, r, -, _, -, _, -, b₁, -, b₂, h₂, -, rfl⟩ := h
  exact fee_le_of_transferSy h₂

theorem tradePt_rateScalarRoot {f f' : MarketFinancials N} {rate : Number} {n : Int} {now : UInt64}
    {flash : Bool} {bps : UInt16} {r : MarketTradeResult}
    (h : f.tradePt rate n now flash bps = .ok (f', r)) : f'.rateScalarRoot = f.rateScalarRoot := by
  simp only [MarketFinancials.tradePt, bind_eq_ok, Except.ok.injEq, Prod.mk.injEq] at h
  obtain ⟨_, -, _, -, _, -, _, -, _, -, _, -, _, -, g₁, hg₁, g, hg, _, -, _, -, rfl, -⟩ := h
  have hframe := (MarketFinancials.exchange_spec hg₁ hg).frame
  show g.rateScalarRoot = _
  rw [hframe]

/-- What liquidity leaves alone of the books. -/
theorem addLiquidity_yield {f f' : MarketFinancials N} {syIntent ptIntent lpSupply : UInt64}
    {r : LiqAddResult} (h : f.addLiquidity syIntent ptIntent lpSupply = .ok (f', r)) :
    f'.lastLnImpliedRate = f.lastLnImpliedRate ∧ f'.rateScalarRoot = f.rateScalarRoot := by
  simp only [MarketFinancials.addLiquidity, MarketFinancials.incPtBalance,
    MarketFinancials.incSyBalance, bind_eq_ok, Except.ok.injEq, Prod.mk.injEq] at h
  obtain ⟨_, ⟨_, -, rfl⟩, _, ⟨_, -, rfl⟩, rfl, -⟩ := h
  exact ⟨rfl, rfl⟩

theorem rmLiquidity_yield {f f' : MarketFinancials N} {lpIn lpSupply : UInt64} {r : LiqRmResult}
    (h : f.rmLiquidity lpIn lpSupply = .ok (f', r)) :
    f'.lastLnImpliedRate = f.lastLnImpliedRate ∧ f'.rateScalarRoot = f.rateScalarRoot := by
  simp only [MarketFinancials.rmLiquidity, MarketFinancials.decPtBalance,
    MarketFinancials.decSyBalance, bind_eq_ok, Except.ok.injEq, Prod.mk.injEq] at h
  obtain ⟨_, -, _, -, _, ⟨_, -, rfl⟩, _, ⟨_, -, rfl⟩, rfl, -⟩ := h
  exact ⟨rfl, rfl⟩

end

section
variable {b b' : Bank (Exact K)} {user : Nat} {now : UInt64} {rate : Number} {n c : Int}
  {r : MarketTradeResult}

theorem unpriced_of_nan (h : b.impliedYield = nan) : b.Unpriced := by
  intro rate n now flash bps p hp
  exact MarketFinancials.ne_nan_of_tradePt hp h

variable [IsStrictOrderedRing K]

/-- The PT of a trade fit a `u64`. -/
theorem tradePt_amount {f f' : MarketFinancials (Exact K)} {flash : Bool} {bps : UInt16}
    (h : f.tradePt rate n now flash bps = .ok (f', r)) : |n| < 2 ^ 64 := by
  simp only [MarketFinancials.tradePt, trade, MarketFinancials.exchange, bind_eq_ok,
    assertTrue_eq_ok, fromI64_eq, Except.ok.injEq, Prod.mk.injEq] at h
  obtain ⟨_, -, asset, -, _, -, _, ⟨_, hn, -⟩, _, -, _, -, _, -, g, hg, -⟩ := h
  by_cases hpos : 0 < n
  · obtain ⟨m, rfl⟩ := Int.eq_ofNat_of_zero_le hpos.le
    rw [Int.cast_natCast] at hn
    have hcast : ¬ (num (m : K) < Num.zero) := not_lt.2 (Nat.cast_nonneg m)
    have hlt := UInt64.lt_iff_toNat_lt.1 (hn.resolve_left hcast)
    rw [toU64_toNat, Nat.floor_natCast] at hlt
    have hpt := f.ptBalance.toNat_lt
    rw [Nat.abs_cast]
    omega
  · simp only [hpos, decide_false, Bool.false_eq_true, if_false, bind_eq_ok, inI64_eq_ok] at hg
    obtain ⟨_, ⟨⟨-, hlt⟩, rfl⟩, -⟩ := hg
    rw [abs_of_nonpos (not_lt.1 hpos)]
    omega

/-- **A purchase lowers the yield and a sale raises it.** -/
theorem yield_tradePt (hroot : Num.zero < b.market.financials.rateScalarRoot)
    (h : b.tradePt user now rate n c = .ok (b', r)) :
    ∃ s ∈ Side.ofTrade n, s.Moved b.impliedYield b'.impliedYield := by
  obtain ⟨f, hf⟩ := tradePt_spec h
  have hbooks := MarketFinancials.tradePt_booked hf.priced
  have hamount := tradePt_amount hf.priced
  obtain ⟨s, anchor, asset, asset', hrepriced⟩ := MarketFinancials.tradePt_repriced hf.priced
  obtain ⟨hbuy, hsell⟩ := hrepriced.moved hroot
  have hfin : b'.market.financials = f := hf.moves.trading.financials
  have hpt := hbooks.ptBalance
  have hsy := hbooks.syBalance
  have hfits : ((asU64 |n|).toNat : Int) = |n| := by
    rw [asU64_toNat, Int.emod_eq_of_lt (abs_nonneg n) hamount]
  rw [impliedYield, impliedYield, hfin]
  rcases hf.signs with ⟨hn, -⟩ | ⟨hn, -⟩
  · have hfee := UInt64.le_iff_toNat_le.1 (fee_le_of_tradePt hn h)
    have habs := asU64_abs hbooks.small
    rw [if_pos hn, hfits, abs_of_pos hn] at hpt
    rw [if_pos hn] at hsy
    refine ⟨.buyPt, by simp [Side.ofTrade, hn], hbuy ?_ ?_⟩
    · rw [UInt64.lt_iff_toNat_lt]
      omega
    · rw [UInt64.le_iff_toNat_le]
      omega
  · have habs := abs_nonneg r.netTraderSy
    rw [if_neg hn.not_gt, hfits, abs_of_neg hn] at hpt
    rw [if_neg hn.not_gt] at hsy
    refine ⟨.sellPt, by simp [Side.ofTrade, hn, hn.not_gt], hsell ?_ ?_⟩
    · rw [UInt64.lt_iff_toNat_lt]
      omega
    · rw [UInt64.le_iff_toNat_le]
      omega

/-- Everybody acts, on all positions. -/
def everybody : Scope where
  users _ := True
  yieldPositions _ := True
  lpPositions _ := True

omit [Field K] [IsStrictOrderedRing K] [FloorRing K] [LnExp K] in
/-- Two moves are one, or lead back. -/
theorem moved_trans {D : Side → Prop} {s s' : Side} {x y z : Exact K} (hs : D s) (hs' : D s')
    (h : s.Moved x y) (h' : s'.Moved y z) : z = x ∨ ∃ s, D s ∧ s.Moved x z := by
  obtain rfl | ⟨b, c, rfl, rfl, hbc⟩ := h'
  · exact .inr ⟨s, hs, .inl rfl⟩
  · obtain hnan | ⟨a, _, rfl, hb, hab⟩ := h
    · cases hnan
    · obtain rfl := num.inj hb
      -- on one side the moves add up, on two the numbers are compared
      rcases lt_trichotomy a c with hac | rfl | hca
      · cases s with
        | sellPt => exact .inr ⟨.sellPt, hs, .inr ⟨a, c, rfl, rfl, hac⟩⟩
        | buyPt =>
          cases s' with
          | sellPt => exact .inr ⟨.sellPt, hs', .inr ⟨a, c, rfl, rfl, hac⟩⟩
          | buyPt => exact absurd (lt_trans hbc hab) hac.not_gt
      · exact .inl rfl
      · cases s with
        | buyPt => exact .inr ⟨.buyPt, hs, .inr ⟨a, c, rfl, rfl, hca⟩⟩
        | sellPt =>
          cases s' with
          | buyPt => exact .inr ⟨.buyPt, hs', .inr ⟨a, c, rfl, rfl, hca⟩⟩
          | sellPt => exact absurd (lt_trans hab hbc) hca.not_gt

/-- The yield stays, or has moved to a side on which PT were traded; the curve stays. -/
structure YieldMoves (D : Side → Prop) (b b' : Bank (Exact K)) : Prop where
  rateScalarRoot : b'.market.financials.rateScalarRoot = b.market.financials.rateScalarRoot
  impliedYield : Num.zero < b.market.financials.rateScalarRoot →
    b'.impliedYield = b.impliedYield ∨ ∃ s, D s ∧ s.Moved b.impliedYield b'.impliedYield

variable {D : Side → Prop}

omit [IsStrictOrderedRing K] in
theorem yieldMoves_of_same (h : b'.market.financials.rateScalarRoot
      = b.market.financials.rateScalarRoot) (hy : b'.impliedYield = b.impliedYield) :
    YieldMoves D b b' :=
  ⟨h, fun _ => .inl hy⟩

omit [IsStrictOrderedRing K] in
theorem YieldMoves.trans {b'' : Bank (Exact K)} (h : YieldMoves D b b') (h' : YieldMoves D b' b'') :
    YieldMoves D b b'' := by
  refine ⟨h'.rateScalarRoot.trans h.rateScalarRoot, fun hroot => ?_⟩
  rcases h.impliedYield hroot with hy | ⟨s, hs, hy⟩
  · rw [← hy]
    exact h'.impliedYield (h.rateScalarRoot ▸ hroot)
  · rcases h'.impliedYield (h.rateScalarRoot ▸ hroot) with hy' | ⟨s', hs', hy'⟩
    · rw [hy']
      exact .inr ⟨s, hs, hy⟩
    · exact moved_trans hs hs' hy hy'

omit [IsStrictOrderedRing K] in
theorem Moves.yieldMoves {pt sy : Int} (h : Moves pt sy b b') : YieldMoves D b b' := by
  have hfin := h.trading.financials
  exact yieldMoves_of_same (by rw [hfin]) (by rw [Bank.impliedYield, Bank.impliedYield, hfin])

theorem yieldMoves_call {call : Call} {x : call.Ret} (hc : ∀ s ∈ call.sides, D s)
    (h : call.act b = .ok (b', x)) : YieldMoves D b b' := by
  cases hbooks : call.books with
  | false => exact (Call.moves hbooks h).yieldMoves
  | true =>
    cases call with
    | tradePt user now rate n c =>
      obtain ⟨f, hf⟩ := tradePt_spec h
      have hfin : b'.market.financials = f := hf.moves.trading.financials
      have hroot' := tradePt_rateScalarRoot hf.priced
      refine ⟨by rw [hfin, hroot'], fun hroot => .inr ?_⟩
      obtain ⟨s, hs, hmoved⟩ := yield_tradePt hroot h
      exact ⟨s, hc s hs, hmoved⟩
    | depositLiquidity =>
      obtain ⟨f, l, hf, hmoves⟩ := depositLiquidity_spec h
      obtain ⟨hy, hroot⟩ := addLiquidity_yield hf
      have hset : YieldMoves D b (b.withBooks f l) := yieldMoves_of_same hroot hy
      exact hset.trans hmoves.yieldMoves
    | withdrawLiquidity =>
      obtain ⟨f, l, hf, hmoves⟩ := withdrawLiquidity_spec h
      obtain ⟨hy, hroot⟩ := rmLiquidity_yield hf
      have hset : YieldMoves D b (b.withBooks f l) := yieldMoves_of_same hroot hy
      exact hset.trans hmoves.yieldMoves
    | _ => cases hbooks

theorem keeps_yieldMoves (D : Side → Prop) :
    Bank.Keeps everybody D (YieldMoves (K := K) D) where
  refl _ := yieldMoves_of_same rfl rfl
  trans _ _ _ := .trans
  call _ _ _ _ _ hc h := yieldMoves_call hc h
  edit e b := by
    cases e with
    | setIsCurrentFlashSwap value => exact yieldMoves_of_same rfl rfl
  withdrawYt user k now syState amount b b' _ h := by
    simp only [step, bind_eq_ok] at h
    obtain ⟨w, -, hcredit⟩ := h
    have hworld : Same b { b with vaultWorld := w } := same_of_eq rfl rfl rfl
    exact (hworld.trans (creditYt_same hcredit)).yieldMoves
  vault _ _ _ _ _ := yieldMoves_of_same rfl rfl
  lp _ _ _ _ h := (same_lpWorld h).yieldMoves

/-- **The implied yield moves with trades alone, and to their side**: if in a run all PT that the
successful instructions trade, those in flash swaps and wrappers included, are traded on the sides
`D`, then in every state on the way the yield is that of the start, or has moved to a side in `D`:
down by purchases, up by sales. Where it is no number any more, no trade can be priced. -/
theorem yield_throughout (D : Side → Prop) (b : Bank (Exact K)) (ops : List BankOp)
    (hroot : Num.zero < b.market.financials.rateScalarRoot)
    (hops : Machine.Admits step (Machine.Accepted step fun b op _ => ∀ s ∈ op.sides b, D s) b ops) :
    Machine.Throughout step (fun b' =>
      (b'.impliedYield = b.impliedYield ∨ ∃ s, D s ∧ s.Moved b.impliedYield b'.impliedYield) ∧
        (b'.impliedYield = nan → b'.Unpriced)) b ops := by
  have hmoves := (keeps_yieldMoves (K := K) D).throughout (b := b)
    (fun _ _ => ⟨fun _ _ => trivial, fun _ _ => trivial, fun _ _ => trivial⟩) hops
  exact hmoves.mono fun b' h => ⟨h.impliedYield hroot, unpriced_of_nan⟩

end

end Bank

/-- Who provides liquidity buys PT. -/
theorem sampleBank_buying :
    ∃ b, sampleBank = .ok b ∧ Num.zero < b.market.financials.rateScalarRoot ∧
      Machine.Admits Bank.step
        (Machine.Accepted Bank.step fun b op _ => ∀ s ∈ op.sides b, s = Side.buyPt) b
        [.wrapper sampleWrapper, .lp (.initLpPosition 1) rfl] := by
  decide +kernel

/-- The yield goes down. -/
theorem yield_throughout_buying :
    ∃ b, sampleBank = .ok b ∧ Machine.Throughout Bank.step (fun b' =>
      (b'.impliedYield = b.impliedYield ∨
          ∃ s, s = Side.buyPt ∧ s.Moved b.impliedYield b'.impliedYield) ∧
        (b'.impliedYield = .nan → b'.Unpriced)) b
      [.wrapper sampleWrapper, .lp (.initLpPosition 1) rfl] := by
  obtain ⟨b, hb, hroot, hbuying⟩ := sampleBank_buying
  exact ⟨b, hb, Bank.yield_throughout (fun s => s = .buyPt) b _ hroot hbuying⟩

end ExponentCore
