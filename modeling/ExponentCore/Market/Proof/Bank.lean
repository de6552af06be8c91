import ExponentCore.Market.Calls
import ExponentCore.Market.Proof.LpEvents
import ExponentCore.Market.Proof.RoundTrip

/-!
# What the instructions move

`Bank.Moves pt sy` says that PT and SY entered the market's accounts (or left them, when negative)
while what trades read and write stayed as it was. `Call.moves` gives the amounts for an instruction
that does not go through the books; `tradePt_spec`, `depositLiquidity_spec` and
`withdrawLiquidity_spec` do it for the three that do, on top of the new books.
-/

set_option autoImplicit false

namespace ExponentCore

variable {N : Type}

/-- What trades read and write of a market stays. -/
structure MarketTwo.SameTrading (m m' : MarketTwo N) : Prop where
  financials : m'.financials = m.financials
  isCurrentFlashSwap : m'.isCurrentFlashSwap = m.isCurrentFlashSwap
  feeTreasurySyBps : m'.feeTreasurySyBps = m.feeTreasurySyBps

namespace MarketTwo.SameTrading

variable {m m' m'' : MarketTwo N}

theorem refl (m : MarketTwo N) : m.SameTrading m := ⟨rfl, rfl, rfl⟩

theorem trans (h : m.SameTrading m') (h' : m'.SameTrading m'') : m.SameTrading m'' :=
  ⟨h'.financials.trans h.financials, h'.isCurrentFlashSwap.trans h.isCurrentFlashSwap,
    h'.feeTreasurySyBps.trans h.feeTreasurySyBps⟩

end MarketTwo.SameTrading

/-- Staking, emissions and farms do not concern trades. -/
theorem LpWorld.step_sameTrading {w w' : LpWorld N} {op : LpOp} (h : w.step op = .ok w') :
    w.market.SameTrading w'.market := by
  have hevent (z z' : LpWorld N) (hz : w.market.SameTrading z.market)
      (he : LpEvent (fun _ _ => True) z z') : w.market.SameTrading z'.market := by
    refine hz.trans ?_
    cases he with
    | advance _ _ hw =>
      obtain ⟨f, -, rfl⟩ := advanced_eq_ok hw
      exact ⟨rfl, rfl, rfl⟩
    | update | stage | stake | collect | addEmission | removeEmission | addFarm | modifyFarm
    | claimFarm | openPosition | accrue => exact ⟨rfl, rfl, rfl⟩
  exact step_induction hevent (.refl _) trivial h

namespace Bank

/-- **Holdings change, the books stay**. -/
structure Moves (pt sy : Int) (b b' : Bank N) : Prop where
  trading : b.market.SameTrading b'.market
  tokenPtEscrow : (b'.tokenPtEscrow.toNat : Int) = b.tokenPtEscrow.toNat + pt
  syPosition : (b'.syPosition.toNat : Int) = b.syPosition.toNat + sy

section
variable {b b' b'' : Bank N} {pt pt' sy sy' : Int} {user position : Nat} {now amount r : UInt64}
  {syState : SyState} {isBuyPt : Bool} {treasuryFeeAmount : UInt64}

theorem Moves.trans (h : Moves pt sy b b') (h' : Moves pt' sy' b' b'') :
    Moves (pt + pt') (sy + sy') b b'' :=
  ⟨h.trading.trans h'.trading, by rw [h'.tokenPtEscrow, h.tokenPtEscrow, add_assoc],
    by rw [h'.syPosition, h.syPosition, add_assoc]⟩

theorem Moves.congr (h : Moves pt sy b b') (hpt : pt = pt') (hsy : sy = sy') :
    Moves pt' sy' b b' := by
  rwa [← hpt, ← hsy]

/-- Nothing of the market moves. -/
abbrev Same (b b' : Bank N) : Prop := Moves 0 0 b b'

theorem same_of_eq (hmarket : b'.market = b.market) (hpt : b'.tokenPtEscrow = b.tokenPtEscrow)
    (hsy : b'.syPosition = b.syPosition) : Same b b' := by
  refine ⟨?_, by rw [hpt, add_zero], by rw [hsy, add_zero]⟩
  rw [hmarket]
  exact .refl _

theorem Same.trans (h : Same b b') (h' : Moves pt sy b' b'') : Moves pt sy b b'' :=
  (Moves.trans h h').congr (zero_add pt) (zero_add sy)

theorem Moves.same (h : Moves pt sy b b') (h' : Same b' b'') : Moves pt sy b b'' :=
  (Moves.trans h h').congr (add_zero pt) (add_zero sy)

/-! ## Tokens -/

/-- The token accounts of the users are not the market's. -/
theorem same_users {x : Outcome (Nat → UInt64)} {f : (Nat → UInt64) → UserTokens}
    (h : (do let accounts ← x; .ok { b with users := f accounts }) = .ok b') : Same b b' := by
  simp only [bind_eq_ok, Except.ok.injEq] at h
  obtain ⟨accounts, -, rfl⟩ := h
  exact same_of_eq rfl rfl rfl

theorem debitSy_same (h : b.debitSy user amount = .ok b') : Same b b' := same_users h

theorem creditSy_same (h : b.creditSy user amount = .ok b') : Same b b' := same_users h

theorem debitPt_same (h : b.debitPt user amount = .ok b') : Same b b' := same_users h

theorem creditPt_same (h : b.creditPt user amount = .ok b') : Same b b' := same_users h

theorem debitYt_same (h : b.debitYt user amount = .ok b') : Same b b' := same_users h

theorem creditYt_same (h : b.creditYt user amount = .ok b') : Same b b' := same_users h

theorem debitLp_same (h : b.debitLp user amount = .ok b') : Same b b' := same_users h

theorem creditLp_same (h : b.creditLp user amount = .ok b') : Same b b' := same_users h

theorem receivePt_moves (h : b.receivePt user amount = .ok b') : Moves amount.toNat 0 b b' := by
  simp only [receivePt, bind_eq_ok, transferIn_eq_ok, Except.ok.injEq] at h
  obtain ⟨b₁, hdebit, pt, hpt, rfl⟩ := h
  exact (debitPt_same hdebit).trans ⟨.refl _, by exact_mod_cast hpt, (add_zero _).symm⟩

theorem sendPt_moves (h : b.sendPt user amount = .ok b') : Moves (-amount.toNat) 0 b b' := by
  simp only [sendPt, bind_eq_ok, transferOut_eq_ok] at h
  obtain ⟨pt, hpt, hcredit⟩ := h
  have hout : Moves (-amount.toNat) 0 b { b with tokenPtEscrow := pt } :=
    ⟨.refl _, by show (pt.toNat : Int) = _; omega, (add_zero _).symm⟩
  exact hout.same (creditPt_same hcredit)

theorem receiveSy_same (h : b.receiveSy user amount = .ok b') : Same b b' := by
  simp only [receiveSy, bind_eq_ok, Except.ok.injEq] at h
  obtain ⟨b₁, hdebit, sy, -, rfl⟩ := h
  exact (debitSy_same hdebit).trans (same_of_eq rfl rfl rfl)

theorem sendSy_same (h : b.sendSy user amount = .ok b') : Same b b' := by
  simp only [sendSy, bind_eq_ok] at h
  obtain ⟨sy, -, hcredit⟩ := h
  have hout : Same b { b with tokenSyEscrow := sy } := same_of_eq rfl rfl rfl
  exact hout.trans (creditSy_same hcredit)

theorem depositSy_moves (h : b.depositSy amount = .ok b') : Moves 0 amount.toNat b b' := by
  simp only [depositSy, bind_eq_ok, transferIn_eq_ok, Except.ok.injEq] at h
  obtain ⟨escrow, -, sy, hsy, rfl⟩ := h
  exact ⟨.refl _, (add_zero _).symm, by exact_mod_cast hsy⟩

theorem withdrawSy_moves (h : b.withdrawSy amount = .ok b') : Moves 0 (-amount.toNat) b b' := by
  simp only [withdrawSy, bind_eq_ok, transferOut_eq_ok, Except.ok.injEq] at h
  obtain ⟨sy, hsy, escrow, -, rfl⟩ := h
  exact ⟨.refl _, (add_zero _).symm, by show (sy.toNat : Int) = _; omega⟩

/-! ## Instructions that pass the books by -/

theorem strip_same (h : b.strip user now syState amount = .ok (b', r)) : Same b b' := by
  simp only [strip, bind_eq_ok, Except.ok.injEq, Prod.exists, Prod.mk.injEq] at h
  obtain ⟨b₁, h₁, w, -, _, _, _, -, b₂, h₂, b₃, h₃, rfl, -⟩ := h
  have hw : Same b₁ { b₁ with vaultWorld := w } := same_of_eq rfl rfl rfl
  exact (debitSy_same h₁).trans (hw.trans ((creditPt_same h₂).trans (creditYt_same h₃)))

theorem burnYt_same {active : Bool} (h : b.burnYt user active amount = .ok b') : Same b b' := by
  unfold burnYt at h
  split at h
  · exact debitYt_same h
  · obtain rfl := Except.ok.inj h
    exact same_of_eq rfl rfl rfl

theorem merge_same (h : b.merge user now syState amount = .ok (b', r)) : Same b b' := by
  simp only [merge, bind_eq_ok, Except.ok.injEq, Prod.exists, Prod.mk.injEq] at h
  obtain ⟨w, -, _, _, _, -, active, -, b₁, h₁, b₂, h₂, b₃, h₃, rfl, -⟩ := h
  have hw : Same b { b with vaultWorld := w } := same_of_eq rfl rfl rfl
  exact hw.trans ((debitPt_same h₁).trans ((burnYt_same h₂).trans (creditSy_same h₃)))

theorem depositYt_same (h : b.depositYt user position now syState amount = .ok b') :
    Same b b' := by
  simp only [depositYt, bind_eq_ok] at h
  obtain ⟨w, -, h₁⟩ := h
  have hw : Same b { b with vaultWorld := w } := same_of_eq rfl rfl rfl
  exact hw.trans (debitYt_same h₁)

/-- The user is paid what a claim under other limits pays. -/
theorem collectInterest_spec {a : Amount}
    (h : b.collectInterest user position now a = .ok (b', r)) :
    ∃ l u w v u' f, b.vault.claimLimits.SameTerms l ∧
      b.vaultWorld.userPositions[position]? = some u ∧
      (b.vaultWorld.withClaimLimits l).instruct (.collectInterest now.toUInt32 position a) = .ok w ∧
      ExponentCore.collectInterest { b.vault with claimLimits := l } u a = .ok (v, u', r, f) ∧
      { b with vaultWorld := w }.creditSy user r = .ok b' := by
  simp only [collectInterest, VaultWorld.instructWithinLimits, collectInterestWithinLimits,
    bind_eq_ok, getAt_eq_ok, Except.ok.injEq, Prod.exists, Prod.mk.injEq] at h
  obtain ⟨u, hu, _, ⟨_, hv, u₁, hu₁, v₁, u₂, _, _, ⟨n, hn, l, hl, hf⟩, rfl⟩, v, u', m, f,
    ⟨n', hn', l', hl', hf'⟩, _, hcredit, rfl, rfl⟩ := h
  obtain rfl := Option.some.inj (hu₁.symm.trans hu)
  obtain rfl : n = n' := Except.ok.inj (hn.symm.trans hn')
  obtain rfl : l = l' := Except.ok.inj (hl.symm.trans hl')
  refine ⟨l, u₁, _, v, u', f, ClaimLimits.verifyClaimLimits_sameTerms hl, hu, ?_, hf', hcredit⟩
  simp only [VaultWorld.instruct, VaultWorld.step, bind_eq_ok, getAt_eq_ok, Except.ok.injEq,
    Prod.exists]
  exact ⟨_, hv, u₁, hu, v₁, u₂, _, _, hf, rfl⟩

theorem collectInterest_same {a : Amount}
    (h : b.collectInterest user position now a = .ok (b', r)) : Same b b' := by
  obtain ⟨l, u, w, v, u', f, -, -, -, -, hcredit⟩ := collectInterest_spec h
  have hw : Same b { b with vaultWorld := w } := same_of_eq rfl rfl rfl
  exact hw.trans (creditSy_same hcredit)

theorem same_lpWorld {w : LpWorld N} {op : LpOp} (h : b.lpWorld.step op = .ok w) :
    Same b { b with lpWorld := w } :=
  ⟨LpWorld.step_sameTrading h, (add_zero _).symm, (add_zero _).symm⟩

theorem depositLp_same (h : b.depositLp user position now amount = .ok b') : Same b b' := by
  simp only [depositLp, bind_eq_ok] at h
  obtain ⟨w, hw, h₁⟩ := h
  exact (same_lpWorld hw).trans (debitLp_same h₁)

theorem withdrawLp_same (h : b.withdrawLp user position now amount = .ok b') : Same b b' := by
  simp only [withdrawLp, bind_eq_ok] at h
  obtain ⟨w, hw, h₁⟩ := h
  exact (same_lpWorld hw).trans (creditLp_same h₁)

/-! ## Trades -/

theorem transferPt_moves (h : b.transferPt user isBuyPt amount = .ok b') :
    Moves (if isBuyPt then -amount.toNat else amount.toNat) 0 b b' := by
  cases isBuyPt with
  | true => exact sendPt_moves h
  | false => exact receivePt_moves h

/-- The SY that enters the market in a trade. -/
theorem transferSy_moves (h : b.transferSy user isBuyPt amount treasuryFeeAmount = .ok b') :
    Moves 0 ((if isBuyPt then (amount.toNat : Int) else -amount.toNat) - treasuryFeeAmount.toNat)
      b b' := by
  cases isBuyPt with
  | true =>
    simp only [transferSy, if_true, bind_eq_ok, unwrap_eq_ok, checkedSub_eq_some,
      Except.ok.injEq] at h
    obtain ⟨a, ha, b₁, h₁, b₂, h₂, b₃, h₃, t, -, rfl⟩ := h
    have hmoves := ((receiveSy_same h₁).trans (depositSy_moves h₂)).same (debitSy_same h₃)
    have hfee : Same b₃ { b₃ with tokenFeeTreasurySy := t } := same_of_eq rfl rfl rfl
    refine (hmoves.same hfee).congr rfl ?_
    simp only [if_true]
    omega
  | false =>
    simp only [transferSy, Bool.false_eq_true, if_false, bind_eq_ok, unwrap_eq_ok,
      checkedAdd_eq_some, Except.ok.injEq] at h
    obtain ⟨a, ha, b₁, h₁, b₂, h₂, e, -, t, -, rfl⟩ := h
    have hmoves := (withdrawSy_moves h₁).same (sendSy_same h₂)
    have hfee : Same b₂ { b₂ with tokenSyEscrow := e, tokenFeeTreasurySy := t } :=
      same_of_eq rfl rfl rfl
    refine (hmoves.same hfee).congr rfl ?_
    simp only [Bool.false_eq_true, if_false]
    omega

/-- SY goes to a user and to the treasury. -/
structure Pays (user : Nat) (sy treasury : Int) (b b' : Bank N) : Prop where
  payee : ((b'.users.sy user).toNat : Int) = (b.users.sy user).toNat + sy
  others : ∀ u, u ≠ user → b'.users.sy u = b.users.sy u
  treasury : (b'.tokenFeeTreasurySy.toNat : Int) = b.tokenFeeTreasurySy.toNat + treasury

theorem debit_eq_ok {accounts accounts' : Nat → UInt64} :
    debit accounts user amount = .ok accounts' ↔
      ∃ x : UInt64, x.toNat + amount.toNat = (accounts user).toNat ∧
        Function.update accounts user x = accounts' := by
  simp only [debit, bind_eq_ok, transferOut_eq_ok, Except.ok.injEq]

theorem credit_eq_ok {accounts accounts' : Nat → UInt64} :
    credit accounts user amount = .ok accounts' ↔
      ∃ x : UInt64, x.toNat = (accounts user).toNat + amount.toNat ∧
        Function.update accounts user x = accounts' := by
  simp only [credit, bind_eq_ok, transferIn_eq_ok, Except.ok.injEq]

theorem transferSy_pays (h : b.transferSy user isBuyPt amount treasuryFeeAmount = .ok b') :
    Pays user (if isBuyPt then -amount.toNat else amount.toNat) treasuryFeeAmount.toNat b b' := by
  cases isBuyPt with
  | true =>
    simp only [transferSy, receiveSy, depositSy, debitSy, if_true, bind_eq_ok, unwrap_eq_ok,
      checkedSub_eq_some, transferIn_eq_ok, debit_eq_ok, Except.ok.injEq] at h
    obtain ⟨a, ha, _, ⟨_, ⟨_, ⟨x, hx, rfl⟩, rfl⟩, e, -, rfl⟩, _, ⟨e', -, s, -, rfl⟩, _,
      ⟨_, ⟨y, hy, rfl⟩, rfl⟩, t, ht, rfl⟩ := h
    simp only [Function.update_self] at hy
    refine ⟨?_, fun u hu => ?_, ?_⟩
    · simp only [Function.update_self, if_true]
      omega
    · simp only [Function.update_of_ne hu]
    · exact_mod_cast ht
  | false =>
    simp only [transferSy, withdrawSy, sendSy, creditSy, Bool.false_eq_true, if_false, bind_eq_ok,
      unwrap_eq_ok, checkedAdd_eq_some, transferIn_eq_ok, credit_eq_ok, Except.ok.injEq] at h
    obtain ⟨a, ha, _, ⟨s, -, e, -, rfl⟩, _, ⟨e', -, _, ⟨x, hx, rfl⟩, rfl⟩, e'', -, t, ht, rfl⟩ := h
    refine ⟨?_, fun u hu => ?_, ?_⟩
    · simp only [Function.update_self, Bool.false_eq_true, if_false]
      exact_mod_cast hx
    · simp only [Function.update_of_ne hu]
    · exact_mod_cast ht

theorem pays_of_transferPt {treasury : Int}
    (h : b.transferPt user isBuyPt amount = .ok b') (h' : Pays user sy treasury b' b'') :
    Pays user sy treasury b b'' := by
  have hsy : b'.users.sy = b.users.sy ∧ b'.tokenFeeTreasurySy = b.tokenFeeTreasurySy := by
    cases isBuyPt with
    | true =>
      simp only [transferPt, sendPt, creditPt, if_true, bind_eq_ok, Except.ok.injEq] at h
      obtain ⟨_, -, _, -, rfl⟩ := h
      exact ⟨rfl, rfl⟩
    | false =>
      simp only [transferPt, receivePt, debitPt, Bool.false_eq_true, if_false, bind_eq_ok,
        Except.ok.injEq] at h
      obtain ⟨_, ⟨_, -, rfl⟩, _, -, rfl⟩ := h
      exact ⟨rfl, rfl⟩
  obtain ⟨hpayee, hothers, htreasury⟩ := h'
  rw [hsy.1] at hpayee hothers
  rw [hsy.2] at htreasury
  exact ⟨hpayee, hothers, htreasury⟩

end

end Bank

/-! ## Trades and their books -/

theorem asI64_bounds (n : UInt64) : -2 ^ 63 ≤ asI64 n ∧ asI64 n < 2 ^ 63 := by
  have hle : -(((2 ^ 64 : Nat) : Int) / 2) ≤ (n.toNat : Int).bmod (2 ^ 64) :=
    Int.le_bmod (by decide)
  have hlt : (n.toNat : Int).bmod (2 ^ 64) < (((2 ^ 64 : Nat) : Int) + 1) / 2 :=
    Int.bmod_lt (by decide)
  exact ⟨hle, hlt⟩

theorem asI64_cases (n : UInt64) :
    n.toNat < 2 ^ 63 ∧ asI64 n = n.toNat ∨ 2 ^ 63 ≤ n.toNat ∧ asI64 n = n.toNat - 2 ^ 64 := by
  have hmod := asI64_mod n
  obtain ⟨hle, hlt⟩ := asI64_bounds n
  have hn := n.toNat_lt
  omega

section
variable [Num N] {f f' : MarketFinancials N} {syExchangeRate : Number} {n c i : Int} {now : UInt64}
  {flash : Bool} {bps : UInt16} {r : MarketTradeResult} {asset : N}

theorem netTraderSyFromNetTraderAsset_lt
    (h : netTraderSyFromNetTraderAsset asset syExchangeRate = .ok i) : |i| < 2 ^ 63 := by
  simp only [netTraderSyFromNetTraderAsset, bind_eq_ok, expect_eq_ok, toI64_eq_some,
    Except.ok.injEq] at h
  obtain ⟨m, -, _, ⟨hlt, rfl⟩, rfl⟩ := h
  rw [abs_lt]
  split <;> omega

theorem asU64_abs (h : |i| < 2 ^ 63) : ((asU64 |i|).toNat : Int) = |i| := by
  have := abs_nonneg i
  rw [asU64_toNat, Int.emod_eq_of_lt this (by omega)]

namespace MarketFinancials

/-- **What a trade does to the books**: PT and SY of the amounts that it reports, less the
treasury's part of the fee. -/
structure Booked (f f' : MarketFinancials N) (n : Int) (r : MarketTradeResult) : Prop where
  netTraderPt : r.netTraderPt = n
  small : |r.netTraderSy| < 2 ^ 63
  ptBalance : (f'.ptBalance.toNat : Int) = f.ptBalance.toNat +
    if 0 < n then -((asU64 |n|).toNat : Int) else (asU64 |n|).toNat
  syBalance : (f'.syBalance.toNat : Int) = f.syBalance.toNat +
    ((if 0 < n then |r.netTraderSy| else -|r.netTraderSy|) - r.treasuryFeeAmount.toNat)

theorem tradePt_booked (h : f.tradePt syExchangeRate n now flash bps = .ok (f', r)) :
    Booked f f' n r := by
  simp only [tradePt, bind_eq_ok, Except.ok.injEq, Prod.mk.injEq] at h
  obtain ⟨_, -, _, -, _, -, tr, -, sy, hsy, syFee, -, prod, -, g₁, hg₁, g, hg, _, -, _, -, rfl,
    rfl⟩ := h
  have hsmall := netTraderSyFromNetTraderAsset_lt hsy
  have hex := exchange_spec hg₁ hg
  have habs := asU64_abs hsmall
  by_cases hn : 0 < n
  · obtain ⟨hpt, hsy⟩ := hex.buy hn
    refine ⟨rfl, hsmall, ?_, ?_⟩
    · simp only [hn, if_true, abs_of_pos hn]
      omega
    · simp only [hn, if_true]
      omega
  · obtain ⟨hpt, hsy⟩ := hex.sell (not_lt.1 hn)
    refine ⟨rfl, hsmall, ?_, ?_⟩
    · simp only [hn, if_false, abs_of_nonpos (not_lt.1 hn)]
      omega
    · simp only [hn, if_false]
      omega

end MarketFinancials

namespace Bank

variable {b b' : Bank N} {user : Nat}

/-- **What a trade does**: it is booked, and the PT, the SY and the treasury's fee change hands. -/
structure TradedPt (b b' : Bank N) (user : Nat) (now : UInt64) (syExchangeRate : Number) (n : Int)
    (f : MarketFinancials N) (r : MarketTradeResult) : Prop where
  priced : b.market.financials.tradePt syExchangeRate n now b.market.isCurrentFlashSwap
    b.market.feeTreasurySyBps = .ok (f, r)
  signs : 0 < n ∧ r.netTraderSy < 0 ∨ n < 0 ∧ 0 < r.netTraderSy
  moves : Moves (f.ptBalance.toNat - b.market.financials.ptBalance.toNat)
    (f.syBalance.toNat - b.market.financials.syBalance.toNat) (b.setFinancials f) b'
  pays : Pays user r.netTraderSy r.treasuryFeeAmount.toNat (b.setFinancials f) b'

theorem tradePt_spec (h : b.tradePt user now syExchangeRate n c = .ok (b', r)) :
    ∃ f, TradedPt b b' user now syExchangeRate n f r := by
  simp only [tradePt, bind_eq_ok, assertTrue_eq_ok, Except.ok.injEq, Prod.exists,
    Prod.mk.injEq] at h
  obtain ⟨_, -, _, -, f, r', hf, _, hsigns, _, -, b₁, hpt, b₂, hsy, rfl, rfl⟩ := h
  have hb := MarketFinancials.tradePt_booked hf
  have habs := asU64_abs hb.small
  have hpay := transferSy_pays hsy
  rw [hb.netTraderPt] at hpt
  refine ⟨f, hf, hsigns, ?_, pays_of_transferPt hpt ?_⟩
  · refine (Moves.trans (transferPt_moves hpt) (transferSy_moves hsy)).congr ?_ ?_
    · rw [hb.ptBalance, add_zero, add_sub_cancel_left]
      simp only [decide_eq_true_eq]
    · rw [hb.syBalance, zero_add, add_sub_cancel_left]
      simp only [decide_eq_true_eq, habs]
  · convert hpay using 1
    simp only [decide_eq_true_eq, habs]
    rcases hsigns with ⟨hn, hlt⟩ | ⟨hn, hlt⟩
    · rw [if_pos hn, abs_of_neg hlt, neg_neg]
    · rw [if_neg (by omega), abs_of_pos hlt]

/-! ## Liquidity -/

variable {ptIntent syIntent minLpOut lpIn minPtOut minSyOut : UInt64} {ra : LiqAddResult}
  {rr : LiqRmResult}

/-- A market with new books and limits. -/
def withBooks (b : Bank N) (financials : MarketFinancials N) (l : LiquidityNetBalanceLimits) :
    Bank N :=
  b.setMarket { b.market with financials, liquidityNetBalanceLimits := l }

theorem depositLiquidity_spec
    (h : b.depositLiquidity user now ptIntent syIntent minLpOut = .ok (b', ra)) :
    ∃ f l, b.market.financials.addLiquidity syIntent ptIntent b.mintLp = .ok (f, ra) ∧
      Moves ra.ptIn.toNat ra.syIn.toNat (b.withBooks f l) b' := by
  simp only [depositLiquidity, bind_eq_ok, require_eq_ok, Except.ok.injEq, Prod.exists,
    Prod.mk.injEq] at h
  obtain ⟨_, -, _, -, f, r, hf, _, -, l, -, b₁, h₁, b₂, h₂, b₃, h₃, lp, -, b₄, h₄, _, -, rfl,
    rfl⟩ := h
  have hmint : Same b₃ { b₃ with mintLp := lp } := same_of_eq rfl rfl rfl
  have hin := ((receivePt_moves h₁).same (receiveSy_same h₂)).same (creditLp_same h₃)
  refine ⟨f, l, hf, ?_⟩
  exact (Moves.trans (hin.same hmint) (depositSy_moves h₄)).congr (add_zero _) (zero_add _)

theorem withdrawLiquidity_spec
    (h : b.withdrawLiquidity user now lpIn minPtOut minSyOut = .ok (b', rr)) :
    ∃ f l, b.market.financials.rmLiquidity lpIn b.mintLp = .ok (f, rr) ∧
      Moves (-rr.ptOut.toNat) (-rr.syOut.toNat) (b.withBooks f l) b' := by
  simp only [withdrawLiquidity, bind_eq_ok, require_eq_ok, Except.ok.injEq, Prod.exists,
    Prod.mk.injEq] at h
  obtain ⟨_, -, _, -, l, -, f, r, hf, _, -, _, -, b₁, h₁, lp, -, b₂, h₂, b₃, h₃, b₄, h₄, rfl,
    rfl⟩ := h
  have hmint : Same b₁ { b₁ with mintLp := lp } := same_of_eq rfl rfl rfl
  have hout := ((debitLp_same h₁).trans hmint).trans (withdrawSy_moves h₂)
  refine ⟨f, l, hf, ?_⟩
  exact ((Moves.trans hout (sendPt_moves h₃)).same (sendSy_same h₄)).congr (zero_add _)
    (by rw [zero_add, add_zero])

end Bank

/-! ## Every call -/

namespace Call

variable {b b' : Bank N} {x : Outcome (Bank N)} {u : Unit}

omit [Num N] in
theorem noData_eq_ok : noData x = .ok (b', u) ↔ x = .ok b' := by
  simp only [noData, bind_eq_ok, Except.ok.injEq, Prod.mk.injEq, and_true, exists_eq_right]

/-- The instruction goes through the books. -/
def books : Call → Bool
  | tradePt .. | depositLiquidity .. | withdrawLiquidity .. => true
  | _ => false

/-- The PT that other calls bring to the market. -/
def ptMoved : Call → Int
  | sendPt _ amount => -amount.toNat
  | receivePt _ amount => amount.toNat
  | _ => 0

/-- The SY that other calls bring to the market's position. -/
def syMoved : Call → Int
  | depositSy amount => amount.toNat
  | withdrawSy amount => -amount.toNat
  | _ => 0

theorem moves {c : Call} {r : c.Ret} (hc : c.books = false) (h : c.act b = .ok (b', r)) :
    Bank.Moves c.ptMoved c.syMoved b b' := by
  cases c with
  | tradePt | depositLiquidity | withdrawLiquidity => cases hc
  | strip => exact Bank.strip_same h
  | merge => exact Bank.merge_same h
  | depositYt => exact Bank.depositYt_same (noData_eq_ok.1 h)
  | collectInterest => exact Bank.collectInterest_same h
  | depositLp => exact Bank.depositLp_same (noData_eq_ok.1 h)
  | withdrawLp => exact Bank.withdrawLp_same (noData_eq_ok.1 h)
  | mintSy => exact Bank.creditSy_same (noData_eq_ok.1 h)
  | redeemSy => exact Bank.debitSy_same (noData_eq_ok.1 h)
  | depositSy => exact Bank.depositSy_moves (noData_eq_ok.1 h)
  | withdrawSy => exact Bank.withdrawSy_moves (noData_eq_ok.1 h)
  | sendSy => exact Bank.sendSy_same (noData_eq_ok.1 h)
  | receiveSy => exact Bank.receiveSy_same (noData_eq_ok.1 h)
  | sendPt => exact Bank.sendPt_moves (noData_eq_ok.1 h)
  | receivePt => exact Bank.receivePt_moves (noData_eq_ok.1 h)

/-- No instruction that handlers call writes the flag. -/
theorem isCurrentFlashSwap_act {c : Call} {r : c.Ret} (h : c.act b = .ok (b', r)) :
    b'.market.isCurrentFlashSwap = b.market.isCurrentFlashSwap := by
  cases hc : c.books with
  | false => exact (moves hc h).trading.isCurrentFlashSwap
  | true =>
    cases c with
    | tradePt =>
      obtain ⟨f, hf⟩ := Bank.tradePt_spec h
      exact hf.moves.trading.isCurrentFlashSwap
    | depositLiquidity =>
      obtain ⟨f, l, -, hmoves⟩ := Bank.depositLiquidity_spec h
      exact hmoves.trading.isCurrentFlashSwap
    | withdrawLiquidity =>
      obtain ⟨f, l, -, hmoves⟩ := Bank.withdrawLiquidity_spec h
      exact hmoves.trading.isCurrentFlashSwap
    | _ => cases hc

end Call

end

end ExponentCore
