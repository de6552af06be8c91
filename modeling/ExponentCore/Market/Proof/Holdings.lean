import ExponentCore.Market.Proof.Wrappers

/-!
# A market holds what its books say

The margins of a bank are what the market holds beyond its books. An instruction that goes through
the books leaves them as they are (`Call.margins`), the others add what they move, and an automaton
that adds these amounts up finds that flash swaps and wrappers give back at least what they have
borrowed (`FlashSwap.returns`, `Wrapper.returns`). So no run of instructions from a new market makes
a margin negative (`holdings_cover_books`).

The treasury's part of a fee is never more than the trader pays (`treasuryFee_le_paid`).
-/

set_option autoImplicit false

namespace ExponentCore

open Cached Handler

/-! ## The treasury's fee -/

section
variable {K : Type} [Field K] [LinearOrder K] [IsStrictOrderedRing K] [FloorRing K] [LnExp K]
  {f f' : MarketFinancials (Exact K)} {syExchangeRate : Number} {n : Int} {now : UInt64}
  {flash : Bool} {bps : UInt16} {r : MarketTradeResult} {net : K} {i : Int}

omit [IsStrictOrderedRing K] in
/-- A trade is priced in SY at a rate that is not zero. -/
theorem rate_pos_of_netTraderSy
    (h : netTraderSyFromNetTraderAsset (Exact.num net) syExchangeRate = .ok i) :
    0 < syExchangeRate := by
  simp only [netTraderSyFromNetTraderAsset, syMagnitudeFromNetTraderAsset, bind_eq_ok,
    Number.div, unwrap_eq_ok] at h
  obtain ⟨_, ⟨_, -, q, hq, -⟩, -⟩ := h
  refine Nat.pos_of_ne_zero fun hzero => ?_
  rw [Number.checkedDiv, if_pos hzero] at hq
  cases hq

/-- **The trader pays the treasury's fee**: `checked_sub` finds it in the amount of a purchase. -/
theorem treasuryFee_le_paid (hbps : bps ≤ 10000) (hn : 0 < n)
    (h : f.tradePt syExchangeRate n now flash bps = .ok (f', r)) :
    (r.treasuryFeeAmount.toNat : Int) ≤ -r.netTraderSy := by
  simp only [MarketFinancials.tradePt, bind_eq_ok, Except.ok.injEq, Prod.mk.injEq,
    Exact.fromI64_eq] at h
  obtain ⟨_, -, _, -, _, -, tr, htr, sy, hsy, syFee, hsyFee, prod, hprod, g₁, -, g, -, _, -, _, -,
    rfl, rfl⟩ := h
  obtain ⟨rate, fee, hrate, hfee, hnet, hassetFee⟩ := TimeCurve.trade_fee htr
  rw [hnet] at hsy
  rw [hassetFee] at hsyFee
  have hpos := rate_pos_of_netTraderSy hsy
  have hR : 0 < syExchangeRate.exact K := Number.exact_pos hpos
  have hprice : 0 < (n : K) / rate := div_pos (Int.cast_pos.2 hn) (one_pos.trans hrate)
  obtain ⟨paid, rfl, -, hcover⟩ := netTraderSy_paid (by rw [neg_div]; linarith) hsy
  have hle : (syFee.toNat : K) * syExchangeRate.exact K ≤ fee := syFee_le hpos hsyFee
  have hlt : (syFee.toNat : K) < paid + 1 := by
    refine lt_of_mul_lt_mul_right ?_ hR.le
    calc (syFee.toNat : K) * syExchangeRate.exact K ≤ fee := hle
      _ ≤ -(-(n : K) / rate - fee) := by rw [neg_div]; linarith
      _ < (paid + 1 / (Number.denom : K)) * syExchangeRate.exact K := hcover
      _ ≤ (paid + 1) * syExchangeRate.exact K :=
        mul_le_mul_of_nonneg_right (add_le_add_right unit_le_one _) hR.le
  have hfeeNat : syFee.toNat ≤ paid := Nat.lt_succ_iff.1 (by exact_mod_cast hlt)
  have htreasury := treasuryFee_le hbps hprod
  show ((prod / 10000).toNat : Int) ≤ -(-paid : Int)
  omega

end

/-! ## Margins -/

variable {N : Type}

namespace Bank

/-- The PT that the market holds beyond its books. -/
def ptMargin (b : Bank N) : Int := b.tokenPtEscrow.toNat - b.market.financials.ptBalance.toNat

/-- The SY that the market holds beyond its books. -/
def syMargin (b : Bank N) : Int := b.syPosition.toNat - b.market.financials.syBalance.toNat

/-- The margins change by at least the given amounts; the treasury's share of fees does not change.
-/
structure Margins (pt sy : Int) (b b' : Bank N) : Prop where
  pt : b.ptMargin + pt ≤ b'.ptMargin
  sy : b.syMargin + sy ≤ b'.syMargin
  feeTreasurySyBps : b'.market.feeTreasurySyBps = b.market.feeTreasurySyBps

variable {b b' b'' : Bank N} {pt pt' sy sy' : Int}

theorem Margins.refl (b : Bank N) : Margins 0 0 b b :=
  ⟨(add_zero _).le, (add_zero _).le, rfl⟩

theorem Margins.trans (h : Margins pt sy b b') (h' : Margins pt' sy' b' b'') :
    Margins (pt + pt') (sy + sy') b b'' := by
  have hpt := h.pt
  have hpt' := h'.pt
  have hsy := h.sy
  have hsy' := h'.sy
  exact ⟨by omega, by omega, h'.feeTreasurySyBps.trans h.feeTreasurySyBps⟩

theorem Moves.margins (h : Moves pt sy b b') : Margins pt sy b b' := by
  have hpt := h.tokenPtEscrow
  have hsy := h.syPosition
  refine ⟨?_, ?_, h.trading.feeTreasurySyBps⟩
  · unfold ptMargin
    rw [h.trading.financials]
    omega
  · unfold syMargin
    rw [h.trading.financials]
    omega

/-- New books of what moves next. -/
theorem margins_of_booked {m : MarketTwo N} (h : Moves pt sy (b.setMarket m) b')
    (hpt : (m.financials.ptBalance.toNat : Int) = b.market.financials.ptBalance.toNat + pt)
    (hsy : (m.financials.syBalance.toNat : Int) = b.market.financials.syBalance.toNat + sy)
    (hbps : m.feeTreasurySyBps = b.market.feeTreasurySyBps) : Margins 0 0 b b' := by
  have hpt' : (b.tokenPtEscrow.toNat : Int) - m.financials.ptBalance.toNat + pt ≤ b'.ptMargin :=
    h.margins.pt
  have hsy' : (b.syPosition.toNat : Int) - m.financials.syBalance.toNat + sy ≤ b'.syMargin :=
    h.margins.sy
  refine ⟨?_, ?_, h.trading.feeTreasurySyBps.trans hbps⟩
  · rw [ptMargin]
    omega
  · rw [syMargin]
    omega

end Bank

section
variable [Num N] {f f' : MarketFinancials N} {syIntent ptIntent lpSupply lpIn : UInt64}
  {ra : LiqAddResult} {rr : LiqRmResult}

theorem MarketFinancials.addLiquidity_booked
    (h : f.addLiquidity syIntent ptIntent lpSupply = .ok (f', ra)) :
    (f'.ptBalance.toNat : Int) = f.ptBalance.toNat + ra.ptIn.toNat ∧
      (f'.syBalance.toNat : Int) = f.syBalance.toNat + ra.syIn.toNat := by
  simp only [addLiquidity, incPtBalance, incSyBalance, bind_eq_ok, expect_eq_ok,
    checkedAdd_eq_some, Except.ok.injEq, Prod.mk.injEq] at h
  obtain ⟨_, ⟨pt, hpt, rfl⟩, _, ⟨sy, hsy, rfl⟩, rfl, rfl⟩ := h
  exact ⟨by exact_mod_cast hpt, by exact_mod_cast hsy⟩

theorem MarketFinancials.rmLiquidity_booked (h : f.rmLiquidity lpIn lpSupply = .ok (f', rr)) :
    (f'.ptBalance.toNat : Int) = f.ptBalance.toNat + -rr.ptOut.toNat ∧
      (f'.syBalance.toNat : Int) = f.syBalance.toNat + -rr.syOut.toNat := by
  simp only [rmLiquidity, decPtBalance, decSyBalance, bind_eq_ok, expect_eq_ok,
    checkedSub_eq_some, Except.ok.injEq, Prod.mk.injEq] at h
  obtain ⟨_, -, r, -, _, ⟨pt, hpt, rfl⟩, _, ⟨sy, hsy, rfl⟩, rfl, rfl⟩ := h
  dsimp only at hsy ⊢
  exact ⟨by omega, by omega⟩

/-- **An instruction that goes through the books leaves the margins as they are**; the others add
what they move. -/
theorem Call.margins {c : Call} {r : c.Ret} {b b' : Bank N} (h : c.act b = .ok (b', r)) :
    Bank.Margins c.ptMoved c.syMoved b b' := by
  cases hc : c.books with
  | false => exact (moves hc h).margins
  | true =>
    cases c with
    | tradePt =>
      obtain ⟨f, hf⟩ := Bank.tradePt_spec h
      exact Bank.margins_of_booked hf.moves (add_sub_cancel _ _).symm (add_sub_cancel _ _).symm rfl
    | depositLiquidity =>
      obtain ⟨f, l, hf, hmoves⟩ := Bank.depositLiquidity_spec h
      obtain ⟨hpt, hsy⟩ := MarketFinancials.addLiquidity_booked hf
      exact Bank.margins_of_booked hmoves hpt hsy rfl
    | withdrawLiquidity =>
      obtain ⟨f, l, hf, hmoves⟩ := Bank.withdrawLiquidity_spec h
      obtain ⟨hpt, hsy⟩ := MarketFinancials.rmLiquidity_booked hf
      exact Bank.margins_of_booked hmoves hpt hsy rfl
    | _ => cases hc

/-! ## Loans are given back -/

/-- An automaton that adds up what calls move. -/
def marginStep {β : Type} {nested : β → Bank N → Outcome (Bank N × UInt64)} :
    Int × Int → Event (bankProgram β nested) → Option (Int × Int)
  | q, .called (.inl c) => some (q.1 + c.ptMoved, q.2 + c.syMoved)
  | q, .called (.inr _) | q, .edited _ => some q

/-- A nested handler takes nothing from the margins. -/
def Returns {β : Type} (nested : β → Bank N → Outcome (Bank N × UInt64)) : Prop :=
  ∀ x b b' r, nested x b = .ok (b', r) → Bank.Margins 0 0 b b'

section
variable {β α : Type} {nested : β → Bank N → Outcome (Bank N × UInt64)} {q q' : Int × Int}
  {b₀ b b' : Bank N} {e : Event (bankProgram β nested)} {h : Handler (bankProgram β nested) α}
  {loaded : List AccountName} {log : List (Event (bankProgram β nested))} {a : α}

theorem margins_of_marginStep (hnested : Returns nested) (hδ : marginStep q e = some q')
    (hq : Bank.Margins q.1 q.2 b₀ b) (he : e.apply b = .ok b') :
    Bank.Margins q'.1 q'.2 b₀ b' := by
  cases e with
  | called c =>
    simp only [Event.apply] at he
    split at he
    · rename_i s r hact
      obtain rfl := Except.ok.inj he
      cases c with
      | inl c =>
        obtain rfl := Option.some.inj hδ
        exact hq.trans (Call.margins hact)
      | inr x =>
        obtain rfl := Option.some.inj hδ
        have := hq.trans (hnested x b _ r hact)
        rwa [add_zero, add_zero] at this
    · cases he
  | edited e =>
    cases e with
    | setIsCurrentFlashSwap value =>
      obtain rfl := Option.some.inj hδ
      obtain rfl := Except.ok.inj he
      exact ⟨hq.pt, hq.sy, hq.feeTreasurySyBps⟩

theorem margins_of_run (hsync : h.Synced loaded) (hnested : Returns nested)
    (hreturns : wp (onEvents marginStep) (0, 0) h fun _ q => 0 ≤ q.1 ∧ 0 ≤ q.2)
    (hrun : h.run loaded b = .ok (b', a, log)) : Bank.Margins 0 0 b b' := by
  obtain ⟨q, hfollow, hpt, hsy⟩ := follow_of_run hsync hreturns hrun
  obtain ⟨hlast, -⟩ := replay_follow (R := fun q b' => Bank.Margins q.1 q.2 b b')
    (fun _ _ _ _ _ => margins_of_marginStep hnested) (.refl b) hfollow (replay_of_run hsync hrun)
  have hpt' := hlast.pt
  have hsy' := hlast.sy
  exact ⟨by omega, by omega, hlast.feeTreasurySyBps⟩

end

theorem FlashSwap.returns (x : FlashSwap) :
    wp (onEvents marginStep) (0, 0) (x.handler (N := N)) fun _ q => 0 ≤ q.1 ∧ 0 ≤ q.2 := by
  cases x with
  | buyYt =>
    -- the dust is given back with the loan
    simp only [handler, ExponentCore.buyYt, wp_bind, wp_pure, wp_liftM, events_doCpi,
      events_loadMarket, events_setFlash, events_reload, events_exit, marginStep, Call.ptMoved,
      Call.syMoved, Option.some.injEq, exists_eq_left', addU64_eq_ok]
    intros
    omega
  | sellYt =>
    simp only [handler, ExponentCore.sellYt, wp_bind, wp_pure, wp_liftM, events_doCpi,
      events_loadMarket, events_setFlash, events_reload, events_exit, marginStep, Call.ptMoved,
      Call.syMoved, Option.some.injEq, exists_eq_left', expect_eq_ok]
    intros
    omega

theorem Wrapper.returns (w : Wrapper) :
    wp (onEvents marginStep) (0, 0) (w.handler (N := N)) fun _ q => 0 ≤ q.1 ∧ 0 ≤ q.2 := by
  cases w with
  | strip => simp [handler, wrapperStrip, marginStep, Call.ptMoved, Call.syMoved]
  | merge => simp [handler, wrapperMerge, marginStep, Call.ptMoved, Call.syMoved]
  | collectInterest =>
    simp [handler, wrapperCollectInterest, marginStep, Call.ptMoved, Call.syMoved]
  | buyPt => simp [handler, wrapperBuyPt, marginStep, Call.ptMoved, Call.syMoved]
  | sellPt => simp [handler, wrapperSellPt, marginStep, Call.ptMoved, Call.syMoved]
  | buyYt => simp [handler, wrapperBuyYt, marginStep, Call.ptMoved, Call.syMoved]
  | sellYt => simp [handler, wrapperSellYt, marginStep, Call.ptMoved, Call.syMoved]
  | provideLiquidity =>
    simp [handler, wrapperProvideLiquidity, marginStep, Call.ptMoved, Call.syMoved]
  | provideLiquidityBase =>
    simp [handler, wrapperProvideLiquidityBase, marginStep, Call.ptMoved, Call.syMoved]
  | provideLiquidityClassic =>
    simp [handler, wrapperProvideLiquidityClassic, marginStep, Call.ptMoved, Call.syMoved]
  | withdrawLiquidity =>
    simp [handler, wrapperWithdrawLiquidity, marginStep, Call.ptMoved, Call.syMoved]
  | withdrawLiquidityClassic =>
    simp [handler, wrapperWithdrawLiquidityClassic, marginStep, Call.ptMoved, Call.syMoved]

theorem FlashSwap.margins {x : FlashSwap} {b b' : Bank N} {r : UInt64}
    {log : List (Event (coreProgram N))} (h : x.run b = .ok (b', r, log)) :
    Bank.Margins 0 0 b b' :=
  margins_of_run x.synced (fun y => y.elim) x.returns h

theorem FlashSwap.act_returns : Returns (N := N) FlashSwap.act := by
  intro x b b' r h
  simp only [act, bind_eq_ok, Except.ok.injEq, Prod.exists, Prod.mk.injEq] at h
  obtain ⟨_, _, log, hrun, rfl, rfl⟩ := h
  exact margins hrun

theorem Wrapper.margins {w : Wrapper} {b b' : Bank N} {u : Unit}
    {log : List (Event (wrapperProgram N))} (h : w.run b = .ok (b', u, log)) :
    Bank.Margins 0 0 b b' :=
  margins_of_run w.synced FlashSwap.act_returns w.returns h

/-! ## Runs -/

namespace Bank

variable {b b' : Bank N} {op : BankOp}

/-- What users pay in is not on the books. -/
theorem moved_nonneg {c : Call} (hc : c.signedByUser = true) : 0 ≤ c.ptMoved ∧ 0 ≤ c.syMoved := by
  cases c with
  | depositSy | withdrawSy | sendSy | sendPt => cases hc
  | receivePt user amount => exact ⟨Int.natCast_nonneg _, le_rfl⟩
  | _ => exact ⟨le_rfl, le_rfl⟩

theorem margins_step (h : b.step op = .ok b') : Margins 0 0 b b' := by
  cases op with
  | call c hc =>
    simp only [step, bind_eq_ok, Except.ok.injEq, Prod.exists] at h
    obtain ⟨_, r, hact, rfl⟩ := h
    obtain ⟨hpt, hsy⟩ := moved_nonneg hc
    have hm := Call.margins hact
    have hpt' := hm.pt
    have hsy' := hm.sy
    exact ⟨by omega, by omega, hm.feeTreasurySyBps⟩
  | withdrawYt user position now syState amount =>
    simp only [step, bind_eq_ok] at h
    obtain ⟨w, -, hcredit⟩ := h
    have hw : Same b { b with vaultWorld := w } := same_of_eq rfl rfl rfl
    exact (hw.trans (creditYt_same hcredit)).margins
  | flashSwap x =>
    simp only [step, bind_eq_ok, Except.ok.injEq, Prod.exists] at h
    obtain ⟨_, r, log, hrun, rfl⟩ := h
    exact FlashSwap.margins hrun
  | wrapper w =>
    simp only [step, bind_eq_ok, Except.ok.injEq, Prod.exists] at h
    obtain ⟨_, u, log, hrun, rfl⟩ := h
    exact Wrapper.margins hrun
  | vault op hop =>
    simp only [step, bind_eq_ok, Except.ok.injEq] at h
    obtain ⟨w, -, rfl⟩ := h
    have hw : Same b { b with vaultWorld := w } := same_of_eq rfl rfl rfl
    exact hw.margins
  | lp op hop =>
    simp only [step, bind_eq_ok, Except.ok.injEq] at h
    obtain ⟨w, hw, rfl⟩ := h
    exact (same_lpWorld hw).margins

/-- **The market holds what its books say**, and the treasury takes less than the whole fee. -/
structure Covered (b : Bank N) : Prop where
  pt : b.market.financials.ptBalance ≤ b.tokenPtEscrow
  sy : b.market.financials.syBalance ≤ b.syPosition
  feeTreasurySyBps : b.market.feeTreasurySyBps < 10000

theorem Covered.step (hb : b.Covered) (h : b.step op = .ok b') : b'.Covered := by
  have hm := margins_step h
  have hpt := hm.pt
  have hsy := hm.sy
  have hpt₀ := UInt64.le_iff_toNat_le.1 hb.pt
  have hsy₀ := UInt64.le_iff_toNat_le.1 hb.sy
  unfold ptMargin at hpt
  unfold syMargin at hsy
  refine ⟨UInt64.le_iff_toNat_le.2 (by omega), UInt64.le_iff_toNat_le.2 (by omega), ?_⟩
  rw [hm.feeTreasurySyBps]
  exact hb.feeTreasurySyBps

theorem covered_marketTwoInit {vaultWorld : VaultWorld} {users : UserTokens} {treasury : UInt64}
    {tokenFarm : Pubkey → UInt64} {payer : Nat} {now : UInt64} {args : MarketTwoInitArgs N}
    (h : marketTwoInit vaultWorld users treasury tokenFarm payer now args = .ok b) :
    b.Covered := by
  simp only [marketTwoInit, MarketTwo.new, bind_eq_ok, assertTrue_eq_ok, Except.ok.injEq] at h
  obtain ⟨_, -, m, ⟨_, -, _, -, _, -, _, hbps, _, -, rfl⟩, b₁, h₁, b₂, h₂, lp, -, b₃, h₃, h₄⟩ := h
  have hmint : Same b₂ { b₂ with mintLp := lp } := same_of_eq rfl rfl rfl
  have hin := ((receivePt_moves h₁).same (receiveSy_same h₂)).same hmint
  have hmoves := Moves.trans (hin.same (creditLp_same h₃)) (depositSy_moves h₄)
  have hpt : (b.tokenPtEscrow.toNat : Int) = 0 + (args.ptInit.toNat + 0) := hmoves.tokenPtEscrow
  have hsy : (b.syPosition.toNat : Int) = 0 + (0 + args.syInit.toNat) := hmoves.syPosition
  have hfin := hmoves.trading.financials
  refine ⟨?_, ?_, ?_⟩
  · rw [hfin, UInt64.le_iff_toNat_le]
    show args.ptInit.toNat ≤ _
    omega
  · rw [hfin, UInt64.le_iff_toNat_le]
    show args.syInit.toNat ≤ _
    omega
  · rw [hmoves.trading.feeTreasurySyBps]
    exact hbps

end Bank

end

/-! ## The market -/

/-- **A trade moves what it books**: holdings and books change alike, and the SY of the trader is
that of the market and of the treasury. -/
structure Bank.FairTrade (b b' : Bank N) (user : Nat) (r : MarketTradeResult) : Prop where
  pt : (b'.tokenPtEscrow.toNat : Int) - b.tokenPtEscrow.toNat =
    b'.market.financials.ptBalance.toNat - b.market.financials.ptBalance.toNat
  sy : (b'.syPosition.toNat : Int) - b.syPosition.toNat =
    b'.market.financials.syBalance.toNat - b.market.financials.syBalance.toNat
  trader : ((b'.users.sy user).toNat : Int) - (b.users.sy user).toNat = r.netTraderSy
  others : ∀ u, u ≠ user → b'.users.sy u = b.users.sy u
  treasury : (b'.tokenFeeTreasurySy.toNat : Int) - b.tokenFeeTreasurySy.toNat =
    r.treasuryFeeAmount.toNat
  conserved : (((b'.users.sy user).toNat : Int) - (b.users.sy user).toNat) +
    (b'.syPosition.toNat - b.syPosition.toNat) +
    (b'.tokenFeeTreasurySy.toNat - b.tokenFeeTreasurySy.toNat) = 0

theorem Bank.fairTrade [Num N] {b b' : Bank N} {user : Nat} {now : UInt64}
    {syExchangeRate : Number} {n c : Int} {r : MarketTradeResult}
    (h : b.tradePt user now syExchangeRate n c = .ok (b', r)) : FairTrade b b' user r := by
  obtain ⟨f, hf⟩ := tradePt_spec h
  have hbooked := MarketFinancials.tradePt_booked hf.priced
  have hfin : b'.market.financials = f := hf.moves.trading.financials
  have hpt : (b'.tokenPtEscrow.toNat : Int) = b.tokenPtEscrow.toNat + _ := hf.moves.tokenPtEscrow
  have hsy : (b'.syPosition.toNat : Int) = b.syPosition.toNat + _ := hf.moves.syPosition
  have htrader : ((b'.users.sy user).toNat : Int) = (b.users.sy user).toNat + r.netTraderSy :=
    hf.pays.payee
  have htreasury : (b'.tokenFeeTreasurySy.toNat : Int) =
      b.tokenFeeTreasurySy.toNat + r.treasuryFeeAmount.toNat := hf.pays.treasury
  have hbook : (f.syBalance.toNat : Int) - b.market.financials.syBalance.toNat =
      -r.netTraderSy - r.treasuryFeeAmount.toNat := by
    rw [hbooked.syBalance]
    rcases hf.signs with ⟨hn, hlt⟩ | ⟨hn, hlt⟩
    · rw [if_pos hn, abs_of_neg hlt]
      omega
    · rw [if_neg (by omega), abs_of_pos hlt]
      omega
  refine ⟨?_, ?_, by omega, hf.pays.others, by omega, by omega⟩
  · rw [hfin]
    omega
  · rw [hfin]
    omega

section
variable {K : Type} [Field K] [LinearOrder K] [IsStrictOrderedRing K] [FloorRing K] [LnExp K]

/-- **Books never exceed holdings**, in any run from a new market. Every trade, inside a flash swap
or not, moves what it books, and `checked_sub` finds the treasury's fee in what a buyer pays as long
as the treasury takes less than the whole fee, which no instruction changes. -/
theorem holdings_cover_books :
    (∀ (vaultWorld : VaultWorld) (users : UserTokens) (treasury : UInt64)
      (tokenFarm : Pubkey → UInt64) (payer : Nat) (now : UInt64)
      (args : MarketTwoInitArgs (Exact K)) (b : Bank (Exact K)) (ops : List BankOp),
      Bank.marketTwoInit vaultWorld users treasury tokenFarm payer now args = .ok b →
      Machine.Throughout Bank.step Bank.Covered b ops) ∧
    (∀ (b b' : Bank (Exact K)) (user : Nat) (now : UInt64) (syExchangeRate : Number) (n c : Int)
      (r : MarketTradeResult), b.tradePt user now syExchangeRate n c = .ok (b', r) →
      b.FairTrade b' user r) ∧
    (∀ (b : Bank (Exact K)) (now : UInt64) (syExchangeRate : Number) (n : Int)
      (f : MarketFinancials (Exact K)) (r : MarketTradeResult),
      b.market.feeTreasurySyBps < 10000 → 0 < n →
      b.market.financials.tradePt syExchangeRate n now b.market.isCurrentFlashSwap
        b.market.feeTreasurySyBps = .ok (f, r) →
      checkedSub (asU64 |r.netTraderSy|) r.treasuryFeeAmount ≠ none) ∧
    ∀ (c : Call) (b b' : Bank (Exact K)) (r : c.Ret), c.act b = .ok (b', r) →
      b'.market.feeTreasurySyBps = b.market.feeTreasurySyBps := by
  refine ⟨?_, ?_, ?_, ?_⟩
  · intro vaultWorld users treasury tokenFarm payer now args b ops h
    exact Machine.throughout_of_step (fun _ _ _ hb _ hs => hb.step hs)
      (Bank.covered_marketTwoInit h) Machine.admits_true
  · intro b b' user now syExchangeRate n c r h
    exact Bank.fairTrade h
  · intro b now syExchangeRate n f r hbps hn h
    have hsmall := asU64_abs (MarketFinancials.tradePt_booked h).small
    have hpaid := treasuryFee_le_paid (UInt16.le_of_lt hbps) hn h
    rw [Ne, checkedSub_eq_none]
    have := neg_le_abs r.netTraderSy
    omega
  · intro c b b' r h
    exact (Call.margins h).feeTreasurySyBps

end

/-- What a purchase of 1000 PT does in the sample market. -/
theorem sampleBank_trade :
    ∃ b, Bank.marketTwoInit sampleVault sampleUsers 0 (fun _ => 0) 0 0 sampleArgs = .ok b ∧
      ∃ p, b.tradePt 1 0 1 1000 (-1000) = .ok p ∧
        ∃ q, b.market.financials.tradePt 1 1000 0 b.market.isCurrentFlashSwap
          b.market.feeTreasurySyBps = .ok q ∧ True := by
  decide +kernel

theorem holdings_cover_books_sample :
    ∃ (b : Bank (Exact ℚ)) (p q : _), b.tradePt 1 0 1 1000 (-1000) = .ok p ∧
      b.market.financials.tradePt 1 1000 0 b.market.isCurrentFlashSwap
        b.market.feeTreasurySyBps = .ok q ∧
      Machine.Throughout Bank.step Bank.Covered b [.flashSwap sampleSwap] ∧
      b.FairTrade p.1 1 p.2 ∧ p.1.market.feeTreasurySyBps = b.market.feeTreasurySyBps ∧
      checkedSub (asU64 |q.2.netTraderSy|) q.2.treasuryFeeAmount ≠ none := by
  obtain ⟨hcover, hfair, hsub, hbps⟩ := holdings_cover_books (K := ℚ)
  obtain ⟨b, hb, ⟨b', r⟩, hp, ⟨f, r'⟩, hq, -⟩ := sampleBank_trade
  have hthroughout := hcover sampleVault sampleUsers 0 (fun _ => 0) 0 0 sampleArgs b
    [.flashSwap sampleSwap] hb
  exact ⟨b, _, _, hp, hq, hthroughout, hfair b b' 1 0 1 1000 (-1000) r hp,
    hbps (.tradePt 1 0 1 1000 (-1000)) b b' r hp,
    hsub b 0 1 1000 f r' hthroughout.first.feeTreasurySyBps (by decide) hq⟩

end ExponentCore
