import ExponentCore.Market.NetBalance
import ExponentCore.Market.Proof.Wrappers
import ExponentCore.Num.Proof.Aborts

/-!
# Limits on the LP supply hold in every window

The percentages of the check are exact (`percentage_le_iff`), so the check accepts a new supply if
and only if it is within the bounds of the balance that the market keeps, or the largest percentage
is allowed, which every larger one is cast to (`verifyChange_ok_iff`).

The market does not always keep the supply at which the window began: a change of the limits starts
the window again and leaves the old balance in place. When the two agree, and the amounts and the
times fit the types that they are cast to, the check is the stated one in every window of a run
(`WindowedBank.fair_of_sound`): an instruction that goes through stays within the bounds, and one
that would stay within them is not refused for the limits, and goes through if it does without
limits.
-/

set_option autoImplicit false

namespace ExponentCore

namespace LiquidityNetBalanceLimits

variable {l l' : LiquidityNetBalanceLimits} {c s n supply : UInt64} {now : UInt32} {change : Int}

/-! ## One check -/

/-- The balances that the limits allow in a window that began with `start`. -/
@[mk_iff]
structure Allows (l : LiquidityNetBalanceLimits) (start n : Nat) : Prop where
  lower : (start : ℚ) * (1 - l.maxNetBalanceChangeNegativePercentage.toNat / 10000) ≤ n
  upper : (n : ℚ) ≤ start * (1 + l.maxNetBalanceChangePositivePercentage.toNat / 10000)

instance {start n : Nat} : Decidable (l.Allows start n) :=
  decidable_of_iff _ (allows_iff l start n).symm

theorem allows_iff_mul {start n : Nat} : l.Allows start n ↔
    start * 10000 ≤ n * 10000 + start * l.maxNetBalanceChangeNegativePercentage.toNat ∧
      n * 10000 ≤ start * 10000 + start * l.maxNetBalanceChangePositivePercentage.toNat := by
  have hlower (p : Nat) :
      (start : ℚ) * (1 - p / 10000) ≤ n ↔ start * 10000 ≤ n * 10000 + start * p := by
    rw [← Nat.cast_le (α := ℚ)]
    push_cast
    constructor <;> intro h <;> linarith
  have hupper (p : Nat) :
      (n : ℚ) ≤ start * (1 + p / 10000) ↔ n * 10000 ≤ start * 10000 + start * p := by
    rw [← Nat.cast_le (α := ℚ)]
    push_cast
    constructor <;> intro h <;> linarith
  rw [← hlower, ← hupper]
  exact ⟨fun h => ⟨h.lower, h.upper⟩, fun h => ⟨h.1, h.2⟩⟩

/-- A percentage is compared exactly, unless the largest is allowed. -/
theorem percentage_le_iff {max p : Nat} (hp : p ≤ max) :
    percentage c s max ≤ p ↔ c.toNat * 10000 ≤ p * s.toNat ∨ p = max := by
  unfold percentage
  by_cases hs : s = 0
  · subst hs
    rw [if_pos rfl]
    by_cases hc : c = 0
    · subst hc
      simp
    · have hpos : c.toNat ≠ 0 := fun h => hc (UInt64.toNat_inj.1 h)
      rw [if_neg hc]
      simp only [UInt64.toNat_zero, Nat.mul_zero]
      omega
  · have hpos : 0 < s.toNat := Nat.pos_of_ne_zero fun h => hs (UInt64.toNat_inj.1 h)
    have hceil : (c.toNat * 10000 + s.toNat - 1) / s.toNat ≤ p ↔ c.toNat * 10000 ≤ p * s.toNat := by
      rw [← Nat.lt_succ_iff, Nat.div_lt_iff_lt_mul hpos, Nat.succ_mul]
      omega
    rw [if_neg hs, ← hceil]
    omega

theorem verifyChange_ok_iff : l.verifyChange n = .ok () ↔
    l.Allows l.windowStartNetBalance.toNat n.toNat ∨
      l.maxNetBalanceChangePositivePercentage.toNat = 2 ^ 32 - 1 ∧ l.windowStartNetBalance ≤ n := by
  have hpos := l.maxNetBalanceChangePositivePercentage.toNat_lt
  have hneg := l.maxNetBalanceChangeNegativePercentage.toNat_lt
  rw [allows_iff_mul]
  simp only [verifyChange]
  generalize l.windowStartNetBalance = start
  by_cases h : start ≤ n
  · have hdiff := UInt64.toNat_sub_of_le _ _ h
    have hle := UInt64.le_iff_toNat_le.1 h
    rw [if_pos h, require_eq_ok, percentage_le_iff (by omega), hdiff, Nat.mul_comm _ start.toNat]
    simp only [h, and_true]
    omega
  · have hlt : n.toNat < start.toNat := UInt64.lt_iff_toNat_lt.1 (UInt64.not_le.1 h)
    have hdiff := UInt64.toNat_sub_of_le _ _ (UInt64.le_iff_toNat_le.2 hlt.le)
    -- a decrease is one of a hundred percent at most, so the largest percentage allows all of them
    have hlargest : l.maxNetBalanceChangeNegativePercentage.toNat = 2 ^ 16 - 1 →
        start.toNat * 10000 ≤ start.toNat * l.maxNetBalanceChangeNegativePercentage.toNat := by
      intro heq
      rw [heq]
      exact Nat.mul_le_mul_left _ (by decide)
    rw [if_neg h, require_eq_ok, percentage_le_iff (by omega), hdiff, Nat.mul_comm _ start.toNat]
    simp only [h, and_false, or_false]
    omega

/-! ## The check in a window -/

theorem checkedAddSigned_eq_some : checkedAddSigned c change = some n ↔
    (n.toNat : Int) = c.toNat + change := by
  unfold checkedAddSigned
  split
  · rw [toU64_eq_some]
    omega
  · simp only [reduceCtorEq, false_iff]
    omega

/-- The limits after the check, whether or not the window has elapsed. -/
def restarted (l : LiquidityNetBalanceLimits) (now : UInt32) (supply : UInt64) :
    LiquidityNetBalanceLimits :=
  if l.windowStartTimestamp.toNat + l.windowDurationSeconds.toNat < now.toNat then
    { l with windowStartTimestamp := now, windowStartNetBalance := supply }
  else l

theorem restarted_positive :
    (l.restarted now supply).maxNetBalanceChangePositivePercentage
      = l.maxNetBalanceChangePositivePercentage := by
  unfold restarted
  split <;> rfl

theorem restarted_allows {start k : Nat} :
    (l.restarted now supply).Allows start k ↔ l.Allows start k := by
  rw [allows_iff_mul, allows_iff_mul]
  unfold restarted
  split <;> rfl

theorem verifyLimits_eq_ok : l.verifyLimits now supply change = .ok l' ↔
    l.windowStartTimestamp.toNat + l.windowDurationSeconds.toNat < 2 ^ 32 ∧
      l' = l.restarted now supply ∧
      ∃ n, (n.toNat : Int) = supply.toNat + change ∧ l'.verifyChange n = .ok () := by
  have hend {e : UInt32}
      (h : e.toNat = l.windowStartTimestamp.toNat + l.windowDurationSeconds.toNat) :
      (if e < now then
        { l with windowStartTimestamp := now, windowStartNetBalance := supply } else l)
        = l.restarted now supply := by
    simp only [restarted, UInt32.lt_iff_toNat_lt, h]
  simp only [verifyLimits, bind_eq_ok, addU32_eq_ok, unwrap_eq_ok, checkedAddSigned_eq_some,
    Except.ok.injEq]
  constructor
  · rintro ⟨e, he, n, hn, _, hverify, rfl⟩
    rw [hend he] at hverify ⊢
    have := e.toNat_lt
    exact ⟨by omega, rfl, n, hn, hverify⟩
  · rintro ⟨hfit, rfl, n, hn, hverify⟩
    refine ⟨UInt32.ofNat _, UInt32.toNat_ofNat_of_lt' hfit, n, hn, (), ?_⟩
    rw [hend (UInt32.toNat_ofNat_of_lt' hfit)]
    exact ⟨hverify, rfl⟩

/-- Without limits a check accepts every change that leaves a supply. -/
theorem verifyLimits_unlimited :
    (∃ l', unlimited.verifyLimits now supply change = .ok l') ↔
      ∃ n : UInt64, (n.toNat : Int) = supply.toNat + change := by
  have hall (n : UInt64) : (unlimited.restarted now supply).verifyChange n = .ok () := by
    rw [verifyChange_ok_iff, restarted_allows, restarted_positive]
    by_cases hle : (unlimited.restarted now supply).windowStartNetBalance ≤ n
    · exact .inr ⟨rfl, hle⟩
    · have hlt := UInt64.lt_iff_toNat_lt.1 (UInt64.not_le.1 hle)
      have hneg : unlimited.maxNetBalanceChangeNegativePercentage.toNat = 2 ^ 16 - 1 := rfl
      rw [allows_iff_mul, hneg]
      exact .inl ⟨by omega, by omega⟩
  have hfits : unlimited.windowStartTimestamp.toNat + unlimited.windowDurationSeconds.toNat
      < 2 ^ 32 := by decide
  simp only [verifyLimits_eq_ok, exists_eq_left, hfits, hall, true_and, and_true]

/-- **What a check needs**: times that fit, a baseline that is the supply at which the window began,
an amount that fits, and no growth beyond the largest percentage where that is allowed. -/
@[mk_iff]
structure Sound (l : LiquidityNetBalanceLimits) (w : Window) (now supply : UInt64) (change : Int) :
    Prop where
  time : now.toNat < 2 ^ 32
  ends : l.windowStartTimestamp.toNat + l.windowDurationSeconds.toNat < 2 ^ 32
  baseline : w.began + l.windowDurationSeconds.toNat < now.toNat ∨
    l.windowStartNetBalance.toNat = w.lpSupply
  amount : |change| < 2 ^ 63
  growth : l.maxNetBalanceChangePositivePercentage.toNat = 2 ^ 32 - 1 →
    ((supply.toNat + change : Int) : ℚ) ≤ (w.current l supply now).lpSupply *
      (1 + l.maxNetBalanceChangePositivePercentage.toNat / 10000)

instance {w : Window} {now : UInt64} : Decidable (l.Sound w now supply change) :=
  decidable_of_iff _ (sound_iff l w now supply change).symm

theorem toUInt32_toNat {now : UInt64} (h : now.toNat < 2 ^ 32) :
    now.toUInt32.toNat = now.toNat := by
  rw [UInt64.toNat_toUInt32]
  exact Nat.mod_eq_of_lt h

theorem verifyLimits_iff_allows {w : Window} {now : UInt64}
    (hbegan : l.windowStartTimestamp.toNat = w.began) (h : l.Sound w now supply change)
    (hn : (n.toNat : Int) = supply.toNat + change) :
    (∃ l', l.verifyLimits now.toUInt32 supply change = .ok l') ↔
      l.Allows (w.current l supply now).lpSupply n.toNat := by
  have htime := toUInt32_toNat h.time
  have hbaseline : (l.restarted now.toUInt32 supply).windowStartNetBalance.toNat
      = (w.current l supply now).lpSupply := by
    unfold restarted Window.current
    rw [htime, hbegan]
    split
    · rfl
    · rename_i hrunning
      exact h.baseline.resolve_left hrunning
  have hn' {k : UInt64} (hk : (k.toNat : Int) = supply.toNat + change) : k = n :=
    UInt64.toNat_inj.1 (by omega)
  simp only [verifyLimits_eq_ok, exists_eq_left, h.ends, true_and]
  constructor
  · rintro ⟨k, hk, hverify⟩
    obtain rfl := hn' hk
    rw [verifyChange_ok_iff, hbaseline, restarted_allows, restarted_positive] at hverify
    rcases hverify with hallows | ⟨hmax, hle⟩
    · exact hallows
    · have hgrown : (w.current l supply now).lpSupply ≤ k.toNat := hbaseline ▸ hle
      refine ⟨le_trans (mul_le_of_le_one_right (Nat.cast_nonneg _) ?_) (Nat.cast_le.2 hgrown), ?_⟩
      · exact sub_le_self _ (div_nonneg (Nat.cast_nonneg _) (by norm_num))
      · have := h.growth hmax
        rw [← hk] at this
        exact_mod_cast this
  · intro hallows
    refine ⟨n, hn, ?_⟩
    rw [verifyChange_ok_iff, hbaseline, restarted_allows]
    exact .inl hallows

end LiquidityNetBalanceLimits

/-! ## Instructions -/

section
variable {K : Type} {f : MarketFinancials K} {a : UInt64}

instance : OnlyAborts (f.incPtBalance a) := by
  unfold MarketFinancials.incPtBalance
  infer_instance

instance : OnlyAborts (f.incSyBalance a) := by
  unfold MarketFinancials.incSyBalance
  infer_instance

instance : OnlyAborts (f.decPtBalance a) := by
  unfold MarketFinancials.decPtBalance
  infer_instance

instance : OnlyAborts (f.decSyBalance a) := by
  unfold MarketFinancials.decSyBalance
  infer_instance

variable [Num K] {x y z : UInt64}

instance : OnlyAborts (f.addLiquidity x y z) :=
  OnlyAborts.bind inferInstance fun _ => OnlyAborts.bind inferInstance fun _ => inferInstance

instance : OnlyAborts (TimeCurve.rmLiquidity K x y z a) :=
  OnlyAborts.bind inferInstance fun _ => inferInstanceAs (OnlyAborts (.ok _))

instance : OnlyAborts (f.rmLiquidity x y) := by
  unfold MarketFinancials.rmLiquidity
  infer_instance

end

variable {N : Type} [Num N] {b b' : Bank N} {w w' : Window} {op : LiquidityOp} {n : UInt64}
  {change : Int}

namespace Bank

variable {user : Nat} {now ptIntent syIntent minLpOut lpIn minPtOut minSyOut : UInt64}
  {ra : LiqAddResult} {rr : LiqRmResult}

theorem depositLiquidity_checked
    (h : b.depositLiquidity user now ptIntent syIntent minLpOut = .ok (b', ra)) :
    ∃ f l, b.market.financials.addLiquidity syIntent ptIntent b.mintLp = .ok (f, ra) ∧
      b.limits.verifyLimits now.toUInt32 b.mintLp (asI64 ra.lpOut) = .ok l ∧ b'.limits = l ∧
      b'.mintLp.toNat = b.mintLp.toNat + ra.lpOut.toNat := by
  simp only [depositLiquidity, receivePt, receiveSy, depositSy, debitPt, debitSy, creditLp,
    bind_eq_ok, require_eq_ok, Except.ok.injEq, Prod.exists, Prod.mk.injEq, transferIn_eq_ok] at h
  obtain ⟨_, -, _, -, f, r, hf, _, -, l, hl, _, ⟨_, ⟨_, -, rfl⟩, _, -, rfl⟩, _,
    ⟨_, ⟨_, -, rfl⟩, _, -, rfl⟩, _, ⟨_, -, rfl⟩, lp, hlp, _, ⟨_, -, _, -, rfl⟩, _, -, rfl, rfl⟩ := h
  exact ⟨f, l, hf, hl, rfl, hlp⟩

theorem withdrawLiquidity_checked
    (h : b.withdrawLiquidity user now lpIn minPtOut minSyOut = .ok (b', rr)) :
    ∃ change l, inI64 (-asI64 lpIn) = .ok change ∧
      b.limits.verifyLimits now.toUInt32 b.mintLp change = .ok l ∧ b'.limits = l ∧
      b'.mintLp.toNat + lpIn.toNat = b.mintLp.toNat := by
  simp only [withdrawLiquidity, withdrawSy, sendPt, sendSy, debitLp, creditPt, creditSy,
    bind_eq_ok, require_eq_ok, Except.ok.injEq, Prod.exists, Prod.mk.injEq, transferOut_eq_ok] at h
  obtain ⟨_, -, change, hchange, l, hl, f, r, -, _, -, _, -, _, ⟨_, -, rfl⟩, lp, hlp,
    _, ⟨_, -, _, -, rfl⟩, _, ⟨_, -, _, -, rfl⟩, _, ⟨_, -, _, -, rfl⟩, rfl, -⟩ := h
  exact ⟨change, l, hchange, hl, rfl, hlp⟩

theorem depositLiquidity_refused
    (h : b.depositLiquidity user now ptIntent syIntent minLpOut
      = .error (.error .netBalanceChangeExceedsLimit)) :
    ∃ f r, b.market.financials.addLiquidity syIntent ptIntent b.mintLp = .ok (f, r) ∧
      b.limits.verifyLimits now.toUInt32 b.mintLp (asI64 r.lpOut)
        = .error (.error .netBalanceChangeExceedsLimit) := by
  simp only [depositLiquidity, receivePt, receiveSy, depositSy, debitPt, debitSy, creditLp, debit,
    credit, bind_eq_error, require_eq_error, transferIn_ne_error, transferOut_ne_error,
    OnlyAborts.ne_error, Fault.error.injEq, reduceCtorEq, and_false, exists_false, or_false,
    false_or, Prod.exists] at h
  obtain ⟨_, -, _, -, f, r, hf, _, -, hl⟩ := h
  exact ⟨f, r, hf, hl⟩

theorem withdrawLiquidity_refused
    (h : b.withdrawLiquidity user now lpIn minPtOut minSyOut
      = .error (.error .netBalanceChangeExceedsLimit)) :
    ∃ change, inI64 (-asI64 lpIn) = .ok change ∧
      b.limits.verifyLimits now.toUInt32 b.mintLp change
        = .error (.error .netBalanceChangeExceedsLimit) := by
  simp only [withdrawLiquidity, withdrawSy, sendPt, sendSy, debitLp, creditPt, creditSy, debit,
    credit, bind_eq_error, require_eq_error, transferIn_ne_error, transferOut_ne_error,
    OnlyAborts.ne_error, Fault.error.injEq, reduceCtorEq, and_false, exists_false, or_false,
    false_or] at h
  obtain ⟨_, -, change, hchange, hl⟩ := h
  exact ⟨change, hchange, hl⟩

/-- The limits decide nothing but whether they are kept. -/
theorem depositLiquidity_of_unlimited {l : LiquidityNetBalanceLimits}
    (h : b.unlimited.depositLiquidity user now ptIntent syIntent minLpOut = .ok (b', ra))
    (hl : b.limits.verifyLimits now.toUInt32 b.mintLp (asI64 ra.lpOut) = .ok l) :
    b.depositLiquidity user now ptIntent syIntent minLpOut = .ok (b'.setLimits l, ra) := by
  simp only [depositLiquidity, receivePt, receiveSy, depositSy, debitPt, debitSy, creditLp,
    bind_eq_ok, require_eq_ok, Except.ok.injEq, Prod.exists, Prod.mk.injEq,
    transferIn_eq_ok] at h ⊢
  obtain ⟨u₁, h₁, u₂, h₂, f, r, hf, u₃, h₃, _, -, _, ⟨_, ⟨s₁, hs₁, rfl⟩, t₁, ht₁, rfl⟩, _,
    ⟨_, ⟨s₂, hs₂, rfl⟩, t₂, ht₂, rfl⟩, _, ⟨s₃, hs₃, rfl⟩, lp, hlp, _, ⟨t₃, ht₃, t₄, ht₄, rfl⟩,
    u₄, h₄, rfl, rfl⟩ := h
  exact ⟨u₁, h₁, u₂, h₂, f, r, hf, u₃, h₃, l, hl, _, ⟨_, ⟨s₁, hs₁, rfl⟩, t₁, ht₁, rfl⟩, _,
    ⟨_, ⟨s₂, hs₂, rfl⟩, t₂, ht₂, rfl⟩, _, ⟨s₃, hs₃, rfl⟩, lp, hlp, _, ⟨t₃, ht₃, t₄, ht₄, rfl⟩,
    u₄, h₄, rfl, rfl⟩

theorem withdrawLiquidity_of_unlimited {l : LiquidityNetBalanceLimits}
    (h : b.unlimited.withdrawLiquidity user now lpIn minPtOut minSyOut = .ok (b', rr))
    (hchange : inI64 (-asI64 lpIn) = .ok change)
    (hl : b.limits.verifyLimits now.toUInt32 b.mintLp change = .ok l) :
    b.withdrawLiquidity user now lpIn minPtOut minSyOut = .ok (b'.setLimits l, rr) := by
  simp only [withdrawLiquidity, withdrawSy, sendPt, sendSy, debitLp, creditPt, creditSy,
    bind_eq_ok, require_eq_ok, Except.ok.injEq, Prod.exists, Prod.mk.injEq,
    transferOut_eq_ok] at h ⊢
  obtain ⟨u₁, h₁, _, -, _, -, f, r, hf, u₂, h₂, u₃, h₃, _, ⟨s₁, hs₁, rfl⟩, lp, hlp,
    _, ⟨t₁, ht₁, t₂, ht₂, rfl⟩, _, ⟨t₃, ht₃, s₂, hs₂, rfl⟩, _, ⟨t₄, ht₄, s₃, hs₃, rfl⟩, rfl,
    rfl⟩ := h
  exact ⟨u₁, h₁, change, hchange, l, hl, f, r, hf, u₂, h₂, u₃, h₃, _, ⟨s₁, hs₁, rfl⟩, lp, hlp,
    _, ⟨t₁, ht₁, t₂, ht₂, rfl⟩, _, ⟨t₃, ht₃, s₂, hs₂, rfl⟩, _, ⟨t₄, ht₄, s₃, hs₃, rfl⟩, rfl,
    rfl⟩

theorem limits_marketTwoInit {vaultWorld : VaultWorld} {users : UserTokens} {treasury : UInt64}
    {tokenFarm : Pubkey → UInt64} {payer : Nat} {args : MarketTwoInitArgs N}
    (h : marketTwoInit vaultWorld users treasury tokenFarm payer now args = .ok b) :
    b.limits.windowStartTimestamp = now.toUInt32 := by
  simp only [marketTwoInit, MarketTwo.new, receivePt, receiveSy, depositSy, debitPt, debitSy,
    creditLp, bind_eq_ok, Except.ok.injEq] at h
  obtain ⟨_, -, m, ⟨_, -, _, -, _, -, _, -, _, -, rfl⟩, _, ⟨_, ⟨_, -, rfl⟩, _, -, rfl⟩, _,
    ⟨_, ⟨_, -, rfl⟩, _, -, rfl⟩, _, -, _, ⟨_, -, rfl⟩, _, -, _, -, rfl⟩ := h
  rfl

/-! ### What the check decides

An amount that fits `i64` is the one that the check is given. -/

theorem asI64_of_fits {k : UInt64} (h : |(k.toNat : Int)| < 2 ^ 63) : asI64 k = k.toNat := by
  rw [abs_lt] at h
  rcases asI64_cases k with ⟨-, heq⟩ | ⟨hlarge, -⟩
  · exact heq
  · omega

theorem inI64_neg_of_fits {k : UInt64} (h : |(-k.toNat : Int)| < 2 ^ 63) :
    inI64 (-asI64 k) = .ok (-k.toNat) := by
  rw [abs_neg] at h
  rw [inI64_eq_ok, asI64_of_fits h]
  rw [abs_lt] at h
  exact ⟨by omega, rfl⟩

/-- An instruction that goes through leaves the supply that it was checked for, in the window that
was checked. -/
theorem liquidityStep_checked (hop : op.isChecked = true) (h : b.liquidityStep op = .ok b') :
    b'.limits = b.limits.restarted op.now.toUInt32 b.mintLp ∧
      ∃ change, b.lpChange op = .ok change ∧ (b'.mintLp.toNat : Int) = b.mintLp.toNat + change ∧
        (|change| < 2 ^ 63 →
          b.limits.verifyLimits op.now.toUInt32 b.mintLp change = .ok b'.limits) := by
  cases op with
  | deposit =>
    simp only [liquidityStep, bind_eq_ok, Prod.exists, Except.ok.injEq] at h
    obtain ⟨_, r, h, rfl⟩ := h
    obtain ⟨f, l, hf, hl, rfl, hlp⟩ := depositLiquidity_checked h
    simp only [lpChange, hf, ok_bind]
    refine ⟨(LiquidityNetBalanceLimits.verifyLimits_eq_ok.1 hl).2.1, _, rfl, by omega, ?_⟩
    exact fun hfits => asI64_of_fits hfits ▸ hl
  | withdraw =>
    simp only [liquidityStep, bind_eq_ok, Prod.exists, Except.ok.injEq] at h
    obtain ⟨_, r, h, rfl⟩ := h
    obtain ⟨change, l, hchange, hl, rfl, hlp⟩ := withdrawLiquidity_checked h
    refine ⟨(LiquidityNetBalanceLimits.verifyLimits_eq_ok.1 hl).2.1, _, rfl, by omega, ?_⟩
    intro hfits
    obtain rfl := Except.ok.inj ((inI64_neg_of_fits hfits).symm.trans hchange)
    exact hl
  | changeLimits => cases hop

/-- An instruction is refused for the limits only if the check refuses it. -/
theorem liquidityStep_refused (hop : op.isChecked = true)
    (h : b.liquidityStep op = .error (.error .netBalanceChangeExceedsLimit)) :
    ∃ change, b.lpChange op = .ok change ∧ (|change| < 2 ^ 63 → ∃ k,
      b.limits.verifyLimits op.now.toUInt32 b.mintLp change = .error k) := by
  cases op with
  | deposit =>
    simp only [liquidityStep, bind_eq_error, reduceCtorEq, and_false, exists_false,
      or_false] at h
    obtain ⟨f, r, hf, hl⟩ := depositLiquidity_refused h
    simp only [lpChange, hf, ok_bind]
    exact ⟨_, rfl, fun hfits => ⟨_, asI64_of_fits hfits ▸ hl⟩⟩
  | withdraw =>
    simp only [liquidityStep, bind_eq_error, reduceCtorEq, and_false, exists_false,
      or_false] at h
    obtain ⟨change, hchange, hl⟩ := withdrawLiquidity_refused h
    refine ⟨_, rfl, fun hfits => ?_⟩
    obtain rfl := Except.ok.inj ((inI64_neg_of_fits hfits).symm.trans hchange)
    exact ⟨_, hl⟩
  | changeLimits => cases hop

/-- An instruction that the check accepts goes through if it does without limits. -/
theorem liquidityStep_of_unlimited {l : LiquidityNetBalanceLimits} (hop : op.isChecked = true)
    (h : b.unlimited.liquidityStep op = .ok b') (hchange : b.lpChange op = .ok change)
    (hfits : |change| < 2 ^ 63)
    (hl : b.limits.verifyLimits op.now.toUInt32 b.mintLp change = .ok l) :
    b.liquidityStep op = .ok (b'.setLimits l) := by
  cases op with
  | deposit =>
    simp only [liquidityStep, bind_eq_ok, Prod.exists, Except.ok.injEq] at h ⊢
    obtain ⟨_, r, h, rfl⟩ := h
    obtain ⟨f, -, hf, -, -, -⟩ := depositLiquidity_checked h
    have hsame : b.market.financials.addLiquidity _ _ b.mintLp = .ok (f, r) := hf
    simp only [lpChange, hsame, ok_bind, Except.ok.injEq] at hchange
    subst hchange
    exact ⟨_, r, depositLiquidity_of_unlimited h (asI64_of_fits hfits ▸ hl), rfl⟩
  | withdraw =>
    simp only [liquidityStep, bind_eq_ok, Prod.exists, Except.ok.injEq] at h ⊢
    obtain ⟨_, r, h, rfl⟩ := h
    obtain rfl := Except.ok.inj hchange
    exact ⟨_, r, withdrawLiquidity_of_unlimited h (inI64_neg_of_fits hfits) hl, rfl⟩
  | changeLimits => cases hop

end Bank

omit [Num N] in
theorem Window.record_checked (hop : op.isChecked = true) :
    w.record b op = w.current b.limits b.mintLp op.now := by
  cases op with
  | deposit | withdraw => rfl
  | changeLimits => cases hop

namespace WindowedBank

variable {s s' : WindowedBank N}

/-- The supply at which the window of an instruction began. -/
def baseline (s : WindowedBank N) (op : LiquidityOp) : Nat :=
  (s.2.current s.1.limits s.1.mintLp op.now).lpSupply

/-- Time does not go back. -/
def Timely (s : WindowedBank N) (op : LiquidityOp) : Prop := s.2.clock ≤ op.now.toNat

/-- The check of an instruction has what it needs. -/
def Sound (s : WindowedBank N) (op : LiquidityOp) : Prop :=
  op.isChecked = true → ∀ change, s.1.lpChange op = .ok change →
    s.1.limits.Sound s.2 op.now s.1.mintLp change

instance : Decidable (Timely s op) := inferInstanceAs (Decidable (_ ≤ _))

instance : Decidable (Sound s op) := inferInstanceAs (Decidable (_ → ∀ _, _ → _))

/-- **The limits hold** for an instruction. -/
structure KeepsLimits (s : WindowedBank N) (op : LiquidityOp) : Prop where
  /-- if it goes through, the supply that it leaves is within the bounds of its window -/
  accepted : ∀ b', s.1.liquidityStep op = .ok b' →
    s.1.limits.Allows (s.baseline op) b'.mintLp.toNat
  /-- if the supply that it is to leave is within the bounds, it is not refused for the limits -/
  notRefused : ∀ (n : UInt64) (change : Int), s.1.lpChange op = .ok change →
    (n.toNat : Int) = s.1.mintLp.toNat + change → s.1.limits.Allows (s.baseline op) n.toNat →
    s.1.liquidityStep op ≠ .error (.error .netBalanceChangeExceedsLimit)
  /-- and it goes through if it does without limits, to the same bank -/
  goesThrough : ∀ b', s.1.unlimited.liquidityStep op = .ok b' →
    s.1.limits.Allows (s.baseline op) b'.mintLp.toNat →
    ∃ l, s.1.liquidityStep op = .ok (b'.setLimits l)

/-- The limits hold for an instruction that is checked. -/
def Fair (s : WindowedBank N) (op : LiquidityOp) : Prop := op.isChecked = true → KeepsLimits s op

/-- What the market keeps of the window, as long as the times fit. -/
structure Inv (s : WindowedBank N) : Prop where
  began : s.2.began ≤ s.2.clock
  start : s.2.clock < 2 ^ 32 → s.1.limits.windowStartTimestamp.toNat = s.2.began

theorem fair_of_sound (hinv : Inv s) (htime : Timely s op) (hsound : Sound s op) : Fair s op := by
  intro hop
  have hverify {n : UInt64} {change : Int} (hchange : s.1.lpChange op = .ok change)
      (hn : (n.toNat : Int) = s.1.mintLp.toNat + change) :
      (∃ l, s.1.limits.verifyLimits op.now.toUInt32 s.1.mintLp change = .ok l) ↔
        s.1.limits.Allows (s.baseline op) n.toNat := by
    have h := hsound hop change hchange
    exact LiquidityNetBalanceLimits.verifyLimits_iff_allows
      (hinv.start (htime.trans_lt h.time)) h hn
  refine ⟨fun b' hb' => ?_, fun n change hchange hn hallows hrefused => ?_,
    fun b' hb' hallows => ?_⟩
  · obtain ⟨-, change, hchange, hlp, hcheck⟩ := Bank.liquidityStep_checked hop hb'
    exact (hverify hchange hlp).1 ⟨_, hcheck (hsound hop change hchange).amount⟩
  · obtain ⟨change', hchange', herror⟩ := Bank.liquidityStep_refused hop hrefused
    obtain rfl := Except.ok.inj (hchange.symm.trans hchange')
    obtain ⟨l, hl⟩ := (hverify hchange hn).2 hallows
    obtain ⟨k, hk⟩ := herror (hsound hop change hchange).amount
    cases hl.symm.trans hk
  · -- what an instruction mints or burns does not depend on the limits
    obtain ⟨-, change, hsame, hlp, -⟩ := Bank.liquidityStep_checked hop hb'
    have hchange : s.1.lpChange op = .ok change := by
      cases op <;> exact hsame
    obtain ⟨l, hl⟩ := (hverify hchange hlp).2 hallows
    exact ⟨l, Bank.liquidityStep_of_unlimited hop hb' hchange
      (hsound hop change hchange).amount hl⟩

theorem inv_step (hinv : Inv s) (htime : Timely s op) (h : step s op = .ok s') : Inv s' := by
  obtain ⟨b', hb', rfl⟩ := Machine.recording_eq_ok.1 h
  cases hop : op.isChecked with
  | true =>
    have hlimits := (Bank.liquidityStep_checked hop hb').1
    have hbegan := hinv.began
    have hstart := hinv.start
    unfold Timely at htime
    refine ⟨?_, fun hclock => ?_⟩
    · simp only [Window.record_checked hop, Window.current]
      split <;> dsimp only <;> omega
    · simp only [Window.record_checked hop, Window.current] at hclock ⊢
      have hnow : op.now.toNat < 2 ^ 32 := by
        split at hclock <;> exact hclock
      rw [hlimits, LiquidityNetBalanceLimits.restarted,
        LiquidityNetBalanceLimits.toUInt32_toNat hnow, hstart (htime.trans_lt hnow)]
      split
      · exact LiquidityNetBalanceLimits.toUInt32_toNat hnow
      · exact hstart (htime.trans_lt hnow)
  | false =>
    cases op with
    | deposit | withdraw => cases hop
    | changeLimits now negative positive windowDurationSeconds =>
      obtain rfl := Except.ok.inj hb'
      exact ⟨le_rfl, LiquidityNetBalanceLimits.toUInt32_toNat⟩

/-- **The limits hold in every window**: in every run over non-decreasing time from a new market, if
every check has what it needs, every accepted instruction leaves a supply within the bounds of its
window, and none that stays within them is rejected for the limits. -/
theorem netBalance_limits {vaultWorld : VaultWorld} {users : UserTokens} {treasury : UInt64}
    {tokenFarm : Pubkey → UInt64} {payer : Nat} {now : UInt64} {args : MarketTwoInitArgs N}
    {ops : List LiquidityOp}
    (hb : Bank.marketTwoInit vaultWorld users treasury tokenFarm payer now args = .ok b)
    (htime : Machine.Admits step Timely (b, ⟨now.toNat, now.toNat, b.mintLp.toNat⟩) ops)
    (hsound : Machine.Admits step Sound (b, ⟨now.toNat, now.toNat, b.mintLp.toNat⟩) ops) :
    Machine.Admits step Fair (b, ⟨now.toNat, now.toNat, b.mintLp.toNat⟩) ops := by
  have hinv : Inv (b, ⟨now.toNat, now.toNat, b.mintLp.toNat⟩) := by
    refine ⟨le_rfl, fun hclock => ?_⟩
    rw [Bank.limits_marketTwoInit hb]
    exact LiquidityNetBalanceLimits.toUInt32_toNat hclock
  have hall := (htime.and hsound).with_invariant (I := Inv)
    (fun _ _ _ hI hP h => inv_step hI hP.1 h) hinv
  exact hall.mono fun s op h => fair_of_sound h.1 h.2.1 h.2.2

/-! ### A stale baseline -/

/-- The market of `sampleBank`, new at time zero. -/
def sampleMarket : Outcome (Bank (Exact ℚ)) :=
  Bank.marketTwoInit sampleVault sampleUsers 0 (fun _ => 0) 0 0 sampleArgs

theorem netBalance_limits_depositAndWithdraw :
    ∃ b, sampleMarket = .ok b ∧
      Machine.Admits step Fair (b, ⟨0, 0, b.mintLp.toNat⟩)
        [.deposit 0 10 900000 900000 0, .withdraw 0 20 1000 0 0] := by
  obtain ⟨b, hb, htime, hsound⟩ : ∃ b, sampleMarket = .ok b ∧
      Machine.Admits step Timely (b, ⟨0, 0, b.mintLp.toNat⟩)
        [.deposit 0 10 900000 900000 0, .withdraw 0 20 1000 0 0] ∧
      Machine.Admits step Sound (b, ⟨0, 0, b.mintLp.toNat⟩)
        [.deposit 0 10 900000 900000 0, .withdraw 0 20 1000 0 0] := by
    decide +kernel
  exact ⟨b, hb, netBalance_limits hb htime hsound⟩

/-- The LP supply doubles, the limits are changed to a growth of one percent, and a withdrawal of
one LP token is measured from the supply before all that. -/
def staleBaseline : List LiquidityOp :=
  [.deposit 0 10 900000 900000 0, .changeLimits 20 10000 100 1000]

theorem staleBaseline_run :
    ∃ b, sampleMarket = .ok b ∧
      Machine.Admits step Timely (b, ⟨0, 0, b.mintLp.toNat⟩)
        (staleBaseline ++ [.withdraw 0 30 1 0 0]) ∧
      (fun s : WindowedBank (Exact ℚ) => s.1.limits.Allows (s.baseline (.withdraw 0 30 1 0 0))
          (s.1.mintLp - 1).toNat ∧ 1 ≤ s.1.mintLp ∧
        s.1.liquidityStep (.withdraw 0 30 1 0 0)
          = .error (.error .netBalanceChangeExceedsLimit))
      (Machine.run step (b, ⟨0, 0, b.mintLp.toNat⟩) staleBaseline) := by
  decide +kernel

theorem not_netBalance_limits_staleBaseline :
    ∃ b, sampleMarket = .ok b ∧
      Machine.Admits step Timely (b, ⟨0, 0, b.mintLp.toNat⟩)
        (staleBaseline ++ [.withdraw 0 30 1 0 0]) ∧
      ¬ Machine.Admits step Fair (b, ⟨0, 0, b.mintLp.toNat⟩)
        (staleBaseline ++ [.withdraw 0 30 1 0 0]) := by
  obtain ⟨b, hb, htime, hallows, hle, hreject⟩ := staleBaseline_run
  refine ⟨b, hb, htime, fun hfair => ?_⟩
  have hlast := ((Machine.admits_append.1 hfair).2.1 rfl).notRefused
  have hn := UInt64.toNat_sub_of_le _ _ hle
  have hpos := UInt64.le_iff_toNat_le.1 hle
  have hone : (1 : UInt64).toNat = 1 := rfl
  exact hlast _ (-1) rfl (by rw [hn]; omega) hallows hreject

end WindowedBank

end ExponentCore
