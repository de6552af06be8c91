import ExponentCore.Market.Proof.Holdings
import ExponentCore.Vault.Proof.StripMerge

/-!
# Conversions that round up

`py_to_sy_ceil` rounds up a quotient that is already rounded to nearest in the twelfth decimal. What
is left of a whole number of SY may be too little to survive that, and then the result is the
quotient rounded down. `CeilCovers` says when it is not: when nothing is left, or when what is left
is worth half a unit of the twelfth decimal.

The sizes of `buy_yt`, the constraints of `wrapper_sell_pt` and `wrapper_sell_yt` and the price of
every purchase of PT are such quotients (`ceilings_iff`); the constraints pass through `i64`
besides.
-/

set_option autoImplicit false

namespace ExponentCore

open Cached Handler Number

variable {r : Number} {n m : UInt64}

/-! ## Quotients -/

/-- What the division of `a` leaves over is nothing, or enough not to be rounded away. -/
def CeilCovers (r : Number) (a : Nat) : Prop :=
  a * denom % r.raw = 0 ∨ r.raw ≤ a * denom % r.raw * denom + roundingCorrection

instance {a : Nat} : Decidable (CeilCovers r a) := inferInstanceAs (Decidable (_ ∨ _))

/-- At rates up to one and a half nothing is rounded away. -/
theorem ceilCovers_of_le (hr : r.raw ≤ denom + roundingCorrection) {a : Nat} : CeilCovers r a := by
  rcases Nat.eq_zero_or_pos (a * denom % r.raw) with h | h
  · exact .inl h
  · refine .inr (hr.trans ?_)
    exact Nat.add_le_add_right (Nat.le_mul_of_pos_left _ h) _

theorem lt_ceil_iff {k : Nat} (h : ((fromNaturalU64 m).div r >>= ceilU64) = .ok n) :
    k < n.toNat ↔ (k * denom + 1) * r.raw ≤ m.toNat * denom * denom + roundingCorrection := by
  rw [bind_eq_ok] at h
  obtain ⟨p, hp, hn⟩ := h
  rw [div, unwrap_eq_ok, natural_checkedDiv] at hp
  obtain ⟨hr, hp⟩ := hp
  have hdenom := denom_pos
  rw [ceilU64_eq_ok] at hn
  rw [← Nat.le_div_iff_mul_le (Nat.pos_of_ne_zero hr), ← hp, hn, ← Nat.succ_le_iff,
    Nat.le_div_iff_mul_le hdenom, Nat.succ_mul]
  omega

theorem rate_pos_of_ceil (h : ((fromNaturalU64 m).div r >>= ceilU64) = .ok n) : 0 < r.raw := by
  rw [bind_eq_ok] at h
  obtain ⟨p, hp, -⟩ := h
  rw [div, unwrap_eq_ok, natural_checkedDiv] at hp
  exact Nat.pos_of_ne_zero hp.1

theorem ceil_covers_iff (h : ((fromNaturalU64 m).div r >>= ceilU64) = .ok n) :
    m.toNat * denom ≤ n.toNat * r.raw ↔ CeilCovers r m.toNat := by
  have hr := rate_pos_of_ceil h
  -- `q` whole numbers of SY, and `s` units of the asset left over
  obtain ⟨q, s, hx, hq, hs⟩ : ∃ q s, m.toNat * denom = q * r.raw + s ∧
      m.toNat * denom / r.raw = q ∧ m.toNat * denom % r.raw = s :=
    ⟨_, _, by rw [Nat.mul_comm (_ / _), Nat.div_add_mod], rfl, rfl⟩
  have hlt : s < r.raw := hs ▸ Nat.mod_lt _ hr
  have hceil (k : Nat) := lt_ceil_iff (k := k) h
  rw [hx] at hceil
  rw [CeilCovers, hs, hx]
  rcases Nat.eq_zero_or_pos s with rfl | hpos
  · refine iff_of_true ?_ (.inl rfl)
    rcases Nat.eq_zero_or_pos q with rfl | hqpos
    · simp
    · have hstep : ((q - 1) * denom + 1) * r.raw ≤ q * r.raw * denom := by
        rw [Nat.mul_right_comm]
        refine Nat.mul_le_mul_right _ ?_
        have := Nat.succ_mul (q - 1) denom
        rw [Nat.succ_eq_add_one, Nat.sub_add_cancel hqpos] at this
        have := denom_pos
        omega
      have hqn := (hceil (q - 1)).2 (hstep.trans (Nat.le_add_right _ _))
      exact Nat.mul_le_mul_right _ (by omega)
  · rw [or_iff_right hpos.ne']
    have hiff : q * r.raw + s ≤ n.toNat * r.raw ↔ q < n.toNat := by
      constructor
      · intro hle
        exact Nat.lt_of_mul_lt_mul_right (a := r.raw) (by omega)
      · intro hqn
        have := Nat.mul_le_mul_right r.raw (Nat.succ_le_iff.2 hqn)
        rw [Nat.succ_mul] at this
        omega
    rw [hiff, hceil q, Nat.add_mul, Nat.add_mul, Nat.one_mul, Nat.mul_right_comm]
    omega

/-! ## Conversions -/

theorem le_mul_exact_iff {K : Type} [Field K] [LinearOrder K] [IsStrictOrderedRing K] {a k : Nat} :
    (a : K) ≤ k * r.exact K ↔ a * denom ≤ k * r.raw := by
  rw [exact, mul_div_assoc', le_div_iff₀ (Nat.cast_pos.2 denom_pos)]
  exact_mod_cast Iff.rfl

theorem le_mul_value_iff {a k : Nat} : (a : ℚ) ≤ k * r.value ↔ a * denom ≤ k * r.raw :=
  le_mul_exact_iff

theorem pyToSyCeil_covers_iff (h : pyToSyCeil r m = .ok n) :
    (m.toNat : ℚ) ≤ n.toNat * r.value ↔ CeilCovers r m.toNat :=
  le_mul_value_iff.trans (ceil_covers_iff h)

/-- Stripping the SY mints what was asked for. -/
theorem syToPy_of_ceil_iff {p : UInt64} (h : pyToSyCeil r m = .ok n) (hp : syToPy r n = .ok p) :
    m ≤ p ↔ CeilCovers r m.toNat := by
  rw [← ceil_covers_iff h, UInt64.le_iff_toNat_le, syToPy_eq_ok.1 hp,
    Nat.le_div_iff_mul_le denom_pos]

/-! ## Constraints -/

/-- The quotient, rounded up, is an `i64`. -/
def CeilFits (r : Number) (a : Nat) : Prop :=
  a * denom * denom + roundingCorrection < ((2 ^ 63 - 1) * denom + 1) * r.raw

instance {a : Nat} : Decidable (CeilFits r a) := inferInstanceAs (Decidable (_ < _))

theorem ceil_fits_iff (h : pyToSyCeil r m = .ok n) : n.toNat < 2 ^ 63 ↔ CeilFits r m.toNat := by
  have hceil := lt_ceil_iff (k := 2 ^ 63 - 1) h
  rw [CeilFits, ← not_le, ← not_le, ← hceil]
  omega

/-- The constraint of `wrapper_sell_pt` is worth the amount. -/
theorem asI64_covers_iff (h : pyToSyCeil r m = .ok n) :
    (m.toNat : ℚ) ≤ asI64 n * r.value ↔ CeilFits r m.toNat ∧ CeilCovers r m.toNat := by
  have hvalue : 0 < r.value := div_pos (Nat.cast_pos.2 (rate_pos_of_ceil h)) denom_cast_pos
  rw [← ceil_fits_iff h, ← pyToSyCeil_covers_iff h]
  rcases asI64_cases n with ⟨hn, heq⟩ | ⟨hn, heq⟩
  · rw [heq, Int.cast_natCast]
    exact (and_iff_right hn).symm
  · refine iff_of_false (not_le.2 ?_) (fun hfit => not_le.2 hfit.1 hn)
    have hneg : asI64 n < 0 := by
      have := n.toNat_lt
      omega
    exact (mul_neg_of_neg_of_pos (Int.cast_lt_zero.2 hneg) hvalue).trans_le (Nat.cast_nonneg _)

/-- An amount that is not an `i64` loses its upper bit, and the absolute value of what is left is
too small. -/
theorem abs_asI64_covers_iff {k : Int} (h : pyToSyCeil r m = .ok n)
    (hk : inI64 |asI64 n| = .ok k) :
    (m.toNat : ℚ) ≤ (asU64 k).toNat * r.value ↔ CeilFits r m.toNat ∧ CeilCovers r m.toNat := by
  obtain ⟨⟨-, hlt⟩, rfl⟩ := inI64_eq_ok.1 hk
  have hu := asU64_abs hlt
  generalize asU64 |asI64 n| = u at hu
  rw [← ceil_fits_iff h, ← pyToSyCeil_covers_iff h]
  rcases asI64_cases n with ⟨hn, heq⟩ | ⟨hn, heq⟩
  · rw [heq, abs_of_nonneg (Int.natCast_nonneg _)] at hu
    obtain rfl : u = n := UInt64.toNat_inj.1 (by omega)
    exact (and_iff_right hn).symm
  · refine iff_of_false (fun hle => ?_) (fun hfit => not_le.2 hfit.1 hn)
    have hneg : asI64 n < 0 := by
      have := n.toNat_lt
      omega
    rw [abs_of_neg hneg] at hu hlt
    have hsmall : u.toNat + 1 ≤ 2 ^ 63 := by omega
    have hlarge := (lt_ceil_iff (k := 2 ^ 63) h).1 (by omega)
    have hr := rate_pos_of_ceil h
    rw [le_mul_value_iff] at hle
    have hunit : denom ≤ r.raw * denom := Nat.le_mul_of_pos_left _ hr
    have hcontra : (u.toNat + 1) * (r.raw * denom) < u.toNat * (r.raw * denom) + denom :=
      calc (u.toNat + 1) * (r.raw * denom)
          ≤ 2 ^ 63 * (r.raw * denom) := Nat.mul_le_mul_right _ hsmall
        _ ≤ (2 ^ 63 * denom + 1) * r.raw := by
          rw [Nat.mul_comm r.raw, ← Nat.mul_assoc, Nat.add_mul]
          exact Nat.le_add_right _ _
        _ ≤ m.toNat * denom * denom + roundingCorrection := hlarge
        _ ≤ u.toNat * r.raw * denom + roundingCorrection :=
          Nat.add_le_add_right (Nat.mul_le_mul_right _ hle) _
        _ < u.toNat * (r.raw * denom) + denom := by
          rw [Nat.mul_assoc]
          exact Nat.add_lt_add_left roundingCorrection_lt _
    rw [Nat.succ_mul] at hcontra
    omega

/-! ## What handlers return -/

section
variable {N : Type} [Num N] {β : Type} {nested : β → Bank N → Outcome (Bank N × UInt64)}
  {l : Live (bankProgram β nested)} {a : AccountName} {v : Bool} {c : Call} {x : FlashSwap}

@[simp] theorem ensures_doCpi {Q : c.Ret → Live (bankProgram β nested) → Prop} :
    Ensures (α := no_index c.Ret) l (doCpi c) Q ↔
      ∀ b r, c.act l.store = .ok (b, r) → Q r ⟨b, l.log ++ [.called (.inl c)]⟩ :=
  ensures_call (P := bankProgram β nested)

@[simp] theorem ensures_doCpiFlashSwap {l : Live (wrapperProgram N)}
    {Q : UInt64 → Live (wrapperProgram N) → Prop} :
    Ensures l (doCpiFlashSwap x) Q ↔
      ∀ b r, x.act l.store = .ok (b, r) → Q r ⟨b, l.log ++ [.called (.inr x)]⟩ :=
  ensures_call (P := wrapperProgram N)

@[simp] theorem ensures_loadMarket {Q : MarketTwo N → Live (bankProgram β nested) → Prop} :
    Ensures l loadMarket Q ↔ Q l.store.market l :=
  ensures_read (P := bankProgram β nested)

@[simp] theorem ensures_setFlash {Q : Unit → Live (bankProgram β nested) → Prop} :
    Ensures l (setFlash v) Q ↔
      Q () ⟨l.store.setFlag v, l.log ++ [.edited (.setIsCurrentFlashSwap v)]⟩ :=
  ensures_edit (P := bankProgram β nested)

@[simp] theorem ensures_reloadAccount {Q : Unit → Live (bankProgram β nested) → Prop} :
    Ensures l (reloadAccount a) Q ↔ Q () l :=
  ensures_reload (P := bankProgram β nested)

@[simp] theorem ensures_exitAccount {Q : Unit → Live (bankProgram β nested) → Prop} :
    Ensures l (exitAccount a) Q ↔ Q () l :=
  ensures_exit (P := bankProgram β nested)

end

attribute [simp] ensures_bind ensures_liftM

theorem handleStrip_price {v v' : Vault} {p p' : YieldTokenPosition} {now : UInt32}
    {syState : SyState} (h : handleStrip v p now syState n = .ok (v', p', m)) :
    syToPy syState.exchangeRate n = .ok m := by
  obtain ⟨v₁, v₂, p₁, hr, -, hm⟩ := handleStrip_eq_ok h
  rw [syToPy_eq_ok, hm.price, hr.lastSeen]

section
variable {N : Type} {b b' : Bank N} {i : Invocation}

theorem Bank.strip_price {user : Nat} {now : UInt64} {syState : SyState}
    (h : b.strip user now syState n = .ok (b', m)) : syToPy syState.exchangeRate n = .ok m := by
  simp only [strip, bind_eq_ok, Except.ok.injEq, Prod.exists, Prod.mk.injEq] at h
  obtain ⟨_, -, _, -, _, _, _, hstrip, _, -, _, -, -, rfl⟩ := h
  exact handleStrip_price hstrip

variable [Num N]

theorem Bank.tradePt_constraint {user : Nat} {now : UInt64} {rate : Number} {n c : Int}
    {res : MarketTradeResult} (h : b.tradePt user now rate n c = .ok (b', res)) :
    c ≤ res.netTraderSy ∧ |res.netTraderSy| < 2 ^ 63 := by
  simp only [tradePt, bind_eq_ok, assertTrue_eq_ok, Except.ok.injEq, Prod.exists,
    Prod.mk.injEq] at h
  obtain ⟨_, -, _, -, f, r', hf, _, -, _, hle, _, -, _, -, -, rfl⟩ := h
  exact ⟨hle, (MarketFinancials.tradePt_booked hf).small⟩

/-- `buy_yt` delivers what the strip of `py_to_sy_ceil` mints. -/
theorem FlashSwap.buyYt_delivers {syIn ytOut : UInt64} {log : List (Event (coreProgram N))}
    (h : (FlashSwap.buyYt i syIn ytOut).run b = .ok (b', m, log)) :
    ∃ n, pyToSyCeil i.syExchangeRate ytOut = .ok n ∧
      syToPy i.vaultSyState.exchangeRate n = .ok m := by
  refine ensures_of_run (Q := fun m _ => ∃ n, pyToSyCeil i.syExchangeRate ytOut = .ok n ∧
    syToPy i.vaultSyState.exchangeRate n = .ok m) (FlashSwap.synced _) ?_ h
  simp only [handler, ExponentCore.buyYt, ensures_bind, ensures_liftM, ensures_doCpi,
    ensures_loadMarket, ensures_setFlash, ensures_reloadAccount, ensures_exitAccount, ensures_pure]
  intro _ _ n hn _ _ _ _ _ _ _ _ _ _ _ _ _ _ _ _ b₁ p hstrip
  intros
  exact ⟨n, hn, Bank.strip_price hstrip⟩

/-- `sell_yt` pays at least `min_sy_out`. -/
theorem FlashSwap.sellYt_pays {ytIn minSyOut : UInt64}
    (h : (FlashSwap.sellYt i ytIn minSyOut).act b = .ok (b', m)) : minSyOut ≤ m := by
  simp only [act, bind_eq_ok, Except.ok.injEq, Prod.exists, Prod.mk.injEq] at h
  obtain ⟨_, _, log, hrun, rfl, rfl⟩ := h
  refine ensures_of_run (Q := fun m _ => minSyOut ≤ m) (FlashSwap.synced _) ?_ hrun
  simp only [handler, ExponentCore.sellYt, ensures_bind, ensures_liftM, ensures_doCpi,
    ensures_loadMarket, ensures_setFlash, ensures_reloadAccount, ensures_exitAccount, ensures_pure,
    assertTrue_eq_ok]
  intros
  assumption

/-- What `redeem_sy` is called for. -/
def Redeems (log : List (Event (wrapperProgram N))) (n : UInt64) : Prop :=
  ∃ user, (.called (.inl (.redeemSy user n)) : Event (wrapperProgram N)) ∈ log

theorem Wrapper.sellPt_redeems {amountPt minBase : UInt64} {u : Unit}
    {log : List (Event (wrapperProgram N))}
    (h : (Wrapper.sellPt i amountPt minBase).run b = .ok (b', u, log)) :
    ∃ n, pyToSyCeil i.syExchangeRate minBase = .ok n ∧
      ∀ k, Redeems log k → 0 ≤ asI64 n → asI64 n ≤ k.toNat := by
  refine ensures_of_run (Q := fun _ l => ∃ n, pyToSyCeil i.syExchangeRate minBase = .ok n ∧
      ∀ k, Redeems l.log k → 0 ≤ asI64 n → asI64 n ≤ k.toNat) (Wrapper.synced _) ?_ h
  simp only [handler, wrapperSellPt, ensures_bind, ensures_liftM, ensures_doCpi,
    ensures_reloadAccount]
  intro _ _ n hn b₁ res hres b₂ _ _
  refine ⟨n, hn, ?_⟩
  rintro k ⟨user, hk⟩ hpos
  simp only [List.nil_append, List.cons_append, List.mem_cons, Event.called.injEq, Sum.inl.injEq,
    Call.redeemSy.injEq, reduceCtorEq, false_or, List.not_mem_nil, or_false] at hk
  obtain ⟨-, rfl⟩ := hk
  obtain ⟨hle, hsmall⟩ := Bank.tradePt_constraint hres
  have := asU64_abs hsmall
  rw [abs_of_nonneg (hpos.trans hle)] at this
  omega

theorem Wrapper.sellYt_redeems {ytAmount minBase : UInt64} {u : Unit}
    {log : List (Event (wrapperProgram N))}
    (h : (Wrapper.sellYt i ytAmount minBase).run b = .ok (b', u, log)) :
    ∃ n c, pyToSyCeil i.syExchangeRate minBase = .ok n ∧ inI64 |asI64 n| = .ok c ∧
      ∀ k, Redeems log k → asU64 c ≤ k := by
  refine ensures_of_run (Q := fun _ l => ∃ n c, pyToSyCeil i.syExchangeRate minBase = .ok n ∧
    inI64 |asI64 n| = .ok c ∧ ∀ k, Redeems l.log k → asU64 c ≤ k) (Wrapper.synced _) ?_ h
  simp only [handler, wrapperSellYt, ensures_bind, ensures_liftM, ensures_doCpi,
    ensures_doCpiFlashSwap, ensures_reloadAccount]
  intro n hn c hc b₁ k hk b₂ _ _
  refine ⟨n, c, hn, hc, ?_⟩
  rintro k' ⟨user, hk'⟩
  simp only [List.nil_append, List.cons_append, List.mem_cons, Event.called.injEq, Sum.inl.injEq,
    Call.redeemSy.injEq, reduceCtorEq, false_or, List.not_mem_nil, or_false] at hk'
  obtain ⟨-, rfl⟩ := hk'
  exact FlashSwap.sellYt_pays hk

end

/-! ## Purchases and sales of PT -/

section
variable {K : Type} [Field K] [LinearOrder K] [IsStrictOrderedRing K] [FloorRing K] [LnExp K]
  {net : K} {i : Int}

theorem netTraderSy_covers_iff (hnet : net < 0)
    (h : netTraderSyFromNetTraderAsset (Exact.num net) r = .ok i) :
    ((-⌊net⌋ : Int) : K) ≤ ((-i : Int) : K) * r.exact K ↔ CeilCovers r (-⌊net⌋).toNat := by
  obtain ⟨asset, paid, hasset, hpaid, -, rfl⟩ := netTraderSy_of_neg hnet h
  rw [← hasset, neg_neg, Int.toNat_natCast, Int.cast_natCast, Int.cast_natCast, le_mul_exact_iff,
    ceil_covers_iff hpaid]

theorem netTraderSy_le_proceeds (hnet : 0 ≤ net)
    (h : netTraderSyFromNetTraderAsset (Exact.num net) r = .ok i) :
    (i : K) * r.exact K ≤ ⌊net⌋ := by
  obtain ⟨asset, received, hasset, hreceived, -, rfl⟩ := netTraderSy_of_nonneg hnet h
  rw [← hasset, Int.cast_natCast, Int.cast_natCast]
  exact div_floor_exact hreceived

end

/-! ## Rounding up -/

/-- **When rounding up covers**: a conversion is worth the amount, `buy_yt` delivers what it was
asked for, the constraints of the wrappers are worth the minimum and a purchase is paid for, exactly
if what the division leaves over is not rounded away and, for the constraints, the result is an
`i64`. Then every successful sale through a wrapper redeems at least the minimum. Proceeds are never
rounded up. -/
theorem ceilings_iff (K : Type) [Field K] [LinearOrder K] [IsStrictOrderedRing K] [FloorRing K]
    [LnExp K] :
    (∀ (r : Number) (a n : UInt64), pyToSyCeil r a = .ok n →
      ((a.toNat : ℚ) ≤ n.toNat * r.value ↔ CeilCovers r a.toNat) ∧
      (∀ p, syToPy r n = .ok p → (a ≤ p ↔ CeilCovers r a.toNat)) ∧
      ((a.toNat : ℚ) ≤ asI64 n * r.value ↔ CeilFits r a.toNat ∧ CeilCovers r a.toNat) ∧
      ∀ c, inI64 |asI64 n| = .ok c →
        ((a.toNat : ℚ) ≤ (asU64 c).toNat * r.value ↔ CeilFits r a.toNat ∧ CeilCovers r a.toNat)) ∧
    (∀ (i : Invocation) (syIn ytOut out : UInt64) (b b' : Bank (Exact K)) (log : _),
      (FlashSwap.buyYt i syIn ytOut).run b = .ok (b', out, log) →
      i.vaultSyState.exchangeRate = i.syExchangeRate →
      (ytOut ≤ out ↔ CeilCovers i.syExchangeRate ytOut.toNat)) ∧
    (∀ (i : Invocation) (amount minBase k : UInt64) (b b' : Bank (Exact K)) (u : Unit) (log : _),
      (Wrapper.sellPt i amount minBase).run b = .ok (b', u, log) ∨
        (Wrapper.sellYt i amount minBase).run b = .ok (b', u, log) →
      CeilFits i.syExchangeRate minBase.toNat → CeilCovers i.syExchangeRate minBase.toNat →
      Redeems log k → (minBase.toNat : ℚ) ≤ k.toNat * i.syExchangeRate.value) ∧
    ∀ (r : Number) (net : K) (s : Int), netTraderSyFromNetTraderAsset (Exact.num net) r = .ok s →
      (net < 0 →
        (((-⌊net⌋ : Int) : K) ≤ ((-s : Int) : K) * r.exact K ↔ CeilCovers r (-⌊net⌋).toNat)) ∧
      (0 ≤ net → (s : K) * r.exact K ≤ ⌊net⌋) := by
  refine ⟨?_, ?_, ?_, ?_⟩
  · intro r a n h
    exact ⟨pyToSyCeil_covers_iff h, fun p hp => syToPy_of_ceil_iff h hp, asI64_covers_iff h,
      fun c hc => abs_asI64_covers_iff h hc⟩
  · intro i syIn ytOut out b b' log h hrate
    obtain ⟨n, hn, hout⟩ := FlashSwap.buyYt_delivers h
    rw [hrate] at hout
    exact syToPy_of_ceil_iff hn hout
  · rintro i amount minBase k b b' u log (h | h) hfit hcover hk
    · obtain ⟨n, hn, hredeem⟩ := Wrapper.sellPt_redeems h
      rcases asI64_cases n with ⟨-, heq⟩ | ⟨hlarge, -⟩
      · have hle : n.toNat ≤ k.toNat := by
          have := hredeem k hk (by omega)
          omega
        refine ((pyToSyCeil_covers_iff hn).2 hcover).trans ?_
        exact mul_le_mul_of_nonneg_right (Nat.cast_le.2 hle) value_nonneg
      · exact absurd ((ceil_fits_iff hn).2 hfit) (not_lt.2 hlarge)
    · obtain ⟨n, c, hn, hc, hredeem⟩ := Wrapper.sellYt_redeems h
      have hworth := (abs_asI64_covers_iff hn hc).2 ⟨hfit, hcover⟩
      have hle : ((asU64 c).toNat : ℚ) ≤ k.toNat := Nat.cast_le.2 (hredeem k hk)
      exact hworth.trans (mul_le_mul_of_nonneg_right hle value_nonneg)
  · intro r net s h
    exact ⟨fun hnet => netTraderSy_covers_iff hnet h, fun hnet => netTraderSy_le_proceeds hnet h⟩

/-- A rate just below three. -/
def almostThree : Number := ⟨3 * denom - 1, by decide⟩

def sampleSale : Wrapper := .sellPt sampleInvocation 1000 10

theorem sampleSale_run :
    ∃ b, sampleBank = .ok b ∧ ∃ p, sampleSale.run b = .ok p ∧ True := by
  decide +kernel

theorem ceilings_iff_sample :
    (∃ n, pyToSyCeil almostThree 3 = .ok n ∧
      (((3 : UInt64).toNat : ℚ) ≤ n.toNat * almostThree.value ↔
        CeilCovers almostThree (3 : UInt64).toNat)) ∧
    (∃ (b : Bank (Exact ℚ)) (p : _), sampleSwap.run b = .ok p ∧
      ((20000 : UInt64) ≤ p.2.1 ↔ CeilCovers 1 (20000 : UInt64).toNat)) ∧
    (∃ (b : Bank (Exact ℚ)) (p : _), sampleSale.run b = .ok p ∧
      ∀ k, Redeems p.2.2 k → ((10 : UInt64).toNat : ℚ) ≤ k.toNat * (1 : Number).value) ∧
    ∃ s, netTraderSyFromNetTraderAsset (Exact.num (-5 / 2 : ℚ)) almostThree = .ok s ∧
      (((-⌊(-5 / 2 : ℚ)⌋ : Int) : ℚ) ≤ ((-s : Int) : ℚ) * almostThree.exact ℚ ↔
        CeilCovers almostThree (-⌊(-5 / 2 : ℚ)⌋).toNat) := by
  obtain ⟨hconvert, hbuy, hsell, htrade⟩ := ceilings_iff ℚ
  refine ⟨?_, ?_, ?_, ?_⟩
  · obtain ⟨n, hn, -⟩ : ∃ n, pyToSyCeil almostThree 3 = .ok n ∧ True := by decide +kernel
    exact ⟨n, hn, (hconvert _ _ n hn).1⟩
  · obtain ⟨b, -, ⟨b', out, log⟩, hrun, -⟩ := sampleSwap_run
    exact ⟨b, _, hrun, hbuy sampleInvocation 12000 20000 out b b' log hrun rfl⟩
  · obtain ⟨b, -, ⟨b', u, log⟩, hrun, -⟩ := sampleSale_run
    exact ⟨b, _, hrun, fun k hk => hsell sampleInvocation 1000 10 k b b' u log (.inl hrun)
      (by decide +kernel) (by decide +kernel) hk⟩
  · obtain ⟨s, hs, -⟩ : ∃ s, netTraderSyFromNetTraderAsset (Exact.num (-5 / 2 : ℚ)) almostThree
        = .ok s ∧ True := by decide +kernel
    exact ⟨s, hs, (htrade _ _ s hs).1 (by norm_num)⟩

/-- One SY for three PY, of which it makes two. -/
theorem not_ceil_covers_almostThree :
    ¬ ∀ (r : Number) (a n p : UInt64), 0 < r → pyToSyCeil r a = .ok n → syToPy r n = .ok p →
      (a.toNat : ℚ) ≤ n.toNat * r.value ∧ a ≤ p := by
  intro hclaim
  obtain ⟨n, hn, p, hp, hshort⟩ : ∃ n, pyToSyCeil almostThree 3 = .ok n ∧
      ∃ p, syToPy almostThree n = .ok p ∧ p = 2 := by decide +kernel
  have hcontra := (hclaim almostThree 3 n p (by decide +kernel) hn hp).2
  rw [hshort] at hcontra
  exact absurd hcontra (by decide)

end ExponentCore
