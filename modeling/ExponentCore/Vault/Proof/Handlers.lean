import ExponentCore.Vault.Proof.Position
import ExponentCore.Vault.World

/-!
# What the handlers do

A handler that reads the SY state is a refresh (`Refreshed`: the update, then the staging of the
vault's own position), possibly the staging of a user's position, and one accounting change:
`Minted`, `Burned`, `Deposited`, `Withdrawn`. Each handler has one lemma `…_eq_ok` that takes a
successful call apart along these lines; nothing below unfolds a handler again.
-/

set_option autoImplicit false

namespace ExponentCore

open Number

variable {v v' : Vault} {p p' u u' : YieldTokenPosition} {now : UInt32} {syState : SyState}
  {amount x py a : UInt64}

/-! ## The pieces -/

/-- `syForPt` is up to date: the value of the PT, but no more than the active SY. -/
def Vault.Backed (v : Vault) : Prop :=
  v.syForPt.toNat = min (Vault.ptValue v.ptSupply v.lastSeenSyExchangeRate) v.activeSy.toNat

theorem Vault.Backed.le_ptValue {v : Vault} (h : v.Backed) :
    v.syForPt.toNat ≤ Vault.ptValue v.ptSupply v.lastSeenSyExchangeRate :=
  h.trans_le (min_le_left _ _)

/-- The state after an update, and after the vault's own position has earned. -/
structure Refreshed (v : Vault) (p : YieldTokenPosition) (now : UInt32) (syState : SyState)
    (v₁ v₂ : Vault) (p₁ : YieldTokenPosition) : Prop where
  update : v.updateFromSyState syState now = .ok v₁
  earn : p.earnAllWithTracking v₁ = .ok (v₂, p₁)

theorem Refreshed.updated {v₁ v₂ : Vault} {p₁ : YieldTokenPosition}
    (h : Refreshed v p now syState v₁ v₂ p₁) : v.Updated syState now v₁ :=
  Vault.updated_of_ok h.update

theorem Refreshed.earned {v₁ v₂ : Vault} {p₁ : YieldTokenPosition}
    (h : Refreshed v p now syState v₁ v₂ p₁) : Earned v₁ p v₂ p₁ :=
  earned_of_ok h.earn

/-- SY comes in, and PT and YT are minted for it at the current rate. -/
structure Minted (v : Vault) (p : YieldTokenPosition) (x py : UInt64) (v' : Vault)
    (p' : YieldTokenPosition) : Prop where
  price : py.toNat = x.toNat * v.lastSeenSyExchangeRate.raw / denom
  vault : ∃ e t s : UInt64, e.toNat = v.totalSyInEscrow.toNat + x.toNat ∧
    t.toNat = v.ptSupply.toNat + py.toNat ∧
    v' = { v with totalSyInEscrow := e, ptSupply := t, syForPt := s }
  backed : v'.Backed
  position : ∃ b : UInt64, b.toNat = p.ytBalance.toNat + py.toNat ∧ p' = { p with ytBalance := b }

/-- PT is burned, and YT too while the vault is active, for a share of the backing. -/
structure Burned (v : Vault) (p : YieldTokenPosition) (now : UInt32) (a x : UInt64) (v' : Vault)
    (p' : YieldTokenPosition) : Prop where
  price : x.toNat = a.toNat * (v.syForPt.toNat * denom / v.ptSupply.toNat) / denom
  vault : ∃ e t s : UInt64, e.toNat + x.toNat = v.totalSyInEscrow.toNat ∧
    t.toNat + a.toNat = v.ptSupply.toNat ∧
    v' = { v with totalSyInEscrow := e, ptSupply := t, syForPt := s }
  backed : v'.Backed
  position : v.isActive now = .ok true ∧ (∃ b : UInt64, b.toNat + a.toNat = p.ytBalance.toNat ∧
      p' = { p with ytBalance := b }) ∨
    v.isActive now = .ok false ∧ p' = p

/-- YT moves from one position to another. -/
structure Moved (v : Vault) (src dst : YieldTokenPosition) (a : UInt64) (v' : Vault)
    (src' dst' : YieldTokenPosition) : Prop where
  vault : ∃ s : UInt64, v' = { v with syForPt := s }
  backed : v'.Backed
  source : ∃ b : UInt64, b.toNat + a.toNat = src.ytBalance.toNat ∧
    src' = { src with ytBalance := b }
  destination : ∃ b : UInt64, b.toNat = dst.ytBalance.toNat + a.toNat ∧
    dst' = { dst with ytBalance := b }

/-- A strip mints no more than the SY is worth. -/
theorem Minted.price_le (h : Minted v p x py v' p') :
    py.toNat * denom ≤ x.toNat * v.lastSeenSyExchangeRate.raw := by
  rw [h.price]
  exact Nat.div_mul_le_self _ _

/-- A merge pays no more than the PY is worth, as the backing of the PT is at most its value. -/
theorem Burned.price_le (h : Burned v p now a x v' p')
    (hp : v.syForPt.toNat ≤ Vault.ptValue v.ptSupply v.lastSeenSyExchangeRate) :
    x.toNat * v.lastSeenSyExchangeRate.raw ≤ a.toNat * denom := by
  have hshare : v.syForPt.toNat * denom / v.ptSupply.toNat * v.lastSeenSyExchangeRate.raw
      ≤ denom * denom := by
    rcases Nat.eq_zero_or_pos v.ptSupply.toNat with h0 | hpt
    · rw [h0, Nat.div_zero, Nat.zero_mul]
      exact Nat.zero_le _
    · have hvalue : v.syForPt.toNat * v.lastSeenSyExchangeRate.raw
          ≤ v.ptSupply.toNat * denom :=
        (Nat.mul_le_mul_right _ hp).trans (Nat.div_mul_le_self _ _)
      refine Nat.le_of_mul_le_mul_right ?_ hpt
      calc v.syForPt.toNat * denom / v.ptSupply.toNat * v.lastSeenSyExchangeRate.raw
            * v.ptSupply.toNat
          = v.syForPt.toNat * denom / v.ptSupply.toNat * v.ptSupply.toNat
            * v.lastSeenSyExchangeRate.raw := Nat.mul_right_comm _ _ _
        _ ≤ v.syForPt.toNat * denom * v.lastSeenSyExchangeRate.raw :=
            Nat.mul_le_mul_right _ (Nat.div_mul_le_self _ _)
        _ = v.syForPt.toNat * v.lastSeenSyExchangeRate.raw * denom := Nat.mul_right_comm _ _ _
        _ ≤ v.ptSupply.toNat * denom * denom := Nat.mul_le_mul_right _ hvalue
        _ = denom * denom * v.ptSupply.toNat := by rw [Nat.mul_assoc, Nat.mul_comm]
  refine Nat.le_of_mul_le_mul_right ?_ denom_pos
  calc x.toNat * v.lastSeenSyExchangeRate.raw * denom
      = x.toNat * denom * v.lastSeenSyExchangeRate.raw := Nat.mul_right_comm _ _ _
    _ ≤ a.toNat * (v.syForPt.toNat * denom / v.ptSupply.toNat)
          * v.lastSeenSyExchangeRate.raw := by
        rw [h.price]
        exact Nat.mul_le_mul_right _ (Nat.div_mul_le_self _ _)
    _ = a.toNat * (v.syForPt.toNat * denom / v.ptSupply.toNat
          * v.lastSeenSyExchangeRate.raw) := Nat.mul_assoc _ _ _
    _ ≤ a.toNat * (denom * denom) := Nat.mul_le_mul_left _ hshare
    _ = a.toNat * denom * denom := (Nat.mul_assoc _ _ _).symm

theorem backed_of_setSyForPt (h : v.setSyForPt = .ok v') :
    (∃ s : UInt64, v' = { v with syForPt := s }) ∧ v'.Backed := by
  obtain ⟨s, rfl, hs⟩ := Vault.setSyForPt_eq_ok h
  exact ⟨⟨s, rfl⟩, hs⟩

theorem updateVaultYield_eq_ok {r : Vault × YieldTokenPosition} :
    updateVaultYield v p now syState = .ok r ↔ ∃ v₁, Refreshed v p now syState v₁ r.1 r.2 := by
  simp only [updateVaultYield, bind_eq_ok]
  constructor
  · rintro ⟨v₁, h₁, h₂⟩
    exact ⟨v₁, h₁, h₂⟩
  · rintro ⟨v₁, h₁, h₂⟩
    exact ⟨v₁, h₁, h₂⟩

@[simp] theorem requireNoEmergency_eq_ok {k : Unit} :
    requireNoEmergency v = .ok k ↔ v.isInEmergencyMode = false := by
  simp [requireNoEmergency]

theorem incYtBalance_eq_ok : p.incYtBalance amount = .ok p' ↔
    ∃ b : UInt64, b.toNat = p.ytBalance.toNat + amount.toNat ∧ { p with ytBalance := b } = p' := by
  simp [YieldTokenPosition.incYtBalance, bind_eq_ok, checkedAdd_eq_some]

theorem decYtBalance_eq_ok : p.decYtBalance amount = .ok p' ↔
    ∃ b : UInt64, b.toNat + amount.toNat = p.ytBalance.toNat ∧ { p with ytBalance := b } = p' := by
  simp [YieldTokenPosition.decYtBalance, bind_eq_ok, checkedSub_eq_some]

/-! ## Strip and merge -/

theorem handleStrip_eq_ok (h : handleStrip v p now syState x = .ok (v', p', py)) :
    ∃ v₁ v₂ p₁, Refreshed v p now syState v₁ v₂ p₁ ∧ v₂.isInEmergencyMode = false ∧
      Minted v₂ p₁ x py v' p' := by
  simp only [handleStrip, bind_eq_ok, updateVaultYield_eq_ok, requireNoEmergency_eq_ok,
    syToPy_eq_ok, Vault.incTotalSyInEscrow_eq_ok, Vault.incPtSupply_eq_ok, incYtBalance_eq_ok,
    Prod.exists, Except.ok.injEq, Prod.mk.injEq] at h
  obtain ⟨v₂, p₁, ⟨v₁, hr⟩, -, he, _, hprice, _, ⟨e, hx, rfl⟩, _, ⟨t, ht, -, rfl⟩, _, ⟨b, hb, rfl⟩,
    v₃, hs, rfl, rfl, rfl⟩ := h
  obtain ⟨⟨s, hv⟩, hbacked⟩ := backed_of_setSyForPt hs
  exact ⟨v₁, v₂, p₁, hr, he, hprice, ⟨e, t, s, hx, ht, hv⟩, hbacked, b, hb, rfl⟩

theorem handleMerge_eq_ok (h : handleMerge v p now syState a = .ok (v', p', x)) :
    ∃ v₁ v₂ p₁, Refreshed v p now syState v₁ v₂ p₁ ∧ v₂.isInEmergencyMode = false ∧
      Burned v₂ p₁ now a x v' p' := by
  simp only [handleMerge, bind_eq_ok, updateVaultYield_eq_ok, requireNoEmergency_eq_ok,
    adjustVaultBalances, Vault.decTotalSyInEscrow_eq_ok, Vault.decPtSupply_eq_ok, Prod.exists,
    Except.ok.injEq, Prod.mk.injEq] at h
  obtain ⟨v₂, p₁, ⟨v₁, hr⟩, -, he, active, hact, p₂, hp, x', hx, v₃, ⟨_, ⟨e, hesc, rfl⟩, t, ht,
    rfl⟩, v₄, hs, rfl, rfl, rfl⟩ := h
  obtain ⟨⟨s, hv⟩, hbacked⟩ := backed_of_setSyForPt hs
  refine ⟨v₁, v₂, p₁, hr, he, ?_, ⟨e, t, s, hesc, ht, hv⟩, hbacked, ?_⟩
  · rw [calcAmountSy, natural_mul_floor, Vault.ptRedemptionRate, fromRatio_raw] at hx
    exact hx
  · cases active with
    | true =>
      obtain ⟨b, hb, rfl⟩ := decYtBalance_eq_ok.1 hp
      exact .inl ⟨hact, b, hb, rfl⟩
    | false => exact .inr ⟨hact, (Except.ok.inj hp).symm⟩

/-! ## Moving YT -/

theorem handleDepositYt_eq_ok
    (h : handleDepositYt v p u syState now amount = .ok (v', p', u')) :
    ∃ v₁ v₂ p₁ v₃ u₁, Refreshed v p now syState v₁ v₂ p₁ ∧ v₂.isInEmergencyMode = false ∧
      u.earnAllWithTracking v₂ = .ok (v₃, u₁) ∧ Moved v₃ p₁ u₁ amount v' p' u' := by
  simp only [handleDepositYt, bind_eq_ok, updateVaultYield_eq_ok, requireNoEmergency_eq_ok,
    yieldPositionEarn, incYtBalance_eq_ok, decYtBalance_eq_ok, Prod.exists, Except.ok.injEq,
    Prod.mk.injEq] at h
  obtain ⟨v₂, p₁, ⟨v₁, hr⟩, -, he, v₃, u₁, hu, _, ⟨b, hb, rfl⟩, _, ⟨c, hc, rfl⟩, v₄, hs, rfl, rfl,
    rfl⟩ := h
  obtain ⟨hv, hbacked⟩ := backed_of_setSyForPt hs
  exact ⟨v₁, v₂, p₁, v₃, u₁, hr, he, hu, hv, hbacked, ⟨c, hc, rfl⟩, b, hb, rfl⟩

theorem handleWithdrawYt_eq_ok
    (h : handleWithdrawYt v p u syState now amount = .ok (v', p', u')) :
    ∃ v₁ v₂ p₁ v₃ u₁, Refreshed v p now syState v₁ v₂ p₁ ∧
      u.earnAllWithTracking v₂ = .ok (v₃, u₁) ∧ Moved v₃ u₁ p₁ amount v' u' p' := by
  simp only [handleWithdrawYt, bind_eq_ok, updateVaultYield_eq_ok, yieldPositionEarn,
    incYtBalance_eq_ok, decYtBalance_eq_ok, Prod.exists, Except.ok.injEq, Prod.mk.injEq] at h
  obtain ⟨v₂, p₁, ⟨v₁, hr⟩, v₃, u₁, hu, _, ⟨b, hb, rfl⟩, _, ⟨c, hc, rfl⟩, v₄, hs, rfl, rfl,
    rfl⟩ := h
  obtain ⟨hv, hbacked⟩ := backed_of_setSyForPt hs
  exact ⟨v₁, v₂, p₁, v₃, u₁, hr, hu, hv, hbacked, ⟨b, hb, rfl⟩, c, hc, rfl⟩

theorem handleStageYtYield_eq_ok (h : handleStageYtYield v p u syState now = .ok (v', p', u')) :
    ∃ v₁ v₂ v₃, Refreshed v p now syState v₁ v₂ p' ∧ v₂.isInEmergencyMode = false ∧
      u.earnAllWithTracking v₂ = .ok (v₃, u') ∧ (∃ s : UInt64, v' = { v₃ with syForPt := s }) ∧
      v'.Backed := by
  simp only [handleStageYtYield, bind_eq_ok, updateVaultYield_eq_ok, requireNoEmergency_eq_ok,
    yieldPositionEarn, Prod.exists, Except.ok.injEq, Prod.mk.injEq] at h
  obtain ⟨v₂, p₁, ⟨v₁, hr⟩, -, he, v₃, u₁, hu, v₄, hs, rfl, rfl, rfl⟩ := h
  obtain ⟨hv, hbacked⟩ := backed_of_setSyForPt hs
  exact ⟨v₁, v₂, v₃, hr, he, hu, hv, hbacked⟩

/-! ## Collecting -/

theorem Amount.toU64_le {amount : Amount} {k n : UInt64} (h : amount.toU64 k = .ok n) :
    n.toNat ≤ k.toNat := by
  cases amount with
  | all => cases h; exact le_rfl
  | some r =>
    simp only [Amount.toU64] at h
    split at h
    · rename_i hle
      cases h
      exact UInt64.le_iff_toNat_le.1 hle
    · cases h

/-- Staged interest leaves a position, the escrow and the uncollected SY. -/
structure InterestPaid (v : Vault) (p : YieldTokenPosition) (a : UInt64) (v' : Vault)
    (p' : YieldTokenPosition) : Prop where
  vault : ∃ e c : UInt64, e.toNat + a.toNat = v.totalSyInEscrow.toNat ∧
    c.toNat + a.toNat = v.uncollectedSy.toNat ∧
    v' = { v with totalSyInEscrow := e, uncollectedSy := c }
  position : ∃ s : UInt64, s.toNat + a.toNat = p.interest.staged.toNat ∧
    p' = { p with interest := { p.interest with staged := s } }

/-- Treasury SY leaves the escrow. -/
def TreasuryPaid (v : Vault) (a : UInt64) (v' : Vault) : Prop :=
  ∃ e t : UInt64, e.toNat + a.toNat = v.totalSyInEscrow.toNat ∧
    t.toNat + a.toNat = v.treasurySy.toNat ∧
    v' = { v with totalSyInEscrow := e, treasurySy := t }

theorem collectInterest_eq_ok {amount : Amount} {n f : UInt64}
    (h : collectInterest v p amount = .ok (v', p', n, f)) :
    ∃ a v₁ p₁, amount.toU64 p.interest.staged = .ok a ∧
      p.earnAllWithTracking v = .ok (v₁, p₁) ∧ InterestPaid v₁ p₁ a v' p' := by
  simp only [collectInterest, yieldPositionEarn, handleCollectInterest, bind_eq_ok,
    Vault.decTotalSyInEscrow_eq_ok, Vault.decUncollectedSy_eq_ok, YieldTokenTracker.collect,
    unwrap_eq_ok, checkedSub_eq_some, Prod.exists, Except.ok.injEq, Prod.mk.injEq] at h
  obtain ⟨a, ha, v₁, p₁, hp, _, _, -, _, ⟨e, he, rfl⟩, _, ⟨s, hs, rfl⟩, _, ⟨c, hc, rfl⟩, rfl,
    rfl, -⟩ := h
  exact ⟨a, v₁, p₁, ha, hp, ⟨e, c, he, hc, rfl⟩, s, hs, rfl⟩

theorem collectTreasuryInterest_eq_ok {amount : Amount} {kind : CollectTreasuryInterestKind}
    (h : collectTreasuryInterest v p amount kind = .ok (v', p')) :
    (kind = .yieldPosition ∧ ∃ a, amount.toU64 p.interest.staged = .ok a ∧
      InterestPaid v p a v' p') ∨
    kind = .treasuryInterest ∧ p' = p ∧ ∃ a, amount.toU64 v.treasurySy = .ok a ∧
      TreasuryPaid v a v' := by
  cases kind with
  | yieldPosition =>
    simp only [collectTreasuryInterest, bind_eq_ok, Vault.decTotalSyInEscrow_eq_ok,
      Vault.decUncollectedSy_eq_ok, YieldTokenTracker.collect, unwrap_eq_ok, checkedSub_eq_some,
      Except.ok.injEq, Prod.mk.injEq] at h
    obtain ⟨a, ha, _, ⟨s, hs, rfl⟩, _, ⟨c, hc, rfl⟩, _, ⟨e, he, rfl⟩, rfl, rfl⟩ := h
    exact .inl ⟨rfl, a, ha, ⟨e, c, he, hc, rfl⟩, s, hs, rfl⟩
  | treasuryInterest =>
    simp only [collectTreasuryInterest, bind_eq_ok, Vault.decTotalSyInEscrow_eq_ok,
      Vault.collectTreasuryInterest_eq_ok, Except.ok.injEq, Prod.mk.injEq] at h
    obtain ⟨a, ha, _, ⟨t, ht, rfl⟩, _, ⟨e, he, rfl⟩, rfl, rfl⟩ := h
    exact .inr ⟨rfl, rfl, a, ha, e, t, he, ht, rfl⟩

/-! ## Collecting emissions and changing their list -/

theorem collectEmissionAt_eq_ok {index : UInt16}
    (h : p.collectEmissionAt index amount = .ok p') :
    ∃ t s, p.emissions[index.toNat]? = some t ∧ s.toNat + amount.toNat = t.staged.toNat ∧
      p' = { p with emissions := p.emissions.set index.toNat { t with staged := s } } := by
  simp only [YieldTokenPosition.collectEmissionAt, YieldTokenTracker.collect, bind_eq_ok,
    getAt_eq_ok, setAt_eq_ok, unwrap_eq_ok, checkedSub_eq_some, Except.ok.injEq] at h
  obtain ⟨t, ht, _, ⟨s, hs, rfl⟩, es, ⟨-, rfl⟩, rfl⟩ := h
  exact ⟨t, s, ht, hs, rfl⟩

theorem collectEmission_eq_ok {index : UInt16} {amount : Amount} {n f : UInt64}
    (h : collectEmission v p index amount = .ok (p', n, f)) :
    ∃ a, p.collectEmissionAt index a = .ok p' := by
  simp only [collectEmission, bind_eq_ok, Prod.exists, Except.ok.injEq, Prod.mk.injEq] at h
  obtain ⟨_, -, a, -, _, -, _, -, _, _, -, q, hq, rfl, -⟩ := h
  exact ⟨a, hq⟩

theorem collectTreasuryEmission_eq_ok {index : UInt16} {amount : Amount}
    {kind : CollectTreasuryEmissionKind}
    (h : collectTreasuryEmission v p index amount kind = .ok (v', p')) :
    (kind = .yieldPosition ∧ v' = v ∧ ∃ a, p.collectEmissionAt index a = .ok p') ∨
    kind = .treasuryEmission ∧ p' = p ∧ ∃ (a : UInt64) (e : EmissionInfo) (t : UInt64),
      v.emissions[index.toNat]? = some e ∧
      t.toNat + a.toNat = e.treasuryEmission.toNat ∧
      v' = { v with
        emissions := v.emissions.set index.toNat { e with treasuryEmission := t } } := by
  cases kind with
  | yieldPosition =>
    simp only [collectTreasuryEmission, bind_eq_ok, Except.ok.injEq, Prod.mk.injEq] at h
    obtain ⟨_, -, a, -, _, -, q, hq, rfl, rfl⟩ := h
    exact .inl ⟨rfl, rfl, a, hq⟩
  | treasuryEmission =>
    simp only [collectTreasuryEmission, bind_eq_ok, getAt_eq_ok, setAt_eq_ok, unwrap_eq_ok,
      checkedSub_eq_some, Except.ok.injEq, Prod.mk.injEq] at h
    obtain ⟨e, he, a, -, _, -, t, ht, es, ⟨-, rfl⟩, rfl, rfl⟩ := h
    exact .inr ⟨rfl, rfl, a, e, t, he, ht, rfl⟩

theorem addEmission_eq_ok {token treasury : Pubkey} {fee : UInt16}
    (h : v.addEmission token syState treasury fee = .ok v') :
    ∃ i, syState.emissionIndexes[v.emissions.length]? = some i ∧
      v' = { v with emissions := v.emissions ++ [EmissionInfo.new token treasury i fee] } := by
  simp only [Vault.addEmission, bind_eq_ok, getAt_eq_ok, Except.ok.injEq] at h
  obtain ⟨i, hi, rfl⟩ := h
  exact ⟨i, hi, rfl⟩

theorem removeVaultEmission_eq_ok {index : UInt8} (h : removeVaultEmission v index = .ok v') :
    index.toNat < v.emissions.length ∧
      v' = { v with emissions := v.emissions.eraseIdx index.toNat } := by
  unfold removeVaultEmission at h
  split at h
  · rename_i hlt
    exact ⟨hlt, (Except.ok.inj h).symm⟩
  · cases h

/-! ## Running a handler on the world -/

namespace VaultWorld

variable {w w' : VaultWorld} {user : Nat}

theorem withOwnPosition_eq_ok
    {f : Vault → YieldTokenPosition → Outcome (Vault × YieldTokenPosition × UInt64)} :
    w.withOwnPosition now f = .ok w' ↔
      ∃ v p n, f w.vault w.yieldPosition = .ok (v, p, n) ∧
        { w with vault := v, yieldPosition := p, clock := now } = w' := by
  simp [withOwnPosition, bind_eq_ok]

theorem withUserPosition_eq_ok
    {f : Vault → YieldTokenPosition → YieldTokenPosition →
      Outcome (Vault × YieldTokenPosition × YieldTokenPosition)} :
    w.withUserPosition now user f = .ok w' ↔
      ∃ u, w.userPositions[user]? = some u ∧
        ∃ v p u', f w.vault w.yieldPosition u = .ok (v, p, u') ∧
        { w with
          vault := v, yieldPosition := p, userPositions := w.userPositions.set user u'
          clock := now } = w' := by
  simp [withUserPosition, bind_eq_ok]

section
variable {v₁ v₂ : Vault} {p₁ : YieldTokenPosition}
  (hr : Refreshed w.vault w.yieldPosition now syState v₁ v₂ p₁)
include hr

theorem ownStaging_of_refreshed :
    w.ownStaging now syState = [⟨.vault, v₁, w.yieldPosition⟩] := by
  simp [ownStaging, hr.update]

theorem userStaging_of_refreshed (hu : w.userPositions[user]? = some u) :
    w.userStaging now syState user = [⟨.user user, v₂, u⟩] := by
  have h : updateVaultYield w.vault w.yieldPosition now syState = .ok (v₂, p₁) :=
    updateVaultYield_eq_ok.2 ⟨v₁, hr⟩
  simp [userStaging, hu, h]

end

theorem step_strip (h : w.step (.strip now syState x) = .ok w') :
    ∃ v₁ v₂ p₁ v' p' py, Refreshed w.vault w.yieldPosition now syState v₁ v₂ p₁ ∧
      v₂.isInEmergencyMode = false ∧ Minted v₂ p₁ x py v' p' ∧
      w' = { w with vault := v', yieldPosition := p', clock := now } := by
  rw [step, withOwnPosition_eq_ok] at h
  obtain ⟨v', p', py, hf, rfl⟩ := h
  obtain ⟨v₁, v₂, p₁, hr, he, hm⟩ := handleStrip_eq_ok hf
  exact ⟨v₁, v₂, p₁, v', p', py, hr, he, hm, rfl⟩

theorem step_merge (h : w.step (.merge now syState a) = .ok w') :
    ∃ v₁ v₂ p₁ v' p' x, Refreshed w.vault w.yieldPosition now syState v₁ v₂ p₁ ∧
      v₂.isInEmergencyMode = false ∧ Burned v₂ p₁ now a x v' p' ∧
      w' = { w with vault := v', yieldPosition := p', clock := now } := by
  rw [step, withOwnPosition_eq_ok] at h
  obtain ⟨v', p', x, hf, rfl⟩ := h
  obtain ⟨v₁, v₂, p₁, hr, he, hb⟩ := handleMerge_eq_ok hf
  exact ⟨v₁, v₂, p₁, v', p', x, hr, he, hb, rfl⟩

theorem step_depositYt (h : w.step (.depositYt now syState user a) = .ok w') :
    ∃ u v₁ v₂ p₁ v₃ u₁ v' p' u', w.userPositions[user]? = some u ∧
      Refreshed w.vault w.yieldPosition now syState v₁ v₂ p₁ ∧ v₂.isInEmergencyMode = false ∧
      u.earnAllWithTracking v₂ = .ok (v₃, u₁) ∧ Moved v₃ p₁ u₁ a v' p' u' ∧
      w' = { w with
        vault := v', yieldPosition := p', userPositions := w.userPositions.set user u'
        clock := now } := by
  rw [step, withUserPosition_eq_ok] at h
  obtain ⟨u, hu, v', p', u', hf, rfl⟩ := h
  obtain ⟨v₁, v₂, p₁, v₃, u₁, hr, he, hearn, hm⟩ := handleDepositYt_eq_ok hf
  exact ⟨u, v₁, v₂, p₁, v₃, u₁, v', p', u', hu, hr, he, hearn, hm, rfl⟩

theorem step_withdrawYt (h : w.step (.withdrawYt now syState user a) = .ok w') :
    ∃ u v₁ v₂ p₁ v₃ u₁ v' p' u', w.userPositions[user]? = some u ∧
      Refreshed w.vault w.yieldPosition now syState v₁ v₂ p₁ ∧
      u.earnAllWithTracking v₂ = .ok (v₃, u₁) ∧ Moved v₃ u₁ p₁ a v' u' p' ∧
      w' = { w with
        vault := v', yieldPosition := p', userPositions := w.userPositions.set user u'
        clock := now } := by
  rw [step, withUserPosition_eq_ok] at h
  obtain ⟨u, hu, v', p', u', hf, rfl⟩ := h
  obtain ⟨v₁, v₂, p₁, v₃, u₁, hr, hearn, hm⟩ := handleWithdrawYt_eq_ok hf
  exact ⟨u, v₁, v₂, p₁, v₃, u₁, v', p', u', hu, hr, hearn, hm, rfl⟩

theorem step_stageYield (h : w.step (.stageYield now syState user) = .ok w') :
    ∃ u v₁ v₂ p₁ v₃ u₁ v', w.userPositions[user]? = some u ∧
      Refreshed w.vault w.yieldPosition now syState v₁ v₂ p₁ ∧ v₂.isInEmergencyMode = false ∧
      u.earnAllWithTracking v₂ = .ok (v₃, u₁) ∧ (∃ s : UInt64, v' = { v₃ with syForPt := s }) ∧
      v'.Backed ∧
      w' = { w with
        vault := v', yieldPosition := p₁, userPositions := w.userPositions.set user u₁
        clock := now } := by
  rw [step, withUserPosition_eq_ok] at h
  obtain ⟨u, hu, v', p₁, u₁, hf, rfl⟩ := h
  obtain ⟨v₁, v₂, v₃, hr, he, hearn, hv, hb⟩ := handleStageYtYield_eq_ok hf
  exact ⟨u, v₁, v₂, p₁, v₃, u₁, v', hu, hr, he, hearn, hv, hb, rfl⟩

theorem step_collectInterest {amount : Amount}
    (h : w.step (.collectInterest now user amount) = .ok w') :
    ∃ u a v₁ u₁ v' u', w.userPositions[user]? = some u ∧
      amount.toU64 u.interest.staged = .ok a ∧ u.earnAllWithTracking w.vault = .ok (v₁, u₁) ∧
      InterestPaid v₁ u₁ a v' u' ∧
      w' = { w with vault := v', userPositions := w.userPositions.set user u' } := by
  simp only [step, bind_eq_ok, getAt_eq_ok, Prod.exists, Except.ok.injEq] at h
  obtain ⟨u, hu, v', u', n, f, hf, rfl⟩ := h
  obtain ⟨a, v₁, u₁, ha, hearn, hp⟩ := collectInterest_eq_ok hf
  exact ⟨u, a, v₁, u₁, v', u', hu, ha, hearn, hp, rfl⟩

theorem step_collectTreasuryInterest {amount : Amount} {kind : CollectTreasuryInterestKind}
    (h : w.step (.collectTreasuryInterest amount kind) = .ok w') :
    ∃ v' p' a, w' = { w with vault := v', yieldPosition := p' } ∧
      (kind = .yieldPosition ∧ InterestPaid w.vault w.yieldPosition a v' p' ∨
        kind = .treasuryInterest ∧ p' = w.yieldPosition ∧ TreasuryPaid w.vault a v') := by
  simp only [step, bind_eq_ok, Prod.exists, Except.ok.injEq] at h
  obtain ⟨v', p', hf, rfl⟩ := h
  rcases collectTreasuryInterest_eq_ok hf with ⟨hk, a, -, hp⟩ | ⟨hk, hp, a, -, ht⟩
  · exact ⟨v', p', a, rfl, .inl ⟨hk, hp⟩⟩
  · exact ⟨v', p', a, rfl, .inr ⟨hk, hp, ht⟩⟩

theorem step_collectEmission {index : UInt16} {amount : Amount}
    (h : w.step (.collectEmission user index amount) = .ok w') :
    ∃ u a u', w.userPositions[user]? = some u ∧ u.collectEmissionAt index a = .ok u' ∧
      w' = { w with userPositions := w.userPositions.set user u' } := by
  simp only [step, bind_eq_ok, getAt_eq_ok, Prod.exists, Except.ok.injEq] at h
  obtain ⟨u, hu, u', n, f, hf, rfl⟩ := h
  obtain ⟨a, ha⟩ := collectEmission_eq_ok hf
  exact ⟨u, a, u', hu, ha, rfl⟩

theorem step_collectTreasuryEmission {index : UInt16} {amount : Amount}
    {kind : CollectTreasuryEmissionKind}
    (h : w.step (.collectTreasuryEmission index amount kind) = .ok w') :
    (kind = .yieldPosition ∧ ∃ a p', w.yieldPosition.collectEmissionAt index a = .ok p' ∧
      w' = { w with yieldPosition := p' }) ∨
    kind = .treasuryEmission ∧ ∃ (a : UInt64) (e : EmissionInfo) (t : UInt64),
      w.vault.emissions[index.toNat]? = some e ∧
      t.toNat + a.toNat = e.treasuryEmission.toNat ∧
      w' = { w with vault := { w.vault with
        emissions := w.vault.emissions.set index.toNat { e with treasuryEmission := t } } } := by
  simp only [step, bind_eq_ok, Prod.exists, Except.ok.injEq] at h
  obtain ⟨v', p', hf, rfl⟩ := h
  rcases collectTreasuryEmission_eq_ok hf with ⟨hk, rfl, a, ha⟩ | ⟨hk, rfl, a, e, t, he, ht, rfl⟩
  · exact .inl ⟨hk, a, p', ha, rfl⟩
  · exact .inr ⟨hk, a, e, t, he, ht, rfl⟩

theorem step_addEmission {accounts : CpiAccounts} {token treasury : Pubkey} {fee : UInt16}
    (h : w.step (.addEmission accounts syState token treasury fee) = .ok w') :
    ∃ i, syState.emissionIndexes[w.vault.emissions.length]? = some i ∧
      w' = { w with vault := { w.vault with
        cpiAccounts := accounts
        emissions := w.vault.emissions ++ [EmissionInfo.new token treasury i fee] } } := by
  simp only [step, bind_eq_ok, Except.ok.injEq] at h
  obtain ⟨v', hf, rfl⟩ := h
  obtain ⟨i, hi, rfl⟩ := addEmission_eq_ok hf
  exact ⟨i, hi, rfl⟩

theorem step_removeVaultEmission {index : UInt8}
    (h : w.step (.removeVaultEmission index) = .ok w') :
    index.toNat < w.vault.emissions.length ∧
      w' = { w with vault := { w.vault with
        emissions := w.vault.emissions.eraseIdx index.toNat } } := by
  simp only [step, bind_eq_ok, Except.ok.injEq] at h
  obtain ⟨v', hf, rfl⟩ := h
  obtain ⟨hlt, rfl⟩ := removeVaultEmission_eq_ok hf
  exact ⟨hlt, rfl⟩

end VaultWorld

end ExponentCore
