import ExponentCore.Vault.Proof.Forecast

/-!
# When the vault stays solvent

`Vault.SyBalanceInvariant` does not hold of every run. A staging credits interest from the rounded
reciprocals of two rates, which can be more than the SY that is left, and `collectInterest` stages
without refreshing `syForPt` as the other handlers do. `syBalanceInvariant_iff_covered` is the exact
condition, on the balances, the rates and the counters that each step finds and on its report: the
interest that the rates give fits in the active SY (`VaultWorld.Covered`).
-/

set_option autoImplicit false

namespace ExponentCore

variable {v v' v₁ v₂ v₃ : Vault} {p p' p₁ u u₁ : YieldTokenPosition} {now : UInt32}
  {syState : SyState}

/-! ## The condition -/

namespace VaultWorld

/-- **The condition**: the interest of the rates fits in the active SY, with the SY that a strip pays
in and beside the SY that a merge pays out. Collecting interest records no report and does not
refresh the backing of the PT, so there it has to fit beside that backing. -/
def Covered (w : VaultWorld) : VaultOp → Prop
  | .strip now syState amountSy =>
    w.interestAt now syState w.yieldPosition
      ≤ w.vault.activeSyAt syState now + amountSy.toNat
  | .merge now syState amountPy =>
    w.interestAt now syState w.yieldPosition + w.vault.payoutAt syState now amountPy
      ≤ w.vault.activeSyAt syState now
  | .depositYt now syState user _ | .withdrawYt now syState user _ | .stageYield now syState user =>
    ∀ u ∈ w.userPositions[user]?,
      w.interestAt now syState w.yieldPosition + w.interestAt now syState u
        ≤ w.vault.activeSyAt syState now
  | .collectInterest _ user _ =>
    ∀ u ∈ w.userPositions[user]?,
      u.interestAt w.vault.finalSyExchangeRate w.vault.lastSeenSyExchangeRate
          w.vault.allTimeHighSyExchangeRate + w.vault.syForPt.toNat
        ≤ w.vault.totalSyInEscrow.toNat - w.vault.treasurySy.toNat - w.vault.uncollectedSy.toNat
  | _ => True

instance (w : VaultWorld) : ∀ op : VaultOp, Decidable (w.Covered op)
  | .strip .. | .merge .. => inferInstanceAs (Decidable (_ ≤ _))
  | .depositYt .. | .withdrawYt .. | .stageYield .. | .collectInterest .. =>
    inferInstanceAs (Decidable (∀ _ ∈ _, _ ≤ _))
  | .initializeYieldPosition .. | .collectTreasuryInterest .. | .collectEmission ..
  | .collectTreasuryEmission .. | .addEmission .. | .removeVaultEmission .. => instDecidableTrue

end VaultWorld

/-! ## One step -/

/-- What is set aside apart from the PT's backing is in the escrow. -/
def Vault.SetAside (v : Vault) : Prop :=
  v.treasurySy.toNat + v.uncollectedSy.toNat ≤ v.totalSyInEscrow.toNat

theorem Vault.SyBalanceInvariant.setAside (h : v.SyBalanceInvariant) : v.SetAside := by
  unfold Vault.SyBalanceInvariant at h
  unfold Vault.SetAside
  omega

theorem Vault.Backed.syForPt_le (h : v.Backed) : v.syForPt.toNat ≤ v.activeSy.toNat :=
  h ▸ min_le_right _ _

/-- With an up-to-date backing, only what is set aside matters. -/
theorem Vault.Backed.invariant_iff (h : v.Backed) : v.SyBalanceInvariant ↔ v.SetAside := by
  have hle := h.syForPt_le
  rw [activeSy_toNat] at hle
  unfold SyBalanceInvariant SetAside
  omega

theorem Vault.Updated.setAside (hu : v.Updated syState now v₁) (h : v.SetAside) :
    v₁.SetAside := by
  have ht := hu.treasury_le
  rw [activeSy_toNat] at ht
  unfold SetAside at *
  rw [hu.escrow, hu.uncollected]
  omega

theorem Moved.invariant_iff {src dst src' dst' : YieldTokenPosition} {a : UInt64}
    (hm : Moved v src dst a v' src' dst') : v'.SyBalanceInvariant ↔ v.SetAside := by
  rw [hm.backed.invariant_iff]
  obtain ⟨s, rfl⟩ := hm.vault
  rfl

namespace VaultWorld

variable {w w' : VaultWorld} {op : VaultOp} {user : Nat}

/-- The SY counters at the end of a handler, after a refresh and the staging of a user. -/
theorem setAside_iff_of_refreshed
    (hr : Refreshed w.vault w.yieldPosition now syState v₁ v₂ p₁)
    (hs : w.vault.SyBalanceInvariant) (hu : u.earnAllWithTracking v₂ = .ok (v₃, u₁)) :
    v₃.SetAside ↔ w.interestAt now syState w.yieldPosition + w.interestAt now syState u
      ≤ w.vault.activeSyAt syState now := by
  have hc := uncollectedSy_of_earned hr hu
  have ha := hr.updated.setAside hs.setAside
  have hv₂ := hr.earned.interest.2
  have hv₃ := (earned_of_ok hu).interest.2
  have he : v₃.totalSyInEscrow = v₁.totalSyInEscrow := by rw [hv₃, hv₂]
  have ht : v₃.treasurySy = v₁.treasurySy := by rw [hv₃, hv₂]
  rw [← hr.updated.activeSy_eq, Vault.activeSy_toNat]
  unfold Vault.SetAside at *
  rw [hr.updated.uncollected] at ha ⊢
  rw [he, ht, hc]
  omega

theorem strip_iff {x : UInt64} (hs : w.vault.SyBalanceInvariant)
    (h : w.step (.strip now syState x) = .ok w') :
    w'.vault.SyBalanceInvariant ↔ w.Covered (.strip now syState x) := by
  obtain ⟨v₁, v₂, p₁, v', p', py, hr, -, hm, rfl⟩ := step_strip h
  have hc := uncollectedSy_of_refreshed hr
  have ha := hr.updated.setAside hs.setAside
  have hv₂ := hr.earned.interest.2
  obtain ⟨e, t, s, he, -, rfl⟩ := hm.vault
  have hesc : v₂.totalSyInEscrow = v₁.totalSyInEscrow := by rw [hv₂]
  have htr : v₂.treasurySy = v₁.treasurySy := by rw [hv₂]
  rw [hm.backed.invariant_iff, Covered, ← hr.updated.activeSy_eq, Vault.activeSy_toNat]
  unfold Vault.SetAside at *
  simp only
  rw [hr.updated.uncollected] at ha ⊢
  rw [he, htr, hesc, hc]
  omega

theorem merge_iff {a : UInt64} (hs : w.vault.SyBalanceInvariant)
    (h : w.step (.merge now syState a) = .ok w') :
    w'.vault.SyBalanceInvariant ↔ w.Covered (.merge now syState a) := by
  obtain ⟨v₁, v₂, p₁, v', p', x, hr, -, hb, rfl⟩ := step_merge h
  have hc := uncollectedSy_of_refreshed hr
  have ha := hr.updated.setAside hs.setAside
  have hv₂ := hr.earned.interest.2
  have hpay := payout_of_burned hr hb
  obtain ⟨e, t, s, he, ht, rfl⟩ := hb.vault
  have hesc : v₂.totalSyInEscrow = v₁.totalSyInEscrow := by rw [hv₂]
  have htr : v₂.treasurySy = v₁.treasurySy := by rw [hv₂]
  have hpt : v₂.ptSupply = w.vault.ptSupply := by rw [hv₂, ← hr.updated.ptSupply]
  have hle := hpay.trans_le (Vault.payoutAt_le (by rw [← hpt]; omega))
  rw [← hr.updated.activeSy_eq, Vault.activeSy_toNat] at hle
  rw [hb.backed.invariant_iff, Covered, ← hr.updated.activeSy_eq, Vault.activeSy_toNat, ← hpay]
  unfold Vault.SetAside at *
  simp only
  rw [hr.updated.uncollected] at ha hle ⊢
  rw [htr, hc]
  rw [hesc] at he
  omega

theorem depositYt_iff {a : UInt64} (hs : w.vault.SyBalanceInvariant)
    (h : w.step (.depositYt now syState user a) = .ok w') :
    w'.vault.SyBalanceInvariant ↔ w.Covered (.depositYt now syState user a) := by
  obtain ⟨u, v₁, v₂, p₁, v₃, u₁, v', p', u', hu, hr, -, hearn, hm, rfl⟩ := step_depositYt h
  rw [hm.invariant_iff, setAside_iff_of_refreshed hr hs hearn]
  simp [Covered, hu]

theorem withdrawYt_iff {a : UInt64} (hs : w.vault.SyBalanceInvariant)
    (h : w.step (.withdrawYt now syState user a) = .ok w') :
    w'.vault.SyBalanceInvariant ↔ w.Covered (.withdrawYt now syState user a) := by
  obtain ⟨u, v₁, v₂, p₁, v₃, u₁, v', p', u', hu, hr, hearn, hm, rfl⟩ := step_withdrawYt h
  rw [hm.invariant_iff, setAside_iff_of_refreshed hr hs hearn]
  simp [Covered, hu]

theorem stageYield_iff (hs : w.vault.SyBalanceInvariant)
    (h : w.step (.stageYield now syState user) = .ok w') :
    w'.vault.SyBalanceInvariant ↔ w.Covered (.stageYield now syState user) := by
  obtain ⟨u, v₁, v₂, p₁, v₃, u₁, v', hu, hr, -, hearn, ⟨s, rfl⟩, hb, rfl⟩ := step_stageYield h
  have hsame : Vault.SetAside { v₃ with syForPt := s } ↔ v₃.SetAside := Iff.rfl
  rw [hb.invariant_iff, hsame, setAside_iff_of_refreshed hr hs hearn]
  simp [Covered, hu]

/-- Here the backing of the PT is the one from before. -/
theorem collectInterest_iff {amount : Amount} (hs : w.vault.SyBalanceInvariant)
    (h : w.step (.collectInterest now user amount) = .ok w') :
    w'.vault.SyBalanceInvariant ↔ w.Covered (.collectInterest now user amount) := by
  obtain ⟨u, a, v₁, u₁, v', u', hu, -, hearn, hp, rfl⟩ := step_collectInterest h
  obtain ⟨hc, hv₁⟩ := (earned_of_ok hearn).interest
  obtain ⟨e, c, he, hc', rfl⟩ := hp.vault
  have hesc : v₁.totalSyInEscrow = w.vault.totalSyInEscrow := by rw [hv₁]
  have htr : v₁.treasurySy = w.vault.treasurySy := by rw [hv₁]
  have hsp : v₁.syForPt = w.vault.syForPt := by rw [hv₁]
  simp only [Covered, hu, Option.mem_some_iff, forall_eq']
  unfold Vault.SyBalanceInvariant at *
  simp only
  rw [htr, hsp]
  rw [hesc] at he
  omega

theorem collectTreasuryInterest_iff {amount : Amount} {kind : CollectTreasuryInterestKind}
    (hs : w.vault.SyBalanceInvariant)
    (h : w.step (.collectTreasuryInterest amount kind) = .ok w') :
    w'.vault.SyBalanceInvariant ↔ w.Covered (.collectTreasuryInterest amount kind) := by
  obtain ⟨v', p', a, rfl, ⟨-, hp⟩ | ⟨-, -, e, t, he, ht, rfl⟩⟩ := step_collectTreasuryInterest h
  · obtain ⟨e, c, he, hc, rfl⟩ := hp.vault
    simp only [Covered, iff_true]
    unfold Vault.SyBalanceInvariant at *
    simp only
    omega
  · simp only [Covered, iff_true]
    unfold Vault.SyBalanceInvariant at *
    simp only
    omega

/-- **One step**: from a solvent vault, it stays solvent iff the step is covered. -/
theorem step_iff (hs : w.vault.SyBalanceInvariant) (h : w.step op = .ok w') :
    w'.vault.SyBalanceInvariant ↔ w.Covered op := by
  -- the instructions of the emissions move no SY and stage nothing
  cases op with
  | initializeYieldPosition owner vault =>
    cases h
    exact iff_true_intro hs
  | strip now syState x => exact strip_iff hs h
  | merge now syState a => exact merge_iff hs h
  | depositYt now syState user a => exact depositYt_iff hs h
  | withdrawYt now syState user a => exact withdrawYt_iff hs h
  | stageYield now syState user => exact stageYield_iff hs h
  | collectInterest now user amount => exact collectInterest_iff hs h
  | collectTreasuryInterest amount kind => exact collectTreasuryInterest_iff hs h
  | collectEmission user index amount =>
    obtain ⟨u, a, u', -, -, rfl⟩ := step_collectEmission h
    exact iff_true_intro hs
  | collectTreasuryEmission index amount kind =>
    obtain ⟨-, a, p', -, rfl⟩ | ⟨-, a, e, t, -, -, rfl⟩ := step_collectTreasuryEmission h
    · exact iff_true_intro hs
    · exact iff_true_intro hs
  | addEmission accounts syState token treasury fee =>
    obtain ⟨i, -, rfl⟩ := step_addEmission h
    exact iff_true_intro hs
  | removeVaultEmission index =>
    obtain ⟨-, rfl⟩ := step_removeVaultEmission h
    exact iff_true_intro hs

/-! ## Whole runs -/

theorem initializeVault_syBalanceInvariant (args : InitializeVaultArgs) :
    (initializeVault args).vault.SyBalanceInvariant := by
  simp [initializeVault, Vault.SyBalanceInvariant]

/-- A rate of the given number of whole units and no emissions. -/
def wholeRate (n : UInt64) : SyState := ⟨Number.fromNaturalU64 n, []⟩

/-- A new vault that is active up to second 1000. -/
def freshVault : VaultWorld := initializeVault ⟨0, 1000, 0, {}, 0, 0, 0, 0⟩

/-- Three units of PY are stripped at rate one and deposited, the rate triples, and the user stages
by collecting nothing. -/
def collectAfterRise : List VaultOp :=
  [.initializeYieldPosition 1 0, .strip 1 (wholeRate 1) 3000000000000,
    .depositYt 1 (wholeRate 1) 0 3000000000000, .strip 2 (wholeRate 3) 0,
    .collectInterest 2 0 (.some 0)]

end VaultWorld

end ExponentCore
