import ExponentCore.Vault.Proof.Interest
import ExponentCore.Vault.YtTokens

/-!
# YT is conserved

`YtEffect` says for every instruction what it does to the YT of the vault's own position, to the YT
of the users' positions and to the PT supply. From it, as long as the clock does not run backwards:
the positions together have as much YT as there is PT until maturity, and no less afterwards
(`YtMatched`); and the token accounts follow the positions (`YtHeld`), so the escrow covers the
users' positions and YT outside the escrow can always be merged. `ytConserved_throughout` is both
for every state of a run.
-/

set_option autoImplicit false

namespace ExponentCore

variable {w w' : VaultWorld} {op : VaultOp} {v v' : Vault} {p p' u : YieldTokenPosition}
  {now : UInt32} {syState : SyState} {a : UInt64} {i : Nat}

/-! ## What an instruction does to the YT -/

/-- The changes of the YT of the vault's own position, of that of the users' and of the PT supply.
-/
def VaultOp.ytEffect (w : VaultWorld) (op : VaultOp) (w' : VaultWorld) : Prop :=
  match op with
  | .strip now syState x => ∃ py : UInt64,
    (∃ r, handleStrip w.vault w.yieldPosition now syState x = .ok r ∧ r.2.2 = py) ∧
    w'.yieldPosition.ytBalance.toNat = w.yieldPosition.ytBalance.toNat + py.toNat ∧
    w'.userYt = w.userYt ∧ w'.vault.ptSupply.toNat = w.vault.ptSupply.toNat + py.toNat
  | .merge now _ a =>
    w'.vault.ptSupply.toNat + a.toNat = w.vault.ptSupply.toNat ∧ w'.userYt = w.userYt ∧
    (w.vault.isActive now = .ok true ∧
        w'.yieldPosition.ytBalance.toNat + a.toNat = w.yieldPosition.ytBalance.toNat ∨
      w.vault.isActive now = .ok false ∧
        w'.yieldPosition.ytBalance = w.yieldPosition.ytBalance)
  | .depositYt _ _ _ a =>
    w'.yieldPosition.ytBalance.toNat + a.toNat = w.yieldPosition.ytBalance.toNat ∧
    w'.userYt = w.userYt + a.toNat ∧ w'.vault.ptSupply = w.vault.ptSupply
  | .withdrawYt _ _ _ a =>
    w'.yieldPosition.ytBalance.toNat = w.yieldPosition.ytBalance.toNat + a.toNat ∧
    w'.userYt + a.toNat = w.userYt ∧ w'.vault.ptSupply = w.vault.ptSupply
  | _ => w'.yieldPosition.ytBalance = w.yieldPosition.ytBalance ∧ w'.userYt = w.userYt ∧
    w'.vault.ptSupply = w.vault.ptSupply

/-- The times of the vault stay; the clock shows the time that was read. -/
structure SameTimes (w : VaultWorld) (op : VaultOp) (w' : VaultWorld) : Prop where
  startTs : w'.vault.startTs = w.vault.startTs
  duration : w'.vault.duration = w.vault.duration
  clock : w'.clock = (op.syRead.map Prod.fst).getD w.clock

theorem Refreshed.startTs {v₁ v₂ : Vault} {p₁ : YieldTokenPosition}
    (h : Refreshed v p now syState v₁ v₂ p₁) : v₂.startTs = v.startTs :=
  h.earned.sameView.startTs.trans h.updated.startTs

theorem Refreshed.duration {v₁ v₂ : Vault} {p₁ : YieldTokenPosition}
    (h : Refreshed v p now syState v₁ v₂ p₁) : v₂.duration = v.duration :=
  h.earned.sameView.duration.trans h.updated.duration

theorem Earned.ptSupply (h : Earned v p v' p') : v'.ptSupply = v.ptSupply := by
  obtain ⟨c, t, -, -, -, rfl⟩ := h.credit
  rfl

/-- Replacing the position of a user trades its YT. -/
theorem userYt_set {q : YieldTokenPosition} (hu : w.userPositions[i]? = some u) :
    ((w.userPositions.set i q).map fun p => p.ytBalance.toNat).sum + u.ytBalance.toNat
      = w.userYt + q.ytBalance.toNat :=
  ListSum.sum_map_set hu

theorem userYt_set_same (hu : w.userPositions[i]? = some u) (hy : p'.ytBalance = u.ytBalance) :
    ((w.userPositions.set i p').map fun p => p.ytBalance.toNat).sum = w.userYt := by
  have hset := userYt_set (q := p') hu
  rw [hy] at hset
  exact Nat.add_right_cancel hset

theorem ytTotal_eq : w.ytTotal = w.yieldPosition.ytBalance.toNat + w.userYt := by
  simp [VaultWorld.ytTotal, VaultWorld.userYt, VaultWorld.positions]

theorem Refreshed.ytBalance {v₁ v₂ : Vault} {p₁ : YieldTokenPosition}
    (h : Refreshed v p now syState v₁ v₂ p₁) : p₁.ytBalance = p.ytBalance :=
  h.earned.ytBalance

/-- **What an instruction does to the YT and the PT**. -/
theorem ytEffect_of_ok (h : w.step op = .ok w') : op.ytEffect w w' := by
  cases op with
  | initializeYieldPosition owner key =>
    cases h
    exact ⟨rfl, by simp [VaultWorld.userYt], rfl⟩
  | strip now syState x =>
    have hstep := h
    rw [VaultWorld.step, VaultWorld.withOwnPosition_eq_ok] at hstep
    obtain ⟨v', p', py, hf, rfl⟩ := hstep
    obtain ⟨v₁, v₂, p₁, hr, -, hm⟩ := handleStrip_eq_ok hf
    obtain ⟨e, t, s, -, ht, rfl⟩ := hm.vault
    obtain ⟨b, hb, rfl⟩ := hm.position
    rw [hr.ytBalance] at hb
    rw [hr.ptSupply] at ht
    exact ⟨py, ⟨_, hf, rfl⟩, hb, rfl, ht⟩
  | merge now syState a =>
    obtain ⟨v₁, v₂, p₁, v', p', x, hr, -, hb, rfl⟩ := VaultWorld.step_merge h
    obtain ⟨e, t, s, -, ht, rfl⟩ := hb.vault
    rw [hr.ptSupply] at ht
    refine ⟨ht, rfl, ?_⟩
    rcases hb.position with ⟨hactive, b, hb', rfl⟩ | ⟨hover, rfl⟩
    · rw [hr.ytBalance] at hb'
      exact .inl ⟨hr.isActive now ▸ hactive, hb'⟩
    · exact .inr ⟨hr.isActive now ▸ hover, hr.ytBalance⟩
  | depositYt now syState i a =>
    obtain ⟨u, v₁, v₂, p₁, v₃, u₁, v', p', u', hu, hr, -, hearn, hm, rfl⟩ :=
      VaultWorld.step_depositYt h
    obtain ⟨s, rfl⟩ := hm.vault
    obtain ⟨b, hb, rfl⟩ := hm.source
    obtain ⟨c, hc, rfl⟩ := hm.destination
    have hset := userYt_set (q := { u₁ with ytBalance := c }) hu
    rw [hr.ytBalance] at hb
    rw [(earned_of_ok hearn).ytBalance] at hc
    simp only [hc] at hset
    refine ⟨hb, ?_, ?_⟩
    · simp only [VaultWorld.userYt] at hset ⊢
      omega
    · exact (earned_of_ok hearn).ptSupply.trans hr.ptSupply
  | withdrawYt now syState i a =>
    obtain ⟨u, v₁, v₂, p₁, v₃, u₁, v', p', u', hu, hr, hearn, hm, rfl⟩ :=
      VaultWorld.step_withdrawYt h
    obtain ⟨s, rfl⟩ := hm.vault
    obtain ⟨b, hb, rfl⟩ := hm.source
    obtain ⟨c, hc, rfl⟩ := hm.destination
    have hset := userYt_set (q := { u₁ with ytBalance := b }) hu
    rw [hr.ytBalance] at hc
    rw [(earned_of_ok hearn).ytBalance] at hb
    refine ⟨hc, ?_, ?_⟩
    · simp only [VaultWorld.userYt] at hset ⊢
      omega
    · exact (earned_of_ok hearn).ptSupply.trans hr.ptSupply
  | stageYield now syState i =>
    obtain ⟨u, v₁, v₂, p₁, v₃, u₁, v', hu, hr, -, hearn, ⟨s, rfl⟩, -, rfl⟩ :=
      VaultWorld.step_stageYield h
    exact ⟨hr.ytBalance, userYt_set_same hu (earned_of_ok hearn).ytBalance,
      (earned_of_ok hearn).ptSupply.trans hr.ptSupply⟩
  | collectInterest now i amount =>
    obtain ⟨u, a, v₁, u₁, v', u', hu, -, hearn, hp, rfl⟩ := VaultWorld.step_collectInterest h
    obtain ⟨e, c, -, -, rfl⟩ := hp.vault
    obtain ⟨s, -, rfl⟩ := hp.position
    exact ⟨rfl, userYt_set_same hu (earned_of_ok hearn).ytBalance, (earned_of_ok hearn).ptSupply⟩
  | collectTreasuryInterest amount kind =>
    obtain ⟨v', p', a, rfl, ⟨-, hp⟩ | ⟨-, rfl, e, t, -, -, rfl⟩⟩ :=
      VaultWorld.step_collectTreasuryInterest h
    · obtain ⟨e, c, -, -, rfl⟩ := hp.vault
      obtain ⟨s, -, rfl⟩ := hp.position
      exact ⟨rfl, rfl, rfl⟩
    · exact ⟨rfl, rfl, rfl⟩
  | collectEmission i index amount =>
    obtain ⟨u, a, u', hu, ha, rfl⟩ := VaultWorld.step_collectEmission h
    exact ⟨rfl, userYt_set_same hu (collectEmissionAt_same ha).1, rfl⟩
  | collectTreasuryEmission index amount kind =>
    obtain ⟨-, a, p', ha, rfl⟩ | ⟨-, a, e, t, -, -, rfl⟩ :=
      VaultWorld.step_collectTreasuryEmission h
    · exact ⟨(collectEmissionAt_same ha).1, rfl, rfl⟩
    · exact ⟨rfl, rfl, rfl⟩
  | addEmission accounts syState token treasury fee =>
    obtain ⟨i, -, rfl⟩ := VaultWorld.step_addEmission h
    exact ⟨rfl, rfl, rfl⟩
  | removeVaultEmission index =>
    obtain ⟨-, rfl⟩ := VaultWorld.step_removeVaultEmission h
    exact ⟨rfl, rfl, rfl⟩

theorem sameTimes_of_ok (h : w.step op = .ok w') : SameTimes w op w' := by
  cases op with
  | initializeYieldPosition owner key =>
    cases h
    exact ⟨rfl, rfl, rfl⟩
  | strip now syState x =>
    obtain ⟨v₁, v₂, p₁, v', p', py, hr, -, hm, rfl⟩ := VaultWorld.step_strip h
    exact ⟨hm.sameRates.startTs.trans hr.startTs, hm.sameRates.duration.trans hr.duration, rfl⟩
  | merge now syState a =>
    obtain ⟨v₁, v₂, p₁, v', p', x, hr, -, hb, rfl⟩ := VaultWorld.step_merge h
    exact ⟨hb.sameRates.startTs.trans hr.startTs, hb.sameRates.duration.trans hr.duration, rfl⟩
  | depositYt now syState i a =>
    obtain ⟨u, v₁, v₂, p₁, v₃, u₁, v', p', u', hu, hr, -, hearn, ⟨⟨s, rfl⟩, -, -, -⟩, rfl⟩ :=
      VaultWorld.step_depositYt h
    have hview := (earned_of_ok hearn).sameView
    exact ⟨hview.startTs.trans hr.startTs, hview.duration.trans hr.duration, rfl⟩
  | withdrawYt now syState i a =>
    obtain ⟨u, v₁, v₂, p₁, v₃, u₁, v', p', u', hu, hr, hearn, ⟨⟨s, rfl⟩, -, -, -⟩, rfl⟩ :=
      VaultWorld.step_withdrawYt h
    have hview := (earned_of_ok hearn).sameView
    exact ⟨hview.startTs.trans hr.startTs, hview.duration.trans hr.duration, rfl⟩
  | stageYield now syState i =>
    obtain ⟨u, v₁, v₂, p₁, v₃, u₁, v', hu, hr, -, hearn, ⟨s, rfl⟩, -, rfl⟩ :=
      VaultWorld.step_stageYield h
    have hview := (earned_of_ok hearn).sameView
    exact ⟨hview.startTs.trans hr.startTs, hview.duration.trans hr.duration, rfl⟩
  | collectInterest now i amount =>
    obtain ⟨u, a, v₁, u₁, v', u', hu, -, hearn, ⟨⟨e, c, -, -, rfl⟩, -⟩, rfl⟩ :=
      VaultWorld.step_collectInterest h
    have hview := (earned_of_ok hearn).sameView
    exact ⟨hview.startTs, hview.duration, rfl⟩
  | collectTreasuryInterest amount kind =>
    obtain ⟨v', p', a, rfl, ⟨-, ⟨e, c, -, -, rfl⟩, -⟩ | ⟨-, rfl, e, t, -, -, rfl⟩⟩ :=
      VaultWorld.step_collectTreasuryInterest h
    · exact ⟨rfl, rfl, rfl⟩
    · exact ⟨rfl, rfl, rfl⟩
  | collectEmission i index amount =>
    obtain ⟨u, a, u', hu, ha, rfl⟩ := VaultWorld.step_collectEmission h
    exact ⟨rfl, rfl, rfl⟩
  | collectTreasuryEmission index amount kind =>
    obtain ⟨-, a, p', ha, rfl⟩ | ⟨-, a, e, t, -, -, rfl⟩ :=
      VaultWorld.step_collectTreasuryEmission h
    · exact ⟨rfl, rfl, rfl⟩
    · exact ⟨rfl, rfl, rfl⟩
  | addEmission accounts syState token treasury fee =>
    obtain ⟨i, -, rfl⟩ := VaultWorld.step_addEmission h
    exact ⟨rfl, rfl, rfl⟩
  | removeVaultEmission index =>
    obtain ⟨-, rfl⟩ := VaultWorld.step_removeVaultEmission h
    exact ⟨rfl, rfl, rfl⟩

/-! ## The token accounts -/

namespace YtTokens

variable {t t' : YtTokens} {src dst : YtAccount}

/-- Adding to an account adds to the escrow or to the YT outside. -/
theorem credit_eq_ok (h : t.credit dst a = .ok t') :
    t'.supply = t.supply ∧ (t'.escrowYt.toNat = t.escrowYt.toNat + a.toNat ∧
        t'.outside = t.outside ∨
      dst ≠ .escrow ∧ t'.escrowYt = t.escrowYt ∧ t'.outside = t.outside + a.toNat) := by
  cases dst with
  | escrow =>
    simp only [credit, balance, ok_bind, bind_eq_ok, transferIn_eq_ok, Except.ok.injEq] at h
    obtain ⟨b, hb, rfl⟩ := h
    exact ⟨rfl, .inl ⟨hb, rfl⟩⟩
  | outside i =>
    simp only [credit, balance, bind_eq_ok, getAt_eq_ok, transferIn_eq_ok, Except.ok.injEq] at h
    obtain ⟨c, hc, b, hb, rfl⟩ := h
    have hset := ListSum.sum_map_set (f := UInt64.toNat) (b := b) hc
    refine ⟨rfl, .inr ⟨by simp, rfl, ?_⟩⟩
    simp only [outside, setBalance]
    omega

theorem debit_outside_eq_ok (h : t.debit (.outside i) a = .ok t') :
    t'.supply = t.supply ∧ t'.escrowYt = t.escrowYt ∧ t'.outside + a.toNat = t.outside := by
  simp only [debit, balance, bind_eq_ok, getAt_eq_ok, transferOut_eq_ok, Except.ok.injEq] at h
  obtain ⟨c, hc, b, hb, rfl⟩ := h
  have hset := ListSum.sum_map_set (f := UInt64.toNat) (b := b) hc
  refine ⟨rfl, rfl, ?_⟩
  simp only [outside, setBalance]
  omega

theorem debit_escrow_eq_ok (h : t.debit .escrow a = .ok t') :
    t'.supply = t.supply ∧ t'.escrowYt.toNat + a.toNat = t.escrowYt.toNat ∧
      t'.outside = t.outside := by
  simp only [debit, balance, ok_bind, bind_eq_ok, transferOut_eq_ok, Except.ok.injEq] at h
  obtain ⟨b, hb, rfl⟩ := h
  exact ⟨rfl, hb, rfl⟩

theorem mintTo_eq_ok (h : t.mintTo dst a = .ok t') :
    t'.supply.toNat = t.supply.toNat + a.toNat ∧
      (t'.escrowYt.toNat = t.escrowYt.toNat + a.toNat ∧ t'.outside = t.outside ∨
      t'.escrowYt = t.escrowYt ∧ t'.outside = t.outside + a.toNat) := by
  simp only [mintTo, bind_eq_ok, transferIn_eq_ok, Except.ok.injEq] at h
  obtain ⟨t₁, h₁, b, hb, rfl⟩ := h
  obtain ⟨hs, hsplit⟩ := credit_eq_ok h₁
  exact ⟨hs ▸ hb, hsplit.imp_right And.right⟩

theorem burn_eq_ok (h : t.burn (.outside i) a = .ok t') :
    t'.supply.toNat + a.toNat = t.supply.toNat ∧ t'.escrowYt = t.escrowYt ∧
      t'.outside + a.toNat = t.outside := by
  simp only [burn, bind_eq_ok, transferOut_eq_ok, Except.ok.injEq] at h
  obtain ⟨t₁, h₁, b, hb, rfl⟩ := h
  obtain ⟨hs, he, ho⟩ := debit_outside_eq_ok h₁
  exact ⟨hs ▸ hb, he, ho⟩

/-- YT that leaves an account outside goes to the escrow or stays outside. -/
theorem transfer_outside_eq_ok (h : t.transfer (.outside i) dst a = .ok t') :
    t'.supply = t.supply ∧ (t'.escrowYt.toNat = t.escrowYt.toNat + a.toNat ∧
        t'.outside + a.toNat = t.outside ∨
      dst ≠ .escrow ∧ t'.escrowYt = t.escrowYt ∧ t'.outside = t.outside) := by
  simp only [transfer, bind_eq_ok] at h
  obtain ⟨t₁, h₁, h₂⟩ := h
  obtain ⟨hs, he, ho⟩ := debit_outside_eq_ok h₁
  obtain ⟨hs', hsplit⟩ := credit_eq_ok h₂
  refine ⟨hs'.trans hs, ?_⟩
  rcases hsplit with ⟨he', ho'⟩ | ⟨hne, he', ho'⟩
  · exact .inl ⟨by rw [he', he], by rw [ho', ho]⟩
  · exact .inr ⟨hne, he'.trans he, by omega⟩

theorem transfer_escrow_eq_ok (h : t.transfer .escrow dst a = .ok t') :
    t'.supply = t.supply ∧ (t'.escrowYt = t.escrowYt ∧ t'.outside = t.outside ∨
      t'.escrowYt.toNat + a.toNat = t.escrowYt.toNat ∧ t'.outside = t.outside + a.toNat) := by
  simp only [transfer, bind_eq_ok] at h
  obtain ⟨t₁, h₁, h₂⟩ := h
  obtain ⟨hs, he, ho⟩ := debit_escrow_eq_ok h₁
  obtain ⟨hs', hsplit⟩ := credit_eq_ok h₂
  refine ⟨hs'.trans hs, ?_⟩
  rcases hsplit with ⟨he', ho'⟩ | ⟨-, he', ho'⟩
  · exact .inl ⟨UInt64.toNat_inj.1 (by omega), ho'.trans ho⟩
  · exact .inr ⟨by rw [he']; exact he, by rw [ho', ho]⟩

end YtTokens

/-! ## The positions follow the PT -/

/-- The YT of all positions is the PT supply until maturity, and no less afterwards; there is no PT
before the start. -/
structure YtMatched (w : VaultWorld) : Prop where
  equal : w.clock.toNat ≤ w.vault.maturity → w.ytTotal = w.vault.ptSupply.toNat
  covered : w.vault.ptSupply.toNat ≤ w.ytTotal
  started : w.vault.ptSupply.toNat ≠ 0 → w.vault.startTs.toNat ≤ w.clock.toNat

theorem SameTimes.maturity (h : SameTimes w op w') : w'.vault.maturity = w.vault.maturity := by
  rw [Vault.maturity, h.startTs, h.duration, Vault.maturity]

theorem SameTimes.clock_le (h : SameTimes w op w') (hc : op.Clocked w) :
    w.clock.toNat ≤ w'.clock.toNat := by
  rw [h.clock]
  cases hr : op.syRead with
  | none => exact le_rfl
  | some r => exact UInt32.le_iff_toNat_le.1 (hc r hr)

/-- What changes neither the YT nor the PT keeps them matched. -/
theorem YtMatched.same (h : YtMatched w) (ht : SameTimes w op w') (hc : op.Clocked w)
    (hyt : w'.ytTotal = w.ytTotal) (hpt : w'.vault.ptSupply = w.vault.ptSupply) :
    YtMatched w' where
  equal hle := by
    rw [hyt, hpt]
    rw [ht.maturity] at hle
    exact h.equal ((ht.clock_le hc).trans hle)
  covered := by rw [hyt, hpt]; exact h.covered
  started hne := by
    rw [ht.startTs]
    rw [hpt] at hne
    exact (h.started hne).trans (ht.clock_le hc)

theorem YtMatched.step (h : YtMatched w) (hc : op.Clocked w) (htimely : op.Timely w)
    (hs : w.step op = .ok w') : YtMatched w' := by
  have hy := ytEffect_of_ok hs
  have ht := sameTimes_of_ok hs
  have htotal := ytTotal_eq (w := w)
  have htotal' := ytTotal_eq (w := w')
  have hle := ht.clock_le hc
  cases op with
  | strip now syState x =>
    obtain ⟨py, -, hown, huser, hpt⟩ := hy
    have hclock : w'.clock = now := ht.clock
    have hstart := (Vault.isActive_eq_true.1 htimely).1
    refine ⟨fun hun => ?_, ?_, fun _ => ?_⟩
    · have hold := h.equal (by rw [ht.maturity] at hun; omega)
      omega
    · have hold := h.covered
      omega
    · rw [ht.startTs, hclock]
      exact hstart
  | merge now syState a =>
    obtain ⟨hpt, huser, hburn⟩ := hy
    have hclock : w'.clock = now := ht.clock
    refine ⟨fun hun => ?_, ?_, fun hne => ?_⟩
    · rw [ht.maturity, hclock] at hun
      rw [hclock] at hle
      have hold := h.equal (hle.trans hun)
      rcases hburn with ⟨-, hown⟩ | ⟨hover, hown⟩
      · omega
      · -- inactive but not expired: the vault has not started, and there is no PT to merge
        have hnone : w.vault.ptSupply.toNat = 0 := by
          by_contra hne
          have hstart := h.started hne
          rcases Vault.isActive_eq_false.1 hover with hlt | ⟨-, hlt⟩
          · omega
          · omega
        rw [hown] at htotal'
        omega
    · have hold := h.covered
      rcases hburn with ⟨-, hown⟩ | ⟨-, hown⟩
      · omega
      · rw [hown] at htotal'
        omega
    · rw [ht.startTs]
      exact (h.started (by omega)).trans hle
  | depositYt now syState i a =>
    obtain ⟨hown, huser, hpt⟩ := hy
    exact h.same ht hc (by omega) hpt
  | withdrawYt now syState i a =>
    obtain ⟨hown, huser, hpt⟩ := hy
    exact h.same ht hc (by omega) hpt
  | initializeYieldPosition | stageYield | collectInterest | collectTreasuryInterest
  | collectEmission | collectTreasuryEmission | addEmission | removeVaultEmission =>
    obtain ⟨hown, huser, hpt⟩ := hy
    rw [hown] at htotal'
    exact h.same ht hc (by omega) hpt

theorem ytMatched_initializeVault (args : InitializeVaultArgs) :
    YtMatched (.initializeVault args) :=
  ⟨fun _ => rfl, le_rfl, fun hne => absurd rfl hne⟩

/-! ## The token accounts follow the positions -/

/-- The escrow has the YT of the users' positions, and the vault's own position that of all other
token accounts. -/
structure YtHeld (s : YtWorld) : Prop where
  minted : s.tokens.supply.toNat = s.tokens.escrowYt.toNat + s.tokens.outside
  escrow : s.world.userYt ≤ s.tokens.escrowYt.toNat
  outside : s.tokens.outside ≤ s.world.yieldPosition.ytBalance.toNat

variable {s s' : YtWorld}

theorem YtHeld.instruct (h : YtHeld s) {account : YtAccount} {t : YtTokens}
    (hs : s.world.step op = .ok w') (hm : YtWorld.moveYt s.world w' op account s.tokens = .ok t) :
    YtHeld ⟨w', t⟩ := by
  have hy := ytEffect_of_ok hs
  have ht := sameTimes_of_ok hs
  obtain ⟨hminted, hescrow, hout⟩ := h
  cases op with
  | strip now syState x =>
    obtain ⟨py, ⟨⟨v', p', py'⟩, hr, rfl⟩, hown, huser, -⟩ := hy
    simp only [YtWorld.moveYt, hr, ok_bind] at hm
    simp only at hown
    obtain ⟨hsupply, ⟨he, ho⟩ | ⟨he, ho⟩⟩ := YtTokens.mintTo_eq_ok hm
    · exact ⟨by dsimp only; omega, by dsimp only; omega, by dsimp only; omega⟩
    · rw [← UInt64.toNat_inj] at he
      exact ⟨by dsimp only; omega, by dsimp only; omega, by dsimp only; omega⟩
  | merge now syState a =>
    obtain ⟨-, huser, hburn⟩ := hy
    have hact : w'.vault.isActive now = s.world.vault.isActive now := by
      simp only [Vault.isActive, Vault.isExpired, ht.startTs, ht.duration]
    simp only [YtWorld.moveYt, hact] at hm
    rcases hburn with ⟨hactive, hown⟩ | ⟨hover, hown⟩
    · simp only [hactive, ok_bind, ↓reduceIte, bind_eq_ok] at hm
      obtain ⟨i, -, hb⟩ := hm
      obtain ⟨hsupply, he, ho⟩ := YtTokens.burn_eq_ok hb
      rw [← UInt64.toNat_inj] at he
      exact ⟨by dsimp only; omega, by dsimp only; omega, by dsimp only; omega⟩
    · simp only [hover, ok_bind, Bool.false_eq_true, ↓reduceIte, Except.ok.injEq] at hm
      subst hm
      exact ⟨hminted, by dsimp only; omega, by rw [hown]; exact hout⟩
  | depositYt now syState i a =>
    obtain ⟨hown, huser, -⟩ := hy
    simp only [YtWorld.moveYt, bind_eq_ok] at hm
    obtain ⟨i, -, hb⟩ := hm
    obtain ⟨hsupply, ⟨he, ho⟩ | ⟨hne, -⟩⟩ := YtTokens.transfer_outside_eq_ok hb
    · rw [← UInt64.toNat_inj] at hsupply
      exact ⟨by dsimp only; omega, by dsimp only; omega, by dsimp only; omega⟩
    · exact absurd rfl hne
  | withdrawYt now syState i a =>
    obtain ⟨hown, huser, -⟩ := hy
    obtain ⟨hsupply, hsplit⟩ := YtTokens.transfer_escrow_eq_ok hm
    rw [← UInt64.toNat_inj] at hsupply
    rcases hsplit with ⟨he, ho⟩ | ⟨he, ho⟩
    · rw [← UInt64.toNat_inj] at he
      exact ⟨by dsimp only; omega, by dsimp only; omega, by dsimp only; omega⟩
    · exact ⟨by dsimp only; omega, by dsimp only; omega, by dsimp only; omega⟩
  | initializeYieldPosition | stageYield | collectInterest | collectTreasuryInterest
  | collectEmission | collectTreasuryEmission | addEmission | removeVaultEmission =>
    obtain ⟨hown, huser, -⟩ := hy
    cases hm
    exact ⟨hminted, huser ▸ hescrow, hown ▸ hout⟩

theorem YtHeld.step {o : YtOp} (h : YtHeld s) (hs : s.step o = .ok s') : YtHeld s' := by
  cases o with
  | instruct op account =>
    simp only [YtWorld.step, bind_eq_ok, Except.ok.injEq] at hs
    obtain ⟨w', hw, t, ht, rfl⟩ := hs
    exact h.instruct (VaultWorld.instruct_eq_ok hw).2 ht
  | createAccount =>
    cases hs
    exact ⟨by simpa [YtTokens.outside] using h.minted, h.escrow,
      by simpa [YtTokens.outside] using h.outside⟩
  | transfer src dst amount =>
    simp only [YtWorld.step, bind_eq_ok, Except.ok.injEq] at hs
    obtain ⟨t, ht, rfl⟩ := hs
    obtain ⟨hminted, hescrow, hout⟩ := h
    obtain ⟨hsupply, ⟨he, ho⟩ | ⟨-, he, ho⟩⟩ := YtTokens.transfer_outside_eq_ok ht
    · rw [← UInt64.toNat_inj] at hsupply
      exact ⟨by dsimp only; omega, by dsimp only; omega, by dsimp only; omega⟩
    · rw [← UInt64.toNat_inj] at hsupply he
      exact ⟨by dsimp only; omega, by dsimp only; omega, by dsimp only; omega⟩
  | burn src amount =>
    simp only [YtWorld.step, bind_eq_ok, Except.ok.injEq] at hs
    obtain ⟨t, ht, rfl⟩ := hs
    obtain ⟨hminted, hescrow, hout⟩ := h
    obtain ⟨hsupply, he, ho⟩ := YtTokens.burn_eq_ok ht
    rw [← UInt64.toNat_inj] at he
    exact ⟨by dsimp only; omega, by dsimp only; omega, by dsimp only; omega⟩

/-! ## Every state of a run -/

/-- The two instructions that mint and burn YT. -/
def VaultOp.changesYt : VaultOp → Bool
  | .strip _ _ _ | .merge _ _ _ => true
  | _ => false

theorem ytTotal_of_not_changesYt (h : w.step op = .ok w') (hop : op.changesYt = false) :
    w'.ytTotal = w.ytTotal := by
  have hy := ytEffect_of_ok h
  have htotal := ytTotal_eq (w := w)
  have htotal' := ytTotal_eq (w := w')
  cases op with
  | strip | merge => cases hop
  | depositYt now syState i a =>
    obtain ⟨hown, huser, -⟩ := hy
    omega
  | withdrawYt now syState i a =>
    obtain ⟨hown, huser, -⟩ := hy
    omega
  | initializeYieldPosition | stageYield | collectInterest | collectTreasuryInterest
  | collectEmission | collectTreasuryEmission | addEmission | removeVaultEmission =>
    obtain ⟨hown, huser, -⟩ := hy
    rw [hown] at htotal'
    omega

/-- **YT is conserved** (module doc). -/
structure YtConserved (s : YtWorld) : Prop where
  equal : s.world.clock.toNat ≤ s.world.vault.maturity →
    s.world.ytTotal = s.world.vault.ptSupply.toNat
  covered : s.world.vault.ptSupply.toNat ≤ s.world.ytTotal
  steady : ∀ op w', op.changesYt = false → s.world.instruct op = .ok w' →
    w'.ytTotal = s.world.ytTotal
  escrow : s.world.userYt ≤ s.tokens.escrowYt.toNat
  /-- a merge can take YT that is outside the escrow out of the vault's own position -/
  burnable : ∀ now syState v p (a : UInt64),
    updateVaultYield s.world.vault s.world.yieldPosition now syState = .ok (v, p) →
    a.toNat ≤ s.tokens.outside → ∃ p', p.decYtBalance a = .ok p'

theorem YtMatched.conserved (hm : YtMatched s.world) (hh : YtHeld s) : YtConserved s where
  equal := hm.equal
  covered := hm.covered
  steady op w' hop hs := ytTotal_of_not_changesYt (VaultWorld.instruct_eq_ok hs).2 hop
  escrow := hh.escrow
  burnable now syState v p a hu ha := by
    obtain ⟨v₁, hr⟩ := updateVaultYield_eq_ok.1 hu
    have hle : a.toNat ≤ p.ytBalance.toNat := by
      rw [hr.ytBalance]
      exact ha.trans hh.outside
    refine ⟨{ p with ytBalance := p.ytBalance - a },
      decYtBalance_eq_ok.2 ⟨p.ytBalance - a, ?_, rfl⟩⟩
    rw [UInt64.toNat_sub_of_le _ _ (UInt64.le_iff_toNat_le.2 hle)]
    omega

theorem YtMatched.stepYt {o : YtOp} (h : YtMatched s.world) (hc : o.Clocked s)
    (hs : s.step o = .ok s') : YtMatched s'.world := by
  cases o with
  | instruct op account =>
    simp only [YtWorld.step, bind_eq_ok, Except.ok.injEq] at hs
    obtain ⟨w', hw, t, -, rfl⟩ := hs
    obtain ⟨htimely, hstep⟩ := VaultWorld.instruct_eq_ok hw
    exact h.step hc htimely hstep
  | createAccount =>
    cases hs
    exact h
  | transfer | burn =>
    simp only [YtWorld.step, bind_eq_ok, Except.ok.injEq] at hs
    obtain ⟨t, -, rfl⟩ := hs
    exact h

/-- **YT conservation**: in every state of every run from a new vault in which the clock does not
run backwards. -/
theorem ytConserved_throughout (args : InitializeVaultArgs) (ops : List YtOp)
    (hops : Machine.Admits YtWorld.step (fun s o => o.Clocked s) (.initializeVault args) ops) :
    Machine.Throughout YtWorld.step YtConserved (.initializeVault args) ops := by
  have hinv : Machine.Throughout YtWorld.step (fun s => YtMatched s.world ∧ YtHeld s)
      (.initializeVault args) ops := by
    refine Machine.throughout_of_step ?_ ?_ hops
    · intro s o s' h hc hs
      exact ⟨h.1.stepYt hc hs, h.2.step hs⟩
    · exact ⟨ytMatched_initializeVault args, ⟨rfl, le_rfl, le_rfl⟩⟩
  exact hinv.mono fun _ h => h.1.conserved h.2

/-- A strip, a deposit of half the YT, a merge before and a merge after the maturity. -/
def stripAndMergeLate : List YtOp :=
  [.createAccount, .instruct (.initializeYieldPosition 1 0) .escrow,
    .instruct (.strip 1 (VaultWorld.wholeRate 1) 1000) (.outside 0),
    .instruct (.depositYt 2 (VaultWorld.wholeRate 1) 0 500) (.outside 0),
    .instruct (.merge 3 (VaultWorld.wholeRate 2) 300) (.outside 0), .transfer 0 .escrow 100,
    .instruct (.merge 2000 (VaultWorld.wholeRate 3) 400) (.outside 0)]

theorem ytConserved_throughout_stripAndMergeLate :
    Machine.Throughout YtWorld.step YtConserved (.initializeVault ⟨0, 1000, 0, {}, 0, 0, 0, 0⟩)
      stripAndMergeLate :=
  ytConserved_throughout ⟨0, 1000, 0, {}, 0, 0, 0, 0⟩ stripAndMergeLate (by decide +kernel)

end ExponentCore
