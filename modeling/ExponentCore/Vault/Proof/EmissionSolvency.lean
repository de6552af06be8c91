import ExponentCore.Vault.Proof.Accrual
import ExponentCore.Vault.Proof.Solvency

/-!
# No emission is paid beyond its accrual

Before the first strip there is nothing to pay on (`Idle`), so the list of emissions may change.
From then on `Funded` holds for every slot: what positions have been paid and are owed, and what the
treasury has been given, is within the accrual of the SY in escrow. Until maturity the positions
hold no more than the escrow, so the growth of an index is covered; after maturity the final index
stays and the treasury is given exactly the accrual.
-/

set_option autoImplicit false

namespace ExponentCore

open Number

namespace VaultOp

/-- No index of the SY program decreases. -/
def IndexesGrow (w : VaultWorld) (op : VaultOp) : Prop :=
  ∀ r ∈ op.syRead, ∀ x ∈ w.vault.emissions.zip r.2.emissionIndexes, x.1.lastSeenIndex ≤ x.2

instance (w : VaultWorld) (op : VaultOp) : Decidable (op.IndexesGrow w) :=
  inferInstanceAs (Decidable (∀ r ∈ op.syRead, _))

/-- The operation changes the list of emissions. -/
def ChangesEmissions : VaultOp → Prop
  | .addEmission .. | .removeVaultEmission _ => True
  | _ => False

instance : ∀ op : VaultOp, Decidable op.ChangesEmissions
  | .addEmission .. | .removeVaultEmission _ => instDecidableTrue
  | .initializeYieldPosition .. | .strip .. | .merge .. | .depositYt .. | .withdrawYt ..
  | .stageYield .. | .collectInterest .. | .collectTreasuryInterest .. | .collectEmission ..
  | .collectTreasuryEmission .. => instDecidableFalse

end VaultOp

/-- A position that holds nothing and has earned nothing. -/
structure YieldTokenPosition.Idle (p : YieldTokenPosition) : Prop where
  ytBalance : p.ytBalance = 0
  interest : p.interest.staged = 0
  emission : ∀ slot, p.stagedEmission slot = 0

/-- **Nothing has come in**, so nothing has been credited. -/
structure Idle (r : VaultRun) : Prop where
  escrow : r.1.vault.totalSyInEscrow = 0
  positions : ∀ p ∈ r.1.positions, p.Idle
  treasury : ∀ slot, r.1.treasuryEmission slot = 0
  paid : ∀ slot, r.2.emissionPaid slot = 0
  treasuryPaid : ∀ slot, r.2.treasuryEmissionPaid slot = 0

section
variable {A : VaultRun → VaultOp → Prop} {P : Staging → Prop} {w w' : VaultWorld}
  {g g' : VaultLedger} {r r' : VaultRun} {v v' v₁ v₂ : Vault} {p p' p₁ u u' : YieldTokenPosition}
  {now : UInt32} {syState : SyState} {k : Holder} {i slot : Nat} {e e' : EmissionInfo}

/-! ## Before the first strip -/

theorem YieldTokenPosition.Idle.syBase (h : p.Idle) : p.syBase = 0 := by
  rw [YieldTokenPosition.syBase, h.ytBalance, h.interest]
  simp

theorem YieldTokenPosition.Idle.earned (h : p.Idle) (he : Earned v p v' p') : p'.Idle := by
  obtain ⟨c, t, hc, hs, -, -⟩ := he.credit
  have hc0 : c = 0 := YieldTokenPosition.credit_zero_balance h.ytBalance hc
  have hstaged : p'.interest.staged = 0 := by
    rw [hc0, h.interest] at hs
    exact UInt64.toNat_inj.1 hs
  refine ⟨he.ytBalance.trans h.ytBalance, hstaged, fun slot => ?_⟩
  cases hget : v.emissions[slot]? with
  | none =>
    rw [← h.emission slot]
    simp only [YieldTokenPosition.stagedEmission, he.tracker_of_none hget]
  | some e =>
    obtain ⟨b, hb, -, hpaid⟩ := he.tracker hget
    have hb0 : b.toNat = 0 := by rw [hb, hstaged, h.ytBalance]; simp
    rw [hpaid, h.emission, hb0]
    simp

theorem Idle.ofPositions (h : Idle (w, g)) (hp : p'.Idle) : Idle (w.setPosition k p', g) where
  escrow := by simpa using h.escrow
  positions := VaultWorld.forall_setPosition h.positions hp
  treasury slot := by simpa [VaultWorld.treasuryEmission] using h.treasury slot
  paid := h.paid
  treasuryPaid := h.treasuryPaid

/-- Only the escrow and the emissions of the vault matter. -/
theorem Idle.ofVault (h : Idle (w, g)) (he : v'.totalSyInEscrow = 0)
    (hv : v'.emissions = w.vault.emissions) (hp : g'.emissionPaid = g.emissionPaid)
    (ht : g'.treasuryEmissionPaid = g.treasuryEmissionPaid) :
    Idle ({ w with vault := v' }, g') where
  escrow := he
  positions := h.positions
  treasury slot := by
    have := h.treasury slot
    simp only [VaultWorld.treasuryEmission, hv] at this ⊢
    exact this
  paid slot := by simp only [hp]; exact h.paid slot
  treasuryPaid slot := by simp only [ht]; exact h.treasuryPaid slot

/-- With an empty escrow the treasury is given nothing. -/
theorem Idle.treasury_updated (h : Idle (w, g))
    (hr : w.vault.updateFromSyState syState now = .ok v₁) (slot : Nat) :
    VaultWorld.treasuryEmission { w with vault := v₁ } slot = 0 := by
  have hold := h.treasury slot
  simp only [VaultWorld.treasuryEmission] at hold ⊢
  cases hget : w.vault.emissions[slot]? with
  | none =>
    have hlen := updateFromSyState_length hr
    rw [List.getElem?_eq_none_iff] at hget
    rw [List.getElem?_eq_none (hlen ▸ hget)]
    rfl
  | some e =>
    obtain ⟨e', hget', hu⟩ := emissionUpdated_of_ok hr hget
    rw [hget] at hold
    rw [hget']
    simp only [Option.map_some, Option.getD_some] at hold ⊢
    have hescrow : w.vault.totalSyInEscrow = 0 := h.escrow
    rcases hu.treasury with ⟨-, ht⟩ | ⟨-, ht⟩
    · rw [ht, hescrow, hold]
      simp
    · rw [ht, hold]

theorem YieldTokenPosition.Idle.withBalance {b a : UInt64} (h : p.Idle)
    (hb : b.toNat + a.toNat = p.ytBalance.toNat) :
    YieldTokenPosition.Idle { p with ytBalance := b } ∧ a = 0 := by
  rw [h.ytBalance, UInt64.toNat_zero] at hb
  have hb0 : b = 0 := UInt64.toNat_inj.1 (by simp; omega)
  have ha0 : a = 0 := UInt64.toNat_inj.1 (by simp; omega)
  exact ⟨⟨hb0, h.interest, h.emission⟩, ha0⟩

/-- No YT moves between idle positions. -/
theorem Moved.idle {src dst src' dst' : YieldTokenPosition} {a : UInt64}
    (hm : Moved v src dst a v' src' dst') (hsrc : src.Idle) (hdst : dst.Idle) :
    src'.Idle ∧ dst'.Idle := by
  obtain ⟨b, hb, rfl⟩ := hm.source
  obtain ⟨c, hc, rfl⟩ := hm.destination
  obtain ⟨hleft, rfl⟩ := hsrc.withBalance hb
  have hc0 : c = 0 := by
    rw [hdst.ytBalance] at hc
    exact UInt64.toNat_inj.1 hc
  exact ⟨hleft, hc0, hdst.interest, hdst.emission⟩

theorem Idle.event (hs : r'.2.strips = []) (h : Idle r) (he : VaultEvent A P r r') : Idle r' := by
  cases he with
  | @refresh w g op now syState v₁ v₂ p₁ hread hop hr hP =>
    obtain ⟨c, t, -, -, -, hv₂⟩ := hr.earned.credit
    have hown : p₁.Idle := (h.positions _ List.mem_cons_self).earned hr.earned
    refine ⟨?_, VaultWorld.forall_setPosition (h := .vault) h.positions hown, fun slot => ?_,
      h.paid, h.treasuryPaid⟩
    · rw [hv₂]
      exact hr.updated.escrow.trans h.escrow
    · have ht := h.treasury_updated hr.update slot
      simp only [VaultWorld.treasuryEmission, hr.earned.sameView.emissions] at ht ⊢
      exact ht
  | earn hu hP hearn =>
    have he := earned_of_ok hearn
    obtain ⟨c, t, -, -, -, rfl⟩ := he.credit
    have hidle := (h.positions _ (VaultWorld.position?_mem hu)).earned he
    exact (h.ofPositions hidle).ofVault h.escrow rfl rfl rfl
  | mint => cases hs
  | burn hcalm hj hb =>
    obtain ⟨e, t, s, he, -, rfl⟩ := hb.vault
    have hescrow : e = 0 := by
      have h0 := congrArg UInt64.toNat h.escrow
      simp only at h0
      exact UInt64.toNat_inj.1 (by rw [h0] at he; simp at he ⊢; omega)
    have hown := h.positions _ List.mem_cons_self
    rcases hb.position with ⟨-, b, hb', rfl⟩ | ⟨-, rfl⟩
    · exact (h.ofPositions (k := .vault) (hown.withBalance hb').1).ofVault hescrow rfl rfl rfl
    · exact (h.ofPositions (k := .vault) hown).ofVault hescrow rfl rfl rfl
  | deposit hu hactive hcalm hj hju hm =>
    obtain ⟨hown, hnew⟩ := hm.idle (h.positions _ List.mem_cons_self)
      (h.positions _ (VaultWorld.position?_mem hu))
    obtain ⟨s, rfl⟩ := hm.vault
    exact ((h.ofPositions (k := .vault) hown).ofPositions hnew).ofVault h.escrow rfl rfl rfl
  | withdraw hu hactive hj hju hm =>
    obtain ⟨hnew, hown⟩ := hm.idle (h.positions _ (VaultWorld.position?_mem hu))
      (h.positions _ List.mem_cons_self)
    obtain ⟨s, rfl⟩ := hm.vault
    exact ((h.ofPositions (k := .vault) hown).ofPositions hnew).ofVault h.escrow rfl rfl rfl
  | rebalance hb => exact h.ofVault h.escrow rfl rfl rfl
  | @payInterest w g k p a v' p' hp hpay =>
    obtain ⟨e, c, he, -, rfl⟩ := hpay.vault
    obtain ⟨s, hs', rfl⟩ := hpay.position
    have hold := h.positions _ (VaultWorld.position?_mem hp)
    have hescrow : w.vault.totalSyInEscrow = 0 := h.escrow
    have hzero : s = 0 ∧ e = 0 := by
      rw [hold.interest, UInt64.toNat_zero] at hs'
      rw [hescrow, UInt64.toNat_zero] at he
      exact ⟨UInt64.toNat_inj.1 (by simp; omega), UInt64.toNat_inj.1 (by simp; omega)⟩
    have hnew : YieldTokenPosition.Idle { p with interest := { p.interest with staged := s } } :=
      ⟨hold.ytBalance, hzero.1, hold.emission⟩
    exact (h.ofPositions (k := k) hnew).ofVault hzero.2 (by simp) rfl rfl
  | @payTreasury w g a v' hpay =>
    obtain ⟨e, t, he, -, rfl⟩ := hpay
    have hescrow : w.vault.totalSyInEscrow = 0 := h.escrow
    rw [hescrow, UInt64.toNat_zero] at he
    exact h.ofVault (UInt64.toNat_inj.1 (by simp; omega)) rfl rfl rfl
  | @payEmission w g k p index a p' hp hpay =>
    have hold := h.positions _ (VaultWorld.position?_mem hp)
    have hsame := collectEmissionAt_same hpay
    have hpaid : ∀ slot, p'.stagedEmission slot = 0 ∧
        (g.paidEmission index.toNat a.toNat).emissionPaid slot = 0 := by
      intro slot
      have hsum := stagedEmission_paid (s := slot) (g := g) hpay
      have hp0 := h.paid slot
      rw [hold.emission slot] at hsum
      simp only at hp0
      omega
    have hnew : p'.Idle := ⟨hsame.1.trans hold.ytBalance,
      (congrArg YieldTokenTracker.staged hsame.2).trans hold.interest, fun slot => (hpaid slot).1⟩
    have hset := h.ofPositions (k := k) hnew
    exact ⟨hset.escrow, hset.positions, hset.treasury, fun slot => (hpaid slot).2,
      hset.treasuryPaid⟩
  | @payTreasuryEmission w g index a t e hget ht =>
    have h0 := h.treasury index.toNat
    simp only [VaultWorld.treasuryEmission, hget, Option.map_some, Option.getD_some] at h0
    have hzero : a.toNat = 0 ∧ t.toNat = 0 := by omega
    refine ⟨h.escrow, h.positions, fun slot => ?_, h.paid, fun slot => ?_⟩
    · have hold := h.treasury slot
      simp only [VaultWorld.treasuryEmission] at hold ⊢
      by_cases hj : index.toNat = slot
      · subst hj
        have hlen := (List.getElem?_eq_some_iff.1 hget).1
        rw [List.getElem?_set_self hlen]
        exact hzero.2
      · rw [List.getElem?_set_ne hj]
        exact hold
    · have hold := h.treasuryPaid slot
      simp only [VaultLedger.paidTreasuryEmission, hzero.1] at hold ⊢
      split <;> omega
  | openPosition =>
    refine ⟨h.escrow, fun q hq => ?_, h.treasury, h.paid, h.treasuryPaid⟩
    simp only [VaultWorld.positions, List.mem_cons, List.mem_append, List.not_mem_nil,
      or_false] at hq
    rcases hq with rfl | hq | rfl
    · exact h.positions _ List.mem_cons_self
    · exact h.positions q (List.mem_cons_of_mem _ hq)
    · exact ⟨rfl, rfl, fun _ => rfl⟩
  | @addEmission w g accounts syState token treasury fee i hA hi =>
    refine ⟨h.escrow, h.positions, fun slot => ?_, h.paid, h.treasuryPaid⟩
    have hold := h.treasury slot
    simp only [VaultWorld.treasuryEmission, List.getElem?_append] at hold ⊢
    split
    · exact hold
    · cases hget : [EmissionInfo.new token treasury i fee][slot - w.vault.emissions.length]? with
      | none => rfl
      | some e =>
        obtain rfl := List.mem_singleton.1 (List.mem_of_getElem? hget)
        rfl
  | @removeEmission w g index hA =>
    refine ⟨h.escrow, h.positions, fun slot => ?_, h.paid, h.treasuryPaid⟩
    simp only [VaultWorld.treasuryEmission, List.getElem?_eraseIdx]
    split
    · exact h.treasury slot
    · exact h.treasury (slot + 1)

theorem VaultEvent.strips_nil (he : VaultEvent A P r r') (hs : r'.2.strips = []) :
    r.2.strips = [] := by
  cases he with
  | mint => cases hs
  | _ => exact hs

/-! ## Until maturity the final indexes are the last seen ones -/

/-- Until maturity every final index is the last seen one. -/
def Current (r : VaultRun) : Prop :=
  r.Unexpired → ∀ e ∈ r.1.vault.emissions, e.finalIndex = e.lastSeenIndex

theorem Current.ofVault (h : Current r) (hv : SameRates r.1.vault r'.1.vault)
    (he : r'.1.vault.emissions = r.1.vault.emissions) (hc : r'.1.clock = r.1.clock) :
    Current r' := by
  intro hun e hmem
  rw [he] at hmem
  refine h ?_ e hmem
  simpa only [VaultRun.Unexpired, hc, hv.maturity] using hun

theorem Current.event (hA : ∀ r op, A r op → op.Sane r.1) (hord : Ordered r) (h : Current r)
    (he : VaultEvent A P r r') : Current r' := by
  cases he with
  | @refresh w g op now syState v₁ v₂ p₁ hread hop hr hP =>
    intro hun e' hmem
    have hun₁ : now.toNat ≤ w.vault.maturity := by
      simpa only [VaultRun.Unexpired, hr.maturity] using hun
    have hnow : w.clock ≤ now := (hA _ _ hop _ hread).1
    have hclock : w.clock.toNat ≤ now.toNat := UInt32.le_iff_toNat_le.1 hnow
    simp only [hr.earned.sameView.emissions] at hmem
    obtain ⟨slot, hslot, hget'⟩ := List.mem_iff_getElem.1 hmem
    have hlen := updateFromSyState_length hr.update
    have hget : w.vault.emissions[slot]? = some (w.vault.emissions[slot]) :=
      List.getElem?_eq_getElem (hlen ▸ hslot)
    obtain ⟨e₁, he₁, hu⟩ := emissionUpdated_of_ok hr.update hget
    rw [List.getElem?_eq_getElem hslot, Option.some.injEq, hget'] at he₁
    subst he₁
    have hold := h (hclock.trans hun₁) _ (List.mem_of_getElem? hget)
    rcases hu.final with ⟨-, hf⟩ | ⟨ha, -⟩
    · rw [hf, hu.lastSeen, hold]
    · rcases hord.phase hnow hr with ⟨ha', -, -⟩ | ⟨-, hlt, -, -⟩
      · rw [ha] at ha'
        cases ha'
      · omega
  | earn hu hP hearn =>
    have hsame := (earned_of_ok hearn).sameView
    exact h.ofVault hsame.toSameRates hsame.emissions rfl
  | mint hactive hcalm hj hm => exact h.ofVault hm.sameRates hm.emissions.1 rfl
  | burn hcalm hj hb => exact h.ofVault hb.sameRates hb.emissions.1 rfl
  | deposit hu hactive hcalm hj hju hm => exact h.ofVault hm.sameRates hm.emissions.1 rfl
  | withdraw hu hactive hj hju hm => exact h.ofVault hm.sameRates hm.emissions.1 rfl
  | rebalance hb => exact h.ofVault ⟨rfl, rfl, rfl, rfl, rfl⟩ rfl rfl
  | payInterest hp hpay => exact h.ofVault hpay.sameRates hpay.emissions.1 (by simp)
  | payTreasury hpay => exact h.ofVault hpay.sameRates hpay.emissions rfl
  | payEmission hp hpay =>
    exact h.ofVault (by simpa using ⟨rfl, rfl, rfl, rfl, rfl⟩) (by simp) (by simp)
  | @payTreasuryEmission w g index a t e hget ht =>
    intro hun e' hmem
    rcases List.mem_or_eq_of_mem_set hmem with hmem | rfl
    · exact h hun e' hmem
    · exact h hun e (List.mem_of_getElem? hget)
  | openPosition => exact h.ofVault ⟨rfl, rfl, rfl, rfl, rfl⟩ rfl rfl
  | addEmission hA hi =>
    intro hun e' hmem
    rcases List.mem_append.1 hmem with hmem | hmem
    · exact h hun e' hmem
    · obtain rfl := List.mem_singleton.1 hmem
      rfl
  | removeEmission hA =>
    intro hun e' hmem
    exact h hun e' (List.mem_of_mem_eraseIdx hmem)

/-! ## One slot -/

/-- **The emission of a slot is covered**: what positions have been paid and are owed, and what the
treasury has been given, is within the accrual. -/
structure SlotFunded (slot : Nat) (r : VaultRun) (e : EmissionInfo) : Prop where
  behind : ∀ p ∈ r.1.positions, p.syBase ≠ 0 → p.trackerIndex slot ≤ e.finalIndex.raw
  covered : (YieldTokenPosition.emissionView slot).totalOwed e.finalIndex.raw r.1.positions
      + (r.2.emissionPaid slot + e.treasuryEmission.toNat + r.2.treasuryEmissionPaid slot : Nat)
        * denom ≤ r.2.accrual slot

structure Funded (slot : Nat) (r : VaultRun) : Prop where
  held : Held r
  idle : r.2.strips = [] → Idle r
  current : Current r
  slot : ∀ e, r.1.vault.emissions[slot]? = some e → SlotFunded slot r e

theorem totalOwed_setPosition {s : Nat} {q : YieldTokenPosition} {F : ℚ}
    (hp : w.position? k = some p) :
    (YieldTokenPosition.emissionView s).totalOwed F (w.setPosition k q).positions
        + (YieldTokenPosition.emissionView s).owed F p
      = (YieldTokenPosition.emissionView s).totalOwed F w.positions
        + (YieldTokenPosition.emissionView s).owed F q :=
  w.sum_setPosition ((YieldTokenPosition.emissionView s).owed F) hp

/-- A settled position is owed only what it has been paid, whatever it holds. -/
theorem owed_of_settled (hj : SettledWith v p) (he : v.emissions[slot]? = some e)
    (hp : p'.emissions = p.emissions) :
    (YieldTokenPosition.emissionView slot).owed e.finalIndex.raw p'
      = (YieldTokenPosition.emissionView slot).owed e.finalIndex.raw p := by
  have hsame : p'.trackerIndex slot = p.trackerIndex slot := by
    rw [YieldTokenPosition.trackerIndex, hp, YieldTokenPosition.trackerIndex]
  have hindex := hj.trackerIndex he
  rw [Accumulator.View.owed_of_checkpoint (congrArg Nat.cast (hsame.trans hindex)),
    Accumulator.View.owed_of_checkpoint (congrArg Nat.cast hindex)]
  simp only [YieldTokenPosition.emissionView, YieldTokenPosition.stagedEmission, hp]

/-- A change that owes and pays no more in sum. -/
theorem SlotFunded.of_owed (h : SlotFunded slot (w, g) e)
    (hbehind : ∀ p ∈ w'.positions, p.syBase ≠ 0 → p.trackerIndex slot ≤ e.finalIndex.raw)
    (howed : (YieldTokenPosition.emissionView slot).totalOwed e.finalIndex.raw w'.positions
      ≤ (YieldTokenPosition.emissionView slot).totalOwed e.finalIndex.raw w.positions) :
    SlotFunded slot (w', g) e where
  behind := hbehind
  covered := (add_le_add_left howed _).trans h.covered

/-- Replacing a position by one that is owed no more. -/
theorem SlotFunded.setPosition (h : SlotFunded slot (w, g) e) (hp : w.position? k = some p)
    (hbehind : p'.syBase ≠ 0 → p'.trackerIndex slot ≤ e.finalIndex.raw)
    (howed : (YieldTokenPosition.emissionView slot).owed e.finalIndex.raw p'
      ≤ (YieldTokenPosition.emissionView slot).owed e.finalIndex.raw p) :
    SlotFunded slot (w.setPosition k p', g) e := by
  refine h.of_owed (VaultWorld.forall_setPosition h.behind hbehind) ?_
  have hsum := totalOwed_setPosition (s := slot) (F := e.finalIndex.raw) (q := p') hp
  linarith only [hsum, howed]

/-- The vault and the history may change in what does not concern the slot. -/
theorem SlotFunded.congr (h : SlotFunded slot (w, g) e) (hp : w'.positions = w.positions)
    (hpaid : g'.emissionPaid slot = g.emissionPaid slot)
    (ht : g'.treasuryEmissionPaid slot = g.treasuryEmissionPaid slot)
    (ha : g'.accrual slot = g.accrual slot) : SlotFunded slot (w', g') e where
  behind := by simpa only [hp] using h.behind
  covered := by simpa only [hp, hpaid, ht, ha] using h.covered

/-- A settled position may change in what it holds. -/
theorem SlotFunded.setSettled (h : SlotFunded slot (w, g) e) (hp : w.position? k = some p)
    (he : v.emissions[slot]? = some e) (hj : SettledWith v p) (hs : p'.emissions = p.emissions) :
    SlotFunded slot (w.setPosition k p', g) e := by
  refine h.setPosition hp (fun _ => ?_) (owed_of_settled hj he hs).le
  have hsame : p'.trackerIndex slot = p.trackerIndex slot := by
    rw [YieldTokenPosition.trackerIndex, hs, YieldTokenPosition.trackerIndex]
  exact (hsame.trans (hj.trackerIndex he)).le

/-! ## Updating -/

theorem VaultOp.IndexesGrow.le {op : VaultOp} (h : op.IndexesGrow w)
    (hread : op.syRead = some (now, syState)) (he : w.vault.emissions[slot]? = some e) :
    e.lastSeenIndex ≤ reportedIndex syState slot e.lastSeenIndex := by
  unfold reportedIndex
  cases hx : syState.emissionIndexes[slot]? with
  | none => exact le_rfl
  | some x =>
    have hzip : (w.vault.emissions.zip syState.emissionIndexes)[slot]? = some (e, x) := by
      simp [List.getElem?_zip_eq_some, he, hx]
    exact h _ hread _ (List.mem_of_getElem? hzip)

theorem accrual_refresh (hr : Refreshed w.vault w.yieldPosition now syState v₁ v₂ p₁)
    (he : w.vault.emissions[slot]? = some e) (he' : v₁.emissions[slot]? = some e') :
    (g.sawSyState now w.vault v₂).accrual slot = g.accrual slot
      + (e'.lastSeenIndex.raw - e.lastSeenIndex.raw) * w.vault.totalSyInEscrow.toNat := by
  simp only [VaultLedger.sawSyState, VaultWorld.indexGrowth, hr.earned.sameView.emissions, he, he']

/-- An update grows what is owed, or what the treasury is given, by no more than the accrual. -/
theorem covered_update (hheld : Held (w, g)) (hcur : Current (w, g)) (hnow : w.clock ≤ now)
    (hr : Refreshed w.vault w.yieldPosition now syState v₁ v₂ p₁)
    (hgrow : e.lastSeenIndex ≤ reportedIndex syState slot e.lastSeenIndex)
    (he : w.vault.emissions[slot]? = some e) (hu : EmissionUpdated w.vault now syState slot e e') :
    e.finalIndex ≤ e'.finalIndex ∧
      (YieldTokenPosition.emissionView slot).totalOwed e'.finalIndex.raw w.positions
          + e'.treasuryEmission.toNat * denom
        ≤ (YieldTokenPosition.emissionView slot).totalOwed e.finalIndex.raw w.positions
          + e.treasuryEmission.toNat * denom
          + ((e'.lastSeenIndex.raw - e.lastSeenIndex.raw)
            * w.vault.totalSyInEscrow.toNat : Nat) := by
  have hclock : w.clock.toNat ≤ now.toNat := UInt32.le_iff_toNat_le.1 hnow
  rcases hheld.ordered.phase hnow hr with ⟨ha, hle, -⟩ | ⟨ha, hlt, -, -⟩
  · -- the final index follows, and the escrow holds the bases
    have hun : VaultRun.Unexpired (w, g) := hclock.trans hle
    have hfinal : e'.finalIndex = e'.lastSeenIndex := by
      rcases hu.final with ⟨-, hf⟩ | ⟨ha', -⟩
      · rw [hf, hu.lastSeen, hcur hun e (List.mem_of_getElem? he)]
      · rw [ha] at ha'
        cases ha'
    have hlast : e.finalIndex = e.lastSeenIndex := hcur hun e (List.mem_of_getElem? he)
    have htreasury : e'.treasuryEmission = e.treasuryEmission := by
      rcases hu.treasury with ⟨hlt, -⟩ | ⟨-, ht⟩
      · omega
      · exact ht
    have hstep : e.lastSeenIndex.raw ≤ e'.lastSeenIndex.raw := by
      rw [hu.lastSeen]
      exact hgrow
    have hweight : (YieldTokenPosition.emissionView slot).totalWeight w.positions
        ≤ w.vault.totalSyInEscrow.toNat := by
      have hdraft : w.overdraft ≤ 0 := hheld.held hun
      rw [VaultWorld.overdraft] at hdraft
      have ht : (0 : ℚ) ≤ w.vault.treasurySy.toNat := Nat.cast_nonneg _
      show w.heldSy ≤ _
      linarith only [hdraft, ht]
    have hadv := Accumulator.View.totalOwed_advance_le (i := (e.lastSeenIndex.raw : ℚ))
      (g := (e'.lastSeenIndex.raw : ℚ) - e.lastSeenIndex.raw)
      (sub_nonneg.2 (Nat.cast_le.2 hstep)) hweight
    rw [add_sub_cancel] at hadv
    rw [hfinal, hlast, htreasury]
    refine ⟨hstep, ?_⟩
    push_cast [Nat.cast_sub hstep]
    linarith only [hadv]
  · -- the final index stays, and the treasury is given the accrual
    have hfinal : e'.finalIndex = e.finalIndex := by
      rcases hu.final with ⟨ha', -⟩ | ⟨-, hf⟩
      · rw [ha] at ha'
        cases ha'
      · exact hf
    rw [hfinal]
    refine ⟨le_rfl, ?_⟩
    have hgiven : (e'.treasuryEmission.toNat : ℚ) * denom ≤ e.treasuryEmission.toNat * denom
        + ((e'.lastSeenIndex.raw - e.lastSeenIndex.raw)
          * w.vault.totalSyInEscrow.toNat : Nat) := by
      rcases hu.treasury with ⟨-, ht⟩ | ⟨hle, -⟩
      · rw [ht, Nat.cast_add, add_mul]
        refine add_le_add_right ?_ _
        exact_mod_cast Nat.div_mul_le_self _ _
      · omega
    linarith only [hgiven]

theorem Funded.refresh_slot (h : Funded slot (w, g)) (hnow : w.clock ≤ now)
    (hr : Refreshed w.vault w.yieldPosition now syState v₁ v₂ p₁)
    (hgrow : ∀ e, w.vault.emissions[slot]? = some e →
      e.lastSeenIndex ≤ reportedIndex syState slot e.lastSeenIndex)
    (hfair : Staging.Fair ⟨.vault, v₁, w.yieldPosition⟩ slot)
    (he₂ : v₂.emissions[slot]? = some e') :
    SlotFunded slot ({ w with vault := v₂, yieldPosition := p₁, clock := now },
      g.sawSyState now w.vault v₂) e' := by
  rw [hr.earned.sameView.emissions] at he₂
  have hlen := updateFromSyState_length hr.update
  obtain ⟨e, he⟩ : ∃ e, w.vault.emissions[slot]? = some e :=
    ⟨_, List.getElem?_eq_getElem (hlen ▸ (List.getElem?_eq_some_iff.1 he₂).1)⟩
  obtain ⟨e₁, he₁, hu⟩ := emissionUpdated_of_ok hr.update he
  obtain rfl : e₁ = e' := Option.some.inj (he₁.symm.trans he₂)
  have hslot := h.slot e he
  obtain ⟨hmono, hcov⟩ := covered_update h.held h.current hnow hr (hgrow e he) he hu
  have hown := h.held.ordered.placed w.yieldPosition List.mem_cons_self
  have howed := hr.earned.owed_le hfair hown.index_pos he₁ fun hbase =>
    (hslot.behind _ List.mem_cons_self hbase).trans hmono
  have hsum := totalOwed_setPosition (s := slot) (F := e₁.finalIndex.raw) (w := w)
    (k := .vault) (q := p₁) rfl
  refine ⟨VaultWorld.forall_setPosition (h := .vault)
    (Q := fun q => q.syBase ≠ 0 → q.trackerIndex slot ≤ e₁.finalIndex.raw)
    (fun q hq hbase => (hslot.behind q hq hbase).trans hmono) fun _ => ?_, ?_⟩
  · obtain ⟨b, -, hindex, -⟩ := hr.earned.tracker he₁
    exact hindex.le
  · have hold := hslot.covered
    rw [accrual_refresh hr he he₁]
    show (YieldTokenPosition.emissionView slot).totalOwed e₁.finalIndex.raw
        (w.setPosition .vault p₁).positions
      + (g.emissionPaid slot + e₁.treasuryEmission.toNat + g.treasuryEmissionPaid slot : Nat)
        * denom ≤ _
    push_cast at hold hcov ⊢
    linarith only [hold, hcov, hsum, howed]

theorem SlotFunded.ofIdle (h : Idle r) (he : r.1.vault.emissions[slot]? = some e) :
    SlotFunded slot r e where
  behind p hp hbase := absurd (h.positions p hp).syBase hbase
  covered := by
    have hzero : (YieldTokenPosition.emissionView slot).totalOwed e.finalIndex.raw
        r.1.positions = 0 := by
      refine List.sum_eq_zero fun x hx => ?_
      obtain ⟨p, hp, rfl⟩ := List.mem_map.1 hx
      have hidle := h.positions p hp
      rw [Accumulator.View.owed_of_weight hidle.syBase]
      show ((p.stagedEmission slot : Nat) : ℚ) * denom = 0
      rw [hidle.emission, Nat.cast_zero, zero_mul]
    have ht := h.treasury slot
    simp only [VaultWorld.treasuryEmission, he, Option.map_some, Option.getD_some] at ht
    rw [hzero, h.paid, ht, h.treasuryPaid]
    simp

/-! ## Paying interest -/

section
variable {a : UInt64}

theorem InterestPaid.trackerIndex (hpay : InterestPaid v p a v' p') :
    p'.trackerIndex slot = p.trackerIndex slot := by
  obtain ⟨s, -, rfl⟩ := hpay.position
  rfl

theorem InterestPaid.stagedEmission (hpay : InterestPaid v p a v' p') :
    p'.stagedEmission slot = p.stagedEmission slot := by
  obtain ⟨s, -, rfl⟩ := hpay.position
  rfl

theorem InterestPaid.syBase_ne_zero (hpay : InterestPaid v p a v' p') (hne : p'.syBase ≠ 0) :
    p.syBase ≠ 0 := by
  intro h0
  have hbase := hpay.syBase_add
  have ha : (0 : ℚ) ≤ a.toNat := Nat.cast_nonneg _
  exact hne (le_antisymm (by linarith only [hbase, h0, ha]) p'.syBase_nonneg)

/-- A position that has been paid interest is owed no more of an emission than before. -/
theorem InterestPaid.owed_le {index : Nat} (hpay : InterestPaid v p a v' p')
    (hbehind : p.syBase ≠ 0 → p.trackerIndex slot ≤ index) :
    (YieldTokenPosition.emissionView slot).owed index p'
      ≤ (YieldTokenPosition.emissionView slot).owed index p := by
  have hbase := hpay.syBase_add
  have ha : (0 : ℚ) ≤ a.toNat := Nat.cast_nonneg _
  show (p'.stagedEmission slot : ℚ) * denom + p'.syBase * (index - p'.trackerIndex slot)
    ≤ (p.stagedEmission slot : ℚ) * denom + p.syBase * (index - p.trackerIndex slot)
  rw [hpay.stagedEmission, hpay.trackerIndex, ← hbase]
  by_cases h0 : p.syBase = 0
  · have ha0 : (a.toNat : ℚ) = 0 := by
      have hpos := p'.syBase_nonneg
      linarith only [hbase, h0, hpos, ha]
    rw [ha0, add_zero]
  · have hgap : (0 : ℚ) ≤ index - p.trackerIndex slot :=
      sub_nonneg.2 (Nat.cast_le.2 (hbehind h0))
    have hpaid : (0 : ℚ) ≤ a.toNat * (index - p.trackerIndex slot) := mul_nonneg ha hgap
    linarith only [hpaid]

end

theorem Funded.event
    (hA : ∀ r op, A r op →
      op.Sane r.1 ∧ op.IndexesGrow r.1 ∧ (op.ChangesEmissions → r.2.strips = []))
    (hP : ∀ s, P s → s.Fair slot) (h : Funded slot r) (he : VaultEvent A P r r') :
    Funded slot r' := by
  have hheld := h.held.event (fun r op ha => (hA r op ha).1) hP he
  have hcur := h.current.event (fun r op ha => (hA r op ha).1) h.held.ordered he
  have hidle : r'.2.strips = [] → Idle r' := fun hs => (h.idle (he.strips_nil hs)).event hs he
  refine ⟨hheld, hidle, hcur, fun e' he' => ?_⟩
  cases he with
  | refresh hread hop hr hfair =>
    exact h.refresh_slot ((hA _ _ hop).1 _ hread).1 hr
      (fun e he => (hA _ _ hop).2.1.le hread he) (hP _ hfair) he'
  | earn hu hfair hearn =>
    have hearned := earned_of_ok hearn
    have hget := hearned.sameView.emissions ▸ he'
    have hslot := h.slot e' hget
    have hplaced := h.held.ordered.placed _ (VaultWorld.position?_mem hu)
    obtain ⟨b, -, hindex, -⟩ := hearned.tracker hget
    have hset := hslot.setPosition hu (fun _ => hindex.le)
      (hearned.owed_le (hP _ hfair) hplaced.index_pos hget
        (hslot.behind _ (VaultWorld.position?_mem hu)))
    exact hset.congr rfl rfl rfl rfl
  | @mint w g x py v' p' hactive hcalm hj hm =>
    have hget : w.vault.emissions[slot]? = some e' := hm.emissions.1 ▸ he'
    have hset := (h.slot e' hget).setSettled (k := .vault) rfl hget hj.settled hm.emissions.2
    exact hset.congr rfl rfl rfl rfl
  | @burn w g a x v' p' hcalm hj hb =>
    have hget : w.vault.emissions[slot]? = some e' := hb.emissions.1 ▸ he'
    have hset := (h.slot e' hget).setSettled (k := .vault) rfl hget hj.settled hb.emissions.2
    exact hset.congr rfl rfl rfl rfl
  | @deposit w g i u a v' p' u' hu hactive hcalm hj hju hm =>
    have hget : w.vault.emissions[slot]? = some e' := hm.emissions.1 ▸ he'
    have hset := (h.slot e' hget).setSettled (k := .vault) rfl hget hj.settled hm.emissions.2.1
    have hset' := hset.setSettled (k := .user i) hu hget hju.settled hm.emissions.2.2
    exact hset'.congr rfl rfl rfl rfl
  | @withdraw w g i u a v' p' u' hu hactive hj hju hm =>
    have hget : w.vault.emissions[slot]? = some e' := hm.emissions.1 ▸ he'
    have hset := (h.slot e' hget).setSettled (k := .vault) rfl hget hj.settled hm.emissions.2.2
    have hset' := hset.setSettled (k := .user i) hu hget hju.settled hm.emissions.2.1
    exact hset'.congr rfl rfl rfl rfl
  | rebalance hb => exact (h.slot e' he').congr rfl rfl rfl rfl
  | @payInterest w g k p a v' p' hp hpay =>
    have hget : w.vault.emissions[slot]? = some e' := hpay.emissions.1 ▸ he'
    have hslot := h.slot e' hget
    have hbehind := hslot.behind p (VaultWorld.position?_mem hp)
    have hset := hslot.setPosition hp (fun hne => ?_) (hpay.owed_le hbehind)
    · exact hset.congr rfl rfl rfl rfl
    · rw [hpay.trackerIndex]
      exact hbehind (hpay.syBase_ne_zero hne)
  | payTreasury hpay =>
    exact (h.slot e' (hpay.emissions ▸ he')).congr rfl rfl rfl rfl
  | @payEmission w g k p index a p' hp hpay =>
    have hslot := h.slot e' (by simpa using he')
    have hsame := collectEmissionAt_same hpay
    have hbase : p'.syBase = p.syBase := by
      rw [YieldTokenPosition.syBase, hsame.1, hsame.2, YieldTokenPosition.syBase]
    have hindex := trackerIndex_of_collectEmissionAt (j := slot) hpay
    refine ⟨VaultWorld.forall_setPosition hslot.behind fun hne => ?_, ?_⟩
    · rw [hindex]
      exact hslot.behind p (VaultWorld.position?_mem hp) (hbase ▸ hne)
    · have hcov := hslot.covered
      have hsum := totalOwed_setPosition (s := slot) (F := e'.finalIndex.raw) (q := p') hp
      have hpaid : (p'.stagedEmission slot : ℚ)
          + (g.paidEmission index.toNat a.toNat).emissionPaid slot
          = p.stagedEmission slot + g.emissionPaid slot := by
        exact_mod_cast stagedEmission_paid (s := slot) (g := g) hpay
      simp only [Accumulator.View.owed, YieldTokenPosition.emissionView, hbase, hindex] at hsum
      simp only [Accumulator.View.totalOwed, YieldTokenPosition.emissionView] at hsum hcov ⊢
      have hscaled := congrArg (· * (denom : ℚ)) hpaid
      simp only [add_mul] at hscaled
      push_cast at hcov ⊢
      show _ + ((g.paidEmission index.toNat a.toNat).emissionPaid slot
        + e'.treasuryEmission.toNat + g.treasuryEmissionPaid slot : ℚ) * denom ≤ g.accrual slot
      linarith only [hcov, hsum, hscaled]
  | @payTreasuryEmission w g index a t e hget ht =>
    by_cases hj : index.toNat = slot
    · subst hj
      have hlen := (List.getElem?_eq_some_iff.1 hget).1
      simp only [List.getElem?_set_self hlen, Option.some.injEq] at he'
      have hslot := h.slot e hget
      subst he'
      refine ⟨hslot.behind, ?_⟩
      have hcov := hslot.covered
      have hsum : t.toNat + (g.paidTreasuryEmission index.toNat a.toNat).treasuryEmissionPaid
          index.toNat = e.treasuryEmission.toNat + g.treasuryEmissionPaid index.toNat := by
        simp only [VaultLedger.paidTreasuryEmission, ↓reduceIte]
        omega
      simp only [Nat.add_assoc] at hcov ⊢
      rw [hsum]
      exact hcov
    · simp only [List.getElem?_set_ne hj] at he'
      exact (h.slot e' he').congr rfl rfl
        (by simp [VaultLedger.paidTreasuryEmission, Ne.symm hj]) rfl
  | @openPosition w g owner key =>
    have hslot := h.slot e' he'
    refine hslot.of_owed (fun q hq hbase => ?_) ?_
    · simp only [VaultWorld.positions, List.mem_cons, List.mem_append, List.not_mem_nil,
        or_false] at hq
      rcases hq with rfl | hq | rfl
      · exact hslot.behind _ List.mem_cons_self hbase
      · exact hslot.behind q (List.mem_cons_of_mem _ hq) hbase
      · exact absurd syBase_new hbase
    · have hnew : (YieldTokenPosition.emissionView slot).owed e'.finalIndex.raw
          { owner, vault := key } = 0 := by
        rw [Accumulator.View.owed_of_weight syBase_new]
        exact (congrArg (· * (denom : ℚ)) Nat.cast_zero).trans (zero_mul _)
      rw [Accumulator.View.totalOwed, Accumulator.View.totalOwed, VaultWorld.positions,
        VaultWorld.positions, List.map_cons, List.map_append, List.map_singleton, List.sum_cons,
        List.sum_append, List.sum_singleton, hnew, add_zero, List.map_cons, List.sum_cons]
  | addEmission hop hi => exact SlotFunded.ofIdle (hidle ((hA _ _ hop).2.2 trivial)) he'
  | removeEmission hop => exact SlotFunded.ofIdle (hidle ((hA _ _ hop).2.2 trivial)) he'

/-! ## Whole runs -/

theorem funded_initializeVault (args : InitializeVaultArgs) :
    Funded slot (VaultWorld.initializeVault args, {}) where
  held := held_initializeVault args
  idle _ :=
    { escrow := rfl
      positions := fun p hp => by
        obtain rfl := List.mem_singleton.1 hp
        exact ⟨rfl, rfl, fun _ => rfl⟩
      treasury := fun _ => rfl
      paid := fun _ => rfl
      treasuryPaid := fun _ => rfl }
  current _ e he := by cases he
  slot e he := by cases he

/-- What positions were paid is part of what they are owed. -/
theorem SlotFunded.credited_le (h : SlotFunded slot r e)
    (he : r.1.vault.emissions[slot]? = some e) :
    (r.emissionCredited slot + r.treasuryEmissionCredited slot) * denom ≤ r.2.accrual slot := by
  have hpaid := Accumulator.View.sum_settled_le_totalOwed
    (V := YieldTokenPosition.emissionView slot) (i := (e.finalIndex.raw : ℚ))
    (l := r.1.positions) (fun p _ => p.syBase_nonneg)
    fun p hp hbase => Nat.cast_le.2 (h.behind p hp hbase)
  have hsum : (r.1.positions.map (YieldTokenPosition.emissionView slot).settled).sum
      = (r.1.stagedEmission slot : ℚ) * denom := by
    rw [VaultWorld.stagedEmission, Nat.cast_list_sum, List.map_map, ← List.sum_map_mul_right]
    rfl
  rw [hsum] at hpaid
  have hcov := h.covered
  have hcast : (((r.emissionCredited slot + r.treasuryEmissionCredited slot) * denom : Nat) : ℚ)
      ≤ r.2.accrual slot := by
    simp only [VaultRun.emissionCredited, VaultRun.treasuryEmissionCredited,
      VaultWorld.treasuryEmission, he, Option.map_some, Option.getD_some]
    push_cast at hcov ⊢
    linarith only [hcov, hpaid]
  exact_mod_cast hcast

/-- **Emission solvency**: when the list of emissions changes only before the first strip and every
staging is fair, all that was ever credited on an emission, to positions and to the treasury, is at
most the growth of its index on the SY in escrow. -/
theorem emissionCredited_le_accrual (args : InitializeVaultArgs) (ops : List VaultOp) (slot : Nat)
    (hops : Machine.Admits VaultRun.step
      (fun r op => op.Sane r.1 ∧ op.Timely r.1 ∧ op.IndexesGrow r.1 ∧
        (op.ChangesEmissions → r.2.strips = []) ∧ ∀ s ∈ r.1.stagings op, s.Fair slot)
      (VaultWorld.initializeVault args, {}) ops)
    (hslot : slot < (VaultRun.of (VaultWorld.initializeVault args) ops).1.vault.emissions.length) :
    let r := VaultRun.of (VaultWorld.initializeVault args) ops
    (r.emissionCredited slot + r.treasuryEmissionCredited slot) * denom ≤ r.2.accrual slot := by
  have hfunded : Funded slot (VaultRun.of (VaultWorld.initializeVault args) ops) :=
    VaultRun.induction
      (A := fun r op =>
        op.Sane r.1 ∧ op.IndexesGrow r.1 ∧ (op.ChangesEmissions → r.2.strips = []))
      (P := fun s => s.Fair slot)
      (fun r r' h he => h.event (fun _ _ hs => hs) (fun _ hs => hs) he)
      (funded_initializeVault args)
      (hops.mono fun _ _ h => ⟨⟨h.1, h.2.2.1, h.2.2.2.1⟩, h.2.1, h.2.2.2.2⟩)
  have hget := List.getElem?_eq_getElem hslot
  exact (hfunded.slot _ hget).credited_le hget

/-- A SY state with one emission; the rate and the index in whole units. -/
def VaultWorld.wholeState (rate index : UInt64) : SyState :=
  ⟨fromNaturalU64 rate, [fromNaturalU64 index]⟩

/-- A vault with one emission, PY stripped at rate two, and half of the YT deposited by a user. -/
def VaultWorld.emissionSetup : List VaultOp :=
  [.addEmission {} (wholeState 2 0) 0 0 0, .initializeYieldPosition 1 0,
    .strip 1 (wholeState 2 0) 100000000, .depositYt 2 (wholeState 2 0) 0 100000000]

/-- The rate and the index rise, and the user stages, before maturity and after it. -/
def VaultWorld.fairEmissions : List VaultOp :=
  emissionSetup ++ [.stageYield 3 (wholeState 4 1) 0, .collectInterest 3 0 .all,
    .stageYield 1001 (wholeState 8 3) 0]

theorem emissionCredited_le_accrual_rise :
    let r := VaultRun.of VaultWorld.freshVault VaultWorld.fairEmissions
    (r.emissionCredited 0 + r.treasuryEmissionCredited 0) * denom ≤ r.2.accrual 0 :=
  emissionCredited_le_accrual ⟨0, 1000, 0, {}, 0, 0, 0, 0⟩ VaultWorld.fairEmissions 0
    (by decide +kernel) (by decide +kernel)

/-- The index rises while the rate is down to one, and the user withdraws a unit of YT. -/
def VaultWorld.withdrawDuringEmergency : List VaultOp :=
  emissionSetup ++ [.withdrawYt 3 (wholeState 1 1) 0 1]

/-- The withdrawal pays both positions on twice the SY that they hold. The accrual is exceeded by
more than a unit for each of the at most three credits of each operation. -/
theorem not_emissionCredited_le_accrual_emergency :
    Machine.Admits VaultRun.step
      (fun r op => op.Sane r.1 ∧ op.Timely r.1 ∧ op.IndexesGrow r.1 ∧
        (op.ChangesEmissions → r.2.strips = []))
      (VaultWorld.freshVault, {}) VaultWorld.withdrawDuringEmergency ∧
    let r := VaultRun.of VaultWorld.freshVault VaultWorld.withdrawDuringEmergency
    r.2.accrual 0 + 3 * VaultWorld.withdrawDuringEmergency.length * denom
      < (r.emissionCredited 0 + r.treasuryEmissionCredited 0) * denom := by
  decide +kernel

end

end ExponentCore
