import ExponentCore.Vault.Instructions
import ExponentCore.Vault.Proof.Indexes

/-!
# Uncollected interest is owed interest

Every staging adds its credit to a position and to `uncollected_sy` alike, and both ways to collect
interest take the same amount out of both. So `uncollected_sy` is always the sum of what the
positions have staged (`UncollectedOwed`), and what `Amount::to_u64` accepts can be subtracted from
it (`uncollectedOwed_throughout`).
-/

set_option autoImplicit false

namespace ExponentCore

variable {A : VaultRun → VaultOp → Prop} {P : Staging → Prop} {w w' : VaultWorld}
  {r r' : VaultRun} {v v' : Vault} {p p' u u' : YieldTokenPosition} {k : Holder} {i : Nat}
  {a : UInt64} {amount : Amount}

/-! ## What is staged -/

theorem stagedInterest_setPosition {q : YieldTokenPosition} (hp : w.position? k = some p) :
    (w.setPosition k q).stagedInterest + p.interest.staged.toNat
      = w.stagedInterest + q.interest.staged.toNat :=
  w.sum_setPosition (fun q => q.interest.staged.toNat) hp

theorem stagedInterest_same (hp : w.position? k = some p)
    (hs : p'.interest.staged = p.interest.staged) :
    (w.setPosition k p').stagedInterest = w.stagedInterest := by
  have h := stagedInterest_setPosition (q := p') hp
  rw [hs] at h
  omega

/-- Moving YT moves no staged interest. -/
theorem stagedInterest_move (hu : w.position? (.user i) = some u)
    (hp : p'.interest = w.yieldPosition.interest) (hu' : u'.interest = u.interest) :
    ((w.setPosition .vault p').setPosition (.user i) u').stagedInterest = w.stagedInterest := by
  have hs := w.sum_setPositions (q := p') (y := u')
    (fun q => q.interest.staged.toNat) hu
  rw [hp, hu'] at hs
  exact Nat.add_right_cancel hs

/-- What one position has staged is part of the whole. -/
theorem staged_le_stagedInterest (hp : w.position? k = some p) :
    p.interest.staged.toNat ≤ w.stagedInterest :=
  List.single_le_sum (fun _ _ => Nat.zero_le _) _
    (List.mem_map_of_mem (VaultWorld.position?_mem hp))

/-! ## Every event -/

/-- **Uncollected interest is exactly owed interest.** -/
def VaultWorld.UncollectedOwed (w : VaultWorld) : Prop :=
  w.stagedInterest = w.vault.uncollectedSy.toNat

/-- A staging credits the position and the vault alike. -/
theorem VaultWorld.UncollectedOwed.earned (h : w.UncollectedOwed) (hp : w.position? k = some p)
    (hv : v.uncollectedSy = w.vault.uncollectedSy) (he : Earned v p v' p') :
    (w.setPosition k p').stagedInterest = v'.uncollectedSy.toNat := by
  obtain ⟨c, t, -, hs, ht, rfl⟩ := he.credit
  have hset := stagedInterest_setPosition (q := p') hp
  rw [VaultWorld.UncollectedOwed] at h
  rw [hv] at ht
  show _ = t.toNat
  omega

theorem VaultWorld.UncollectedOwed.event (h : r.1.UncollectedOwed) (he : VaultEvent A P r r') :
    r'.1.UncollectedOwed := by
  cases he with
  | @refresh w g op now syState v₁ v₂ p₁ hread hA hr hP =>
    exact h.earned (k := .vault) rfl hr.updated.uncollected hr.earned
  | @earn w g i u u' v' hu hP he =>
    exact h.earned hu rfl (earned_of_ok he)
  | @mint w g x py v' p' hactive hcalm hj hm =>
    have hs := stagedInterest_same (w := w) (k := .vault) rfl
      (congrArg YieldTokenTracker.staged hm.interest)
    obtain ⟨e, t, s, -, -, rfl⟩ := hm.vault
    exact hs.trans h
  | @burn w g a x v' p' hcalm hj hb =>
    have hs := stagedInterest_same (w := w) (k := .vault) rfl
      (congrArg YieldTokenTracker.staged hb.interest)
    obtain ⟨e, t, s, -, -, rfl⟩ := hb.vault
    exact hs.trans h
  | deposit hu hactive hcalm hj hju hm =>
    have hs := stagedInterest_move hu hm.interest.1 hm.interest.2
    obtain ⟨s, rfl⟩ := hm.vault
    exact hs.trans h
  | withdraw hu hactive hj hju hm =>
    have hs := stagedInterest_move hu hm.interest.2 hm.interest.1
    obtain ⟨s, rfl⟩ := hm.vault
    exact hs.trans h
  | rebalance hb => exact h
  | @payInterest w g k p a v' p' hp hpay =>
    have hset := stagedInterest_setPosition (q := p') hp
    obtain ⟨e, c, -, hc, rfl⟩ := hpay.vault
    obtain ⟨s, hs, hp'⟩ := hpay.position
    have hs' : p'.interest.staged = s := by rw [hp']
    rw [hs'] at hset
    have hold : w.stagedInterest = w.vault.uncollectedSy.toNat := h
    show (w.setPosition k p').stagedInterest = c.toNat
    omega
  | payTreasury hpay =>
    obtain ⟨e, t, -, -, rfl⟩ := hpay
    exact h
  | @payEmission w g k p index a p' hp hpay =>
    have hs := stagedInterest_same hp
      (congrArg YieldTokenTracker.staged (collectEmissionAt_same hpay).2)
    show (w.setPosition k p').stagedInterest = (w.setPosition k p').vault.uncollectedSy.toNat
    rw [VaultWorld.setPosition_vault]
    exact hs.trans h
  | openPosition =>
    rw [VaultWorld.UncollectedOwed] at h
    simpa [VaultWorld.UncollectedOwed, VaultWorld.stagedInterest, VaultWorld.positions] using h
  | payTreasuryEmission _ _ | addEmission _ _ | removeEmission _ => exact h

/-! ## Every state of a run -/

theorem decUncollectedSy_of_le (h : a.toNat ≤ v.uncollectedSy.toNat) :
    ∃ v', v.decUncollectedSy a = .ok v' := by
  refine ⟨{ v with uncollectedSy := v.uncollectedSy - a }, ?_⟩
  refine Vault.decUncollectedSy_eq_ok.2 ⟨v.uncollectedSy - a, ?_, rfl⟩
  rw [UInt64.toNat_sub_of_le _ _ (UInt64.le_iff_toNat_le.2 h)]
  omega

/-- What the two ways to collect interest rest on: what `Amount::to_u64` accepts of the staged
interest can be subtracted, both before and after the position has earned. -/
structure InterestCollectable (w : VaultWorld) : Prop where
  owed : w.vault.uncollectedSy.toNat = w.stagedInterest
  collect : ∀ (i : Nat) u (amount : Amount) a v u', w.userPositions[i]? = some u →
    amount.toU64 u.interest.staged = .ok a → yieldPositionEarn w.vault u = .ok (v, u') →
    ∃ v', v.decUncollectedSy a = .ok v'
  collectTreasury : ∀ (amount : Amount) a, amount.toU64 w.yieldPosition.interest.staged = .ok a →
    ∃ v', w.vault.decUncollectedSy a = .ok v'

theorem VaultWorld.UncollectedOwed.collectable (h : w.UncollectedOwed) :
    InterestCollectable w where
  owed := h.symm
  collect i u amount a v u' hu ha hearn := by
    obtain ⟨c, t, -, -, ht, rfl⟩ := (earned_of_ok hearn).credit
    have hle := staged_le_stagedInterest (k := .user i) hu
    have hamount := Amount.toU64_le ha
    rw [VaultWorld.UncollectedOwed] at h
    refine decUncollectedSy_of_le ?_
    show a.toNat ≤ t.toNat
    omega
  collectTreasury amount a ha := by
    have hle := staged_le_stagedInterest (w := w) (k := .vault) rfl
    have hamount := Amount.toU64_le ha
    rw [VaultWorld.UncollectedOwed] at h
    exact decUncollectedSy_of_le (by omega)

/-- **Uncollected interest**: in every state of every run from a new vault, in and out of emergency
mode, before and after maturity. -/
theorem uncollectedOwed_throughout (args : InitializeVaultArgs) (ops : List VaultOp) :
    Machine.Throughout VaultWorld.instruct InterestCollectable (.initializeVault args) ops := by
  have hinv : Machine.Throughout VaultWorld.instruct VaultWorld.UncollectedOwed
      (.initializeVault args) ops := by
    refine Machine.throughout_of_step (P := fun _ _ => True) ?_ rfl ?_
    · intro w op w' h _ hs
      obtain ⟨htimely, hstep⟩ := VaultWorld.instruct_eq_ok hs
      exact VaultRun.step_induction (g := {}) (A := fun _ _ => True) (P := fun _ => True)
        (I := fun r => r.1.UncollectedOwed) (fun _ _ hr he => hr.event he) h trivial
        htimely (fun _ _ => trivial) hstep
    · exact Machine.admits_true
  exact hinv.mono fun _ h => h.collectable

end ExponentCore
