import ExponentCore.Market.Proof.Scope

/-!
# What is left to those who do not act

A user who does nothing keeps the tokens, the YT and the LP tokens that are staked, and what they
have earned, whatever others do: their instructions debit their own token accounts and change their
own positions. Anybody may stage the yield of a position, but that only adds to it (`Grows`).
-/

set_option autoImplicit false

namespace ExponentCore

/-! ## Token accounts -/

/-- What a user has in token accounts. -/
structure Holdings where
  sy : UInt64
  pt : UInt64
  yt : UInt64
  lp : UInt64
deriving DecidableEq

variable {N : Type}

namespace Bank

def holdings (b : Bank N) (u : Nat) : Holdings :=
  { sy := b.users.sy u, pt := b.users.pt u, yt := b.users.yt u, lp := b.users.lp u }

section
variable {b b' : Bank N} {user u position : Nat} {amount : UInt64}

theorem debit_of_ne {accounts accounts' : Nat → UInt64} (hu : user ≠ u)
    (h : debit accounts user amount = .ok accounts') : accounts' u = accounts u := by
  obtain ⟨x, -, rfl⟩ := debit_eq_ok.1 h
  exact Function.update_of_ne hu.symm _ _

theorem credit_of_ne {accounts accounts' : Nat → UInt64} (hu : user ≠ u)
    (h : credit accounts user amount = .ok accounts') : accounts' u = accounts u := by
  obtain ⟨x, -, rfl⟩ := credit_eq_ok.1 h
  exact Function.update_of_ne hu.symm _ _

/-- The accounts of another user do not count. -/
theorem holdings_eq (hsy : b'.users.sy u = b.users.sy u) (hpt : b'.users.pt u = b.users.pt u)
    (hyt : b'.users.yt u = b.users.yt u) (hlp : b'.users.lp u = b.users.lp u) :
    b'.holdings u = b.holdings u := by
  simp only [holdings, hsy, hpt, hyt, hlp]

section
variable (hu : user ≠ u)
include hu

theorem holdings_debitSy (h : b.debitSy user amount = .ok b') : b'.holdings u = b.holdings u := by
  simp only [debitSy, bind_eq_ok, Except.ok.injEq] at h
  obtain ⟨sy, hsy, rfl⟩ := h
  exact holdings_eq (debit_of_ne hu hsy) rfl rfl rfl

theorem holdings_creditSy (h : b.creditSy user amount = .ok b') :
    b'.holdings u = b.holdings u := by
  simp only [creditSy, bind_eq_ok, Except.ok.injEq] at h
  obtain ⟨sy, hsy, rfl⟩ := h
  exact holdings_eq (credit_of_ne hu hsy) rfl rfl rfl

theorem holdings_debitPt (h : b.debitPt user amount = .ok b') : b'.holdings u = b.holdings u := by
  simp only [debitPt, bind_eq_ok, Except.ok.injEq] at h
  obtain ⟨pt, hpt, rfl⟩ := h
  exact holdings_eq rfl (debit_of_ne hu hpt) rfl rfl

theorem holdings_creditPt (h : b.creditPt user amount = .ok b') :
    b'.holdings u = b.holdings u := by
  simp only [creditPt, bind_eq_ok, Except.ok.injEq] at h
  obtain ⟨pt, hpt, rfl⟩ := h
  exact holdings_eq rfl (credit_of_ne hu hpt) rfl rfl

theorem holdings_debitYt (h : b.debitYt user amount = .ok b') : b'.holdings u = b.holdings u := by
  simp only [debitYt, bind_eq_ok, Except.ok.injEq] at h
  obtain ⟨yt, hyt, rfl⟩ := h
  exact holdings_eq rfl rfl (debit_of_ne hu hyt) rfl

theorem holdings_creditYt (h : b.creditYt user amount = .ok b') :
    b'.holdings u = b.holdings u := by
  simp only [creditYt, bind_eq_ok, Except.ok.injEq] at h
  obtain ⟨yt, hyt, rfl⟩ := h
  exact holdings_eq rfl rfl (credit_of_ne hu hyt) rfl

theorem holdings_debitLp (h : b.debitLp user amount = .ok b') : b'.holdings u = b.holdings u := by
  simp only [debitLp, bind_eq_ok, Except.ok.injEq] at h
  obtain ⟨lp, hlp, rfl⟩ := h
  exact holdings_eq rfl rfl rfl (debit_of_ne hu hlp)

theorem holdings_creditLp (h : b.creditLp user amount = .ok b') :
    b'.holdings u = b.holdings u := by
  simp only [creditLp, bind_eq_ok, Except.ok.injEq] at h
  obtain ⟨lp, hlp, rfl⟩ := h
  exact holdings_eq rfl rfl rfl (credit_of_ne hu hlp)

end

end

end Bank

/-! ## Positions -/

/-- YT stays staked, and what is staged only grows. -/
structure YieldTokenPosition.Grows (p p' : YieldTokenPosition) : Prop where
  ytBalance : p'.ytBalance = p.ytBalance
  interest : p.interest.staged ≤ p'.interest.staged
  emissions : ∀ (k : Nat) (t : YieldTokenTracker), p.emissions[k]? = some t →
    ∃ t' : YieldTokenTracker, p'.emissions[k]? = some t' ∧ t.staged ≤ t'.staged

section
variable {p p' p'' : YieldTokenPosition} {v v' : Vault} {w w' : VaultWorld} {op : VaultOp} {i : Nat}

theorem YieldTokenPosition.Grows.refl (p : YieldTokenPosition) : p.Grows p :=
  ⟨rfl, UInt64.le_refl _, fun _ t ht => ⟨t, ht, UInt64.le_refl _⟩⟩

theorem YieldTokenPosition.Grows.trans (h : p.Grows p') (h' : p'.Grows p'') : p.Grows p'' := by
  refine ⟨h'.ytBalance.trans h.ytBalance, UInt64.le_trans h.interest h'.interest, ?_⟩
  intro k t ht
  obtain ⟨t', ht', hle⟩ := h.emissions k t ht
  obtain ⟨t'', ht'', hle'⟩ := h'.emissions k t' ht'
  exact ⟨t'', ht'', UInt64.le_trans hle hle'⟩

theorem earnTrackers_grows {b : UInt64} {ts ts' : List YieldTokenTracker} {es : List EmissionInfo}
    (h : YieldTokenPosition.earnTrackers b ts es = .ok ts') {k : Nat} {t : YieldTokenTracker}
    (ht : ts[k]? = some t) : ∃ t', ts'[k]? = some t' ∧ t.staged ≤ t'.staged := by
  induction es generalizing ts ts' k with
  | nil =>
    obtain rfl : ts = ts' := by simpa [YieldTokenPosition.earnTrackers] using h
    exact ⟨t, ht, UInt64.le_refl _⟩
  | cons e es ih =>
    cases ts with
    | nil => cases h
    | cons t₀ ts =>
      simp only [YieldTokenPosition.earnTrackers, YieldTokenTracker.incStaged, bind_eq_ok,
        unwrap_eq_ok, checkedAdd_eq_some, Except.ok.injEq] at h
      obtain ⟨n, -, _, ⟨s, hs, rfl⟩, ts₁, hts, rfl⟩ := h
      cases k with
      | zero =>
        obtain rfl := Option.some.inj ht
        refine ⟨_, rfl, UInt64.le_iff_toNat_le.2 ?_⟩
        dsimp only
        omega
      | succ k => exact ih hts ht

/-- Staging adds to a position. -/
theorem Earned.grows (h : Earned v p v' p') : p.Grows p' := by
  obtain ⟨c, u, -, hstaged, -, -⟩ := h.credit
  obtain ⟨b, -, htrackers⟩ := h.trackers
  refine ⟨h.ytBalance, UInt64.le_iff_toNat_le.2 (by omega), fun k t ht => ?_⟩
  refine earnTrackers_grows htrackers ?_
  have hlen := (List.getElem?_eq_some_iff.1 ht).1
  exact (List.getElem?_append_left hlen).trans ht

/-- A position is there still, and has only grown. -/
def VaultWorld.Keeps (i : Nat) (w w' : VaultWorld) : Prop :=
  ∀ p, w.userPositions[i]? = some p → ∃ p', w'.userPositions[i]? = some p' ∧ p.Grows p'

theorem VaultWorld.keeps_of_eq (h : w'.userPositions[i]? = w.userPositions[i]?) :
    w.Keeps i w' :=
  fun p hp => ⟨p, h.trans hp, .refl p⟩

theorem VaultWorld.keeps_of_step (hop : ∀ k ∈ op.actor.yieldPosition, k ≠ i)
    (h : w.step op = .ok w') : w.Keeps i w' := by
  cases op with
  | initializeYieldPosition owner key =>
    cases h
    intro p hp
    have hlen := (List.getElem?_eq_some_iff.1 hp).1
    exact ⟨p, (List.getElem?_append_left hlen).trans hp, .refl p⟩
  | strip =>
    obtain ⟨_, _, _, v', p', py, -, -, -, rfl⟩ := VaultWorld.step_strip h
    exact keeps_of_eq rfl
  | merge =>
    obtain ⟨_, _, _, v', p', x, -, -, -, rfl⟩ := VaultWorld.step_merge h
    exact keeps_of_eq rfl
  | depositYt now syState k a =>
    obtain ⟨u, _, _, _, _, _, v', p', u', -, -, -, -, -, rfl⟩ := VaultWorld.step_depositYt h
    exact keeps_of_eq (List.getElem?_set_ne (hop k rfl))
  | withdrawYt now syState k a =>
    obtain ⟨u, _, _, _, _, _, v', p', u', -, -, -, -, rfl⟩ := VaultWorld.step_withdrawYt h
    exact keeps_of_eq (List.getElem?_set_ne (hop k rfl))
  | stageYield now syState k =>
    obtain ⟨u, v₁, v₂, p₁, v₃, u₁, v', hu, -, -, hearn, -, -, rfl⟩ := VaultWorld.step_stageYield h
    by_cases hk : k = i
    · subst hk
      intro p hp
      obtain rfl := Option.some.inj (hu.symm.trans hp)
      have hlen := (List.getElem?_eq_some_iff.1 hu).1
      exact ⟨u₁, List.getElem?_set_self hlen, (earned_of_ok hearn).grows⟩
    · exact keeps_of_eq (List.getElem?_set_ne hk)
  | collectInterest now k amount =>
    obtain ⟨u, a, _, _, v', u', -, -, -, -, rfl⟩ := VaultWorld.step_collectInterest h
    exact keeps_of_eq (List.getElem?_set_ne (hop k rfl))
  | collectTreasuryInterest amount kind =>
    obtain ⟨v', p', a, rfl, -⟩ := VaultWorld.step_collectTreasuryInterest h
    exact keeps_of_eq rfl
  | collectEmission k index amount =>
    obtain ⟨u, a, u', -, -, rfl⟩ := VaultWorld.step_collectEmission h
    exact keeps_of_eq (List.getElem?_set_ne (hop k rfl))
  | collectTreasuryEmission index amount kind =>
    obtain ⟨-, a, p', -, rfl⟩ | ⟨-, a, e, t, -, -, rfl⟩ :=
      VaultWorld.step_collectTreasuryEmission h
    · exact keeps_of_eq rfl
    · exact keeps_of_eq rfl
  | addEmission accounts syState token treasury fee =>
    obtain ⟨x, -, rfl⟩ := VaultWorld.step_addEmission h
    exact keeps_of_eq rfl
  | removeVaultEmission index =>
    obtain ⟨-, rfl⟩ := VaultWorld.step_removeVaultEmission h
    exact keeps_of_eq rfl

end

section
variable {w w' : LpWorld N} {op : LpOp} {j : Nat} {p : LpPosition}

/-- Nobody else touches an LP position. -/
theorem LpWorld.position_of_step (hop : ∀ k ∈ op.actor.lpPosition, k ≠ j)
    (hp : w.lpPositions[j]? = some p) (h : w.step op = .ok w') : w'.lpPositions[j]? = some p := by
  cases op with
  | initLpPosition owner =>
    cases h
    exact (List.getElem?_append_left (List.getElem?_eq_some_iff.1 hp).1).trans hp
  | depositLp now k amount | withdrawLp now k amount =>
    simp only [LpWorld.step, LpWorld.withPosition, bind_eq_ok, Except.ok.injEq, Prod.exists] at h
    obtain ⟨q, -, m, q', -, rfl⟩ := h
    exact (List.getElem?_set_ne (hop k rfl)).trans hp
  | marketCollectEmission k index =>
    simp only [LpWorld.step, bind_eq_ok, Except.ok.injEq, Prod.exists] at h
    obtain ⟨q, -, m, q', cs, -, rfl⟩ := h
    exact (List.getElem?_set_ne (hop k rfl)).trans hp
  | claimFarmEmissions k mint amount =>
    simp only [LpWorld.step, bind_eq_ok, Except.ok.injEq, Prod.exists] at h
    obtain ⟨q, -, q', t, -, rfl⟩ := h
    exact (List.getElem?_set_ne (hop k rfl)).trans hp
  | addMarketEmission | accrue =>
    cases h
    exact hp
  | removeMarketEmission index =>
    simp only [LpWorld.step, bind_eq_ok, Except.ok.injEq] at h
    obtain ⟨m, -, rfl⟩ := h
    exact hp
  | addFarm | modifyFarm =>
    simp only [LpWorld.step, LpWorld.withTokenFarm, bind_eq_ok, Except.ok.injEq, Prod.exists] at h
    obtain ⟨m, t, -, rfl⟩ := h
    exact hp

end

namespace Bank

/-- **What is a user's is left**: the tokens, a position in the vault and one in the market. -/
structure Spares (u i j : Nat) (b b' : Bank N) : Prop where
  holdings : b'.holdings u = b.holdings u
  yieldPosition : b.vaultWorld.Keeps i b'.vaultWorld
  lpPosition : ∀ p, b.lpWorld.lpPositions[j]? = some p → b'.lpWorld.lpPositions[j]? = some p

section
variable {b b' b'' : Bank N} {user u i j : Nat} {amount : UInt64}

theorem Spares.refl (b : Bank N) : Spares u i j b b :=
  ⟨rfl, VaultWorld.keeps_of_eq rfl, fun _ hp => hp⟩

theorem Spares.trans (h : Spares u i j b b') (h' : Spares u i j b' b'') : Spares u i j b b'' := by
  refine ⟨h'.holdings.trans h.holdings, fun p hp => ?_, fun p hp => ?_⟩
  · obtain ⟨p', hp', hgrows⟩ := h.yieldPosition p hp
    obtain ⟨p'', hp'', hgrows'⟩ := h'.yieldPosition p' hp'
    exact ⟨p'', hp'', hgrows.trans hgrows'⟩
  · exact h'.lpPosition p (h.lpPosition p hp)

/-- Tokens of others move. -/
theorem spares_of_state (hstate : b'.programState = b.programState)
    (hold : b'.holdings u = b.holdings u) : Spares u i j b b' := by
  refine ⟨hold, VaultWorld.keeps_of_eq ?_, fun p hp => ?_⟩
  · rw [show b'.vaultWorld = b.vaultWorld from congrArg ProgramState.vaultWorld hstate]
  · rwa [show b'.lpWorld = b.lpWorld from congrArg ProgramState.lpWorld hstate]

theorem spares_instruct {op : VaultOp} {w : VaultWorld}
    (hop : ∀ k ∈ op.actor.yieldPosition, k ≠ i) (h : b.vaultWorld.instruct op = .ok w) :
    Spares u i j b { b with vaultWorld := w } :=
  ⟨rfl, VaultWorld.keeps_of_step hop (VaultWorld.instruct_eq_ok h).2, fun _ hp => hp⟩

theorem spares_lp {op : LpOp} {w : LpWorld N} (hop : ∀ k ∈ op.actor.lpPosition, k ≠ j)
    (h : b.lpWorld.step op = .ok w) : Spares u i j b { b with lpWorld := w } :=
  ⟨rfl, VaultWorld.keeps_of_eq rfl, fun _ hp => LpWorld.position_of_step hop hp h⟩

/-- The books of the market are nobody's. -/
theorem spares_books {m : MarketTwo N} : Spares u i j b (b.setMarket m) :=
  ⟨rfl, VaultWorld.keeps_of_eq rfl, fun _ hp => hp⟩

/-! ## Instructions of others -/

section
variable {r : UInt64} {k : Nat} {now : UInt64} {syState : SyState} {isBuyPt : Bool} {fee : UInt64}

theorem spares_depositSy (h : b.depositSy amount = .ok b') : Spares u i j b b' := by
  refine spares_of_state (programState_depositSy h) ?_
  simp only [depositSy, bind_eq_ok, Except.ok.injEq] at h
  obtain ⟨_, -, _, -, rfl⟩ := h
  rfl

theorem spares_withdrawSy (h : b.withdrawSy amount = .ok b') : Spares u i j b b' := by
  refine spares_of_state (programState_withdrawSy h) ?_
  simp only [withdrawSy, bind_eq_ok, Except.ok.injEq] at h
  obtain ⟨_, -, _, -, rfl⟩ := h
  rfl

section
variable (hu : user ≠ u)
include hu

theorem spares_debitSy (h : b.debitSy user amount = .ok b') : Spares u i j b b' :=
  spares_of_state (programState_debitSy h) (holdings_debitSy hu h)

theorem spares_creditSy (h : b.creditSy user amount = .ok b') : Spares u i j b b' :=
  spares_of_state (programState_creditSy h) (holdings_creditSy hu h)

theorem spares_debitPt (h : b.debitPt user amount = .ok b') : Spares u i j b b' :=
  spares_of_state (programState_debitPt h) (holdings_debitPt hu h)

theorem spares_creditPt (h : b.creditPt user amount = .ok b') : Spares u i j b b' :=
  spares_of_state (programState_creditPt h) (holdings_creditPt hu h)

theorem spares_debitYt (h : b.debitYt user amount = .ok b') : Spares u i j b b' :=
  spares_of_state (programState_debitYt h) (holdings_debitYt hu h)

theorem spares_creditYt (h : b.creditYt user amount = .ok b') : Spares u i j b b' :=
  spares_of_state (programState_creditYt h) (holdings_creditYt hu h)

theorem spares_debitLp (h : b.debitLp user amount = .ok b') : Spares u i j b b' :=
  spares_of_state (programState_debitLp h) (holdings_debitLp hu h)

theorem spares_creditLp (h : b.creditLp user amount = .ok b') : Spares u i j b b' :=
  spares_of_state (programState_creditLp h) (holdings_creditLp hu h)

theorem spares_receivePt (h : b.receivePt user amount = .ok b') : Spares u i j b b' := by
  simp only [receivePt, bind_eq_ok, Except.ok.injEq] at h
  obtain ⟨b₁, h₁, e, -, rfl⟩ := h
  exact (spares_debitPt hu h₁).trans (spares_of_state rfl rfl)

theorem spares_sendPt (h : b.sendPt user amount = .ok b') : Spares u i j b b' := by
  simp only [sendPt, bind_eq_ok] at h
  obtain ⟨e, -, h₁⟩ := h
  have hescrow : Spares u i j b { b with tokenPtEscrow := e } := spares_of_state rfl rfl
  exact hescrow.trans (spares_creditPt hu h₁)

theorem spares_receiveSy (h : b.receiveSy user amount = .ok b') : Spares u i j b b' := by
  simp only [receiveSy, bind_eq_ok, Except.ok.injEq] at h
  obtain ⟨b₁, h₁, e, -, rfl⟩ := h
  exact (spares_debitSy hu h₁).trans (spares_of_state rfl rfl)

theorem spares_sendSy (h : b.sendSy user amount = .ok b') : Spares u i j b b' := by
  simp only [sendSy, bind_eq_ok] at h
  obtain ⟨e, -, h₁⟩ := h
  have hescrow : Spares u i j b { b with tokenSyEscrow := e } := spares_of_state rfl rfl
  exact hescrow.trans (spares_creditSy hu h₁)

theorem spares_transferPt (h : b.transferPt user isBuyPt amount = .ok b') :
    Spares u i j b b' := by
  cases isBuyPt with
  | true => exact spares_sendPt hu h
  | false => exact spares_receivePt hu h

theorem spares_transferSy (h : b.transferSy user isBuyPt amount fee = .ok b') :
    Spares u i j b b' := by
  cases isBuyPt with
  | true =>
    simp only [transferSy, if_true, bind_eq_ok, Except.ok.injEq] at h
    obtain ⟨a, -, b₁, h₁, b₂, h₂, b₃, h₃, t, -, rfl⟩ := h
    have hpaid := ((spares_receiveSy hu h₁).trans (spares_depositSy h₂)).trans
      (spares_debitSy (i := i) (j := j) hu h₃)
    exact hpaid.trans (spares_of_state rfl rfl)
  | false =>
    simp only [transferSy, Bool.false_eq_true, if_false, bind_eq_ok, Except.ok.injEq] at h
    obtain ⟨a, -, b₁, h₁, b₂, h₂, e, -, t, -, rfl⟩ := h
    have hpaid := (spares_withdrawSy h₁).trans (spares_sendSy (i := i) (j := j) hu h₂)
    exact hpaid.trans (spares_of_state rfl rfl)

theorem spares_strip (h : b.strip user now syState amount = .ok (b', r)) : Spares u i j b b' := by
  simp only [strip, bind_eq_ok, Except.ok.injEq, Prod.exists, Prod.mk.injEq] at h
  obtain ⟨b₁, h₁, w, hw, _, _, _, -, b₂, h₂, b₃, h₃, rfl, -⟩ := h
  have hworld : Spares u i j b₁ { b₁ with vaultWorld := w } :=
    spares_instruct (by intro _ hmem; cases hmem) hw
  exact (((spares_debitSy hu h₁).trans hworld).trans (spares_creditPt hu h₂)).trans
    (spares_creditYt hu h₃)

theorem spares_burnYt {active : Bool} (h : b.burnYt user active amount = .ok b') :
    Spares u i j b b' := by
  cases active with
  | true => exact spares_debitYt hu h
  | false =>
    obtain rfl := Except.ok.inj h
    exact .refl b

theorem spares_merge (h : b.merge user now syState amount = .ok (b', r)) : Spares u i j b b' := by
  simp only [merge, bind_eq_ok, Except.ok.injEq, Prod.exists, Prod.mk.injEq] at h
  obtain ⟨w, hw, _, _, _, -, active, -, b₁, h₁, b₂, h₂, b₃, h₃, rfl, -⟩ := h
  have hworld : Spares u i j b { b with vaultWorld := w } :=
    spares_instruct (by intro _ hmem; cases hmem) hw
  exact ((hworld.trans (spares_debitPt hu h₁)).trans (spares_burnYt hu h₂)).trans
    (spares_creditSy hu h₃)

theorem spares_depositYt (hk : k ≠ i) (h : b.depositYt user k now syState amount = .ok b') :
    Spares u i j b b' := by
  simp only [depositYt, bind_eq_ok] at h
  obtain ⟨w, hw, h₁⟩ := h
  have hworld : Spares u i j b { b with vaultWorld := w } :=
    spares_instruct (by rintro _ ⟨rfl⟩; exact hk) hw
  exact hworld.trans (spares_debitYt hu h₁)

theorem spares_withdrawYt {w : VaultWorld} (hk : k ≠ i)
    (hw : b.vaultWorld.instruct (.withdrawYt now.toUInt32 syState k amount) = .ok w)
    (h : { b with vaultWorld := w }.creditYt user amount = .ok b') : Spares u i j b b' := by
  have hworld : Spares u i j b { b with vaultWorld := w } :=
    spares_instruct (by rintro _ ⟨rfl⟩; exact hk) hw
  exact hworld.trans (spares_creditYt hu h)

theorem spares_collectInterest {a : Amount} (hk : k ≠ i)
    (h : b.collectInterest user k now a = .ok (b', r)) : Spares u i j b b' := by
  obtain ⟨l, _, w, _, _, _, -, -, hw, -, h₁⟩ := collectInterest_spec h
  have hlimits : Spares u i j b { b with vaultWorld := b.vaultWorld.withClaimLimits l } :=
    ⟨rfl, VaultWorld.keeps_of_eq rfl, fun _ hp => hp⟩
  have hworld : Spares u i j { b with vaultWorld := b.vaultWorld.withClaimLimits l }
      { b with vaultWorld := w } :=
    spares_instruct (by rintro _ ⟨rfl⟩; exact hk) hw
  exact (hlimits.trans hworld).trans (spares_creditSy hu h₁)

theorem spares_depositLp (hk : k ≠ j) (h : b.depositLp user k now amount = .ok b') :
    Spares u i j b b' := by
  simp only [depositLp, bind_eq_ok] at h
  obtain ⟨w, hw, h₁⟩ := h
  have hworld : Spares u i j b { b with lpWorld := w } :=
    spares_lp (by rintro _ ⟨rfl⟩; exact hk) hw
  exact hworld.trans (spares_debitLp hu h₁)

theorem spares_withdrawLp (hk : k ≠ j) (h : b.withdrawLp user k now amount = .ok b') :
    Spares u i j b b' := by
  simp only [withdrawLp, bind_eq_ok] at h
  obtain ⟨w, hw, h₁⟩ := h
  have hworld : Spares u i j b { b with lpWorld := w } :=
    spares_lp (by rintro _ ⟨rfl⟩; exact hk) hw
  exact hworld.trans (spares_creditLp hu h₁)

variable [Num N]

theorem spares_tradePt {rate : Number} {n c : Int} {x : MarketTradeResult}
    (h : b.tradePt user now rate n c = .ok (b', x)) : Spares u i j b b' := by
  simp only [tradePt, bind_eq_ok, Prod.exists, Except.ok.injEq, Prod.mk.injEq] at h
  obtain ⟨_, -, _, -, f, x, -, _, -, _, -, b₁, h₁, b₂, h₂, rfl, rfl⟩ := h
  exact (spares_books.trans (spares_transferPt hu h₁)).trans (spares_transferSy hu h₂)

theorem spares_depositLiquidity {ptIntent syIntent minLpOut : UInt64} {x : LiqAddResult}
    (h : b.depositLiquidity user now ptIntent syIntent minLpOut = .ok (b', x)) :
    Spares u i j b b' := by
  simp only [depositLiquidity, bind_eq_ok, Prod.exists, Except.ok.injEq, Prod.mk.injEq] at h
  obtain ⟨_, -, _, -, f, x, -, _, -, l, -, b₁, h₁, b₂, h₂, b₃, h₃, m, -, b₄, h₄, _, -, rfl,
    rfl⟩ := h
  have hpaid := ((spares_books.trans (spares_receivePt hu h₁)).trans
    (spares_receiveSy hu h₂)).trans (spares_creditLp (i := i) (j := j) hu h₃)
  have hmint : Spares u i j b₃ { b₃ with mintLp := m } := spares_of_state rfl rfl
  exact (hpaid.trans hmint).trans (spares_depositSy h₄)

theorem spares_withdrawLiquidity {minPtOut minSyOut : UInt64} {x : LiqRmResult}
    (h : b.withdrawLiquidity user now amount minPtOut minSyOut = .ok (b', x)) :
    Spares u i j b b' := by
  simp only [withdrawLiquidity, bind_eq_ok, Prod.exists, Except.ok.injEq, Prod.mk.injEq] at h
  obtain ⟨_, -, _, -, l, -, f, x, -, _, -, _, -, b₁, h₁, m, -, b₂, h₂, b₃, h₃, b₄, h₄, rfl,
    rfl⟩ := h
  have hburned := spares_books.trans (spares_debitLp (i := i) (j := j) hu h₁)
  have hmint : Spares u i j b₁ { b₁ with mintLp := m } := spares_of_state rfl rfl
  exact (((hburned.trans hmint).trans (spares_withdrawSy h₂)).trans (spares_sendPt hu h₃)).trans
    (spares_sendSy hu h₄)

end

end

end

section
variable [Num N] {u i j : Nat}

/-- Everybody acts but a user, on all positions but two. -/
def others (u i j : Nat) : Scope where
  users x := x ≠ u
  yieldPositions x := x ≠ i
  lpPositions x := x ≠ j

theorem spares_call {c : Call} {b b' : Bank N} {r : c.Ret}
    (hc : (others u i j).Has c.actor) (h : c.act b = .ok (b', r)) :
    Spares u i j b b' := by
  cases c with
  | strip user => exact spares_strip (hc.user user rfl) h
  | merge user => exact spares_merge (hc.user user rfl) h
  | depositYt user k =>
    exact spares_depositYt (hc.user user rfl) (hc.yieldPosition k rfl) (Call.noData_eq_ok.1 h)
  | collectInterest user k =>
    exact spares_collectInterest (hc.user user rfl) (hc.yieldPosition k rfl) h
  | depositLp user k =>
    exact spares_depositLp (hc.user user rfl) (hc.lpPosition k rfl) (Call.noData_eq_ok.1 h)
  | withdrawLp user k =>
    exact spares_withdrawLp (hc.user user rfl) (hc.lpPosition k rfl) (Call.noData_eq_ok.1 h)
  | tradePt user => exact spares_tradePt (hc.user user rfl) h
  | depositLiquidity user => exact spares_depositLiquidity (hc.user user rfl) h
  | withdrawLiquidity user => exact spares_withdrawLiquidity (hc.user user rfl) h
  | mintSy user => exact spares_creditSy (hc.user user rfl) (Call.noData_eq_ok.1 h)
  | redeemSy user => exact spares_debitSy (hc.user user rfl) (Call.noData_eq_ok.1 h)
  | depositSy => exact spares_depositSy (Call.noData_eq_ok.1 h)
  | withdrawSy => exact spares_withdrawSy (Call.noData_eq_ok.1 h)
  | sendSy user => exact spares_sendSy (hc.user user rfl) (Call.noData_eq_ok.1 h)
  | receiveSy user => exact spares_receiveSy (hc.user user rfl) (Call.noData_eq_ok.1 h)
  | sendPt user => exact spares_sendPt (hc.user user rfl) (Call.noData_eq_ok.1 h)
  | receivePt user => exact spares_receivePt (hc.user user rfl) (Call.noData_eq_ok.1 h)

/-- What others do spares the user. -/
theorem keeps_spares (u i j : Nat) :
    Bank.Keeps (others u i j) (fun _ => True) (Spares (N := N) u i j) where
  refl := .refl
  trans _ _ _ := .trans
  call _ _ _ _ hc _ h := spares_call hc h
  edit _ _ := spares_books
  withdrawYt user k now syState amount b b' ha h := by
    simp only [step, bind_eq_ok] at h
    obtain ⟨w, hw, hcredit⟩ := h
    exact spares_withdrawYt (ha.user user rfl) (ha.yieldPosition k rfl) hw hcredit
  vault _ _ _ ha h := spares_instruct ha.yieldPosition h
  lp _ _ _ ha h := spares_lp ha.lpPosition h

/-- **Who does nothing loses nothing**: in every run of instructions of others, flash swaps and
wrappers with all that they call included, a user's token accounts stay as they are, and so does a
position in the market; the YT of a position in the vault stay, and what it has staged only grows. -/
theorem bystander_spared (u i j : Nat) (b : Bank N) (ops : List BankOp)
    (hops : ∀ op ∈ ops, op.actor.user ≠ some u ∧ op.actor.yieldPosition ≠ some i ∧
      op.actor.lpPosition ≠ some j) :
    Machine.Throughout step (Spares u i j b) b ops := by
  refine (keeps_spares u i j).throughout (fun op hop => ?_)
    (Machine.admits_true.mono fun _ _ _ _ _ _ _ => trivial)
  obtain ⟨hu, hi, hj⟩ := hops op hop
  refine ⟨fun x hx hxu => hu ?_, fun x hx hxi => hi ?_, fun x hx hxj => hj ?_⟩
  · rw [← hxu]
    exact hx
  · rw [← hxi]
    exact hx
  · rw [← hxj]
    exact hx

end

end Bank

/-- A second user opens a position and then looks on. -/
theorem bystander_spared_sample :
    ∃ b, sampleBank = .ok b ∧ ∃ b', b.step (.lp (.initLpPosition 1) rfl) = .ok b' ∧
      Machine.Throughout Bank.step (Bank.Spares 1 0 1 b') b'
        [.wrapper sampleWrapper, .flashSwap sampleSwap] := by
  obtain ⟨b, hb, -⟩ := sampleWrapper_run
  exact ⟨b, hb, _, rfl, Bank.bystander_spared 1 0 1 _ _ (by decide)⟩

end ExponentCore
