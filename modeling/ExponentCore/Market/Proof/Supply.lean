import ExponentCore.Market.Proof.AccountCalls
import ExponentCore.Market.Proof.LpRewards
import ExponentCore.Vault.Proof.YtConservation

/-!
# The books count the tokens

PT, YT and LP tokens are counted twice: in the token accounts, and in the vault, its own position and
the LP mint. `Flows` says by how much an instruction moves the two counts apart, and how much SY it
adds to the SY there is; no instruction moves the counts apart, and only `mint_sy` adds SY
(`Call.flows`). What a handler mints is added up by an automaton that also knows who its calls are
for (`supplyStep`).

The accounts of users are counted for a finite set of users, all who take part.
-/

set_option autoImplicit false

namespace ExponentCore

open Cached Handler

/-! ## What an instruction does to the SY of the vault -/

section
variable {w w' : VaultWorld} {op : VaultOp} {v v' : Vault} {p p' : YieldTokenPosition} {i : Nat}
  {amount : Amount}

/-- The change of the SY in the escrow. What is paid to treasuries leaves it for good. -/
def VaultOp.syEffect (w : VaultWorld) (op : VaultOp) (w' : VaultWorld) : Prop :=
  match op with
  | .strip _ _ x => w'.vault.totalSyInEscrow.toNat = w.vault.totalSyInEscrow.toNat + x.toNat
  | .merge now syState a => ∃ x : UInt64,
    (∃ r, handleMerge w.vault w.yieldPosition now syState a = .ok r ∧ r.2.2 = x) ∧
    w'.vault.totalSyInEscrow.toNat + x.toNat = w.vault.totalSyInEscrow.toNat
  | .collectInterest _ i amount => ∃ (u : YieldTokenPosition) (x : UInt64),
    w.userPositions[i]? = some u ∧
    (∃ r, ExponentCore.collectInterest w.vault u amount = .ok r ∧ r.2.2.1 = x) ∧
    w'.vault.totalSyInEscrow.toNat + x.toNat ≤ w.vault.totalSyInEscrow.toNat
  | _ => w'.vault.totalSyInEscrow.toNat ≤ w.vault.totalSyInEscrow.toNat

theorem Earned.escrow (h : Earned v p v' p') : v'.totalSyInEscrow = v.totalSyInEscrow := by
  obtain ⟨c, t, -, -, -, rfl⟩ := h.credit
  rfl

theorem Refreshed.escrow {now : UInt32} {syState : SyState} {v₁ v₂ : Vault}
    {p₁ : YieldTokenPosition} (h : Refreshed v p now syState v₁ v₂ p₁) :
    v₂.totalSyInEscrow = v.totalSyInEscrow :=
  h.earned.escrow.trans h.updated.escrow

/-- The user is paid out of what leaves the escrow. -/
theorem collectInterest_paid {n f : UInt64}
    (h : collectInterest v p amount = .ok (v', p', n, f)) :
    v'.totalSyInEscrow.toNat + n.toNat ≤ v.totalSyInEscrow.toNat := by
  simp only [collectInterest, yieldPositionEarn, handleCollectInterest, calcCollectInterest,
    bind_eq_ok, unwrap_eq_ok, checkedSub_eq_some, Vault.decTotalSyInEscrow_eq_ok,
    Vault.decUncollectedSy_eq_ok, Prod.exists, Except.ok.injEq, Prod.mk.injEq] at h
  obtain ⟨a, -, v₁, p₁, hearn, _, _, ⟨n, hn, rfl, rfl⟩, _, ⟨e, he, rfl⟩, _, -, _, ⟨c, -, rfl⟩, rfl,
    -, rfl, -⟩ := h
  have hescrow := (earned_of_ok hearn).escrow
  show e.toNat + n.toNat ≤ _
  rw [hescrow] at he
  omega

theorem syEffect_of_ok (h : w.step op = .ok w') : op.syEffect w w' := by
  cases op with
  | initializeYieldPosition owner key =>
    cases h
    exact le_rfl
  | strip now syState x =>
    obtain ⟨v₁, v₂, p₁, v', p', py, hr, -, hm, rfl⟩ := VaultWorld.step_strip h
    obtain ⟨e, t, s, hx, -, rfl⟩ := hm.vault
    rw [hr.escrow] at hx
    exact hx
  | merge now syState a =>
    rw [VaultWorld.step, VaultWorld.withOwnPosition_eq_ok] at h
    obtain ⟨v', p', x, hf, rfl⟩ := h
    obtain ⟨v₁, v₂, p₁, hr, -, hb⟩ := handleMerge_eq_ok hf
    obtain ⟨e, t, s, hx, -, rfl⟩ := hb.vault
    rw [hr.escrow] at hx
    exact ⟨x, ⟨_, hf, rfl⟩, hx⟩
  | depositYt now syState i a =>
    obtain ⟨u, v₁, v₂, p₁, v₃, u₁, v', p', u', -, hr, -, hearn, ⟨⟨s, rfl⟩, -, -, -⟩, rfl⟩ :=
      VaultWorld.step_depositYt h
    exact (congrArg UInt64.toNat ((earned_of_ok hearn).escrow.trans hr.escrow)).le
  | withdrawYt now syState i a =>
    obtain ⟨u, v₁, v₂, p₁, v₃, u₁, v', p', u', -, hr, hearn, ⟨⟨s, rfl⟩, -, -, -⟩, rfl⟩ :=
      VaultWorld.step_withdrawYt h
    exact (congrArg UInt64.toNat ((earned_of_ok hearn).escrow.trans hr.escrow)).le
  | stageYield now syState i =>
    obtain ⟨u, v₁, v₂, p₁, v₃, u₁, v', -, hr, -, hearn, ⟨s, rfl⟩, -, rfl⟩ :=
      VaultWorld.step_stageYield h
    exact (congrArg UInt64.toNat ((earned_of_ok hearn).escrow.trans hr.escrow)).le
  | collectInterest now i amount =>
    simp only [VaultWorld.step, bind_eq_ok, getAt_eq_ok, Prod.exists, Except.ok.injEq] at h
    obtain ⟨u, hu, v', u', n, f, hf, rfl⟩ := h
    exact ⟨u, n, hu, ⟨_, hf, rfl⟩, collectInterest_paid hf⟩
  | collectTreasuryInterest amount kind =>
    obtain ⟨v', p', a, rfl, ⟨-, hp⟩ | ⟨-, -, e, t, he, -, rfl⟩⟩ :=
      VaultWorld.step_collectTreasuryInterest h
    · obtain ⟨e, c, he, -, rfl⟩ := hp.vault
      exact (Nat.le_add_right _ _).trans_eq he
    · exact (Nat.le_add_right _ _).trans_eq he
  | collectEmission i index amount =>
    obtain ⟨u, a, u', -, -, rfl⟩ := VaultWorld.step_collectEmission h
    exact le_rfl
  | collectTreasuryEmission index amount kind =>
    obtain ⟨-, a, p', -, rfl⟩ | ⟨-, a, e, t, -, -, rfl⟩ :=
      VaultWorld.step_collectTreasuryEmission h
    · exact le_rfl
    · exact le_rfl
  | addEmission accounts syState token treasury fee =>
    obtain ⟨i, -, rfl⟩ := VaultWorld.step_addEmission h
    exact le_rfl
  | removeVaultEmission index =>
    obtain ⟨-, rfl⟩ := VaultWorld.step_removeVaultEmission h
    exact le_rfl

end

/-! ## What users hold -/

/-- What the users of a set have in their token accounts. -/
def held (S : Finset Nat) (accounts : Nat → UInt64) : Nat := S.sum fun u => (accounts u).toNat

theorem held_update {S : Finset Nat} {user : Nat} (hu : user ∈ S) (accounts : Nat → UInt64)
    (x : UInt64) :
    held S (Function.update accounts user x) + (accounts user).toNat
      = held S accounts + x.toNat := by
  have hothers : (S.erase user).sum (fun u => (Function.update accounts user x u).toNat)
      = (S.erase user).sum fun u => (accounts u).toNat := by
    apply Finset.sum_congr rfl
    intro u hmem
    rw [Function.update_of_ne (Finset.ne_of_mem_erase hmem)]
  unfold held
  rw [← Finset.add_sum_erase S _ hu, hothers, Function.update_self,
    ← Finset.add_sum_erase S (fun u => (accounts u).toNat) hu]
  omega

variable {N : Type}

/-! ## Who takes part -/

/-- The user that an instruction is for. -/
def Call.user : Call → Option Nat
  | strip user .. | merge user .. | depositYt user .. | collectInterest user .. | depositLp user ..
  | withdrawLp user .. | tradePt user .. | depositLiquidity user .. | withdrawLiquidity user ..
  | mintSy user .. | redeemSy user .. | sendSy user .. | receiveSy user .. | sendPt user ..
  | receivePt user .. => some user
  | depositSy _ | withdrawSy _ => none

def FlashSwap.user : FlashSwap → Nat
  | buyYt i .. | sellYt i .. => i.user

def Wrapper.user : Wrapper → Nat
  | strip i _ | merge i _ | collectInterest i | buyPt i .. | sellPt i .. | buyYt i .. | sellYt i ..
  | provideLiquidity i .. | provideLiquidityBase i .. | provideLiquidityClassic i ..
  | withdrawLiquidity i .. | withdrawLiquidityClassic i _ => i.user

def BankOp.user : BankOp → Option Nat
  | call c _ => c.user
  | withdrawYt user .. => some user
  | flashSwap x => some x.user
  | wrapper w => some w.user
  | vault .. | lp .. => none

/-! ## What the SY program mints -/

def Call.minted : Call → Nat
  | mintSy _ _ syOutAmount => syOutAmount.toNat
  | _ => 0

def Wrapper.minted : Wrapper → Nat
  | strip i _ | buyPt i .. | buyYt i .. | provideLiquidity i .. | provideLiquidityBase i ..
  | provideLiquidityClassic i .. => i.syOutAmount.toNat
  | merge .. | collectInterest _ | sellPt .. | sellYt .. | withdrawLiquidity ..
  | withdrawLiquidityClassic .. => 0

def BankOp.minted : BankOp → Nat
  | call c _ => c.minted
  | wrapper w => w.minted
  | withdrawYt .. | flashSwap _ | vault .. | lp .. => 0

/-! ## The counts -/

namespace Bank

variable (S : Finset Nat) (b : Bank N)

/-- The PT in token accounts, less what the vault counts. -/
def ptGap : Int := held S b.users.pt + b.tokenPtEscrow.toNat - b.vault.ptSupply.toNat

/-- The YT in token accounts, less that of the vault's own position. -/
def ytGap : Int := held S b.users.yt - b.vaultWorld.yieldPosition.ytBalance.toNat

/-- The LP tokens in token accounts, less what the mint counts. -/
def lpGap : Int := held S b.users.lp + b.market.lpEscrowAmount.toNat - b.mintLp.toNat

/-- All SY: the users', the market's, that of the fee treasury and the vault's. -/
def syHeld : Nat :=
  held S b.users.sy + b.tokenSyEscrow.toNat + b.syPosition.toNat + b.tokenFeeTreasurySy.toNat
    + b.vault.totalSyInEscrow.toNat

/-- The counts move apart by the given amounts, and there is at most so much more SY. -/
structure Flows (pt yt lp sy : Int) (b b' : Bank N) : Prop where
  pt : b'.ptGap S = b.ptGap S + pt
  yt : b'.ytGap S = b.ytGap S + yt
  lp : b'.lpGap S = b.lpGap S + lp
  sy : (b'.syHeld S : Int) ≤ b.syHeld S + sy

/-- The two counts agree. -/
abbrev Balanced (sy : Int) (b b' : Bank N) : Prop := Flows S 0 0 0 sy b b'

section
variable {S : Finset Nat} {b b' b'' : Bank N} {pt pt' yt yt' lp lp' sy sy' : Int} {user : Nat}
  {amount : UInt64}

theorem Flows.refl (S : Finset Nat) (b : Bank N) : Balanced S 0 b b :=
  ⟨(add_zero _).symm, (add_zero _).symm, (add_zero _).symm, (add_zero _).ge⟩

theorem Flows.trans (h : Flows S pt yt lp sy b b') (h' : Flows S pt' yt' lp' sy' b' b'') :
    Flows S (pt + pt') (yt + yt') (lp + lp') (sy + sy') b b'' := by
  have hpt := h.pt
  have hyt := h.yt
  have hlp := h.lp
  have hsy := h.sy
  have hpt' := h'.pt
  have hyt' := h'.yt
  have hlp' := h'.lp
  have hsy' := h'.sy
  exact ⟨by omega, by omega, by omega, by omega⟩

theorem Flows.congr (h : Flows S pt yt lp sy b b') (hpt : pt = pt') (hyt : yt = yt')
    (hlp : lp = lp') (hsy : sy ≤ sy') : Flows S pt' yt' lp' sy' b b' := by
  subst hpt hyt hlp
  exact ⟨h.pt, h.yt, h.lp, h.sy.trans (add_le_add_right hsy _)⟩

/-! ## Token accounts -/

section
variable (hu : user ∈ S)
include hu

theorem flows_debitSy (h : b.debitSy user amount = .ok b') :
    Flows S 0 0 0 (-amount.toNat) b b' := by
  simp only [debitSy, bind_eq_ok, debit_eq_ok, Except.ok.injEq] at h
  obtain ⟨_, ⟨x, hx, rfl⟩, rfl⟩ := h
  have hset := held_update hu b.users.sy x
  refine ⟨(add_zero _).symm, (add_zero _).symm, (add_zero _).symm, ?_⟩
  simp only [syHeld, vault]
  omega

theorem flows_creditSy (h : b.creditSy user amount = .ok b') :
    Flows S 0 0 0 amount.toNat b b' := by
  simp only [creditSy, bind_eq_ok, credit_eq_ok, Except.ok.injEq] at h
  obtain ⟨_, ⟨x, hx, rfl⟩, rfl⟩ := h
  have hset := held_update hu b.users.sy x
  refine ⟨(add_zero _).symm, (add_zero _).symm, (add_zero _).symm, ?_⟩
  simp only [syHeld, vault]
  omega

theorem flows_debitPt (h : b.debitPt user amount = .ok b') :
    Flows S (-amount.toNat) 0 0 0 b b' := by
  simp only [debitPt, bind_eq_ok, debit_eq_ok, Except.ok.injEq] at h
  obtain ⟨_, ⟨x, hx, rfl⟩, rfl⟩ := h
  have hset := held_update hu b.users.pt x
  refine ⟨?_, (add_zero _).symm, (add_zero _).symm, (add_zero _).ge⟩
  simp only [ptGap, vault]
  omega

theorem flows_creditPt (h : b.creditPt user amount = .ok b') :
    Flows S amount.toNat 0 0 0 b b' := by
  simp only [creditPt, bind_eq_ok, credit_eq_ok, Except.ok.injEq] at h
  obtain ⟨_, ⟨x, hx, rfl⟩, rfl⟩ := h
  have hset := held_update hu b.users.pt x
  refine ⟨?_, (add_zero _).symm, (add_zero _).symm, (add_zero _).ge⟩
  simp only [ptGap, vault]
  omega

theorem flows_debitYt (h : b.debitYt user amount = .ok b') :
    Flows S 0 (-amount.toNat) 0 0 b b' := by
  simp only [debitYt, bind_eq_ok, debit_eq_ok, Except.ok.injEq] at h
  obtain ⟨_, ⟨x, hx, rfl⟩, rfl⟩ := h
  have hset := held_update hu b.users.yt x
  refine ⟨(add_zero _).symm, ?_, (add_zero _).symm, (add_zero _).ge⟩
  simp only [ytGap]
  omega

theorem flows_creditYt (h : b.creditYt user amount = .ok b') :
    Flows S 0 amount.toNat 0 0 b b' := by
  simp only [creditYt, bind_eq_ok, credit_eq_ok, Except.ok.injEq] at h
  obtain ⟨_, ⟨x, hx, rfl⟩, rfl⟩ := h
  have hset := held_update hu b.users.yt x
  refine ⟨(add_zero _).symm, ?_, (add_zero _).symm, (add_zero _).ge⟩
  simp only [ytGap]
  omega

theorem flows_debitLp (h : b.debitLp user amount = .ok b') :
    Flows S 0 0 (-amount.toNat) 0 b b' := by
  simp only [debitLp, bind_eq_ok, debit_eq_ok, Except.ok.injEq] at h
  obtain ⟨_, ⟨x, hx, rfl⟩, rfl⟩ := h
  have hset := held_update hu b.users.lp x
  refine ⟨(add_zero _).symm, (add_zero _).symm, ?_, (add_zero _).ge⟩
  simp only [lpGap, market]
  omega

theorem flows_creditLp (h : b.creditLp user amount = .ok b') :
    Flows S 0 0 amount.toNat 0 b b' := by
  simp only [creditLp, bind_eq_ok, credit_eq_ok, Except.ok.injEq] at h
  obtain ⟨_, ⟨x, hx, rfl⟩, rfl⟩ := h
  have hset := held_update hu b.users.lp x
  refine ⟨(add_zero _).symm, (add_zero _).symm, ?_, (add_zero _).ge⟩
  simp only [lpGap, market]
  omega

end

/-! ## Vault instructions -/

theorem flows_vaultWorld {w : VaultWorld} (pt yt sy : Int)
    (hpt : (w.vault.ptSupply.toNat : Int) = b.vaultWorld.vault.ptSupply.toNat + pt)
    (hyt : (w.yieldPosition.ytBalance.toNat : Int)
      = b.vaultWorld.yieldPosition.ytBalance.toNat + yt)
    (hsy : (w.vault.totalSyInEscrow.toNat : Int)
      ≤ b.vaultWorld.vault.totalSyInEscrow.toNat + sy) :
    Flows S (-pt) (-yt) 0 sy b { b with vaultWorld := w } := by
  refine ⟨?_, ?_, (add_zero _).symm, ?_⟩
  · simp only [ptGap, vault]
    omega
  · simp only [ytGap]
    omega
  · simp only [syHeld, vault]
    omega

section
variable (hu : user ∈ S) {now : UInt64} {syState : SyState} {r : UInt64} {i : Nat}
include hu

theorem flows_strip (h : b.strip user now syState amount = .ok (b', r)) :
    Balanced S 0 b b' := by
  simp only [strip, bind_eq_ok, Except.ok.injEq, Prod.exists, Prod.mk.injEq] at h
  obtain ⟨b₁, h₁, w, hw, v, p, py, hf, b₂, h₂, b₃, h₃, rfl, rfl⟩ := h
  obtain ⟨-, hstep⟩ := VaultWorld.instruct_eq_ok hw
  obtain ⟨py, ⟨_, hf', rfl⟩, hyt, -, hpt⟩ := ytEffect_of_ok hstep
  have hsy : w.vault.totalSyInEscrow.toNat
      = b₁.vaultWorld.vault.totalSyInEscrow.toNat + amount.toNat := syEffect_of_ok hstep
  obtain rfl := Except.ok.inj (hf'.symm.trans hf)
  have hworld : Flows S (-py.toNat) (-py.toNat) 0 amount.toNat b₁
      { b₁ with vaultWorld := w } :=
    flows_vaultWorld py.toNat py.toNat amount.toNat (by exact_mod_cast hpt)
      (by exact_mod_cast hyt) (by omega)
  have hall := (((flows_debitSy hu h₁).trans hworld).trans (flows_creditPt hu h₂)).trans
    (flows_creditYt hu h₃)
  exact hall.congr (by omega) (by omega) rfl (by omega)

theorem flows_burnYt {active : Bool} (h : b.burnYt user active amount = .ok b') :
    Flows S 0 (if active then -amount.toNat else 0) 0 0 b b' := by
  cases active with
  | true => exact flows_debitYt hu h
  | false =>
    obtain rfl := Except.ok.inj h
    exact .refl S b

theorem flows_merge (h : b.merge user now syState amount = .ok (b', r)) :
    Balanced S 0 b b' := by
  simp only [merge, bind_eq_ok, Except.ok.injEq, Prod.exists, Prod.mk.injEq] at h
  obtain ⟨w, hw, v, p, x, hf, active, hactive, b₁, h₁, b₂, h₂, b₃, h₃, rfl, rfl⟩ := h
  obtain ⟨-, hstep⟩ := VaultWorld.instruct_eq_ok hw
  obtain ⟨hpt, -, hyt⟩ := ytEffect_of_ok hstep
  obtain ⟨x, ⟨_, hf', rfl⟩, hsy⟩ := syEffect_of_ok hstep
  obtain rfl := Except.ok.inj (hf'.symm.trans hf)
  have htimes := sameTimes_of_ok hstep
  simp only [Vault.isActive, Vault.isExpired, htimes.startTs, htimes.duration] at hactive
  have hyt' : (w.yieldPosition.ytBalance.toNat : Int) = b.vaultWorld.yieldPosition.ytBalance.toNat
      + if active then -(amount.toNat : Int) else 0 := by
    rcases hyt with ⟨hact, hyt⟩ | ⟨hact, hyt⟩
    · obtain rfl := Except.ok.inj (hact.symm.trans hactive)
      rw [if_pos rfl]
      omega
    · obtain rfl := Except.ok.inj (hact.symm.trans hactive)
      rw [if_neg (by decide), hyt, add_zero]
  have hworld := flows_vaultWorld (S := S) (b := b) (w := w) (-amount.toNat) _ (-x.toNat)
    (by omega) hyt' (by dsimp only at hsy; omega)
  have hall := ((hworld.trans (flows_debitPt hu h₁)).trans (flows_burnYt hu h₂)).trans
    (flows_creditSy hu h₃)
  exact hall.congr (by omega) (by omega) rfl (by omega)

theorem flows_depositYt (h : b.depositYt user i now syState amount = .ok b') :
    Balanced S 0 b b' := by
  simp only [depositYt, bind_eq_ok] at h
  obtain ⟨w, hw, h₁⟩ := h
  obtain ⟨-, hstep⟩ := VaultWorld.instruct_eq_ok hw
  obtain ⟨hyt, -, hpt⟩ := ytEffect_of_ok hstep
  have hsy := syEffect_of_ok hstep
  have hworld := flows_vaultWorld (S := S) (b := b) (w := w) 0 (-amount.toNat) 0
    (by rw [hpt, add_zero]) (by omega) (by rw [add_zero]; exact_mod_cast hsy)
  exact (hworld.trans (flows_debitYt hu h₁)).congr (by omega) (by omega) rfl (by omega)

theorem flows_withdrawYt {w : VaultWorld}
    (hw : b.vaultWorld.instruct (.withdrawYt now.toUInt32 syState i amount) = .ok w)
    (h : { b with vaultWorld := w }.creditYt user amount = .ok b') : Balanced S 0 b b' := by
  obtain ⟨-, hstep⟩ := VaultWorld.instruct_eq_ok hw
  obtain ⟨hyt, -, hpt⟩ := ytEffect_of_ok hstep
  have hsy := syEffect_of_ok hstep
  have hworld := flows_vaultWorld (S := S) (b := b) (w := w) 0 amount.toNat 0
    (by rw [hpt, add_zero]) (by omega) (by rw [add_zero]; exact_mod_cast hsy)
  exact (hworld.trans (flows_creditYt hu h)).congr (by omega) (by omega) rfl (by omega)

theorem flows_collectInterest {a : Amount}
    (h : b.collectInterest user i now a = .ok (b', r)) : Balanced S 0 b b' := by
  obtain ⟨l, p, w, v, q, f, -, hp, hw, hf, h₁⟩ := collectInterest_spec h
  obtain ⟨-, hstep⟩ := VaultWorld.instruct_eq_ok hw
  obtain ⟨hyt, -, hpt⟩ := ytEffect_of_ok hstep
  obtain ⟨u, x, hu', ⟨_, hf', rfl⟩, hsy⟩ := syEffect_of_ok hstep
  obtain rfl := Option.some.inj (hu'.symm.trans hp)
  obtain rfl := Except.ok.inj (hf'.symm.trans hf)
  have hworld := flows_vaultWorld (S := S) (b := b) (w := w) 0 0 (-r.toNat)
    (by rw [hpt, add_zero]; rfl) (by rw [hyt, add_zero]; rfl)
    (by dsimp only [VaultWorld.withClaimLimits] at hsy; omega)
  exact (hworld.trans (flows_creditSy hu h₁)).congr (by omega) (by omega) rfl (by omega)

end

/-- An instruction that moves no tokens. -/
theorem flows_instruct {op : VaultOp} {w : VaultWorld} (hop : op.movesTokens = false)
    (hw : b.vaultWorld.instruct op = .ok w) : Balanced S 0 b { b with vaultWorld := w } := by
  obtain ⟨-, hstep⟩ := VaultWorld.instruct_eq_ok hw
  have hyt := ytEffect_of_ok hstep
  have hsy := syEffect_of_ok hstep
  have hall (hyt : w.yieldPosition.ytBalance = b.vaultWorld.yieldPosition.ytBalance)
      (hpt : w.vault.ptSupply = b.vaultWorld.vault.ptSupply)
      (hsy : w.vault.totalSyInEscrow.toNat ≤ b.vaultWorld.vault.totalSyInEscrow.toNat) :
      Balanced S 0 b { b with vaultWorld := w } :=
    flows_vaultWorld 0 0 0 (by rw [hpt, add_zero]) (by rw [hyt, add_zero])
      (by rw [add_zero]; exact_mod_cast hsy)
  cases op with
  | strip | merge | depositYt | withdrawYt | collectInterest => cases hop
  | initializeYieldPosition | stageYield | collectTreasuryInterest | collectEmission
  | collectTreasuryEmission | addEmission | removeVaultEmission =>
    exact hall hyt.1 hyt.2.2 hsy

/-! ## Staking -/

theorem flows_lpWorld {w : LpWorld N} (lp : Int)
    (hlp : (w.market.lpEscrowAmount.toNat : Int) = b.lpWorld.market.lpEscrowAmount.toNat + lp) :
    Flows S 0 0 lp 0 b { b with lpWorld := w } := by
  refine ⟨(add_zero _).symm, (add_zero _).symm, ?_, (add_zero _).ge⟩
  simp only [lpGap, market]
  omega

theorem flows_depositLp {i : Nat} {now : UInt64} (hu : user ∈ S)
    (h : b.depositLp user i now amount = .ok b') : Balanced S 0 b b' := by
  simp only [depositLp, LpWorld.step, LpWorld.withPosition, ExponentCore.depositLp, bind_eq_ok,
    unwrap_eq_ok, checkedAdd_eq_some, Except.ok.injEq, Prod.exists, Prod.mk.injEq] at h
  obtain ⟨w, ⟨p, -, m, q, ⟨m₁, p₁, hs, e, he, p₂, -, rfl, rfl⟩, rfl⟩, h₁⟩ := h
  obtain ⟨es, f, -, -, rfl, -⟩ := LpWorld.updateAndStage_eq_ok hs
  have hworld := flows_lpWorld (S := S) (b := b) amount.toNat
    (w := { b.lpWorld with
      market := { b.lpWorld.market with emissions := es, lpFarm := f, lpEscrowAmount := e }
      lpPositions := b.lpWorld.lpPositions.set i p₂, clock := now.toUInt32 })
    (by exact_mod_cast he)
  exact (hworld.trans (flows_debitLp hu h₁)).congr rfl rfl (by omega) (by omega)

theorem flows_withdrawLp {i : Nat} {now : UInt64} (hu : user ∈ S)
    (h : b.withdrawLp user i now amount = .ok b') : Balanced S 0 b b' := by
  simp only [withdrawLp, LpWorld.step, LpWorld.withPosition, ExponentCore.withdrawLp, bind_eq_ok,
    unwrap_eq_ok, checkedSub_eq_some, Except.ok.injEq, Prod.exists, Prod.mk.injEq] at h
  obtain ⟨w, ⟨p, -, m, q, ⟨m₁, p₁, hs, p₂, -, e, he, rfl, rfl⟩, rfl⟩, h₁⟩ := h
  obtain ⟨es, f, -, -, rfl, -⟩ := LpWorld.updateAndStage_eq_ok hs
  have hworld := flows_lpWorld (S := S) (b := b) (-amount.toNat)
    (w := { b.lpWorld with
      market := { b.lpWorld.market with emissions := es, lpFarm := f, lpEscrowAmount := e }
      lpPositions := b.lpWorld.lpPositions.set i p₂, clock := now.toUInt32 })
    (by dsimp only at he ⊢; omega)
  exact (hworld.trans (flows_creditLp hu h₁)).congr rfl rfl (by omega) (by omega)

/-- Only staking and unstaking change what is staked. -/
theorem lpEscrowAmount_of_ok {w w' : LpWorld N} {op : LpOp} (hop : op.movesTokens = false)
    (h : w.step op = .ok w') : w'.market.lpEscrowAmount = w.market.lpEscrowAmount := by
  cases op with
  | depositLp | withdrawLp => cases hop
  | initLpPosition | addMarketEmission | accrue =>
    cases h
    rfl
  | marketCollectEmission i index =>
    simp only [LpWorld.step, marketCollectEmission, bind_eq_ok, Except.ok.injEq, Prod.exists,
      Prod.mk.injEq] at h
    obtain ⟨p, -, m, q, cs, ⟨e, -, t, -, ts, -, _, -, cs', -, l, -, es, -, rfl, -, -⟩, rfl⟩ := h
    rfl
  | removeMarketEmission index =>
    simp only [LpWorld.step, removeMarketEmission, bind_eq_ok, Except.ok.injEq] at h
    obtain ⟨m, hm, rfl⟩ := h
    split at hm
    · obtain rfl := Except.ok.inj hm
      rfl
    · cases hm
  | addFarm now mint rate expiry =>
    simp only [LpWorld.step, LpWorld.withTokenFarm, bind_eq_ok, Except.ok.injEq, Prod.exists] at h
    obtain ⟨m, t, hm, rfl⟩ := h
    obtain ⟨f, -, -, -, rfl, -⟩ := LpWorld.addFarm_eq_ok hm
    rfl
  | modifyFarm now mint expiry rate =>
    simp only [LpWorld.step, LpWorld.withTokenFarm, bind_eq_ok, Except.ok.injEq, Prod.exists] at h
    obtain ⟨m, t, hm, rfl⟩ := h
    obtain ⟨f, j, e, -, -, -, rfl, -⟩ := LpWorld.modifyFarm_eq_ok hm
    rfl
  | claimFarmEmissions i mint amount =>
    simp only [LpWorld.step, bind_eq_ok, Except.ok.injEq, Prod.exists] at h
    obtain ⟨p, -, q, t, -, rfl⟩ := h
    rfl

theorem flows_lp {op : LpOp} {w : LpWorld N} (hop : op.movesTokens = false)
    (h : b.lpWorld.step op = .ok w) : Balanced S 0 b { b with lpWorld := w } :=
  flows_lpWorld 0 (by rw [lpEscrowAmount_of_ok hop h, add_zero])

/-! ## The market's tokens -/

/-- New books leave the counts alone. -/
theorem flows_books {m : MarketTwo N} (h : m.lpEscrowAmount = b.market.lpEscrowAmount) :
    Balanced S 0 b (b.setMarket m) := by
  refine ⟨(add_zero _).symm, (add_zero _).symm, ?_, (add_zero _).ge⟩
  unfold lpGap
  rw [show (b.setMarket m).market = m from rfl, h, add_zero]
  rfl

theorem flows_depositSy (h : b.depositSy amount = .ok b') : Balanced S 0 b b' := by
  simp only [depositSy, bind_eq_ok, transferOut_eq_ok, transferIn_eq_ok, Except.ok.injEq] at h
  obtain ⟨e, he, p, hp, rfl⟩ := h
  refine ⟨(add_zero _).symm, (add_zero _).symm, (add_zero _).symm, ?_⟩
  simp only [syHeld, vault]
  omega

theorem flows_withdrawSy (h : b.withdrawSy amount = .ok b') : Balanced S 0 b b' := by
  simp only [withdrawSy, bind_eq_ok, transferOut_eq_ok, transferIn_eq_ok, Except.ok.injEq] at h
  obtain ⟨p, hp, e, he, rfl⟩ := h
  refine ⟨(add_zero _).symm, (add_zero _).symm, (add_zero _).symm, ?_⟩
  simp only [syHeld, vault]
  omega

theorem flows_tokenPtEscrow {e : UInt64} :
    Flows S (e.toNat - b.tokenPtEscrow.toNat) 0 0 0 b { b with tokenPtEscrow := e } := by
  refine ⟨?_, (add_zero _).symm, (add_zero _).symm, (add_zero _).ge⟩
  simp only [ptGap, vault]
  omega

theorem flows_tokenSyEscrow {e : UInt64} :
    Flows S 0 0 0 (e.toNat - b.tokenSyEscrow.toNat) b { b with tokenSyEscrow := e } := by
  refine ⟨(add_zero _).symm, (add_zero _).symm, (add_zero _).symm, ?_⟩
  simp only [syHeld, vault]
  omega

theorem flows_tokenFeeTreasurySy {t : UInt64} :
    Flows S 0 0 0 (t.toNat - b.tokenFeeTreasurySy.toNat) b { b with tokenFeeTreasurySy := t } := by
  refine ⟨(add_zero _).symm, (add_zero _).symm, (add_zero _).symm, ?_⟩
  simp only [syHeld, vault]
  omega

theorem flows_mintLp {l : UInt64} :
    Flows S 0 0 (b.mintLp.toNat - l.toNat) 0 b { b with mintLp := l } := by
  refine ⟨(add_zero _).symm, (add_zero _).symm, ?_, (add_zero _).ge⟩
  simp only [lpGap, market]
  omega

section
variable (hu : user ∈ S)
include hu

theorem flows_receivePt (h : b.receivePt user amount = .ok b') : Balanced S 0 b b' := by
  simp only [receivePt, bind_eq_ok, transferIn_eq_ok, Except.ok.injEq] at h
  obtain ⟨b₁, h₁, e, he, rfl⟩ := h
  exact ((flows_debitPt hu h₁).trans flows_tokenPtEscrow).congr (by omega) rfl rfl (by omega)

theorem flows_sendPt (h : b.sendPt user amount = .ok b') : Balanced S 0 b b' := by
  simp only [sendPt, bind_eq_ok, transferOut_eq_ok] at h
  obtain ⟨e, he, h₁⟩ := h
  exact (flows_tokenPtEscrow.trans (flows_creditPt hu h₁)).congr (by omega) rfl rfl (by omega)

theorem flows_receiveSy (h : b.receiveSy user amount = .ok b') : Balanced S 0 b b' := by
  simp only [receiveSy, bind_eq_ok, transferIn_eq_ok, Except.ok.injEq] at h
  obtain ⟨b₁, h₁, e, he, rfl⟩ := h
  exact ((flows_debitSy hu h₁).trans flows_tokenSyEscrow).congr rfl rfl rfl (by omega)

theorem flows_sendSy (h : b.sendSy user amount = .ok b') : Balanced S 0 b b' := by
  simp only [sendSy, bind_eq_ok, transferOut_eq_ok] at h
  obtain ⟨e, he, h₁⟩ := h
  exact (flows_tokenSyEscrow.trans (flows_creditSy hu h₁)).congr rfl rfl rfl (by omega)

theorem flows_transferPt {isBuyPt : Bool} (h : b.transferPt user isBuyPt amount = .ok b') :
    Balanced S 0 b b' := by
  cases isBuyPt with
  | true => exact flows_sendPt hu h
  | false => exact flows_receivePt hu h

/-- The treasury's part of the fee is in what a buyer pays, and on top of what a seller gets. -/
theorem flows_transferSy {isBuyPt : Bool} {fee : UInt64}
    (h : b.transferSy user isBuyPt amount fee = .ok b') : Balanced S 0 b b' := by
  cases isBuyPt with
  | true =>
    simp only [transferSy, if_true, bind_eq_ok, unwrap_eq_ok, transferIn_eq_ok,
      Except.ok.injEq] at h
    obtain ⟨a, -, b₁, h₁, b₂, h₂, b₃, h₃, t, ht, rfl⟩ := h
    have hall := (((flows_receiveSy hu h₁).trans (flows_depositSy h₂)).trans
      (flows_debitSy hu h₃)).trans (flows_tokenFeeTreasurySy (t := t))
    exact hall.congr rfl rfl rfl (by omega)
  | false =>
    simp only [transferSy, Bool.false_eq_true, if_false, bind_eq_ok, unwrap_eq_ok,
      transferOut_eq_ok, transferIn_eq_ok, Except.ok.injEq] at h
    obtain ⟨a, -, b₁, h₁, b₂, h₂, e, he, t, ht, rfl⟩ := h
    have hall := (((flows_withdrawSy h₁).trans (flows_sendSy hu h₂)).trans
      (flows_tokenSyEscrow (e := e))).trans (flows_tokenFeeTreasurySy (t := t))
    exact hall.congr rfl rfl rfl (by dsimp only; omega)

variable [Num N] {now : UInt64}

theorem flows_tradePt {rate : Number} {n c : Int} {r : MarketTradeResult}
    (h : b.tradePt user now rate n c = .ok (b', r)) : Balanced S 0 b b' := by
  simp only [tradePt, bind_eq_ok, Prod.exists, Except.ok.injEq, Prod.mk.injEq] at h
  obtain ⟨_, -, _, -, f, r, -, _, -, _, -, b₁, h₁, b₂, h₂, rfl, rfl⟩ := h
  have hbooks : Balanced S 0 b (b.setFinancials f) := flows_books rfl
  exact ((hbooks.trans (flows_transferPt hu h₁)).trans (flows_transferSy hu h₂)).congr rfl rfl rfl
    le_rfl

theorem flows_depositLiquidity {ptIntent syIntent minLpOut : UInt64} {r : LiqAddResult}
    (h : b.depositLiquidity user now ptIntent syIntent minLpOut = .ok (b', r)) :
    Balanced S 0 b b' := by
  simp only [depositLiquidity, bind_eq_ok, transferIn_eq_ok, Prod.exists, Except.ok.injEq,
    Prod.mk.injEq] at h
  obtain ⟨_, -, _, -, f, r, -, _, -, l, -, b₁, h₁, b₂, h₂, b₃, h₃, m, hm, b₄, h₄, _, -, rfl,
    rfl⟩ := h
  have hbooks : Balanced S 0 b
    (b.setMarket { b.market with financials := f, liquidityNetBalanceLimits := l }) :=
    flows_books rfl
  have hall := ((((hbooks.trans (flows_receivePt hu h₁)).trans (flows_receiveSy hu h₂)).trans
    (flows_creditLp hu h₃)).trans (flows_mintLp (l := m))).trans (flows_depositSy h₄)
  exact hall.congr rfl rfl (by omega) (by omega)

theorem flows_withdrawLiquidity {minPtOut minSyOut : UInt64} {r : LiqRmResult}
    (h : b.withdrawLiquidity user now amount minPtOut minSyOut = .ok (b', r)) :
    Balanced S 0 b b' := by
  simp only [withdrawLiquidity, bind_eq_ok, transferOut_eq_ok, Prod.exists, Except.ok.injEq,
    Prod.mk.injEq] at h
  obtain ⟨_, -, change, -, l, -, f, r, -, _, -, _, -, b₁, h₁, m, hm, b₂, h₂, b₃, h₃, b₄, h₄, rfl,
    rfl⟩ := h
  have hbooks : Balanced S 0 b
    (b.setMarket { b.market with financials := f, liquidityNetBalanceLimits := l }) :=
    flows_books rfl
  have hall := ((((hbooks.trans (flows_debitLp hu h₁)).trans (flows_mintLp (l := m))).trans
    (flows_withdrawSy h₂)).trans (flows_sendPt hu h₃)).trans (flows_sendSy hu h₄)
  exact hall.congr rfl rfl (by omega) (by omega)

end

end

end Bank

section
variable [Num N] {S : Finset Nat}

/-- **An instruction moves the counts alike**, and only `mint_sy` makes SY. -/
theorem Call.flows {c : Call} {r : c.Ret} {b b' : Bank N} (hu : ∀ u ∈ c.user, u ∈ S)
    (h : c.act b = .ok (b', r)) : Bank.Balanced S c.minted b b' := by
  cases c with
  | depositSy => exact Bank.flows_depositSy (noData_eq_ok.1 h)
  | withdrawSy => exact Bank.flows_withdrawSy (noData_eq_ok.1 h)
  | strip => exact Bank.flows_strip (hu _ rfl) h
  | merge => exact Bank.flows_merge (hu _ rfl) h
  | depositYt => exact Bank.flows_depositYt (hu _ rfl) (noData_eq_ok.1 h)
  | collectInterest => exact Bank.flows_collectInterest (hu _ rfl) h
  | depositLp => exact Bank.flows_depositLp (hu _ rfl) (noData_eq_ok.1 h)
  | withdrawLp => exact Bank.flows_withdrawLp (hu _ rfl) (noData_eq_ok.1 h)
  | tradePt => exact Bank.flows_tradePt (hu _ rfl) h
  | depositLiquidity => exact Bank.flows_depositLiquidity (hu _ rfl) h
  | withdrawLiquidity => exact Bank.flows_withdrawLiquidity (hu _ rfl) h
  | mintSy => exact Bank.flows_creditSy (hu _ rfl) (noData_eq_ok.1 h)
  | redeemSy =>
    have hdebit := Bank.flows_debitSy (hu _ rfl) (noData_eq_ok.1 h)
    exact hdebit.congr rfl rfl rfl (Int.neg_nonpos_of_nonneg (Int.natCast_nonneg _))
  | sendSy => exact Bank.flows_sendSy (hu _ rfl) (noData_eq_ok.1 h)
  | receiveSy => exact Bank.flows_receiveSy (hu _ rfl) (noData_eq_ok.1 h)
  | sendPt => exact Bank.flows_sendPt (hu _ rfl) (noData_eq_ok.1 h)
  | receivePt => exact Bank.flows_receivePt (hu _ rfl) (noData_eq_ok.1 h)

/-! ## Handlers -/

/-- An automaton that adds up what calls mint, and refuses one that is not for the users counted. -/
def supplyStep {β : Type} {nested : β → Bank N → Outcome (Bank N × UInt64)} (S : Finset Nat)
    (owner : β → Nat) : Nat → Event (bankProgram β nested) → Option Nat
  | q, .called (.inl c) => if ∀ u ∈ c.user, u ∈ S then some (q + c.minted) else none
  | q, .called (.inr x) => if owner x ∈ S then some q else none
  | q, .edited _ => some q

/-- A nested handler moves the counts alike and makes no SY. -/
def Conserves {β : Type} (S : Finset Nat) (owner : β → Nat)
    (nested : β → Bank N → Outcome (Bank N × UInt64)) : Prop :=
  ∀ x b b' r, owner x ∈ S → nested x b = .ok (b', r) → Bank.Balanced S 0 b b'

section
variable {β α : Type} {nested : β → Bank N → Outcome (Bank N × UInt64)} {owner : β → Nat}
  {q q' n : Nat} {b₀ b b' : Bank N} {e : Event (bankProgram β nested)}
  {h : Handler (bankProgram β nested) α} {loaded : List AccountName}
  {log : List (Event (bankProgram β nested))} {a : α}

theorem flows_of_supplyStep (hnested : Conserves S owner nested)
    (hδ : supplyStep S owner q e = some q') (hq : Bank.Balanced S q b₀ b)
    (he : e.apply b = .ok b') : Bank.Balanced S q' b₀ b' := by
  cases e with
  | called c =>
    simp only [Event.apply] at he
    split at he
    · rename_i s r hact
      obtain rfl := Except.ok.inj he
      cases c with
      | inl c =>
        simp only [supplyStep, Option.ite_none_right_eq_some, Option.some.injEq] at hδ
        obtain ⟨hu, rfl⟩ := hδ
        exact (hq.trans (Call.flows hu hact)).congr rfl rfl rfl (by omega)
      | inr x =>
        simp only [supplyStep, Option.ite_none_right_eq_some, Option.some.injEq] at hδ
        obtain ⟨hu, rfl⟩ := hδ
        exact (hq.trans (hnested x b _ r hu hact)).congr rfl rfl rfl (by omega)
    · cases he
  | edited e =>
    cases e with
    | setIsCurrentFlashSwap value =>
      obtain rfl := Option.some.inj hδ
      obtain rfl := Except.ok.inj he
      have hbooks := Bank.flows_books (S := S) (b := b)
        (m := MarketEdit.apply (.setIsCurrentFlashSwap value) b.market) rfl
      exact (hq.trans hbooks).congr rfl rfl rfl (by omega)

theorem flows_of_run (hsync : h.Synced loaded) (hnested : Conserves S owner nested)
    (hsupply : wp (onEvents (supplyStep S owner)) 0 h fun _ q => q = n)
    (hrun : h.run loaded b = .ok (b', a, log)) : Bank.Balanced S n b b' := by
  obtain ⟨q, hfollow, rfl⟩ := follow_of_run hsync hsupply hrun
  exact (replay_follow (R := fun (q : Nat) b' => Bank.Balanced S q b b')
    (fun _ _ _ _ _ => flows_of_supplyStep hnested) (.refl S b) hfollow
    (replay_of_run hsync hrun)).1

end

theorem FlashSwap.mintsNothing {x : FlashSwap} (hu : x.user ∈ S) :
    wp (onEvents (supplyStep S Empty.elim)) 0 (x.handler (N := N)) fun _ q => q = 0 := by
  cases x with
  | buyYt i =>
    have hu' : i.user ∈ S := hu
    simp [handler, ExponentCore.buyYt, supplyStep, Call.user, Call.minted, hu']
  | sellYt i =>
    have hu' : i.user ∈ S := hu
    simp [handler, ExponentCore.sellYt, supplyStep, Call.user, Call.minted, hu']

theorem FlashSwap.flows {x : FlashSwap} {b b' : Bank N} {r : UInt64}
    {log : List (Event (coreProgram N))} (hu : x.user ∈ S) (h : x.run b = .ok (b', r, log)) :
    Bank.Balanced S 0 b b' :=
  flows_of_run x.synced (fun y => y.elim) (mintsNothing hu) h

theorem FlashSwap.act_conserves : Conserves (N := N) S FlashSwap.user FlashSwap.act := by
  intro x b b' r hu h
  simp only [act, bind_eq_ok, Except.ok.injEq, Prod.exists, Prod.mk.injEq] at h
  obtain ⟨_, _, log, hrun, rfl, rfl⟩ := h
  exact flows hu hrun

theorem Wrapper.mints {w : Wrapper} (hu : w.user ∈ S) :
    wp (onEvents (supplyStep S FlashSwap.user)) 0 (w.handler (N := N)) fun _ q => q = w.minted := by
  cases w with
  | strip i =>
    have hu' : i.user ∈ S := hu
    simp [handler, wrapperStrip, supplyStep, Call.user, Call.minted, minted, hu']
  | merge i =>
    have hu' : i.user ∈ S := hu
    simp [handler, wrapperMerge, supplyStep, Call.user, Call.minted, minted, hu']
  | collectInterest i =>
    have hu' : i.user ∈ S := hu
    simp [handler, wrapperCollectInterest, supplyStep, Call.user, Call.minted, minted, hu']
  | buyPt i =>
    have hu' : i.user ∈ S := hu
    simp [handler, wrapperBuyPt, supplyStep, Call.user, Call.minted, minted, hu']
  | sellPt i =>
    have hu' : i.user ∈ S := hu
    simp [handler, wrapperSellPt, supplyStep, Call.user, Call.minted, minted, hu']
  | buyYt i =>
    have hu' : i.user ∈ S := hu
    simp [handler, wrapperBuyYt, supplyStep, Call.user, Call.minted, minted, FlashSwap.user,
      Invocation.inner, hu']
  | sellYt i =>
    have hu' : i.user ∈ S := hu
    simp [handler, wrapperSellYt, supplyStep, Call.user, Call.minted, minted, FlashSwap.user,
      Invocation.inner, hu']
  | provideLiquidity i =>
    have hu' : i.user ∈ S := hu
    simp [handler, wrapperProvideLiquidity, supplyStep, Call.user, Call.minted, minted, hu']
  | provideLiquidityBase i =>
    have hu' : i.user ∈ S := hu
    simp [handler, wrapperProvideLiquidityBase, supplyStep, Call.user, Call.minted, minted, hu']
  | provideLiquidityClassic i =>
    have hu' : i.user ∈ S := hu
    simp [handler, wrapperProvideLiquidityClassic, supplyStep, Call.user, Call.minted, minted, hu']
  | withdrawLiquidity i =>
    have hu' : i.user ∈ S := hu
    simp [handler, wrapperWithdrawLiquidity, supplyStep, Call.user, Call.minted, minted, hu']
  | withdrawLiquidityClassic i =>
    have hu' : i.user ∈ S := hu
    simp [handler, wrapperWithdrawLiquidityClassic, supplyStep, Call.user, Call.minted, minted, hu']

theorem Wrapper.flows {w : Wrapper} {b b' : Bank N} {u : Unit}
    {log : List (Event (wrapperProgram N))} (hu : w.user ∈ S) (h : w.run b = .ok (b', u, log)) :
    Bank.Balanced S w.minted b b' :=
  flows_of_run w.synced FlashSwap.act_conserves (mints hu) h

/-! ## Runs -/

namespace Bank

variable {b b' : Bank N} {op : BankOp}

theorem flows_step (hu : ∀ u ∈ op.user, u ∈ S) (h : b.step op = .ok b') :
    Balanced S op.minted b b' := by
  cases op with
  | call c hc =>
    simp only [step, bind_eq_ok, Except.ok.injEq, Prod.exists] at h
    obtain ⟨_, r, hact, rfl⟩ := h
    exact Call.flows hu hact
  | withdrawYt user position now syState amount =>
    simp only [step, bind_eq_ok] at h
    obtain ⟨w, hw, hcredit⟩ := h
    exact flows_withdrawYt (hu _ rfl) hw hcredit
  | flashSwap x =>
    simp only [step, bind_eq_ok, Except.ok.injEq, Prod.exists] at h
    obtain ⟨_, r, log, hrun, rfl⟩ := h
    exact FlashSwap.flows (hu _ rfl) hrun
  | wrapper w =>
    simp only [step, bind_eq_ok, Except.ok.injEq, Prod.exists] at h
    obtain ⟨_, u, log, hrun, rfl⟩ := h
    exact Wrapper.flows (hu _ rfl) hrun
  | vault op hop =>
    simp only [step, bind_eq_ok, Except.ok.injEq] at h
    obtain ⟨w, hw, rfl⟩ := h
    exact flows_instruct hop hw
  | lp op hop =>
    simp only [step, bind_eq_ok, Except.ok.injEq] at h
    obtain ⟨w, hw, rfl⟩ := h
    exact flows_lp hop hw

/-- The market's own instructions keep count of what is staked. -/
theorem staked_of_instruction {s s' : ProgramState N} {i : Instruction} (hs : s.lpWorld.Staked)
    (h : s.step i = .ok s') : s'.lpWorld.Staked := by
  cases i with
  | vault op =>
    simp only [ProgramState.step, bind_eq_ok, Except.ok.injEq] at h
    obtain ⟨w, -, rfl⟩ := h
    exact hs
  | lp op =>
    simp only [ProgramState.step, bind_eq_ok, Except.ok.injEq] at h
    obtain ⟨w, hw, rfl⟩ := h
    exact LpWorld.step_induction (A := fun _ _ => True) (fun _ _ hs he => hs.event he) hs trivial hw
  | changeClaimLimits | changeVaultCpiAccounts | changeMarketCpiAccounts | edit =>
    cases h
    exact hs
  | tradePt =>
    simp only [ProgramState.step, bind_eq_ok, Except.ok.injEq, Prod.exists] at h
    obtain ⟨f, r, -, rfl⟩ := h
    exact hs
  | depositLiquidity =>
    simp only [ProgramState.step, bind_eq_ok, Except.ok.injEq, Prod.exists] at h
    obtain ⟨f, r, -, l, -, rfl⟩ := h
    exact hs
  | withdrawLiquidity =>
    simp only [ProgramState.step, bind_eq_ok, Except.ok.injEq, Prod.exists] at h
    obtain ⟨_, -, l, -, f, r, -, rfl⟩ := h
    exact hs

theorem staked_step (hb : b.lpWorld.Staked) (h : b.step op = .ok b') : b'.lpWorld.Staked := by
  obtain ⟨is, hsteps, -⟩ := instructions_of_step h
  exact Machine.inv_of_foldlM (I := fun s : ProgramState N => s.lpWorld.Staked)
    (P := fun _ => True) (fun _ _ _ hs _ => staked_of_instruction hs) hb (fun _ _ => trivial) hsteps

/-- **The books count the tokens**: the PT and the YT that the vault has handed out, and the LP
tokens that the mint has, are those in the token accounts and in the positions. -/
structure Counted (S : Finset Nat) (b : Bank N) : Prop where
  pt : held S b.users.pt + b.tokenPtEscrow.toNat = b.vault.ptSupply.toNat
  yt : held S b.users.yt = b.vaultWorld.yieldPosition.ytBalance.toNat
  lp : held S b.users.lp + (b.lpWorld.lpPositions.map fun p => p.lpBalance.toNat).sum
    = b.mintLp.toNat

/-- What runs keep. -/
structure Inv (S : Finset Nat) (b : Bank N) : Prop where
  balanced : b.ptGap S = 0 ∧ b.ytGap S = 0 ∧ b.lpGap S = 0
  staked : b.lpWorld.Staked

omit [Num N] in
theorem Inv.counted (h : b.Inv S) : b.Counted S := by
  obtain ⟨hpt, hyt, hlp⟩ := h.balanced
  have hstaked : b.market.lpEscrowAmount.toNat = _ := h.staked
  unfold ptGap at hpt
  unfold ytGap at hyt
  unfold lpGap at hlp
  exact ⟨by omega, by omega, by omega⟩

theorem Inv.step (hb : b.Inv S) (hu : ∀ u ∈ op.user, u ∈ S) (h : b.step op = .ok b') :
    b'.Inv S := by
  have hflows := flows_step hu h
  obtain ⟨hpt, hyt, hlp⟩ := hb.balanced
  refine ⟨⟨?_, ?_, ?_⟩, staked_step hb.staked h⟩
  · rw [hflows.pt, hpt, add_zero]
  · rw [hflows.yt, hyt, add_zero]
  · rw [hflows.lp, hlp, add_zero]

omit [Num N] in
theorem receivePt_mintLp {user : Nat} {amount : UInt64} (h : b.receivePt user amount = .ok b') :
    b'.mintLp = b.mintLp := by
  simp only [receivePt, debitPt, bind_eq_ok, Except.ok.injEq] at h
  obtain ⟨_, ⟨_, -, rfl⟩, _, -, rfl⟩ := h
  rfl

omit [Num N] in
theorem receiveSy_mintLp {user : Nat} {amount : UInt64} (h : b.receiveSy user amount = .ok b') :
    b'.mintLp = b.mintLp := by
  simp only [receiveSy, debitSy, bind_eq_ok, Except.ok.injEq] at h
  obtain ⟨_, ⟨_, -, rfl⟩, _, -, rfl⟩ := h
  rfl

theorem inv_marketTwoInit {vaultWorld : VaultWorld} {users : UserTokens} {treasury : UInt64}
    {tokenFarm : Pubkey → UInt64} {payer : Nat} {now : UInt64} {args : MarketTwoInitArgs N}
    (hpayer : payer ∈ S) (hpt : held S users.pt = vaultWorld.vault.ptSupply.toNat)
    (hyt : held S users.yt = vaultWorld.yieldPosition.ytBalance.toNat)
    (hlp : held S users.lp = 0)
    (h : marketTwoInit vaultWorld users treasury tokenFarm payer now args = .ok b) : b.Inv S := by
  simp only [marketTwoInit, MarketTwo.new, bind_eq_ok, Except.ok.injEq] at h
  obtain ⟨_, -, m, ⟨_, -, _, -, _, -, _, -, _, -, rfl⟩, b₁, h₁, b₂, h₂, l, -, b₃, h₃, h₄⟩ := h
  have hflows := ((((flows_receivePt hpayer h₁).trans (flows_receiveSy hpayer h₂)).trans
    (flows_mintLp (l := l))).trans (flows_creditLp hpayer h₃)).trans (flows_depositSy h₄)
  have hstate := (programState_depositSy h₄).trans ((programState_creditLp h₃).trans
    ((programState_receiveSy h₂).trans (programState_receivePt h₁)))
  have hlpWorld := congrArg ProgramState.lpWorld hstate
  have hmint : b₂.mintLp = 0 := (receiveSy_mintLp h₂).trans (receivePt_mintLp h₁)
  refine ⟨⟨?_, ?_, ?_⟩, ?_⟩
  · rw [hflows.pt]
    simp only [ptGap, vault, hpt, UInt64.toNat_zero]
    omega
  · rw [hflows.yt]
    simp only [ytGap, hyt]
    omega
  · rw [hflows.lp]
    simp only [lpGap, market, hlp, hmint, UInt64.toNat_zero]
    omega
  · rw [show b.lpWorld = _ from hlpWorld]
    rfl

/-- **The tokens are counted throughout**, in every run from a new market on, whoever signs the
instructions and whatever flash swaps and wrappers call on the way. -/
theorem counted_throughout (S : Finset Nat) (vaultWorld : VaultWorld) (users : UserTokens)
    (treasury : UInt64) (tokenFarm : Pubkey → UInt64) (payer : Nat) (now : UInt64)
    (args : MarketTwoInitArgs N) (b : Bank N) (ops : List BankOp) (hpayer : payer ∈ S)
    (hpt : held S users.pt = vaultWorld.vault.ptSupply.toNat)
    (hyt : held S users.yt = vaultWorld.yieldPosition.ytBalance.toNat)
    (hlp : held S users.lp = 0)
    (h : marketTwoInit vaultWorld users treasury tokenFarm payer now args = .ok b)
    (hops : ∀ op ∈ ops, ∀ u ∈ op.user, u ∈ S) :
    Machine.Throughout step (Counted S) b ops := by
  have hinv : Machine.Throughout step (Inv S) b ops :=
    Machine.throughout_of_step (P := fun _ op => ∀ u ∈ op.user, u ∈ S)
      (fun _ _ _ hb hu hs => hb.step hu hs) (inv_marketTwoInit hpayer hpt hyt hlp h)
      (Machine.admits_of_forall hops)
  exact hinv.mono fun _ hb => hb.counted

/-- What an instruction mints; nothing, if it fails. -/
def mintedBy (b : Bank N) (op : BankOp) : Nat :=
  match b.step op with
  | .ok _ => op.minted
  | .error _ => 0

/-- **SY comes from the SY program alone**: in no run is there more SY than there was, and what was
minted on the way. What is redeemed or paid to the treasuries of the vault leaves it. -/
theorem syHeld_le_minted (S : Finset Nat) (b : Bank N) (ops : List BankOp)
    (hops : ∀ op ∈ ops, ∀ u ∈ op.user, u ∈ S) :
    (Machine.run step b ops).syHeld S ≤ b.syHeld S + Machine.total step mintedBy b ops := by
  refine Machine.le_add_total (P := fun _ (op : BankOp) => ∀ u ∈ op.user, u ∈ S)
    (g := fun b : Bank N => b.syHeld S) (fun b op hu => ?_) (Machine.admits_of_forall hops)
  rcases Machine.next_cases step b op with ⟨b', hs, hnext⟩ | ⟨⟨e, hs⟩, hnext⟩
  · have hsy := (flows_step hu hs).sy
    rw [hnext, mintedBy, hs]
    dsimp only
    omega
  · rw [hnext, mintedBy, hs]
    exact le_rfl

end Bank

end

/-! ## A market of one user -/

/-- The vault of the sample market, after a strip. -/
def strippedVault : Outcome VaultWorld := sampleVault.instruct (.strip 0 ⟨1, []⟩ 3000000)

/-- Users with what the strip has minted. -/
def strippedUsers : UserTokens :=
  { sampleUsers with pt := fun _ => 3000000, yt := fun _ => 3000000 }

theorem strippedVault_market :
    ∃ w, strippedVault = .ok w ∧ w.vault.ptSupply = 3000000 ∧
      w.yieldPosition.ytBalance = 3000000 ∧
      ∃ b, Bank.marketTwoInit w strippedUsers 0 (fun _ => 0) 0 0 sampleArgs = .ok b ∧ True := by
  decide +kernel

theorem counted_throughout_sample :
    ∃ (w : VaultWorld) (b : Bank (Exact ℚ)),
      Bank.marketTwoInit w strippedUsers 0 (fun _ => 0) 0 0 sampleArgs = .ok b ∧
      Machine.Throughout Bank.step (Bank.Counted {0}) b
        [.lp (.initLpPosition 0) rfl, .wrapper sampleWrapper, .flashSwap sampleSwap] := by
  obtain ⟨w, -, hpt, hyt, b, hb, -⟩ := strippedVault_market
  refine ⟨w, b, hb, Bank.counted_throughout {0} w strippedUsers 0 (fun _ => 0) 0 0 sampleArgs b _
    (by decide) (by rw [hpt]; decide) (by rw [hyt]; decide) (by decide) hb ?_⟩
  decide

theorem syHeld_le_minted_sample :
    ∃ b, sampleBank = .ok b ∧
      (Machine.run Bank.step b [.wrapper sampleWrapper]).syHeld {0}
        ≤ b.syHeld {0} + Machine.total Bank.step Bank.mintedBy b [.wrapper sampleWrapper] := by
  obtain ⟨b, hb, -⟩ := sampleWrapper_run
  exact ⟨b, hb, Bank.syHeld_le_minted {0} b [.wrapper sampleWrapper] (by decide)⟩

end ExponentCore
