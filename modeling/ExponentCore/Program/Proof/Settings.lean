import ExponentCore.Admin.Proof.Account
import ExponentCore.Market.Proof.AccountCalls
import ExponentCore.Market.Proof.AccountFrame
import ExponentCore.Market.Proof.LpEvents
import ExponentCore.Market.Proof.NetBalance
import ExponentCore.Market.Proof.RoundTrip
import ExponentCore.Program.Governance
import ExponentCore.Vault.Proof.Emissions
import ExponentCore.Vault.Proof.Events

/-!
# Who changes the settings

The instructions of users write books and leave the settings alone; those of hot administrators add
emissions and farms at the end of the lists, and leave the other settings that are for cold
administrators alone (`Settings.Kept`). `Bank.settings_of_step` says so for every instruction on a
bank, with the instructions that it calls, and `Deployment.kept_of_step` for every transaction that
no cold administrator signs: there the switches only go off.

* `outsiders_change_no_settings`: transactions signed by others than the administrators leave
  the administrators and the settings as they were.
* `settings_kept_throughout`: while no cold administrator signs, the settings are kept.
-/

set_option autoImplicit false

namespace ExponentCore

open ExponentAdmin (Admin AdminAccount AdminOp Principle)

/-! ## Flags -/

section
variable {a b c : UInt8}

/-- The flags of `a` are among those of `b`. -/
theorem and_eq_of_and_not (h : a &&& ~~~b = 0) : a &&& b = a := by
  simp only [← UInt8.toBitVec_inj, UInt8.toBitVec_and, UInt8.toBitVec_not] at h ⊢
  ext i hi
  have hbit := congrArg (·.getLsbD i) h
  simpa [BitVec.getLsbD_eq_getElem hi] using hbit

theorem and_trans (h : b &&& a = b) (h' : c &&& b = c) : c &&& a = c := by
  rw [← h', UInt8.and_assoc, h]

end

/-! ## Settings that are kept -/

/-- The settings for cold administrators stay; flags only go off, and lists only grow. -/
structure VaultSettings.Kept (s s' : VaultSettings) : Prop where
  startTs : s'.startTs = s.startTs
  duration : s'.duration = s.duration
  interestBpsFee : s'.interestBpsFee = s.interestBpsFee
  minOpSizeStrip : s'.minOpSizeStrip = s.minOpSizeStrip
  minOpSizeMerge : s'.minOpSizeMerge = s.minOpSizeMerge
  status : s'.status &&& s.status = s'.status
  emissions : s.emissions <+: s'.emissions

structure MarketSettings.Kept {N : Type} (s s' : MarketSettings N) : Prop where
  feeTreasurySyBps : s'.feeTreasurySyBps = s.feeTreasurySyBps
  expirationTs : s'.expirationTs = s.expirationTs
  rateScalarRoot : s'.rateScalarRoot = s.rateScalarRoot
  statusFlags : s'.statusFlags &&& s.statusFlags = s'.statusFlags
  tokenEscrows : s.tokenEscrows <+: s'.tokenEscrows
  farms : s.farms <+: s'.farms

structure Settings.Kept {N : Type} (s s' : Settings N) : Prop where
  vault : s.vault.Kept s'.vault
  market : s.market.Kept s'.market

instance : IsPreorder VaultSettings VaultSettings.Kept where
  refl _ := ⟨rfl, rfl, rfl, rfl, rfl, UInt8.and_self, List.prefix_refl _⟩
  trans _ _ _ h h' :=
    { startTs := h'.startTs.trans h.startTs
      duration := h'.duration.trans h.duration
      interestBpsFee := h'.interestBpsFee.trans h.interestBpsFee
      minOpSizeStrip := h'.minOpSizeStrip.trans h.minOpSizeStrip
      minOpSizeMerge := h'.minOpSizeMerge.trans h.minOpSizeMerge
      status := and_trans h.status h'.status
      emissions := h.emissions.trans h'.emissions }

instance {N : Type} : IsPreorder (MarketSettings N) MarketSettings.Kept where
  refl _ := ⟨rfl, rfl, rfl, UInt8.and_self, List.prefix_refl _, List.prefix_refl _⟩
  trans _ _ _ h h' :=
    { feeTreasurySyBps := h'.feeTreasurySyBps.trans h.feeTreasurySyBps
      expirationTs := h'.expirationTs.trans h.expirationTs
      rateScalarRoot := h'.rateScalarRoot.trans h.rateScalarRoot
      statusFlags := and_trans h.statusFlags h'.statusFlags
      tokenEscrows := h.tokenEscrows.trans h'.tokenEscrows
      farms := h.farms.trans h'.farms }

instance {N : Type} : IsPreorder (Settings N) Settings.Kept where
  refl s := ⟨refl s.vault, refl s.market⟩
  trans _ _ _ h h' := ⟨IsTrans.trans _ _ _ h.vault h'.vault, IsTrans.trans _ _ _ h.market h'.market⟩

/-- What an instruction for the administrators of a principle makes of settings. -/
structure ChangedBy {S : Type} (Kept : S → S → Prop) (principle : Option Principle) (s s' : S) :
    Prop where
  user : principle = none → s' = s
  hot : principle ≠ some .coldAdmin → Kept s s'

section
variable {S : Type} {Kept : S → S → Prop} [IsPreorder S Kept] {principle : Option Principle}
  {s s' s'' : S}

theorem ChangedBy.of_eq (h : s' = s) : ChangedBy Kept principle s s' := by
  subst h
  exact ⟨fun _ => rfl, fun _ => refl _⟩

omit [IsPreorder S Kept] in
theorem ChangedBy.of_hot (hp : principle = some .hotAdmin) (h : Kept s s') :
    ChangedBy Kept principle s s' :=
  ⟨fun hnone => (nomatch hp.symm.trans hnone), fun _ => h⟩

omit [IsPreorder S Kept] in
theorem ChangedBy.of_cold (hp : principle = some .coldAdmin) : ChangedBy Kept principle s s' :=
  ⟨fun hnone => (nomatch hp.symm.trans hnone), fun h => absurd hp h⟩

/-- What users may do, everybody may do. -/
theorem ChangedBy.weaken {principle' : Option Principle} (h : ChangedBy Kept principle' s s')
    (hp : principle' = none ∨ principle' = principle) : ChangedBy Kept principle s s' := by
  rcases hp with rfl | rfl
  · exact .of_eq (h.user rfl)
  · exact h

theorem ChangedBy.trans (h : ChangedBy Kept principle s s') (h' : ChangedBy Kept principle s' s'') :
    ChangedBy Kept principle s s'' :=
  ⟨fun hp => (h'.user hp).trans (h.user hp), fun hp => IsTrans.trans _ _ _ (h.hot hp) (h'.hot hp)⟩

end

/-! ## The vault -/

theorem recordIndexes_settings {active : Bool} {es es' : List EmissionInfo} {xs : List Number}
    (h : Vault.recordIndexes active es xs = .ok es') :
    es'.map EmissionInfo.settings = es.map EmissionInfo.settings := by
  induction xs generalizing es es' with
  | nil => rw [Except.ok.inj (recordIndexes_nil.symm.trans h)]
  | cons x xs ih =>
    cases es with
    | nil => cases h
    | cons y es =>
      simp only [Vault.recordIndexes, bind_eq_ok, Except.ok.injEq] at h
      obtain ⟨es₁, h₁, rfl⟩ := h
      rw [List.map_cons, List.map_cons, ih h₁]
      rfl

theorem addTreasuryEmissions_settings {es es' : List EmissionInfo} {ss : List UInt64}
    (h : Vault.addTreasuryEmissions es ss = .ok es') :
    es'.map EmissionInfo.settings = es.map EmissionInfo.settings := by
  induction ss generalizing es es' with
  | nil => rw [Except.ok.inj (addTreasuryEmissions_nil.symm.trans h)]
  | cons s ss ih =>
    cases es with
    | nil => cases h
    | cons y es =>
      simp only [Vault.addTreasuryEmissions, bind_eq_ok, Except.ok.injEq] at h
      obtain ⟨t, -, es₁, h₁, rfl⟩ := h
      rw [List.map_cons, List.map_cons, ih h₁]
      rfl

namespace Vault

variable {v v' : Vault} {syState : SyState} {now : UInt32}

theorem skimEmissions_settings (h : v.skimEmissions syState now = .ok v') :
    v'.settings = v.settings := by
  rw [skimEmissions, bind_eq_ok] at h
  obtain ⟨b, -, h⟩ := h
  cases b with
  | true =>
    simp only [↓reduceIte, increaseEmissionLamboFund, bind_eq_ok, Except.ok.injEq] at h
    obtain ⟨_, -, es, hes, rfl⟩ := h
    simp only [settings, addTreasuryEmissions_settings hes]
  | false =>
    simp only [Bool.false_eq_true, ↓reduceIte, Except.ok.injEq] at h
    rw [h]

theorem updateFromSyState_settings (h : v.updateFromSyState syState now = .ok v') :
    v'.settings = v.settings := by
  simp only [updateFromSyState, recordSyState, bind_eq_ok, Except.ok.injEq] at h
  obtain ⟨v₁, h₁, v₂, h₂, v₃, ⟨active, -, es, hes, rfl⟩, h₄⟩ := h
  obtain ⟨n, t, -, -, rfl⟩ := skimSy_eq_ok h₁
  obtain ⟨s, rfl, -⟩ := setSyForPt_eq_ok h₄
  have hskim : v₂.settings = { v with treasurySy := t }.settings := skimEmissions_settings h₂
  refine Eq.trans ?_ hskim
  simp only [settings, recordIndexes_settings hes]

end Vault

namespace VaultWorld

variable {w w' : VaultWorld} {op : VaultOp}

theorem settings_of_ok (htimely : op.Timely w) (h : w.step op = .ok w') :
    ChangedBy VaultSettings.Kept op.principle w.vault.settings w'.vault.settings := by
  refine VaultRun.step_induction (A := fun _ o => o = op) (P := fun _ => True) (g := {})
    (I := fun r => ChangedBy VaultSettings.Kept op.principle w.vault.settings r.1.vault.settings)
    ?_ (.of_eq rfl) rfl htimely (fun _ _ => trivial) h
  intro r r' hr he
  apply hr.trans
  cases he with
  | refresh _ _ href _ =>
    obtain ⟨c, u, -, -, -, hv⟩ := href.earned.credit
    apply ChangedBy.of_eq
    have hupdate := Vault.updateFromSyState_settings href.update
    rw [hv]
    exact hupdate
  | earn _ _ hearn =>
    obtain ⟨c, u, -, -, -, hv⟩ := (earned_of_ok hearn).credit
    exact .of_eq (by rw [hv]; rfl)
  | mint _ _ _ hm =>
    obtain ⟨e, t, s, -, -, hv⟩ := hm.vault
    exact .of_eq (by rw [hv]; rfl)
  | burn _ _ hb =>
    obtain ⟨e, t, s, -, -, hv⟩ := hb.vault
    exact .of_eq (by rw [hv]; rfl)
  | deposit _ _ _ _ _ hm | withdraw _ _ _ _ hm =>
    obtain ⟨s, hv⟩ := hm.vault
    exact .of_eq (by rw [hv]; rfl)
  | payInterest _ hpay =>
    obtain ⟨e, c, -, -, hv⟩ := hpay.vault
    exact .of_eq (by rw [hv]; rfl)
  | payTreasury hpay =>
    obtain ⟨e, t, -, -, hv⟩ := hpay
    exact .of_eq (by rw [hv]; rfl)
  | @payEmission _ _ k => cases k <;> exact .of_eq rfl
  | @payTreasuryEmission _ _ _ _ t e he _ =>
    have hset := ListSum.map_set_of_eq (f := EmissionInfo.settings)
      (b := { e with treasuryEmission := t }) he rfl
    exact .of_eq (by simp only [Vault.settings, hset])
  | rebalance _ | openPosition => exact .of_eq rfl
  | addEmission hA _ =>
    apply ChangedBy.of_hot (by rw [← hA]; rfl)
    refine ⟨rfl, rfl, rfl, rfl, rfl, UInt8.and_self, ?_⟩
    simp only [Vault.settings, List.map_append]
    exact List.prefix_append _ _
  | removeEmission hA => exact .of_cold (by rw [← hA]; rfl)

/-- The limits on claims are the same in another window. -/
theorem withClaimLimits_settings {l : ClaimLimits} (h : w.vault.claimLimits.SameTerms l) :
    (w.withClaimLimits l).vault.settings = w.vault.settings := by
  simp only [withClaimLimits, Vault.settings, h.maxClaimAmountPerWindow,
    h.claimWindowDurationSeconds]

theorem settings_of_instruct (h : w.instructWithinLimits op = .ok w') :
    ChangedBy VaultSettings.Kept op.principle w.vault.settings w'.vault.settings := by
  obtain ⟨l, hl, h⟩ := instruct_of_withinLimits h
  obtain ⟨htimely, hstep⟩ := instruct_eq_ok h
  have hchanged := settings_of_ok htimely hstep
  rwa [withClaimLimits_settings hl] at hchanged

end VaultWorld

/-! ## The market -/

section
variable {N : Type} {m m' : MarketTwo N}

theorem updateAll_tokenEscrow {lp : UInt64} {es es' : List MarketEmission} {cs : List UInt64}
    (h : MarketEmission.updateAll lp es cs = .ok es') :
    es'.map MarketEmission.tokenEscrow = es.map MarketEmission.tokenEscrow := by
  apply List.ext_getElem?
  intro j
  rw [List.getElem?_map, List.getElem?_map]
  cases he : es[j]? with
  | none =>
    rw [List.getElem?_eq_none_iff] at he
    rw [List.getElem?_eq_none ((MarketEmission.length_updateAll h).trans_le he)]
  | some e =>
    obtain ⟨e', he', hupdated, hkept⟩ := MarketEmission.updateAll_get h he
    rw [he']
    cases hc : cs[j]? with
    | none => rw [hkept hc]
    | some c => exact congrArg some (hupdated c hc).tokenEscrow

theorem advanced_settings {fs fs' : List FarmEmission} {last now : UInt32} {lp : UInt64}
    (h : List.Forall₂ (FarmEmission.Advanced last now lp) fs fs') :
    fs'.map FarmEmission.settings = fs.map FarmEmission.settings := by
  induction h with
  | nil => rfl
  | cons hadv _ ih =>
    rw [List.map_cons, List.map_cons, ih, FarmEmission.settings, hadv.mint, hadv.tokenRate,
      hadv.expiryTimestamp, FarmEmission.settings]

theorem increaseShareIndexes_settings {f f' : LpFarm} {now : UInt32} {lp : UInt64}
    (h : f.increaseShareIndexes now lp = .ok f') :
    f'.farmEmissions.map FarmEmission.settings = f.farmEmissions.map FarmEmission.settings :=
  advanced_settings (LpFarm.increaseShareIndexes_eq_ok h).2

/-- Emissions and farms are brought up to date. -/
theorem settings_updated {es : List MarketEmission} {f : LpFarm} {e : UInt64}
    (hes : es.map MarketEmission.tokenEscrow = m.emissions.map MarketEmission.tokenEscrow)
    (hf : f.farmEmissions.map FarmEmission.settings
      = m.lpFarm.farmEmissions.map FarmEmission.settings) :
    { m with emissions := es, lpFarm := f, lpEscrowAmount := e }.settings = m.settings := by
  simp only [MarketTwo.settings, hes, hf]

theorem updateAndStage_settings {p p' : LpPosition} {now : UInt32} {cs : List UInt64} {e : UInt64}
    (h : updateAndStage m p now cs = .ok (m', p')) :
    { m' with lpEscrowAmount := e }.settings = m.settings := by
  obtain ⟨es, f, hes, hf, rfl, -⟩ := LpWorld.updateAndStage_eq_ok h
  exact settings_updated (updateAll_tokenEscrow hes) (increaseShareIndexes_settings hf)

namespace LpWorld

variable {w w' : LpWorld N} {op : LpOp}

theorem settings_of_ok (h : w.step op = .ok w') :
    ChangedBy MarketSettings.Kept op.principle w.market.settings w'.market.settings := by
  cases op with
  | initLpPosition | accrue =>
    cases h
    exact .of_eq rfl
  | depositLp =>
    simp only [step, withPosition, depositLp, bind_eq_ok, Except.ok.injEq, Prod.exists,
      Prod.mk.injEq] at h
    obtain ⟨p, -, m, q, ⟨m₁, p₁, hs, e, -, p₂, -, rfl, rfl⟩, rfl⟩ := h
    exact .of_eq (updateAndStage_settings hs)
  | withdrawLp =>
    simp only [step, withPosition, withdrawLp, bind_eq_ok, Except.ok.injEq, Prod.exists,
      Prod.mk.injEq] at h
    obtain ⟨p, -, m, q, ⟨m₁, p₁, hs, p₂, -, e, -, rfl, rfl⟩, rfl⟩ := h
    exact .of_eq (updateAndStage_settings hs)
  | marketCollectEmission =>
    simp only [step, marketCollectEmission, bind_eq_ok, getAt_eq_ok, setAt_eq_ok, unwrap_eq_ok,
      Except.ok.injEq, Prod.exists, Prod.mk.injEq] at h
    obtain ⟨p, -, m, q, cs, ⟨e, he, t, -, ts, -, -, -, cs', -, l, -, es, ⟨-, rfl⟩, rfl, rfl,
      rfl⟩, rfl⟩ := h
    have hset := ListSum.map_set_of_eq (f := MarketEmission.tokenEscrow)
      (b := { e with lastSeenStaged := l }) he rfl
    exact .of_eq (by simp only [MarketTwo.settings, hset])
  | claimFarmEmissions => exact .of_eq (by rw [(paidOut_of_claimFarmEmissions h).2])
  | addMarketEmission =>
    cases h
    apply ChangedBy.of_hot rfl
    refine ⟨rfl, rfl, rfl, UInt8.and_self, ?_, List.prefix_refl _⟩
    simp only [MarketTwo.settings, addMarketEmission, List.map_append]
    exact List.prefix_append _ _
  | addFarm =>
    simp only [step, withTokenFarm, bind_eq_ok, Except.ok.injEq, Prod.exists] at h
    obtain ⟨m, b, hadd, rfl⟩ := h
    obtain ⟨f, hf, -, -, rfl, -⟩ := addFarm_eq_ok hadd
    apply ChangedBy.of_hot rfl
    refine ⟨rfl, rfl, rfl, UInt8.and_self, List.prefix_refl _, ?_⟩
    simp only [MarketTwo.settings, MarketTwo.addFarm, List.map_append,
      increaseShareIndexes_settings hf]
    exact List.prefix_append _ _
  | removeMarketEmission | modifyFarm => exact .of_cold rfl

end LpWorld

end

/-! ## Trades and liquidity -/

namespace MarketFinancials

variable {N : Type} {f f' : MarketFinancials N}

/-- Everything but the balances and the rate that they stand for stays. -/
structure SameTerms (f f' : MarketFinancials N) : Prop where
  expirationTs : f'.expirationTs = f.expirationTs
  lnFeeRateRoot : f'.lnFeeRateRoot = f.lnFeeRateRoot
  rateScalarRoot : f'.rateScalarRoot = f.rateScalarRoot

variable [Num N]

theorem tradePt_sameTerms {rate : Number} {n : Int} {now : UInt64} {flash : Bool} {bps : UInt16}
    {r : MarketTradeResult} (h : f.tradePt rate n now flash bps = .ok (f', r)) :
    f.SameTerms f' := by
  simp only [tradePt, bind_eq_ok, Except.ok.injEq, Prod.mk.injEq] at h
  obtain ⟨_, -, _, -, _, -, _, -, _, -, _, -, _, -, g₁, hg₁, g, hg, _, -, _, -, rfl, -⟩ := h
  have hframe := (exchange_spec hg₁ hg).frame
  rw [hframe]
  exact ⟨rfl, rfl, rfl⟩

theorem addLiquidity_sameTerms {sy pt lp : UInt64} {r : LiqAddResult}
    (h : f.addLiquidity sy pt lp = .ok (f', r)) : f.SameTerms f' := by
  simp only [addLiquidity, incPtBalance, incSyBalance, bind_eq_ok, Except.ok.injEq,
    Prod.mk.injEq] at h
  obtain ⟨_, ⟨_, -, rfl⟩, _, ⟨_, -, rfl⟩, rfl, -⟩ := h
  exact ⟨rfl, rfl, rfl⟩

theorem rmLiquidity_sameTerms {lpIn lp : UInt64} {r : LiqRmResult}
    (h : f.rmLiquidity lpIn lp = .ok (f', r)) : f.SameTerms f' := by
  simp only [rmLiquidity, decPtBalance, decSyBalance, bind_eq_ok, Except.ok.injEq,
    Prod.mk.injEq] at h
  obtain ⟨_, -, _, -, _, ⟨_, -, rfl⟩, _, ⟨_, -, rfl⟩, rfl, -⟩ := h
  exact ⟨rfl, rfl, rfl⟩

end MarketFinancials

namespace LiquidityNetBalanceLimits

variable {l l' : LiquidityNetBalanceLimits} {now : UInt32} {supply : UInt64} {change : Int}

/-- Checking the limits starts a new window at most. -/
theorem verifyLimits_frame (h : l.verifyLimits now supply change = .ok l') :
    l' = { l with
      windowStartTimestamp := l'.windowStartTimestamp
      windowStartNetBalance := l'.windowStartNetBalance } := by
  simp only [verifyLimits, bind_eq_ok, Except.ok.injEq] at h
  obtain ⟨_, -, _, -, _, -, rfl⟩ := h
  split <;> rfl

end LiquidityNetBalanceLimits

section
variable {N : Type}

def ProgramState.settings (s : ProgramState N) : Settings N :=
  { vault := s.vaultWorld.vault.settings, market := s.lpWorld.market.settings }

theorem MarketTwo.settings_booked {m : MarketTwo N} {f : MarketFinancials N}
    {l : LiquidityNetBalanceLimits} {flash : Bool} (hf : m.financials.SameTerms f)
    (hl : l = { m.liquidityNetBalanceLimits with
      windowStartTimestamp := l.windowStartTimestamp
      windowStartNetBalance := l.windowStartNetBalance }) :
    { m with financials := f, liquidityNetBalanceLimits := l, isCurrentFlashSwap := flash }.settings
      = m.settings := by
  simp only [MarketTwo.settings, hf.expirationTs, hf.lnFeeRateRoot, hf.rateScalarRoot]
  rw [hl]

/-- Whom an instruction on the accounts is for. -/
def Instruction.principle : Instruction → Option Principle
  | .vault op => op.principle
  | .lp op => op.principle
  | .changeClaimLimits .. => some .hotAdmin
  | .changeVaultCpiAccounts _ | .changeMarketCpiAccounts _ => some .coldAdmin
  | .tradePt .. | .depositLiquidity .. | .withdrawLiquidity .. | .edit _ => none

variable [Num N]

theorem ProgramState.settings_of_ok {s s' : ProgramState N} {i : Instruction}
    (h : s.step i = .ok s') : ChangedBy Settings.Kept i.principle s.settings s'.settings := by
  cases i with
  | vault op =>
    simp only [step, bind_eq_ok, Except.ok.injEq] at h
    obtain ⟨w, hw, rfl⟩ := h
    have hchanged := VaultWorld.settings_of_instruct hw
    exact ⟨fun hp => congrArg (Settings.mk · _) (hchanged.user hp),
      fun hp => ⟨hchanged.hot hp, refl _⟩⟩
  | lp op =>
    simp only [step, bind_eq_ok, Except.ok.injEq] at h
    obtain ⟨w, hw, rfl⟩ := h
    have hchanged := LpWorld.settings_of_ok hw
    exact ⟨fun hp => congrArg (Settings.mk _ ·) (hchanged.user hp),
      fun hp => ⟨refl _, hchanged.hot hp⟩⟩
  | changeClaimLimits =>
    cases h
    exact .of_hot rfl ⟨⟨rfl, rfl, rfl, rfl, rfl, UInt8.and_self, List.prefix_refl _⟩, refl _⟩
  | changeVaultCpiAccounts | changeMarketCpiAccounts => exact .of_cold rfl
  | tradePt =>
    simp only [step, bind_eq_ok, Except.ok.injEq, Prod.exists] at h
    obtain ⟨f, r, hf, rfl⟩ := h
    exact .of_eq (congrArg (Settings.mk _ ·)
      (MarketTwo.settings_booked (MarketFinancials.tradePt_sameTerms hf) rfl))
  | depositLiquidity =>
    simp only [step, bind_eq_ok, Except.ok.injEq, Prod.exists] at h
    obtain ⟨f, r, hf, l, hl, rfl⟩ := h
    exact .of_eq (congrArg (Settings.mk _ ·) (MarketTwo.settings_booked
      (MarketFinancials.addLiquidity_sameTerms hf)
      (LiquidityNetBalanceLimits.verifyLimits_frame hl)))
  | withdrawLiquidity =>
    simp only [step, bind_eq_ok, Except.ok.injEq, Prod.exists] at h
    obtain ⟨_, -, l, hl, f, r, hf, rfl⟩ := h
    exact .of_eq (congrArg (Settings.mk _ ·) (MarketTwo.settings_booked
      (MarketFinancials.rmLiquidity_sameTerms hf)
      (LiquidityNetBalanceLimits.verifyLimits_frame hl)))
  | edit e =>
    cases e
    cases h
    exact .of_eq rfl

/-- A list of instructions for the same administrators. -/
theorem ProgramState.settings_of_foldlM {s s' : ProgramState N} {is : List Instruction}
    {principle : Option Principle} (hp : ∀ i ∈ is, i.principle = none ∨ i.principle = principle)
    (h : is.foldlM ProgramState.step s = .ok s') :
    ChangedBy Settings.Kept principle s.settings s'.settings := by
  refine Machine.inv_of_foldlM
    (I := fun z => ChangedBy Settings.Kept principle s.settings z.settings) ?_ (.of_eq rfl) hp h
  intro z i z' hz hi hs
  exact hz.trans ((settings_of_ok hs).weaken hi)

/-! ## Transactions on a bank -/

omit [Num N] in
theorem Instruction.principle_of_isUser {i : Instruction} (h : i.isUser = true) :
    i.principle = none := by
  cases i with
  | vault op => cases op <;> first | rfl | cases h
  | lp op => cases op <;> first | rfl | cases h
  | changeClaimLimits | changeVaultCpiAccounts | changeMarketCpiAccounts => cases h
  | tradePt | depositLiquidity | withdrawLiquidity | edit => rfl

/-- **What an instruction does to the settings**, with the instructions that it calls. -/
theorem Bank.settings_of_step {b b' : Bank N} {op : BankOp} (h : b.step op = .ok b') :
    ChangedBy Settings.Kept op.principle b.settings b'.settings := by
  obtain ⟨is, hsteps, his⟩ := instructions_of_step h
  refine ProgramState.settings_of_foldlM (fun i hi => ?_) hsteps
  cases his i hi with
  | inl huser => exact .inl (Instruction.principle_of_isUser huser)
  | inr hdirect =>
    cases op with
    | call | withdrawYt | flashSwap | wrapper => cases hdirect
    | vault | lp =>
      obtain rfl := Option.some.inj hdirect
      exact .inr rfl

end

/-! ## Administrators -/

section
variable {N : Type} {a : Admin} {signer : Pubkey}

/-- The keys that administrate, or are invited to. -/
def IsInsider (a : Admin) (key : Pubkey) : Prop :=
  a.uberAdmin = key ∨ a.proposedUberAdmin = some key ∨
    ∃ p, key ∈ (a.principles.details p).administrators

theorem isInsider_of_isAdmin {p : Principle}
    (h : (a.principles.details p).isAdmin signer = .ok ()) : IsInsider a signer :=
  .inr (.inr ⟨p, ExponentAdmin.isAdmin_eq_ok.1 h⟩)

/-- Flags are cleared by a pause administrator, or changed by a cold one. -/
theorem validateStatusUpdate_eq_ok {current new : UInt8}
    (h : validateStatusUpdate a signer current new = .ok ()) :
    a.principles.pauseAdmin.isAdmin signer = .ok () ∧ new &&& current = new ∨
      a.principles.coldAdmin.isAdmin signer = .ok () := by
  simp only [validateStatusUpdate] at h
  split at h
  · rename_i hpause
    exact .inl ⟨hpause.2, and_eq_of_and_not hpause.1⟩
  · exact .inr h

/-- A setting that is changed has been checked. -/
theorem AdminAction.isInsider {v : Vault} {action : AdminAction}
    (h : action.validate v a signer = .ok ()) : IsInsider a signer := by
  cases action with
  | setVaultStatus =>
    cases validateStatusUpdate_eq_ok h with
    | inl hpause => exact isInsider_of_isAdmin (p := .pauseAdmin) hpause.1
    | inr hcold => exact isInsider_of_isAdmin (p := .coldAdmin) hcold
  | changeClaimLimits | changeMaxPySupply => exact isInsider_of_isAdmin (p := .hotAdmin) h
  | changeVaultBpsFee | changeVaultTreasuryTokenAccount | changeEmissionTreasuryTokenAccount
  | changeMinOperationSize | changeEmissionBpsFee | changeCpiAccounts | changeAddressLookupTable
  | removeVaultEmission => exact isInsider_of_isAdmin (p := .coldAdmin) h

theorem MarketAdminAction.isInsider {m : MarketTwo N} {action : MarketAdminAction}
    (h : action.validate m a signer = .ok ()) : IsInsider a signer := by
  cases action with
  | setStatus =>
    cases validateStatusUpdate_eq_ok h with
    | inl hpause => exact isInsider_of_isAdmin (p := .pauseAdmin) hpause.1
    | inr hcold => exact isInsider_of_isAdmin (p := .coldAdmin) hcold
  | setMaxLpSupply | changeLnFeeRateRoot | changeLiquidityNetBalanceLimits =>
    exact isInsider_of_isAdmin (p := .hotAdmin) h
  | changeTreasuryTradeSyBpsFee | changeRateScalarRoot | changeCpiAccounts
  | changeAddressLookupTable | removeMarketEmission =>
    exact isInsider_of_isAdmin (p := .coldAdmin) h

variable (hcold : a.principles.coldAdmin.isAdmin signer ≠ .ok ())
include hcold

/-- Without the key of a cold administrator a vault can be limited, and its flags cleared. -/
theorem AdminAction.kept {v v' : Vault} {now : UInt32} {action : AdminAction}
    (hv : action.validate v a signer = .ok ()) (h : action.apply v now = .ok v') :
    v.settings.Kept v'.settings := by
  cases action with
  | setVaultStatus new =>
    cases h
    have hstatus := ((validateStatusUpdate_eq_ok hv).resolve_right hcold).2
    exact ⟨rfl, rfl, rfl, rfl, rfl, hstatus, List.prefix_refl _⟩
  | changeClaimLimits | changeMaxPySupply =>
    cases h
    exact ⟨rfl, rfl, rfl, rfl, rfl, UInt8.and_self, List.prefix_refl _⟩
  | changeVaultBpsFee | changeVaultTreasuryTokenAccount | changeEmissionTreasuryTokenAccount
  | changeMinOperationSize | changeEmissionBpsFee | changeCpiAccounts | changeAddressLookupTable
  | removeVaultEmission => exact absurd hv hcold

theorem MarketAdminAction.kept {price : F64 → N} {m m' : MarketTwo N} {now : UInt32}
    {action : MarketAdminAction} (hv : action.validate m a signer = .ok ())
    (h : action.apply price m now = .ok m') : m.settings.Kept m'.settings := by
  cases action with
  | setStatus new =>
    cases h
    have hstatus := ((validateStatusUpdate_eq_ok hv).resolve_right hcold).2
    exact ⟨rfl, rfl, rfl, hstatus, List.prefix_refl _, List.prefix_refl _⟩
  | setMaxLpSupply | changeLnFeeRateRoot | changeLiquidityNetBalanceLimits =>
    cases h
    exact ⟨rfl, rfl, rfl, UInt8.and_self, List.prefix_refl _, List.prefix_refl _⟩
  | changeTreasuryTradeSyBpsFee | changeRateScalarRoot | changeCpiAccounts
  | changeAddressLookupTable | removeMarketEmission => exact absurd hv hcold

end

/-! ## Transactions -/

section
variable {α β : Type}

theorem setting_bind_eq_ok {x : Except SettingFault α} {f : α → Except SettingFault β} {b : β} :
    x >>= f = .ok b ↔ ∃ a, x = .ok a ∧ f a = .ok b := by
  cases x <;> simp [bind, Except.bind]

theorem asked_eq_ok {x : Except ExponentAdmin.Fault α} {a : α} :
    asked x = .ok a ↔ x = .ok a := by
  cases x <;> simp [asked, Except.mapError]

theorem handled_eq_ok {x : Outcome α} {a : α} : handled x = .ok a ↔ x = .ok a := by
  cases x <;> simp [handled, Except.mapError]

end

/-- The uber admin or the key invited to succeed it signs for what changes the admin account. -/
theorem admin_of_step {c c' : AdminAccount} {op : AdminOp} (h : c.step op = .ok c') :
    c'.admin = c.admin ∨ ∃ key ∈ adminSigner op, IsInsider c.admin key := by
  cases op with
  | inviteAdmin uberAdmin proposed =>
    exact .inr ⟨_, rfl, .inl (ExponentAdmin.step_invite_eq_ok.1 h).1.1⟩
  | acceptInvitation key =>
    exact .inr ⟨_, rfl, .inr (.inl (ExponentAdmin.step_accept_eq_ok.1 h).1.1)⟩
  | addPrincipleAdmin uberAdmin key p =>
    exact .inr ⟨_, rfl, .inl (ExponentAdmin.step_add_eq_ok.1 h).1.1⟩
  | removePrincipleAdmin uberAdmin key p =>
    exact .inr ⟨_, rfl, .inl (ExponentAdmin.step_remove_eq_ok.1 h).1⟩
  | reallocAdmin =>
    cases h
    exact .inl rfl

theorem BankOp.isInsider {a : Admin} {signer : Pubkey} {op : BankOp} (hp : op.principle ≠ none)
    (h : op.validate a signer = .ok ()) : IsInsider a signer := by
  unfold validate at h
  cases hop : op.principle with
  | none => exact absurd hop hp
  | some p =>
    rw [hop] at h
    exact isInsider_of_isAdmin h

namespace Deployment

variable {N : Type} [Num N] {price : F64 → N} {d d' : Deployment N} {tx : Transaction}

/-- The administrators and the settings are those of another deployment. -/
structure SameRule (d d' : Deployment N) : Prop where
  adminState : d'.adminState = d.adminState
  settings : d'.bank.settings = d.bank.settings

theorem sameRule_of_step (hout : ∀ key ∈ tx.signer, ¬ IsInsider d.adminState key)
    (h : d.step price tx = .ok d') : SameRule d d' := by
  cases tx with
  | admin op =>
    simp only [step, setting_bind_eq_ok, asked_eq_ok, Except.ok.injEq] at h
    obtain ⟨c, hc, rfl⟩ := h
    cases admin_of_step hc with
    | inl hsame => exact ⟨hsame, rfl⟩
    | inr hsigned =>
      obtain ⟨key, hkey, hinsider⟩ := hsigned
      exact absurd hinsider (hout key hkey)
  | bank signer op =>
    simp only [step, setting_bind_eq_ok, asked_eq_ok, handled_eq_ok, Except.ok.injEq] at h
    obtain ⟨_, hv, b, hb, rfl⟩ := h
    have hp : op.principle = none := by
      by_contra hp
      exact hout signer rfl (BankOp.isInsider hp hv)
    exact ⟨rfl, (Bank.settings_of_step hb).user hp⟩
  | modifyVaultSetting signer =>
    simp only [step, setting_bind_eq_ok, asked_eq_ok] at h
    obtain ⟨_, hv, -⟩ := h
    exact absurd (AdminAction.isInsider hv) (hout signer rfl)
  | modifyMarketSetting signer =>
    simp only [step, setting_bind_eq_ok, asked_eq_ok] at h
    obtain ⟨_, hv, -⟩ := h
    exact absurd (MarketAdminAction.isInsider hv) (hout signer rfl)

/-- **Outsiders change no settings**: transactions that the administrators of the start have not
signed leave the administrators and all settings as they were, in whatever order they come. -/
theorem outsiders_change_no_settings (price : F64 → N) (d : Deployment N)
    (txs : List Transaction)
    (hout : ∀ tx ∈ txs, ∀ key ∈ tx.signer, ¬ IsInsider d.adminState key) :
    Machine.Throughout (step price) (SameRule d) d txs := by
  refine Machine.throughout_of_step
    (P := fun _ tx => ∀ key ∈ tx.signer, ¬ IsInsider d.adminState key) (fun z tx z' hz hp hs => ?_)
    ⟨rfl, rfl⟩ (Machine.admits_of_forall hout)
  have hsame := sameRule_of_step (by rw [hz.adminState]; exact hp) hs
  exact ⟨hsame.adminState.trans hz.adminState, hsame.settings.trans hz.settings⟩

/-- No cold administrator signs the transaction. -/
def WithoutCold (d : Deployment N) (tx : Transaction) : Prop :=
  ∀ key ∈ tx.signer, key ∉ d.adminState.principles.coldAdmin.administrators

instance (d : Deployment N) (tx : Transaction) : Decidable (d.WithoutCold tx) :=
  inferInstanceAs (Decidable (∀ key ∈ tx.signer, _))

theorem kept_of_step (hcold : d.WithoutCold tx) (h : d.step price tx = .ok d') :
    d.bank.settings.Kept d'.bank.settings := by
  have hnot (signer : Pubkey) (hsigner : signer ∈ tx.signer) :
      d.adminState.principles.coldAdmin.isAdmin signer ≠ .ok () := by
    intro hadmin
    exact hcold signer hsigner (ExponentAdmin.isAdmin_eq_ok.1 hadmin)
  cases tx with
  | admin op =>
    simp only [step, setting_bind_eq_ok, asked_eq_ok, Except.ok.injEq] at h
    obtain ⟨c, hc, rfl⟩ := h
    exact refl _
  | bank signer op =>
    simp only [step, setting_bind_eq_ok, asked_eq_ok, handled_eq_ok, Except.ok.injEq] at h
    obtain ⟨_, hv, b, hb, rfl⟩ := h
    apply (Bank.settings_of_step hb).hot
    intro hp
    rw [BankOp.validate, hp] at hv
    exact hnot signer rfl hv
  | modifyVaultSetting signer now action =>
    simp only [step, setting_bind_eq_ok, asked_eq_ok, handled_eq_ok, Except.ok.injEq] at h
    obtain ⟨_, hv, v, happly, rfl⟩ := h
    exact ⟨AdminAction.kept (hnot signer rfl) hv happly, refl _⟩
  | modifyMarketSetting signer now action =>
    simp only [step, setting_bind_eq_ok, asked_eq_ok, handled_eq_ok, Except.ok.injEq] at h
    obtain ⟨_, hv, m, happly, rfl⟩ := h
    exact ⟨refl _, MarketAdminAction.kept (hnot signer rfl) hv happly⟩

/-- **Without cold administrators the settings are kept**: in every run in which none signs, fees
and minimal sizes and the terms of the curve stay, flags only go off, and the emissions and farms
that are listed stay as they were set up. -/
theorem settings_kept_throughout (price : F64 → N) (d : Deployment N) (txs : List Transaction)
    (hcold : Machine.Admits (step price) WithoutCold d txs) :
    Machine.Throughout (step price) (fun d' => d.bank.settings.Kept d'.bank.settings) d txs :=
  Machine.throughout_of_step (fun _ _ _ hz hp hs => IsTrans.trans _ _ _ hz (kept_of_step hp hs))
    (refl _) hcold

/-- Only the admin program writes the account of the administrators. -/
theorem adminState_of_step (htx : ∀ op, tx ≠ .admin op) (h : d.step price tx = .ok d') :
    d'.adminState = d.adminState := by
  cases tx with
  | admin op => exact absurd rfl (htx op)
  | bank | modifyVaultSetting | modifyMarketSetting =>
    simp only [step, setting_bind_eq_ok, Except.ok.injEq] at h
    obtain ⟨_, -, _, -, rfl⟩ := h
    rfl

theorem admits_withoutCold {txs : List Transaction}
    (htxs : ∀ tx ∈ txs, (∀ op, tx ≠ .admin op) ∧ d.WithoutCold tx) :
    Machine.Admits (step price) WithoutCold d txs := by
  refine ((Machine.admits_of_forall htxs).with_invariant
    (I := fun z => z.adminState = d.adminState) (fun z tx z' hz htx h => ?_) rfl).mono ?_
  · exact (adminState_of_step htx.1 h).trans hz
  · intro z tx hz
    rw [WithoutCold, hz.1]
    exact hz.2.2

end Deployment

/-! ## A market that is paused -/

/-- The administrators: 4 is a cold one, and 5 may pause. -/
def pausingAdmins : AdminAccount where
  admin :=
    { uberAdmin := 3
      principles := { coldAdmin := ⟨[4]⟩, pauseAdmin := ⟨[5]⟩ } }
  dataLen := 200

/-- A user provides liquidity, and the flags of the market are cleared. -/
def pausing : List Transaction :=
  [.bank 7 (.wrapper sampleWrapper), .modifyMarketSetting 5 0 (.setStatus 0)]

theorem pausing_withoutCold (b : Bank (Exact ℚ)) :
    Machine.Admits (Deployment.step fun _ => Exact.num 0) Deployment.WithoutCold
      ⟨pausingAdmins, b⟩ pausing := by
  apply Deployment.admits_withoutCold
  simp [pausing, Deployment.WithoutCold, Transaction.signer, Deployment.adminState, pausingAdmins]

theorem settings_kept_throughout_pausing :
    ∃ b, sampleBank = .ok b ∧ Machine.Throughout (Deployment.step fun _ => Exact.num 0)
      (fun d => b.settings.Kept d.bank.settings) ⟨pausingAdmins, b⟩ pausing := by
  obtain ⟨b, hb, -⟩ := sampleWrapper_run
  exact ⟨b, hb, Deployment.settings_kept_throughout _ ⟨pausingAdmins, b⟩ pausing
    (pausing_withoutCold b)⟩

theorem outsiders_change_no_settings_pausing :
    ∃ b, sampleBank = .ok b ∧ Machine.Throughout (Deployment.step fun _ => Exact.num 0)
      (Deployment.SameRule ⟨pausingAdmins, b⟩) ⟨pausingAdmins, b⟩
      [.bank 7 (.wrapper sampleWrapper), .modifyMarketSetting 7 0 (.setStatus 0),
        .admin (.acceptInvitation 7)] := by
  obtain ⟨b, hb, -⟩ := sampleWrapper_run
  refine ⟨b, hb, Deployment.outsiders_change_no_settings _ ⟨pausingAdmins, b⟩ _ ?_⟩
  have hout : ¬ IsInsider pausingAdmins.admin 7 := by
    rintro (h | h | ⟨p, h⟩)
    · cases h
    · cases h
    · cases p <;> exact absurd h (by decide)
  simpa [Transaction.signer, adminSigner, Deployment.adminState] using hout

end ExponentCore
