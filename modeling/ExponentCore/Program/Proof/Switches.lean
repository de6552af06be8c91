import ExponentCore.Market.Proof.Ceilings
import ExponentCore.Program.Proof.Settings

/-!
# What the status flags stop

An instruction that succeeds has found the switches on that it needs, and those that the
instructions it calls need (`Bank.finds_of_step`). Flags only go off while no cold administrator
signs, so in every such run what is switched off stays off: `paused_throughout` says that no
instruction succeeds that needs one of the switches, through no wrapper and no flash swap either.
-/

set_option autoImplicit false

namespace ExponentCore

open Cached Handler

/-! ## Switches that are found on -/

section
variable {N : Type} {b b' : Bank N} {n n' : Needs}

/-- Of each choice, a switch is on. -/
def Bank.Finds (b : Bank N) (n : Needs) : Prop :=
  ∀ choice ∈ n, ∃ s ∈ choice, Switch.isOn b.vault b.market s = true

theorem Bank.finds_nil : b.Finds [] := fun _ h => absurd h List.not_mem_nil

theorem Bank.finds_single {s : Switch} (h : s.isOn b.vault b.market = true) : b.Finds [[s]] := by
  intro choice hchoice
  obtain rfl := List.mem_singleton.1 hchoice
  exact ⟨s, List.mem_singleton_self s, h⟩

@[simp] theorem Bank.finds_cons {choice : List Switch} :
    b.Finds (choice :: n) ↔
      (∃ s ∈ choice, Switch.isOn b.vault b.market s = true) ∧ b.Finds n :=
  List.forall_mem_cons

@[simp] theorem Bank.finds_append : b.Finds (n ++ n') ↔ b.Finds n ∧ b.Finds n' :=
  List.forall_mem_append

/-- Whether a switch is on is one of the settings. -/
theorem Switch.isOn_congr (h : b'.settings = b.settings) (s : Switch) :
    s.isOn b'.vault b'.market = s.isOn b.vault b.market := by
  have hstatus : b'.vault.status = b.vault.status :=
    congrArg (fun r : Settings N => r.vault.status) h
  have hflags : b'.market.statusFlags = b.market.statusFlags :=
    congrArg (fun r : Settings N => r.market.statusFlags) h
  cases s <;>
    simp only [isOn, Vault.checkStatusFlags, MarketTwo.checkStatusFlags, hstatus, hflags]

theorem Bank.Finds.congr (hb : b'.Finds n) (h : b'.settings = b.settings) : b.Finds n := by
  intro choice hchoice
  obtain ⟨s, hs, hon⟩ := hb choice hchoice
  rw [Switch.isOn_congr h] at hon
  exact ⟨s, hs, hon⟩

end

/-! ## Instructions -/

section
variable {N : Type} {b b' : Bank N} {w : VaultWorld} {op : VaultOp} {user : Nat} {now : UInt64}
  {syState : SyState} {amount r : UInt64}

theorem Bank.finds_instruct (h : b.vaultWorld.instruct op = .ok w) : b.Finds op.needs := by
  simp only [VaultWorld.instruct, bind_eq_ok] at h
  obtain ⟨_, hv, -⟩ := h
  cases op with
  | strip | merge | depositYt | withdrawYt =>
    simp only [VaultOp.validate, bind_eq_ok, require_eq_ok] at hv
    exact Bank.finds_single hv.choose_spec.1
  | collectInterest | collectEmission =>
    simp only [VaultOp.validate, require_eq_ok] at hv
    exact Bank.finds_single hv
  | initializeYieldPosition | stageYield | collectTreasuryInterest | collectTreasuryEmission
  | addEmission | removeVaultEmission => exact Bank.finds_nil

variable [Num N]

/-- An instruction finds the switch on that it checks. -/
theorem Call.finds {c : Call} {x : c.Ret} (h : c.act b = .ok (b', x)) : b.Finds c.needs := by
  cases c with
  | strip user now syState amount =>
    simp only [act, Bank.strip, bind_eq_ok, Prod.exists] at h
    obtain ⟨b₁, h₁, w, hw, -⟩ := h
    have hstate := Bank.programState_debitSy h₁
    have hfinds := Bank.finds_instruct hw
    exact hfinds.congr (congrArg ProgramState.settings hstate)
  | merge =>
    simp only [act, Bank.merge, bind_eq_ok, Prod.exists] at h
    obtain ⟨w, hw, -⟩ := h
    have hfinds := Bank.finds_instruct hw
    exact hfinds
  | depositYt =>
    simp only [act, noData_eq_ok, Bank.depositYt, bind_eq_ok] at h
    obtain ⟨w, hw, -⟩ := h
    have hfinds := Bank.finds_instruct hw
    exact hfinds
  | collectInterest =>
    obtain ⟨l, _, w, _, _, _, hl, -, hw, -⟩ := Bank.collectInterest_spec h
    have hfinds := Bank.finds_instruct
      (b := { b with vaultWorld := b.vaultWorld.withClaimLimits l }) hw
    exact hfinds.congr (congrArg (Settings.mk · _) (VaultWorld.withClaimLimits_settings hl))
  | tradePt user now rate netTraderPt syConstraint =>
    simp only [act, Bank.tradePt, bind_eq_ok] at h
    obtain ⟨_, hv, -⟩ := h
    apply Bank.finds_single
    unfold Switch.trade
    unfold Bank.validateTradePt at hv
    split at hv
    · rename_i hpos
      rw [if_pos hpos]
      exact require_eq_ok.1 hv
    · rename_i hpos
      rw [if_neg hpos]
      exact require_eq_ok.1 hv
  | depositLiquidity =>
    simp only [act, Bank.depositLiquidity, bind_eq_ok, require_eq_ok] at h
    obtain ⟨-, -, -, hon, -⟩ := h
    exact Bank.finds_single hon
  | withdrawLiquidity =>
    simp only [act, Bank.withdrawLiquidity, bind_eq_ok, require_eq_ok] at h
    obtain ⟨-, hon, -⟩ := h
    exact Bank.finds_single hon
  | depositLp | withdrawLp | mintSy | redeemSy | depositSy | withdrawSy | sendSy | receiveSy
  | sendPt | receivePt => exact Bank.finds_nil

end

/-! ## Handlers -/

section
variable {N : Type} [Num N]

theorem Bank.Follows.settings {b b' : Bank N} (h : Bank.Follows b b') :
    b'.settings = b.settings := by
  obtain ⟨is, huser, hsteps⟩ := h
  have hp : ∀ i ∈ is, i.principle = none ∨ i.principle = none :=
    fun i hi => .inl (Instruction.principle_of_isUser (huser i hi))
  exact (ProgramState.settings_of_foldlM hp hsteps).user rfl

/-- An automaton that collects what calls need. -/
def needsStep {β : Type} {nested : β → Bank N → Outcome (Bank N × UInt64)} (needs : β → Needs) :
    Needs → Event (bankProgram β nested) → Option Needs
  | q, .called (.inl c) => some (q ++ c.needs)
  | q, .called (.inr x) => some (q ++ needs x)
  | q, .edited _ => some q

section
variable {β α : Type} {nested : β → Bank N → Outcome (Bank N × UInt64)} {needs : β → Needs}
  {q q' : Needs} {b₀ b b' : Bank N} {e : Event (bankProgram β nested)}
  {h : Handler (bankProgram β nested) α} {loaded : List AccountName}
  {log : List (Event (bankProgram β nested))} {a : α} {n : Needs}

/-- What has been found on at the calls was on at the start. -/
theorem finds_of_needsStep
    (hnested : ∀ x b b' r, nested x b = .ok (b', r) → Bank.Follows b b' ∧ b.Finds (needs x))
    (hδ : needsStep needs q e = some q') (hq : Bank.Follows b₀ b ∧ b₀.Finds q)
    (he : e.apply b = .ok b') : Bank.Follows b₀ b' ∧ b₀.Finds q' := by
  obtain ⟨hfollows, hfinds⟩ := hq
  cases e with
  | called c =>
    simp only [Event.apply] at he
    split at he
    · rename_i s r hact
      obtain rfl := Except.ok.inj he
      cases c with
      | inl c =>
        obtain rfl := Option.some.inj hδ
        have hc := (Call.finds hact).congr hfollows.settings
        exact ⟨hfollows.trans (Bank.follows_call hact), Bank.finds_append.2 ⟨hfinds, hc⟩⟩
      | inr x =>
        obtain rfl := Option.some.inj hδ
        obtain ⟨hx, hn⟩ := hnested x b _ r hact
        exact ⟨hfollows.trans hx, Bank.finds_append.2 ⟨hfinds, hn.congr hfollows.settings⟩⟩
    · cases he
  | edited e =>
    obtain rfl := Option.some.inj hδ
    obtain rfl := Except.ok.inj he
    exact ⟨hfollows.trans (Bank.follows_of_step (i := .edit e) rfl rfl), hfinds⟩

theorem finds_of_run (hsync : h.Synced loaded)
    (hnested : ∀ x b b' r, nested x b = .ok (b', r) → Bank.Follows b b' ∧ b.Finds (needs x))
    (hneeds : wp (onEvents (needsStep needs)) [] h fun _ q => ∀ b : Bank N, b.Finds q → b.Finds n)
    (hrun : h.run loaded b = .ok (b', a, log)) : b.Finds n := by
  obtain ⟨q, hfollow, hn⟩ := follow_of_run hsync hneeds hrun
  exact hn b (replay_follow (R := fun q b' => Bank.Follows b b' ∧ b.Finds q)
    (fun _ _ _ _ _ => finds_of_needsStep hnested) ⟨Bank.follows_of_eq rfl, Bank.finds_nil⟩ hfollow
    (replay_of_run hsync hrun)).1.2

end

theorem Switch.trade_neg (n : Nat) : Switch.trade (-(n : Int)) = .sellPt :=
  if_neg (by omega)

omit [Num N] in
theorem Switch.sells_or_buys {b : Bank N} {n : Int}
    (h : (Switch.trade n).isOn b.vault b.market = true) :
    Switch.isOn b.vault b.market .sellPt = true ∨ Switch.isOn b.vault b.market .buyPt = true := by
  unfold trade at h
  split at h
  · exact .inr h
  · exact .inl h

omit [Num N] in
/-- What holds anyway holds after a run. -/
theorem ensures_of_true {α : Type} {P : Program (Bank N) Fault} {l : Live P} {h : Handler P α}
    {p : Prop} (hp : p) : Ensures l h fun _ _ => p := fun _ _ _ => hp

namespace FlashSwap

/-- A flash swap reads its own flag in the market that it has loaded. -/
theorem finds_own {x : FlashSwap} {b b' : Bank N} {r : UInt64} {log : List (Event (coreProgram N))}
    (h : x.run b = .ok (b', r, log)) : b.Finds (x.needs.take 1) := by
  refine ensures_of_run (Q := fun _ _ => b.Finds (x.needs.take 1)) x.synced ?_ h
  cases x with
  | buyYt =>
    rw [handler, ExponentCore.buyYt, ensures_bind, ensures_loadMarket, ensures_bind]
    refine ensures_liftM.2 fun _ hon => ensures_of_true (Bank.finds_single (s := .buyYt) ?_)
    exact require_eq_ok.1 hon
  | sellYt =>
    rw [handler, ExponentCore.sellYt, ensures_bind, ensures_loadMarket, ensures_bind]
    refine ensures_liftM.2 fun _ hon => ensures_of_true (Bank.finds_single (s := .sellYt) ?_)
    exact require_eq_ok.1 hon

theorem finds_calls (x : FlashSwap) :
    wp (onEvents (needsStep Empty.elim)) [] (x.handler (N := N)) fun _ q =>
      ∀ b : Bank N, b.Finds q → b.Finds (x.needs.drop 1) := by
  cases x with
  | buyYt =>
    simp +contextual [handler, ExponentCore.buyYt, needsStep, Call.needs, needs, Bank.finds_nil,
      toI64_eq_some, Switch.trade_neg]
  | sellYt =>
    simp +contextual [handler, ExponentCore.sellYt, needsStep, Call.needs, needs, Bank.finds_nil,
      toI64_eq_some]

theorem finds_of_run {x : FlashSwap} {b b' : Bank N} {r : UInt64}
    {log : List (Event (coreProgram N))} (h : x.run b = .ok (b', r, log)) : b.Finds x.needs := by
  rw [← List.take_append_drop 1 x.needs, Bank.finds_append]
  exact ⟨finds_own h, ExponentCore.finds_of_run x.synced (fun y => y.elim) x.finds_calls h⟩

theorem finds_of_act (x : FlashSwap) (b b' : Bank N) (r : UInt64) (h : x.act b = .ok (b', r)) :
    Bank.Follows b b' ∧ b.Finds x.needs := by
  simp only [act, bind_eq_ok, Except.ok.injEq, Prod.exists, Prod.mk.injEq] at h
  obtain ⟨_, _, log, hrun, rfl, rfl⟩ := h
  exact ⟨Bank.follows_flashSwap hrun, finds_of_run hrun⟩

end FlashSwap

namespace Wrapper

theorem finds_calls (w : Wrapper) :
    wp (onEvents (needsStep FlashSwap.needs)) [] (w.handler (N := N)) fun _ q =>
      ∀ b : Bank N, b.Finds q → b.Finds w.needs := by
  cases w with
  | strip =>
    simp +contextual [handler, wrapperStrip, needsStep, Call.needs, needs, Bank.finds_nil]
  | merge => simp [handler, wrapperMerge, needsStep, Call.needs, needs, Bank.finds_nil]
  | collectInterest =>
    simp [handler, wrapperCollectInterest, needsStep, Call.needs, needs, Bank.finds_nil]
  | buyPt => simp [handler, wrapperBuyPt, needsStep, Call.needs, needs, Bank.finds_nil]
  | sellPt =>
    simp +contextual [handler, wrapperSellPt, needsStep, Call.needs, needs, Bank.finds_nil,
      inI64_eq_ok]
  | buyYt =>
    simp +contextual [handler, wrapperBuyYt, needsStep, Call.needs, FlashSwap.needs, needs,
      Bank.finds_nil]
  | sellYt =>
    simp +contextual [handler, wrapperSellYt, needsStep, Call.needs, FlashSwap.needs, needs,
      Bank.finds_nil]
  | provideLiquidity =>
    simp +contextual [handler, wrapperProvideLiquidity, needsStep, Call.needs, needs,
      Bank.finds_nil]
  | provideLiquidityBase =>
    simp +contextual [handler, wrapperProvideLiquidityBase, needsStep, Call.needs, needs,
      Bank.finds_nil]
  | provideLiquidityClassic =>
    simp [handler, wrapperProvideLiquidityClassic, needsStep, Call.needs, needs, Bank.finds_nil]
  | withdrawLiquidity =>
    simp +contextual [handler, wrapperWithdrawLiquidity, needsStep, Call.needs, needs,
      Bank.finds_nil]
    intro _ _ _ _ _ _ b _ htrade
    exact Switch.sells_or_buys htrade
  | withdrawLiquidityClassic =>
    simp [handler, wrapperWithdrawLiquidityClassic, needsStep, Call.needs, needs, Bank.finds_nil]

end Wrapper

/-- **Every instruction finds the switches on that it needs**, if it succeeds. -/
theorem Bank.finds_of_step {b b' : Bank N} {op : BankOp} (h : b.step op = .ok b') :
    b.Finds op.needs := by
  cases op with
  | call c =>
    simp only [step, bind_eq_ok, Prod.exists] at h
    obtain ⟨_, r, hact, -⟩ := h
    exact Call.finds hact
  | withdrawYt =>
    simp only [step, bind_eq_ok] at h
    obtain ⟨w, hw, -⟩ := h
    have hfinds := finds_instruct hw
    exact hfinds
  | flashSwap x =>
    simp only [step, bind_eq_ok, Prod.exists] at h
    obtain ⟨_, r, log, hrun, -⟩ := h
    exact FlashSwap.finds_of_run hrun
  | wrapper w =>
    simp only [step, bind_eq_ok, Prod.exists] at h
    obtain ⟨_, u, log, hrun, -⟩ := h
    exact ExponentCore.finds_of_run w.synced FlashSwap.finds_of_act w.finds_calls hrun
  | vault op =>
    simp only [step, bind_eq_ok] at h
    obtain ⟨w, hw, -⟩ := h
    exact finds_instruct hw
  | lp => exact finds_nil

/-! ## Pausing -/

omit [Num N] in
/-- A switch that is off stays off while the settings are kept. -/
theorem Switch.off_of_kept {b b' : Bank N} {s : Switch} (hkept : b.settings.Kept b'.settings)
    (hoff : s.isOn b.vault b.market = false) : s.isOn b'.vault b'.market = false := by
  have hclear {x y f : UInt8} (hxy : y &&& x = y) (hx : decide (x &&& f = f) = false) :
      decide (y &&& f = f) = false := by
    refine decide_eq_false fun hy => of_decide_eq_false hx ?_
    calc x &&& f = x &&& (y &&& f) := by rw [hy]
      _ = (y &&& x) &&& f := by rw [← UInt8.and_assoc, UInt8.and_comm x y]
      _ = f := by rw [hxy, hy]
  cases s with
  | strip | merge | depositYt | withdrawYt | collectInterest | collectEmissions =>
    exact hclear hkept.vault.status hoff
  | depositLiquidity | withdrawLiquidity | buyPt | sellPt | buyYt | sellYt =>
    exact hclear hkept.market.statusFlags hoff

namespace Deployment

/-- **What is switched off stops**: from a state in which all of some switches are off, in every run
in which no cold administrator signs, no instruction succeeds that needs one of them, itself or
through the instructions that it calls. -/
theorem paused_throughout (price : F64 → N) (d : Deployment N) (txs : List Transaction)
    (choice : List Switch) (hoff : ∀ s ∈ choice, s.isOn d.bank.vault d.bank.market = false)
    (hcold : Machine.Admits (step price) WithoutCold d txs) :
    Machine.Admits (step price)
      (Machine.Accepted (step price) fun _ tx _ => choice ∉ tx.needs) d txs := by
  have hkept := hcold.with_invariant (I := fun d' => d.bank.settings.Kept d'.bank.settings)
    (fun _ _ _ hz hp hs => IsTrans.trans _ _ _ hz (kept_of_step hp hs)) (refl _)
  refine hkept.mono fun z tx hz z' hs hneeds => ?_
  cases tx with
  | bank signer op =>
    simp only [step, setting_bind_eq_ok, asked_eq_ok, handled_eq_ok] at hs
    obtain ⟨_, -, b, hb, -⟩ := hs
    obtain ⟨s, hs, hon⟩ := Bank.finds_of_step hb choice hneeds
    rw [Switch.off_of_kept hz.1 (hoff s hs)] at hon
    cases hon
  | admin | modifyVaultSetting | modifyMarketSetting => cases hneeds

end Deployment

end

/-- Once the flags of the market are cleared, no liquidity is provided to it. -/
theorem paused_throughout_pausing :
    ∃ b, sampleBank = .ok b ∧ ∃ b', b' = b.setMarket { b.market with statusFlags := 0 } ∧
      Machine.Admits (Deployment.step fun _ => Exact.num 0)
        (Machine.Accepted (Deployment.step fun _ => Exact.num 0) fun _ tx _ =>
          [Switch.depositLiquidity] ∉ tx.needs) ⟨pausingAdmins, b'⟩ pausing := by
  obtain ⟨b, hb, -⟩ := sampleWrapper_run
  refine ⟨b, hb, b.setMarket { b.market with statusFlags := 0 }, rfl, ?_⟩
  apply Deployment.paused_throughout _ ⟨pausingAdmins, _⟩ pausing _ ?_ (pausing_withoutCold _)
  intro s hs
  obtain rfl := List.mem_singleton.1 hs
  exact decide_eq_false (by decide : ¬ (0 : UInt8) &&& statusCanDepositLiquidity
    = statusCanDepositLiquidity)

end ExponentCore
