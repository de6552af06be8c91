import ExponentCore.Market.Proof.Bank
import ExponentCore.Market.Wrappers

/-!
# No update is lost across self-calls

No handler uses a stale copy or leaves one behind (`FlashSwap.synced`, `Wrapper.synced`), so what it
leaves is its calls and its edits applied in order. An automaton that knows the flag follows every
handler (`FlashSwap.flagged`, `Wrapper.flagged`), which gives the calls that are made with the flag
set (`no_lost_update`). They are not all trades (`flag_not_only_trades`), but only trades read it
(`Call.act_setFlag`).
-/

set_option autoImplicit false

namespace ExponentCore

open Cached Handler

variable {N : Type} [Num N]

/-! ## Copies -/

section
variable {β : Type} {nested : β → Bank N → Outcome (Bank N × UInt64)}
  {y : Sync (bankProgram β nested)} {a : AccountName} {v : Bool} {c : Call} {x : FlashSwap}

@[simp] theorem sync_doCpi {Q : c.Ret → Sync (bankProgram β nested) → Prop} :
    wp (α := no_index c.Ret) Sync.step y (doCpi c) Q ↔ (∀ a ∈ y.pending, c.uses a = false) ∧
      ∀ r, Q r { y with stale := fun a => y.stale a || c.uses a } :=
  Sync.wp_call (P := bankProgram β nested)

@[simp] theorem sync_doCpiFlashSwap {y : Sync (wrapperProgram N)}
    {Q : UInt64 → Sync (wrapperProgram N) → Prop} :
    wp Sync.step y (doCpiFlashSwap x) Q ↔
      y.pending = none ∧ ∀ r, Q r { y with stale := fun _ => true } := by
  refine (Sync.wp_call (P := wrapperProgram N)).trans ?_
  cases h : y.pending <;> simp

@[simp] theorem sync_loadMarket {Q : MarketTwo N → Sync (bankProgram β nested) → Prop} :
    wp Sync.step y loadMarket Q ↔ y.stale AccountName.market = false ∧ ∀ m, Q m y :=
  Sync.wp_read (P := bankProgram β nested)

@[simp] theorem sync_loadMintLp {Q : UInt64 → Sync (bankProgram β nested) → Prop} :
    wp Sync.step y loadMintLp Q ↔ y.stale AccountName.mintLp = false ∧ ∀ m, Q m y :=
  Sync.wp_read (P := bankProgram β nested)

@[simp] theorem sync_loadTokenLp {Q : (Nat → UInt64) → Sync (bankProgram β nested) → Prop} :
    wp Sync.step y loadTokenLp Q ↔ y.stale AccountName.tokenLp = false ∧ ∀ m, Q m y :=
  Sync.wp_read (P := bankProgram β nested)

@[simp] theorem sync_setFlash {Q : Unit → Sync (bankProgram β nested) → Prop} :
    wp Sync.step y (setFlash v) Q ↔
      (y.stale AccountName.market = false ∧ ∀ a ∈ y.pending, a = AccountName.market) ∧
        Q () { y with pending := some AccountName.market } :=
  Sync.wp_edit (P := bankProgram β nested)

@[simp] theorem sync_reload {Q : Unit → Sync (bankProgram β nested) → Prop} :
    wp Sync.step y (reloadAccount a) Q ↔
      a ∉ y.pending ∧ Q () { y with stale := Function.update y.stale a false } :=
  Sync.wp_reload (P := bankProgram β nested)

@[simp] theorem sync_exit {Q : Unit → Sync (bankProgram β nested) → Prop} :
    wp Sync.step y (exitAccount a) Q ↔ y.stale a = false ∧
      Q () { y with pending := if a ∈ y.pending then none else y.pending } :=
  Sync.wp_exit (P := bankProgram β nested)

end

attribute [simp] wp_bind wp_liftM Sync.init Sync.settled_iff Call.uses AccountName.owned

theorem FlashSwap.synced (x : FlashSwap) :
    (x.handler (N := N)).Synced [AccountName.market] := by
  unfold Handler.Synced
  cases x with
  | buyYt i syIn ytOut => simp [handler, ExponentCore.buyYt, Function.update]
  | sellYt i ytIn minSyOut => simp [handler, ExponentCore.sellYt, Function.update]

theorem Wrapper.synced (w : Wrapper) : (w.handler (N := N)).Synced w.loaded := by
  unfold Handler.Synced loaded
  cases w with
  | strip => simp [handler, wrapperStrip, Function.update]
  | merge => simp [handler, wrapperMerge, Function.update]
  | collectInterest => simp [handler, wrapperCollectInterest, Function.update]
  | buyPt => simp [handler, wrapperBuyPt, Function.update]
  | sellPt => simp [handler, wrapperSellPt, Function.update]
  | buyYt => simp [handler, wrapperBuyYt, Function.update]
  | sellYt => simp [handler, wrapperSellYt, Function.update]
  | provideLiquidity => simp [handler, wrapperProvideLiquidity, Function.update]
  | provideLiquidityBase => simp [handler, wrapperProvideLiquidityBase, Function.update]
  | provideLiquidityClassic => simp [handler, wrapperProvideLiquidityClassic, Function.update]
  | withdrawLiquidity => simp [handler, wrapperWithdrawLiquidity, Function.update]
  | withdrawLiquidityClassic => simp [handler, wrapperWithdrawLiquidityClassic, Function.update]

/-! ## The flag -/

section
variable {β S : Type} {nested : β → Bank N → Outcome (Bank N × UInt64)} {q : S} {v : Bool}
  {δ : S → Event (bankProgram β nested) → Option S} {a : AccountName} {c : Call} {x : FlashSwap}

@[simp] theorem events_doCpi {Q : c.Ret → S → Prop} :
    wp (α := no_index c.Ret) (onEvents δ) q (doCpi c) Q ↔
      ∃ q', δ q (.called (.inl c)) = some q' ∧ ∀ r, Q r q' :=
  wp_onEvents_call (P := bankProgram β nested)

@[simp] theorem events_doCpiFlashSwap {δ : S → Event (wrapperProgram N) → Option S}
    {Q : UInt64 → S → Prop} :
    wp (onEvents δ) q (doCpiFlashSwap x) Q ↔
      ∃ q', δ q (.called (.inr x)) = some q' ∧ ∀ r, Q r q' :=
  wp_onEvents_call (P := wrapperProgram N)

@[simp] theorem events_setFlash {Q : Unit → S → Prop} :
    wp (onEvents δ) q (setFlash v) Q ↔
      ∃ q', δ q (.edited (.setIsCurrentFlashSwap v)) = some q' ∧ Q () q' :=
  wp_onEvents_edit (P := bankProgram β nested)

@[simp] theorem events_loadMarket {Q : MarketTwo N → S → Prop} :
    wp (onEvents δ) q loadMarket Q ↔ ∀ m, Q m q :=
  wp_onEvents_read (P := bankProgram β nested)

@[simp] theorem events_loadMintLp {Q : UInt64 → S → Prop} :
    wp (onEvents δ) q loadMintLp Q ↔ ∀ m, Q m q :=
  wp_onEvents_read (P := bankProgram β nested)

@[simp] theorem events_loadTokenLp {Q : (Nat → UInt64) → S → Prop} :
    wp (onEvents δ) q loadTokenLp Q ↔ ∀ m, Q m q :=
  wp_onEvents_read (P := bankProgram β nested)

@[simp] theorem events_reload {Q : Unit → S → Prop} :
    wp (onEvents δ) q (reloadAccount a) Q ↔ Q () q :=
  wp_onEvents_reload (P := bankProgram β nested)

@[simp] theorem events_exit {Q : Unit → S → Prop} :
    wp (onEvents δ) q (exitAccount a) Q ↔ Q () q :=
  wp_onEvents_exit (P := bankProgram β nested)

end

/-- An automaton that knows the flag: calls `c` are made with the flag `during c`. -/
def flashStep {β : Type} {nested : β → Bank N → Outcome (Bank N × UInt64)}
    (during : Call ⊕ β → Bool) : Bool → Event (bankProgram β nested) → Option Bool
  | q, .called c => if during c = q then some q else none
  | _, .edited (.setIsCurrentFlashSwap value) => some value

/-- The calls that a flash swap makes with the flag set. -/
def FlashSwap.duringFlash : Call ⊕ Empty → Bool
  | .inl (.tradePt ..) => true
  | _ => false

/-- The calls that a wrapper makes with the flag set. -/
def Wrapper.duringFlash : Wrapper → Call ⊕ FlashSwap → Bool
  | .provideLiquidityBase .., .inl (.tradePt ..) => true
  | .provideLiquidityBase .., .inl (.depositLiquidity ..) => true
  | .provideLiquidityBase .., .inl (.depositLp ..) => true
  | _, _ => false

theorem FlashSwap.flagged (x : FlashSwap) :
    wp (onEvents (flashStep duringFlash)) false (x.handler (N := N)) fun _ q => q = false := by
  cases x with
  | buyYt => simp [handler, ExponentCore.buyYt, flashStep, duringFlash]
  | sellYt => simp [handler, ExponentCore.sellYt, flashStep, duringFlash]

theorem Wrapper.flagged (w : Wrapper) :
    wp (onEvents (flashStep w.duringFlash)) false (w.handler (N := N)) fun _ q => q = false := by
  cases w with
  | strip => simp [handler, wrapperStrip, flashStep, duringFlash]
  | merge => simp [handler, wrapperMerge, flashStep, duringFlash]
  | collectInterest => simp [handler, wrapperCollectInterest, flashStep, duringFlash]
  | buyPt => simp [handler, wrapperBuyPt, flashStep, duringFlash]
  | sellPt => simp [handler, wrapperSellPt, flashStep, duringFlash]
  | buyYt => simp [handler, wrapperBuyYt, flashStep, duringFlash]
  | sellYt => simp [handler, wrapperSellYt, flashStep, duringFlash]
  | provideLiquidity => simp [handler, wrapperProvideLiquidity, flashStep, duringFlash]
  | provideLiquidityBase => simp [handler, wrapperProvideLiquidityBase, flashStep, duringFlash]
  | provideLiquidityClassic =>
    simp [handler, wrapperProvideLiquidityClassic, flashStep, duringFlash]
  | withdrawLiquidity => simp [handler, wrapperWithdrawLiquidity, flashStep, duringFlash]
  | withdrawLiquidityClassic =>
    simp [handler, wrapperWithdrawLiquidityClassic, flashStep, duringFlash]

/-- Every call of one of the program's own instructions, which use an account, meets the flag that
`during` gives for it, in the bank that the events before it lead to. Those of the token and of the
SY program use none, and may run while an edit waits to be stored. -/
def CalledWith {β : Type} {nested : β → Bank N → Outcome (Bank N × UInt64)}
    (during : Call ⊕ β → Bool) (log : List (Event (bankProgram β nested))) (b : Bank N) : Prop :=
  ∀ i c, log[i]? = some (.called c) → (∃ a, (bankProgram β nested).uses c a = true) →
    ∃ b₁, replay (log.take i) b = .ok b₁ ∧ b₁.market.isCurrentFlashSwap = during c

section
variable {β α : Type} {nested : β → Bank N → Outcome (Bank N × UInt64)}
  {during : Call ⊕ β → Bool} {q q' : Bool} {b b' : Bank N} {r : UInt64} {a : α}
  {e : Event (bankProgram β nested)} {h : Handler (bankProgram β nested) α}
  {loaded : List AccountName} {log : List (Event (bankProgram β nested))}

/-- A nested handler is called without the flag and leaves none. -/
def LeavesNoFlag (nested : β → Bank N → Outcome (Bank N × UInt64)) : Prop :=
  ∀ x b b' r, nested x b = .ok (b', r) → b.market.isCurrentFlashSwap = false →
    b'.market.isCurrentFlashSwap = false

/-- The automaton knows the flag. -/
theorem flag_of_flashStep (hnested : LeavesNoFlag nested) (hduring : ∀ x, during (.inr x) = false)
    (hδ : flashStep during q e = some q') (hq : b.market.isCurrentFlashSwap = q)
    (he : e.apply b = .ok b') : b'.market.isCurrentFlashSwap = q' := by
  cases e with
  | called c =>
    simp only [flashStep, Option.ite_none_right_eq_some, Option.some.injEq] at hδ
    obtain ⟨hc, rfl⟩ := hδ
    simp only [Event.apply] at he
    split at he
    · rename_i s r hact
      obtain rfl := Except.ok.inj he
      cases c with
      | inl c => exact (Call.isCurrentFlashSwap_act hact).trans hq
      | inr x =>
        rw [hduring] at hc
        subst hc
        exact hnested x b _ r hact hq
    · cases he
  | edited e =>
    cases e with
    | setIsCurrentFlashSwap value =>
      obtain rfl := Option.some.inj hδ
      obtain rfl := Except.ok.inj he
      rfl

theorem calledWith_of_run (hsync : h.Synced loaded)
    (hflag : wp (onEvents (flashStep during)) false h fun _ q => q = false)
    (hnested : LeavesNoFlag nested) (hduring : ∀ x, during (.inr x) = false)
    (hb : b.market.isCurrentFlashSwap = false) (hrun : h.run loaded b = .ok (b', a, log)) :
    CalledWith during log b ∧ b'.market.isCurrentFlashSwap = false := by
  obtain ⟨q, hfollow, rfl⟩ := follow_of_run hsync hflag hrun
  obtain ⟨hlast, hmid⟩ := replay_follow (R := fun q b => b.market.isCurrentFlashSwap = q)
    (fun _ _ _ _ _ => flag_of_flashStep hnested hduring) hb hfollow (replay_of_run hsync hrun)
  refine ⟨fun i c hc _ => ?_, hlast⟩
  obtain ⟨q₁, q₂, b₁, hδ, hreplay, hq₁⟩ := hmid i _ hc
  simp only [flashStep, Option.ite_none_right_eq_some] at hδ
  exact ⟨b₁, hreplay, hq₁.trans hδ.1.symm⟩

end

namespace FlashSwap

variable {x : FlashSwap} {b b' : Bank N} {r : UInt64} {log : List (Event (coreProgram N))}

theorem calledWith (hb : b.market.isCurrentFlashSwap = false) (h : x.run b = .ok (b', r, log)) :
    CalledWith duringFlash log b ∧ b'.market.isCurrentFlashSwap = false :=
  calledWith_of_run x.synced x.flagged (fun y => y.elim) (fun y => y.elim) hb h

theorem leavesNoFlag : LeavesNoFlag (N := N) act := by
  intro x b b' r h hb
  simp only [act, bind_eq_ok, Except.ok.injEq, Prod.exists, Prod.mk.injEq] at h
  obtain ⟨_, _, log, hrun, rfl, rfl⟩ := h
  exact (calledWith hb hrun).2

end FlashSwap

namespace Wrapper

variable {w : Wrapper} {b b' : Bank N} {u : Unit} {log : List (Event (wrapperProgram N))}

theorem calledWith (hb : b.market.isCurrentFlashSwap = false) (h : w.run b = .ok (b', u, log)) :
    CalledWith w.duringFlash log b ∧ b'.market.isCurrentFlashSwap = false := by
  refine calledWith_of_run w.synced w.flagged FlashSwap.leavesNoFlag (fun y => ?_) hb h
  cases w <;> rfl

end Wrapper

namespace Bank

variable {b b' : Bank N} {op : BankOp}

theorem isCurrentFlashSwap_step (hb : b.market.isCurrentFlashSwap = false)
    (h : b.step op = .ok b') : b'.market.isCurrentFlashSwap = false := by
  cases op with
  | call c hc =>
    simp only [step, bind_eq_ok, Except.ok.injEq, Prod.exists] at h
    obtain ⟨_, r, hact, rfl⟩ := h
    exact (Call.isCurrentFlashSwap_act hact).trans hb
  | withdrawYt user position now syState amount =>
    simp only [step, bind_eq_ok] at h
    obtain ⟨w, -, hcredit⟩ := h
    exact (creditYt_same hcredit).trading.isCurrentFlashSwap.trans hb
  | flashSwap x =>
    simp only [step, bind_eq_ok, Except.ok.injEq, Prod.exists] at h
    obtain ⟨_, r, log, hrun, rfl⟩ := h
    exact (FlashSwap.calledWith hb hrun).2
  | wrapper w =>
    simp only [step, bind_eq_ok, Except.ok.injEq, Prod.exists] at h
    obtain ⟨_, u, log, hrun, rfl⟩ := h
    exact (Wrapper.calledWith hb hrun).2
  | vault op hop =>
    simp only [step, bind_eq_ok, Except.ok.injEq] at h
    obtain ⟨w, -, rfl⟩ := h
    exact hb
  | lp op hop =>
    simp only [step, bind_eq_ok, Except.ok.injEq] at h
    obtain ⟨w, hw, rfl⟩ := h
    exact (LpWorld.step_sameTrading hw).isCurrentFlashSwap.trans hb

end Bank

/-! ## Who reads the flag -/

namespace Call

/-- The instruction reads the flag. -/
def isTrade : Call → Bool
  | tradePt .. => true
  | _ => false

end Call

namespace Bank

def setFlag (b : Bank N) (value : Bool) : Bank N :=
  b.setMarket { b.market with isCurrentFlashSwap := value }

section
variable (b : Bank N) (value : Bool) (user position : Nat) (now amount : UInt64)

omit [Num N] in
theorem updateAndStage_flag (m : MarketTwo N) (p : LpPosition) (now : UInt32) (cs : List UInt64) :
    updateAndStage { m with isCurrentFlashSwap := value } p now cs =
      updateAndStage m p now cs >>= fun q =>
        .ok ({ q.1 with isCurrentFlashSwap := value }, q.2) := by
  simp only [updateAndStage, MarketTwo.updateEmissionsFromPositionState, MarketTwo.emissionIndexes,
    bind_assoc, ok_bind]

omit [Num N] in
theorem depositLp_setFlag :
    (b.setFlag value).depositLp user position now amount =
      b.depositLp user position now amount >>= fun b => .ok (b.setFlag value) := by
  simp only [depositLp, setFlag, setMarket, market, LpWorld.step, LpWorld.withPosition,
    ExponentCore.depositLp, updateAndStage_flag, debitLp, bind_assoc, ok_bind]

omit [Num N] in
theorem withdrawLp_setFlag :
    (b.setFlag value).withdrawLp user position now amount =
      b.withdrawLp user position now amount >>= fun b => .ok (b.setFlag value) := by
  simp only [withdrawLp, setFlag, setMarket, market, LpWorld.step, LpWorld.withPosition,
    ExponentCore.withdrawLp, updateAndStage_flag, creditLp, bind_assoc, ok_bind]

variable (ptIntent syIntent minLpOut minPtOut minSyOut : UInt64)

theorem depositLiquidity_setFlag :
    (b.setFlag value).depositLiquidity user now ptIntent syIntent minLpOut =
      b.depositLiquidity user now ptIntent syIntent minLpOut >>= fun p =>
        .ok (p.1.setFlag value, p.2) := by
  simp only [depositLiquidity, setFlag, setMarket, market, receivePt, receiveSy, depositSy, debitPt,
    debitSy, creditLp, bind_assoc, ok_bind]
  rfl

theorem withdrawLiquidity_setFlag :
    (b.setFlag value).withdrawLiquidity user now amount minPtOut minSyOut =
      b.withdrawLiquidity user now amount minPtOut minSyOut >>= fun p =>
        .ok (p.1.setFlag value, p.2) := by
  simp only [withdrawLiquidity, setFlag, setMarket, market, withdrawSy, sendPt, sendSy, debitLp,
    creditPt, creditSy, bind_assoc, ok_bind]
  rfl

end

end Bank

/-- An instruction that is not a trade does the same whatever the flag. -/
theorem Call.act_setFlag (c : Call) (b : Bank N) (value : Bool) (hc : c.isTrade = false) :
    c.act (b.setFlag value) = c.act b >>= fun p => .ok (p.1.setFlag value, p.2) := by
  by_cases hu : c.uses .market = false
  · refine (act_set c .market _ b hu).trans ?_
    cases h : c.act b with
    | error e => rfl
    | ok p =>
      have hmarket : p.1.market = b.market :=
        Program.get_act (bankProgram (N := N) Empty fun x => x.elim) (c := .inl c)
          (a := AccountName.market) hu h
      simp only [ok_bind, AccountName.set, Bank.setFlag, hmarket]
  · cases c with
    | tradePt => cases hc
    | depositLp => exact noData_bind (Bank.depositLp_setFlag ..)
    | withdrawLp => exact noData_bind (Bank.withdrawLp_setFlag ..)
    | depositLiquidity => exact Bank.depositLiquidity_setFlag ..
    | withdrawLiquidity => exact Bank.withdrawLiquidity_setFlag ..
    | _ => exact absurd rfl hu

/-! ## Whole instructions and whole runs -/

section
variable {b : Bank N} {vaultWorld : VaultWorld} {users : UserTokens} {treasury : UInt64}
  {tokenFarm : Pubkey → UInt64} {payer : Nat} {now : UInt64} {args : MarketTwoInitArgs N}

theorem Bank.isCurrentFlashSwap_marketTwoInit
    (h : marketTwoInit vaultWorld users treasury tokenFarm payer now args = .ok b) :
    b.market.isCurrentFlashSwap = false := by
  simp only [marketTwoInit, MarketTwo.new, bind_eq_ok, Except.ok.injEq] at h
  obtain ⟨_, -, m, ⟨_, -, _, -, _, -, _, -, _, -, rfl⟩, b₁, h₁, b₂, h₂, lp, -, b₃, h₃, h₄⟩ := h
  have hmint : Same b₂ { b₂ with mintLp := lp } := same_of_eq rfl rfl rfl
  have hmoves := ((receivePt_moves h₁).same (receiveSy_same h₂)).same hmint
  exact ((hmoves.same (creditLp_same h₃)).trans (depositSy_moves h₄)).trading.isCurrentFlashSwap

end

/-- **No update is lost across self-calls.** What a flash swap or a wrapper leaves is its calls and
its edits of the flag applied in order. Started without the flag, it ends without it, and has it set
for the calls of `duringFlash` and for no others of the program's own instructions; of these, those
that are not trades do not read it. No run from a new market ever shows the flag. -/
theorem no_lost_update :
    (∀ (x : FlashSwap) (b b' : Bank N) (r : UInt64) (log : List (Event (coreProgram N))),
      x.run b = .ok (b', r, log) → replay log b = .ok b' ∧
        (b.market.isCurrentFlashSwap = false →
          CalledWith FlashSwap.duringFlash log b ∧ b'.market.isCurrentFlashSwap = false)) ∧
    (∀ (w : Wrapper) (b b' : Bank N) (u : Unit) (log : List (Event (wrapperProgram N))),
      w.run b = .ok (b', u, log) → replay log b = .ok b' ∧
        (b.market.isCurrentFlashSwap = false →
          CalledWith w.duringFlash log b ∧ b'.market.isCurrentFlashSwap = false)) ∧
    (∀ (c : Call) (b : Bank N) (value : Bool), c.isTrade = false →
      c.act (b.setFlag value) = c.act b >>= fun p => .ok (p.1.setFlag value, p.2)) ∧
    ∀ (vaultWorld : VaultWorld) (users : UserTokens) (treasury : UInt64)
      (tokenFarm : Pubkey → UInt64) (payer : Nat) (now : UInt64) (args : MarketTwoInitArgs N)
      (b : Bank N) (ops : List BankOp),
      Bank.marketTwoInit vaultWorld users treasury tokenFarm payer now args = .ok b →
      Machine.Throughout Bank.step (fun b => b.market.isCurrentFlashSwap = false) b ops := by
  refine ⟨?_, ?_, Call.act_setFlag, ?_⟩
  · intro x b b' r log h
    exact ⟨replay_of_run x.synced h, fun hb => FlashSwap.calledWith hb h⟩
  · intro w b b' u log h
    exact ⟨replay_of_run w.synced h, fun hb => Wrapper.calledWith hb h⟩
  · intro vaultWorld users treasury tokenFarm payer now args b ops h
    exact Machine.throughout_of_step (fun _ _ _ hb _ hs => Bank.isCurrentFlashSwap_step hb hs)
      (Bank.isCurrentFlashSwap_marketTwoInit h) Machine.admits_true

/-! ## A run -/

/-- The vault of `sampleBank`. -/
def sampleVault : VaultWorld :=
  VaultWorld.initializeVault
    { startTimestamp := 0, duration := 31536000, interestBpsFee := 0
      cpiAccounts := { claimEmission := [] }, minOpSizeStrip := 1, minOpSizeMerge := 1
      vault := 0, authority := 0 }

def sampleUsers : UserTokens where
  sy _ := 10000000
  pt _ := 10000000
  yt _ := 0
  lp _ := 0

/-- A new market with a year to go and a fee of one percent. -/
def sampleArgs : MarketTwoInitArgs (Exact ℚ) where
  lnFeeRateRoot := .num (1 / 101)
  rateScalarRoot := .num 10
  initRateAnchor := .num 2
  syExchangeRate := 1
  ptInit := 1000000
  syInit := 800000
  feeTreasurySyBps := 2000
  cpiAccounts := { claimEmission := [] }
  seedId := 1

/-- The new market, where one user has opened a position. -/
def sampleBank : Outcome (Bank (Exact ℚ)) := do
  let b ← Bank.marketTwoInit sampleVault sampleUsers 0 (fun _ => 0) 0 0 sampleArgs
  b.step (.lp (.initLpPosition 0) rfl)

def sampleInvocation : Invocation where
  user := 0
  yieldPosition := 0
  lpPosition := 0
  now := 0
  syExchangeRate := 1
  nestedSyExchangeRate := 1
  vaultSyState := ⟨1, []⟩
  depositSyState := ⟨1, []⟩
  tradeSyExchangeRate := 1
  syOutAmount := 30000

/-- Buys 10000 PT and provides them with SY. -/
def sampleWrapper : Wrapper := .provideLiquidityBase sampleInvocation 0 10000 20000

/-- The call at a place of a log. -/
def callAt (log : List (Event (wrapperProgram (Exact ℚ)))) (i : Nat) : Option Call :=
  match log[i]? with
  | some (.called (.inl c)) => some c
  | _ => none

theorem callAt_eq_some {log : List (Event (wrapperProgram (Exact ℚ)))} {i : Nat} {c : Call}
    (h : callAt log i = some c) : log[i]? = some (.called (.inl c)) := by
  unfold callAt at h
  split at h
  · rename_i hlog
    obtain rfl := Option.some.inj h
    exact hlog
  · cases h

/-- The deposit of liquidity comes fourth, after the mint of SY, the edit and the trade. -/
theorem sampleWrapper_run :
    ∃ b, sampleBank = .ok b ∧ b.market.isCurrentFlashSwap = false ∧
      ∃ p, sampleWrapper.run b = .ok p ∧ ∃ c ∈ callAt p.2.2 3, c.uses .market = true ∧
        c.isTrade = false ∧ sampleWrapper.duringFlash (.inl c) = true := by
  decide +kernel

/-- Buys 20000 YT for 12000 SY. -/
def sampleSwap : FlashSwap := .buyYt sampleInvocation 12000 20000

theorem sampleSwap_run :
    ∃ b, Bank.marketTwoInit sampleVault sampleUsers 0 (fun _ => 0) 0 0 sampleArgs = .ok b ∧
      ∃ p, sampleSwap.run b = .ok p ∧ True := by
  decide +kernel

theorem no_lost_update_sample :
    (∃ b p, sampleBank = .ok b ∧ sampleWrapper.run b = .ok p ∧ replay p.2.2 b = .ok p.1 ∧
      CalledWith sampleWrapper.duringFlash p.2.2 b ∧ p.1.market.isCurrentFlashSwap = false) ∧
    ∃ (b : Bank (Exact ℚ)) (p : _), sampleSwap.run b = .ok p ∧ replay p.2.2 b = .ok p.1 ∧
      CalledWith FlashSwap.duringFlash p.2.2 b ∧
      Call.act (.mintSy 0 1 1) (b.setFlag true)
        = Call.act (.mintSy 0 1 1) b >>= (fun q => .ok (q.1.setFlag true, q.2)) ∧
      Machine.Throughout Bank.step (fun b => b.market.isCurrentFlashSwap = false) b
        [.flashSwap sampleSwap] := by
  obtain ⟨hswap, hwrapper, hread, hruns⟩ := no_lost_update (N := Exact ℚ)
  constructor
  · obtain ⟨b, hbank, hb, ⟨b', u, log⟩, hrun, -⟩ := sampleWrapper_run
    obtain ⟨hreplay, hflag⟩ := hwrapper sampleWrapper b b' u log hrun
    exact ⟨b, _, hbank, hrun, hreplay, hflag hb⟩
  · obtain ⟨b, hbank, ⟨b', r, log⟩, hrun, -⟩ := sampleSwap_run
    obtain ⟨hreplay, hflag⟩ := hswap sampleSwap b b' r log hrun
    have hthroughout := hruns sampleVault sampleUsers 0 (fun _ => 0) 0 0 sampleArgs b
      [.flashSwap sampleSwap] hbank
    exact ⟨b, _, hrun, hreplay, (hflag hthroughout.first).1, hread _ b true rfl, hthroughout⟩

/-- The flag is not set for trades only. -/
theorem flag_not_only_trades :
    ¬ ∀ (w : Wrapper) (b b' : Bank (Exact ℚ)) (u : Unit)
      (log : List (Event (wrapperProgram (Exact ℚ)))),
      b.market.isCurrentFlashSwap = false → w.run b = .ok (b', u, log) →
      ∀ i c b₁, log[i]? = some (.called (.inl c)) → (∃ a, c.uses a = true) →
        replay (log.take i) b = .ok b₁ → b₁.market.isCurrentFlashSwap = true →
        c.isTrade = true := by
  intro hclaim
  obtain ⟨b, -, hb, ⟨b', u, log⟩, hrun, c, hc, huses, htrade, hduring⟩ := sampleWrapper_run
  have hlog := callAt_eq_some hc
  obtain ⟨b₁, hreplay, hflag⟩ := (Wrapper.calledWith hb hrun).1 3 _ hlog ⟨.market, huses⟩
  have hcontra := hclaim sampleWrapper b b' u log hb hrun 3 c b₁ hlog ⟨.market, huses⟩ hreplay
    (hflag.trans hduring)
  rw [htrade] at hcontra
  cases hcontra

end ExponentCore
