import ExponentCore.Market.AccountData
import ExponentCore.Market.Proof.Wrappers

/-!
# A transaction is a list of instructions

Transactions on a bank, flash swaps and wrappers too, are made of the instructions that the accounts
know: `Bank.instructions_of_step` finds the list that has the same effect on the vault and the
market.
-/

set_option autoImplicit false

namespace ExponentCore

open Cached Machine

/-! ## Instructions that call instructions -/

/-- The instruction of the program that an operation on a bank is by itself. -/
def BankOp.direct : BankOp → Option Instruction
  | .vault op _ => some (.vault op)
  | .lp op _ => some (.lp op)
  | .call .. | .withdrawYt .. | .flashSwap _ | .wrapper _ => none

namespace Bank

section
variable {N : Type} {b b' b'' : Bank N} {user : Nat} {amount fee : UInt64} {isBuyPt : Bool}

theorem programState_users {x : Outcome (Nat → UInt64)} {f : (Nat → UInt64) → UserTokens}
    (h : (do let accounts ← x; .ok { b with users := f accounts }) = .ok b') :
    b'.programState = b.programState := by
  simp only [bind_eq_ok, Except.ok.injEq] at h
  obtain ⟨accounts, -, rfl⟩ := h
  rfl

theorem programState_debitSy (h : b.debitSy user amount = .ok b') :
    b'.programState = b.programState := programState_users h

theorem programState_creditSy (h : b.creditSy user amount = .ok b') :
    b'.programState = b.programState := programState_users h

theorem programState_debitPt (h : b.debitPt user amount = .ok b') :
    b'.programState = b.programState := programState_users h

theorem programState_creditPt (h : b.creditPt user amount = .ok b') :
    b'.programState = b.programState := programState_users h

theorem programState_debitYt (h : b.debitYt user amount = .ok b') :
    b'.programState = b.programState := programState_users h

theorem programState_creditYt (h : b.creditYt user amount = .ok b') :
    b'.programState = b.programState := programState_users h

theorem programState_debitLp (h : b.debitLp user amount = .ok b') :
    b'.programState = b.programState := programState_users h

theorem programState_creditLp (h : b.creditLp user amount = .ok b') :
    b'.programState = b.programState := programState_users h

theorem programState_receivePt (h : b.receivePt user amount = .ok b') :
    b'.programState = b.programState := by
  simp only [receivePt, bind_eq_ok, Except.ok.injEq] at h
  obtain ⟨b₁, hdebit, pt, -, rfl⟩ := h
  have hkept := programState_debitPt hdebit
  exact hkept

theorem programState_sendPt (h : b.sendPt user amount = .ok b') :
    b'.programState = b.programState := by
  simp only [sendPt, bind_eq_ok] at h
  obtain ⟨pt, -, hcredit⟩ := h
  have hkept := programState_creditPt hcredit
  exact hkept

theorem programState_receiveSy (h : b.receiveSy user amount = .ok b') :
    b'.programState = b.programState := by
  simp only [receiveSy, bind_eq_ok, Except.ok.injEq] at h
  obtain ⟨b₁, hdebit, sy, -, rfl⟩ := h
  have hkept := programState_debitSy hdebit
  exact hkept

theorem programState_sendSy (h : b.sendSy user amount = .ok b') :
    b'.programState = b.programState := by
  simp only [sendSy, bind_eq_ok] at h
  obtain ⟨sy, -, hcredit⟩ := h
  have hkept := programState_creditSy hcredit
  exact hkept

theorem programState_depositSy (h : b.depositSy amount = .ok b') :
    b'.programState = b.programState := by
  simp only [depositSy, bind_eq_ok, Except.ok.injEq] at h
  obtain ⟨escrow, -, sy, -, rfl⟩ := h
  rfl

theorem programState_withdrawSy (h : b.withdrawSy amount = .ok b') :
    b'.programState = b.programState := by
  simp only [withdrawSy, bind_eq_ok, Except.ok.injEq] at h
  obtain ⟨sy, -, escrow, -, rfl⟩ := h
  rfl

theorem programState_burnYt {active : Bool} (h : b.burnYt user active amount = .ok b') :
    b'.programState = b.programState := by
  unfold burnYt at h
  split at h
  · exact programState_debitYt h
  · cases h
    rfl

theorem programState_transferPt (h : b.transferPt user isBuyPt amount = .ok b') :
    b'.programState = b.programState := by
  cases isBuyPt with
  | true => exact programState_sendPt h
  | false => exact programState_receivePt h

theorem programState_transferSy (h : b.transferSy user isBuyPt amount fee = .ok b') :
    b'.programState = b.programState := by
  cases isBuyPt with
  | true =>
    simp only [transferSy, if_true, bind_eq_ok, Except.ok.injEq] at h
    obtain ⟨a, -, b₁, h₁, b₂, h₂, b₃, h₃, t, -, rfl⟩ := h
    exact (programState_debitSy h₃).trans
      ((programState_depositSy h₂).trans (programState_receiveSy h₁))
  | false =>
    simp only [transferSy, Bool.false_eq_true, if_false, bind_eq_ok, Except.ok.injEq] at h
    obtain ⟨a, -, b₁, h₁, b₂, h₂, e, -, t, -, rfl⟩ := h
    exact (programState_sendSy h₂).trans (programState_withdrawSy h₁)

variable [Num N]

/-- Users' instructions lead from one bank to another, as far as the program's accounts go. -/
def Follows (b b' : Bank N) : Prop :=
  ∃ is : List Instruction, (∀ i ∈ is, i.isUser = true) ∧
    is.foldlM ProgramState.step b.programState = .ok b'.programState

theorem follows_of_eq (h : b'.programState = b.programState) : Follows b b' :=
  ⟨[], fun _ hi => absurd hi List.not_mem_nil, congrArg Except.ok h.symm⟩

theorem Follows.trans (h : Follows b b') (h' : Follows b' b'') : Follows b b'' := by
  obtain ⟨is, huser, hsteps⟩ := h
  obtain ⟨js, huser', hsteps'⟩ := h'
  refine ⟨is ++ js, fun i hi => ?_, ?_⟩
  · rcases List.mem_append.1 hi with hi | hi
    · exact huser i hi
    · exact huser' i hi
  · rw [List.foldlM_append, hsteps, ok_bind, hsteps']

theorem follows_of_step {i : Instruction} (hi : i.isUser = true)
    (h : b.programState.step i = .ok b'.programState) : Follows b b' := by
  refine ⟨[i], fun j hj => ?_, ?_⟩
  · obtain rfl := List.mem_singleton.1 hj
    exact hi
  · rw [List.foldlM_cons, h, ok_bind, List.foldlM_nil, pure_eq_ok]

/-- Tokens move, and nothing is returned. -/
theorem follows_noData {x : Outcome (Bank N)} {u : Unit}
    (hx : ∀ b', x = .ok b' → b'.programState = b.programState)
    (h : Call.noData x = .ok (b', u)) : Follows b b' := by
  simp only [Call.noData, bind_eq_ok, Except.ok.injEq, Prod.mk.injEq] at h
  obtain ⟨_, hb, rfl, -⟩ := h
  exact follows_of_eq (hx _ hb)

theorem follows_instruct {op : VaultOp} {w : VaultWorld} (hi : (Instruction.vault op).isUser = true)
    (h : b.vaultWorld.instructWithinLimits op = .ok w) : Follows b { b with vaultWorld := w } := by
  apply follows_of_step hi
  show (b.vaultWorld.instructWithinLimits op >>= _) = _
  rw [h]
  rfl

theorem follows_lp {op : LpOp} {w : LpWorld N} (hi : (Instruction.lp op).isUser = true)
    (h : b.lpWorld.step op = .ok w) : Follows b { b with lpWorld := w } := by
  apply follows_of_step hi
  show (b.lpWorld.step op >>= _) = _
  rw [h]
  rfl

theorem follows_tradePt {now : UInt64} {rate : Number} {n c : Int} {r : MarketTradeResult}
    (h : b.tradePt user now rate n c = .ok (b', r)) : Follows b b' := by
  simp only [tradePt, bind_eq_ok, Except.ok.injEq, Prod.exists, Prod.mk.injEq] at h
  obtain ⟨_, -, _, -, f, r', hf, _, -, _, -, b₁, h₁, b₂, h₂, rfl, -⟩ := h
  have hstep : Follows b (b.setFinancials f) := by
    apply follows_of_step (i := .tradePt now rate n) rfl
    show (b.market.financials.tradePt rate n now b.market.isCurrentFlashSwap
      b.market.feeTreasurySyBps >>= _) = _
    rw [hf]
    rfl
  refine hstep.trans (follows_of_eq ?_)
  exact (programState_transferSy h₂).trans (programState_transferPt h₁)

theorem follows_depositLiquidity {now ptIntent syIntent minLpOut : UInt64} {r : LiqAddResult}
    (h : b.depositLiquidity user now ptIntent syIntent minLpOut = .ok (b', r)) : Follows b b' := by
  simp only [depositLiquidity, bind_eq_ok, Except.ok.injEq, Prod.exists, Prod.mk.injEq] at h
  obtain ⟨_, -, _, -, f, r, hf, _, -, l, hl, b₁, h₁, b₂, h₂, b₃, h₃, lp, -, b₄, h₄, _, -, rfl, -⟩ :=
    h
  have hstep : Follows b
      (b.setMarket { b.market with financials := f, liquidityNetBalanceLimits := l }) := by
    apply follows_of_step (i := .depositLiquidity now ptIntent syIntent b.mintLp) rfl
    show (b.market.financials.addLiquidity syIntent ptIntent b.mintLp >>= _) = _
    rw [hf]
    show (b.market.liquidityNetBalanceLimits.verifyLimits _ _ _ >>= _) = _
    rw [hl]
    rfl
  refine hstep.trans (follows_of_eq ?_)
  exact (programState_depositSy h₄).trans ((programState_creditLp h₃).trans
    ((programState_receiveSy h₂).trans (programState_receivePt h₁)))

theorem follows_withdrawLiquidity {now lpIn minPtOut minSyOut : UInt64} {r : LiqRmResult}
    (h : b.withdrawLiquidity user now lpIn minPtOut minSyOut = .ok (b', r)) : Follows b b' := by
  simp only [withdrawLiquidity, bind_eq_ok, Except.ok.injEq, Prod.exists, Prod.mk.injEq] at h
  obtain ⟨_, -, c, hc, l, hl, f, r, hf, _, -, _, -, b₁, h₁, lp, -, b₂, h₂, b₃, h₃, b₄, h₄,
    rfl, -⟩ := h
  have hstep : Follows b
      (b.setMarket { b.market with financials := f, liquidityNetBalanceLimits := l }) := by
    apply follows_of_step (i := .withdrawLiquidity now lpIn b.mintLp) rfl
    show (inI64 (-asI64 lpIn) >>= _) = _
    rw [hc]
    show (b.market.liquidityNetBalanceLimits.verifyLimits _ _ _ >>= _) = _
    rw [hl]
    show (b.market.financials.rmLiquidity lpIn b.mintLp >>= _) = _
    rw [hf]
    rfl
  have hdebit := programState_debitLp h₁
  refine hstep.trans (follows_of_eq ?_)
  exact (programState_sendSy h₄).trans ((programState_sendPt h₃).trans
    ((programState_withdrawSy h₂).trans hdebit))

/-- **An instruction that another calls** is one of the program's, or moves tokens only. -/
theorem follows_call {c : Call} {r : c.Ret} (h : c.act b = .ok (b', r)) : Follows b b' := by
  cases c with
  | strip =>
    simp only [Call.act, strip, bind_eq_ok, Except.ok.injEq, Prod.exists, Prod.mk.injEq] at h
    obtain ⟨b₁, h₁, w, hw, _, _, _, -, b₂, h₂, b₃, h₃, rfl, -⟩ := h
    refine (follows_of_eq (programState_debitSy h₁)).trans ((follows_instruct rfl hw).trans ?_)
    exact follows_of_eq ((programState_creditYt h₃).trans (programState_creditPt h₂))
  | merge =>
    simp only [Call.act, merge, bind_eq_ok, Except.ok.injEq, Prod.exists, Prod.mk.injEq] at h
    obtain ⟨w, hw, _, _, _, -, active, -, b₁, h₁, b₂, h₂, b₃, h₃, rfl, -⟩ := h
    refine (follows_instruct rfl hw).trans (follows_of_eq ?_)
    exact (programState_creditSy h₃).trans
      ((programState_burnYt h₂).trans (programState_debitPt h₁))
  | depositYt =>
    simp only [Call.act, Call.noData, depositYt, bind_eq_ok, Except.ok.injEq, Prod.mk.injEq] at h
    obtain ⟨_, ⟨w, hw, h₁⟩, rfl, -⟩ := h
    exact (follows_instruct rfl hw).trans (follows_of_eq (programState_debitYt h₁))
  | collectInterest =>
    simp only [Call.act, collectInterest, bind_eq_ok, Except.ok.injEq, Prod.exists,
      Prod.mk.injEq] at h
    obtain ⟨p, -, w, hw, _, _, _, _, -, b₁, h₁, rfl, -⟩ := h
    exact (follows_instruct rfl hw).trans (follows_of_eq (programState_creditSy h₁))
  | depositLp =>
    simp only [Call.act, Call.noData, depositLp, bind_eq_ok, Except.ok.injEq, Prod.mk.injEq] at h
    obtain ⟨_, ⟨w, hw, h₁⟩, rfl, -⟩ := h
    exact (follows_lp rfl hw).trans (follows_of_eq (programState_debitLp h₁))
  | withdrawLp =>
    simp only [Call.act, Call.noData, withdrawLp, bind_eq_ok, Except.ok.injEq, Prod.mk.injEq] at h
    obtain ⟨_, ⟨w, hw, h₁⟩, rfl, -⟩ := h
    exact (follows_lp rfl hw).trans (follows_of_eq (programState_creditLp h₁))
  | tradePt => exact follows_tradePt h
  | depositLiquidity => exact follows_depositLiquidity h
  | withdrawLiquidity => exact follows_withdrawLiquidity h
  | mintSy => exact follows_noData (fun _ => programState_creditSy) h
  | redeemSy => exact follows_noData (fun _ => programState_debitSy) h
  | depositSy => exact follows_noData (fun _ => programState_depositSy) h
  | withdrawSy => exact follows_noData (fun _ => programState_withdrawSy) h
  | sendSy => exact follows_noData (fun _ => programState_sendSy) h
  | receiveSy => exact follows_noData (fun _ => programState_receiveSy) h
  | sendPt => exact follows_noData (fun _ => programState_sendPt) h
  | receivePt => exact follows_noData (fun _ => programState_receivePt) h

section
variable {β α : Type} {nested : β → Bank N → Outcome (Bank N × UInt64)}

/-- Calls and edits, one after the other. -/
theorem follows_of_run {h : Handler (bankProgram β nested) α} {loaded : List AccountName} {a : α}
    {log : List (Event (bankProgram β nested))} (hsync : h.Synced loaded)
    (hnested : ∀ x b b' r, nested x b = .ok (b', r) → Follows b b')
    (hrun : h.run loaded b = .ok (b', a, log)) : Follows b b' := by
  refine Handler.replay_invariant (I := Follows b) (fun e _ s s' hs he => hs.trans ?_)
    (follows_of_eq rfl) (Handler.replay_of_run hsync hrun)
  cases e with
  | called c =>
    simp only [Event.apply] at he
    split at he
    · rename_i r hact
      obtain rfl := Except.ok.inj he
      cases c with
      | inl c => exact follows_call hact
      | inr x => exact hnested x _ _ _ hact
    · cases he
  | edited e =>
    obtain rfl := Except.ok.inj he
    exact follows_of_step (i := .edit e) rfl rfl

end

theorem follows_flashSwap {x : FlashSwap} {r : UInt64} {log : List (Event (coreProgram N))}
    (h : x.run b = .ok (b', r, log)) : Follows b b' :=
  follows_of_run x.synced (fun y => y.elim) h

theorem follows_wrapper {w : Wrapper} {u : Unit} {log : List (Event (wrapperProgram N))}
    (h : w.run b = .ok (b', u, log)) : Follows b b' := by
  refine follows_of_run w.synced (fun x b b' r hx => ?_) h
  simp only [FlashSwap.act, bind_eq_ok, Except.ok.injEq, Prod.exists, Prod.mk.injEq] at hx
  obtain ⟨_, _, log, hrun, rfl, rfl⟩ := hx
  exact follows_flashSwap hrun

variable {op : BankOp}

/-- **What a transaction writes** is what the program's own instructions write that it consists of:
users' instructions, or an instruction on its own. -/
theorem instructions_of_step (h : b.step op = .ok b') :
    ∃ is : List Instruction, is.foldlM ProgramState.step b.programState = .ok b'.programState ∧
      ∀ i ∈ is, i.isUser = true ∨ op.direct = some i := by
  have hfollows (h : Follows b b') : ∃ is : List Instruction,
      is.foldlM ProgramState.step b.programState = .ok b'.programState ∧
        ∀ i ∈ is, i.isUser = true ∨ op.direct = some i := by
    obtain ⟨is, huser, hsteps⟩ := h
    exact ⟨is, hsteps, fun i hi => .inl (huser i hi)⟩
  have hdirect (i : Instruction) (hi : op.direct = some i)
      (h : b.programState.step i = .ok b'.programState) : ∃ is : List Instruction,
      is.foldlM ProgramState.step b.programState = .ok b'.programState ∧
        ∀ i ∈ is, i.isUser = true ∨ op.direct = some i := by
    refine ⟨[i], ?_, fun j hj => ?_⟩
    · rw [List.foldlM_cons, h, ok_bind, List.foldlM_nil, pure_eq_ok]
    · obtain rfl := List.mem_singleton.1 hj
      exact .inr hi
  cases op with
  | call c =>
    simp only [step, bind_eq_ok, Except.ok.injEq, Prod.exists] at h
    obtain ⟨_, r, hact, rfl⟩ := h
    exact hfollows (follows_call hact)
  | withdrawYt =>
    simp only [step, bind_eq_ok] at h
    obtain ⟨w, hw, hcredit⟩ := h
    apply hfollows
    exact (follows_instruct rfl hw).trans (follows_of_eq (programState_creditYt hcredit))
  | flashSwap x =>
    simp only [step, bind_eq_ok, Except.ok.injEq, Prod.exists] at h
    obtain ⟨_, r, log, hrun, rfl⟩ := h
    exact hfollows (follows_flashSwap hrun)
  | wrapper w =>
    simp only [step, bind_eq_ok, Except.ok.injEq, Prod.exists] at h
    obtain ⟨_, u, log, hrun, rfl⟩ := h
    exact hfollows (follows_wrapper hrun)
  | vault op hop =>
    simp only [step, bind_eq_ok, Except.ok.injEq] at h
    obtain ⟨w, hw, rfl⟩ := h
    apply hdirect (.vault op) rfl
    show (b.vaultWorld.instructWithinLimits op >>= _) = _
    rw [VaultWorld.instructWithinLimits_eq ?_, hw]
    · rfl
    · rintro now user amount rfl
      cases hop
  | lp op =>
    simp only [step, bind_eq_ok, Except.ok.injEq] at h
    obtain ⟨w, hw, rfl⟩ := h
    apply hdirect (.lp op) rfl
    show (b.lpWorld.step op >>= _) = _
    rw [hw]
    rfl

end

end Bank

end ExponentCore
