import ExponentCore.Lib.Handler
import ExponentCore.Market.Bank

/-!
# The instructions that handlers call

`Call` is an instruction of this program, of the SY program or of the token program that another
instruction calls, with `Call.act` what it does to a `Bank`. Of the accounts that handlers load
(`AccountName`), the market and the vault are the program's own; the supply of LP tokens and the LP
balances of users are the token program's, which handlers read and never store.

`Call.act_set` is the frame rule: an instruction that does not use an account runs the same whatever
the account holds, and leaves it alone.
-/

set_option autoImplicit false

namespace ExponentCore

open Cached

variable {N : Type}

/-! ## Accounts -/

/-- What handlers load. -/
inductive AccountName
  | market
  | vault
  | mintLp
  | tokenLp
deriving DecidableEq

namespace AccountName

/-- Accounts of the token program are only read. -/
def owned : AccountName → Bool
  | market | vault => true
  | mintLp | tokenLp => false

@[reducible] def Content (N : Type) : AccountName → Type
  | market => MarketTwo N
  | vault => Vault
  | mintLp => UInt64
  | tokenLp => Nat → UInt64

def get : (a : AccountName) → Bank N → a.Content N
  | market, b => b.market
  | vault, b => b.vault
  | mintLp, b => b.mintLp
  | tokenLp, b => b.users.lp

def set : (a : AccountName) → a.Content N → Bank N → Bank N
  | market, x, b => b.setMarket x
  | vault, x, b => b.setVault x
  | mintLp, x, b => { b with mintLp := x }
  | tokenLp, x, b => { b with users := { b.users with lp := x } }

variable (a : AccountName) (x y : a.Content N) (b : Bank N)

theorem get_set : a.get (a.set x b) = x := by
  cases a <;> rfl

theorem set_get : a.set (a.get b) b = b := by
  cases a <;> rfl

theorem set_set : a.set x (a.set y b) = a.set x b := by
  cases a <;> rfl

theorem get_set_of_ne (a a' : AccountName) (x : a'.Content N) (b : Bank N) (h : a ≠ a') :
    a.get (a'.set x b) = a.get b := by
  cases a <;> cases a' <;> first | rfl | exact absurd rfl h

end AccountName

/-! ## Calls -/

/-- An instruction, with all its arguments. `sendSy`, `receiveSy`, `sendPt` and `receivePt` are
transfers out of the market's token accounts to a user and back. -/
inductive Call
  | strip (user : Nat) (now : UInt64) (syState : SyState) (amountSy : UInt64)
  | merge (user : Nat) (now : UInt64) (syState : SyState) (amountPy : UInt64)
  | depositYt (user position : Nat) (now : UInt64) (syState : SyState) (amount : UInt64)
  | collectInterest (user position : Nat) (now : UInt64) (amount : Amount)
  | depositLp (user position : Nat) (now amount : UInt64)
  | withdrawLp (user position : Nat) (now amount : UInt64)
  | tradePt (user : Nat) (now : UInt64) (syExchangeRate : Number) (netTraderPt syConstraint : Int)
  | depositLiquidity (user : Nat) (now ptIntent syIntent minLpOut : UInt64)
  | withdrawLiquidity (user : Nat) (now lpIn minPtOut minSyOut : UInt64)
  | mintSy (user : Nat) (amountBase syOutAmount : UInt64)
  | redeemSy (user : Nat) (amountSy : UInt64)
  | depositSy (amount : UInt64)
  | withdrawSy (amount : UInt64)
  | sendSy (user : Nat) (amount : UInt64)
  | receiveSy (user : Nat) (amount : UInt64)
  | sendPt (user : Nat) (amount : UInt64)
  | receivePt (user : Nat) (amount : UInt64)
deriving DecidableEq

namespace Call

/-- The return data. -/
@[reducible] def Ret : Call → Type
  | strip .. | merge .. | collectInterest .. => UInt64
  | tradePt .. => MarketTradeResult
  | depositLiquidity .. => LiqAddResult
  | withdrawLiquidity .. => LiqRmResult
  | _ => Unit

/-- An instruction without return data. -/
def noData (x : Outcome (Bank N)) : Outcome (Bank N × Unit) := do
  let b ← x
  .ok (b, ())

def act [Num N] : (c : Call) → Bank N → Outcome (Bank N × c.Ret)
  | strip user now syState amountSy, b => b.strip user now syState amountSy
  | merge user now syState amountPy, b => b.merge user now syState amountPy
  | depositYt user position now syState amount, b =>
    noData (b.depositYt user position now syState amount)
  | collectInterest user position now amount, b => b.collectInterest user position now amount
  | depositLp user position now amount, b => noData (b.depositLp user position now amount)
  | withdrawLp user position now amount, b => noData (b.withdrawLp user position now amount)
  | tradePt user now syExchangeRate netTraderPt syConstraint, b =>
    b.tradePt user now syExchangeRate netTraderPt syConstraint
  | depositLiquidity user now ptIntent syIntent minLpOut, b =>
    b.depositLiquidity user now ptIntent syIntent minLpOut
  | withdrawLiquidity user now lpIn minPtOut minSyOut, b =>
    b.withdrawLiquidity user now lpIn minPtOut minSyOut
  | mintSy user _ syOutAmount, b => noData (b.mintSy user syOutAmount)
  | redeemSy user amountSy, b => noData (b.redeemSy user amountSy)
  | depositSy amount, b => noData (b.depositSy amount)
  | withdrawSy amount, b => noData (b.withdrawSy amount)
  | sendSy user amount, b => noData (b.sendSy user amount)
  | receiveSy user amount, b => noData (b.receiveSy user amount)
  | sendPt user amount, b => noData (b.sendPt user amount)
  | receivePt user amount, b => noData (b.receivePt user amount)

/-- The accounts that an instruction reads or writes, of those that handlers load. -/
def uses : Call → AccountName → Bool
  | strip .., a | merge .., a | depositYt .., a | collectInterest .., a => a = .vault
  | depositLp .., a | withdrawLp .., a => a = .market ∨ a = .tokenLp
  | tradePt .., a => a = .market
  | depositLiquidity .., a | withdrawLiquidity .., a => a ≠ .vault
  | _, _ => false

end Call

/-! ## Frame rules -/

namespace Bank

section
variable (a : AccountName) (x : a.Content N) (b : Bank N) (user : Nat) (amount : UInt64)

theorem debitSy_set :
    (a.set x b).debitSy user amount = b.debitSy user amount >>= fun b => .ok (a.set x b) := by
  cases a <;> simp only [debitSy, AccountName.set, setMarket, setVault, bind_assoc, ok_bind]

theorem creditSy_set :
    (a.set x b).creditSy user amount = b.creditSy user amount >>= fun b => .ok (a.set x b) := by
  cases a <;> simp only [creditSy, AccountName.set, setMarket, setVault, bind_assoc, ok_bind]

theorem sendPt_set :
    (a.set x b).sendPt user amount = b.sendPt user amount >>= fun b => .ok (a.set x b) := by
  cases a <;>
    simp only [sendPt, creditPt, AccountName.set, setMarket, setVault, bind_assoc, ok_bind]

theorem receivePt_set :
    (a.set x b).receivePt user amount = b.receivePt user amount >>= fun b => .ok (a.set x b) := by
  cases a <;>
    simp only [receivePt, debitPt, AccountName.set, setMarket, setVault, bind_assoc, ok_bind]

theorem sendSy_set :
    (a.set x b).sendSy user amount = b.sendSy user amount >>= fun b => .ok (a.set x b) := by
  cases a <;>
    simp only [sendSy, creditSy, AccountName.set, setMarket, setVault, bind_assoc, ok_bind]

theorem receiveSy_set :
    (a.set x b).receiveSy user amount = b.receiveSy user amount >>= fun b => .ok (a.set x b) := by
  cases a <;>
    simp only [receiveSy, debitSy, AccountName.set, setMarket, setVault, bind_assoc, ok_bind]

theorem depositSy_set :
    (a.set x b).depositSy amount = b.depositSy amount >>= fun b => .ok (a.set x b) := by
  cases a <;> simp only [depositSy, AccountName.set, setMarket, setVault, bind_assoc, ok_bind]

theorem withdrawSy_set :
    (a.set x b).withdrawSy amount = b.withdrawSy amount >>= fun b => .ok (a.set x b) := by
  cases a <;> simp only [withdrawSy, AccountName.set, setMarket, setVault, bind_assoc, ok_bind]

theorem transferPt_set (isBuyPt : Bool) :
    (a.set x b).transferPt user isBuyPt amount =
      b.transferPt user isBuyPt amount >>= fun b => .ok (a.set x b) := by
  cases isBuyPt with
  | true => exact sendPt_set a x b user amount
  | false => exact receivePt_set a x b user amount

theorem transferSy_set (isBuyPt : Bool) (treasuryFeeAmount : UInt64) :
    (a.set x b).transferSy user isBuyPt amount treasuryFeeAmount =
      b.transferSy user isBuyPt amount treasuryFeeAmount >>= fun b => .ok (a.set x b) := by
  cases a <;>
    simp only [transferSy, sendSy, receiveSy, depositSy, withdrawSy, debitSy, creditSy,
      AccountName.set, setMarket, setVault, bind_assoc, ite_bind, ok_bind]

theorem market_set (h : a ≠ .market) : (a.set x b).market = b.market := by
  cases a with
  | market => exact absurd rfl h
  | vault | mintLp | tokenLp => rfl

theorem setFinancials_set (financials : MarketFinancials N) (h : a ≠ .market) :
    (a.set x b).setFinancials financials = a.set x (b.setFinancials financials) := by
  cases a with
  | market => exact absurd rfl h
  | vault | mintLp | tokenLp => rfl

variable (now : UInt64) (syState : SyState)

theorem strip_set (h : a ≠ .vault) :
    (a.set x b).strip user now syState amount =
      b.strip user now syState amount >>= fun p => .ok (a.set x p.1, p.2) := by
  cases a with
  | vault => exact absurd rfl h
  | market | mintLp | tokenLp =>
    simp only [strip, debitSy, creditPt, creditYt, vault, AccountName.set, setMarket, bind_assoc,
      ok_bind]

theorem merge_set (h : a ≠ .vault) :
    (a.set x b).merge user now syState amount =
      b.merge user now syState amount >>= fun p => .ok (a.set x p.1, p.2) := by
  cases a with
  | vault => exact absurd rfl h
  | market | mintLp | tokenLp =>
    simp only [merge, burnYt, debitPt, debitYt, creditSy, vault, AccountName.set, setMarket,
      bind_assoc, ite_bind, ok_bind]

theorem depositYt_set (position : Nat) (h : a ≠ .vault) :
    (a.set x b).depositYt user position now syState amount =
      b.depositYt user position now syState amount >>= fun b => .ok (a.set x b) := by
  cases a with
  | vault => exact absurd rfl h
  | market | mintLp | tokenLp =>
    simp only [depositYt, debitYt, AccountName.set, setMarket, bind_assoc, ok_bind]

theorem collectInterest_set (position : Nat) (amount : Amount) (h : a ≠ .vault) :
    (a.set x b).collectInterest user position now amount =
      b.collectInterest user position now amount >>= fun p => .ok (a.set x p.1, p.2) := by
  cases a with
  | vault => exact absurd rfl h
  | market | mintLp | tokenLp =>
    simp only [collectInterest, creditSy, vault, AccountName.set, setMarket, bind_assoc, ok_bind]

theorem depositLp_set (position : Nat) (h : a ≠ .market) (h' : a ≠ .tokenLp) :
    (a.set x b).depositLp user position now amount =
      b.depositLp user position now amount >>= fun b => .ok (a.set x b) := by
  cases a with
  | market => exact absurd rfl h
  | tokenLp => exact absurd rfl h'
  | vault | mintLp =>
    simp only [depositLp, debitLp, AccountName.set, setVault, bind_assoc, ok_bind]

theorem withdrawLp_set (position : Nat) (h : a ≠ .market) (h' : a ≠ .tokenLp) :
    (a.set x b).withdrawLp user position now amount =
      b.withdrawLp user position now amount >>= fun b => .ok (a.set x b) := by
  cases a with
  | market => exact absurd rfl h
  | tokenLp => exact absurd rfl h'
  | vault | mintLp =>
    simp only [withdrawLp, creditLp, AccountName.set, setVault, bind_assoc, ok_bind]

variable [Num N]

theorem tradePt_set (syExchangeRate : Number) (netTraderPt syConstraint : Int)
    (h : a ≠ .market) :
    (a.set x b).tradePt user now syExchangeRate netTraderPt syConstraint =
      b.tradePt user now syExchangeRate netTraderPt syConstraint >>= fun p =>
        .ok (a.set x p.1, p.2) := by
  simp only [tradePt, validateTradePt, market_set a x b h, setFinancials_set a x b _ h,
    transferPt_set, transferSy_set, bind_assoc, ok_bind]

variable (ptIntent syIntent minLpOut minPtOut minSyOut : UInt64)

theorem depositLiquidity_set (v : Vault) :
    (b.setVault v).depositLiquidity user now ptIntent syIntent minLpOut =
      b.depositLiquidity user now ptIntent syIntent minLpOut >>= fun p =>
        .ok (p.1.setVault v, p.2) := by
  simp only [depositLiquidity, receivePt, receiveSy, depositSy, debitPt, debitSy, creditLp, market,
    setMarket, setVault, bind_assoc, ok_bind]
  rfl

theorem withdrawLiquidity_set (v : Vault) :
    (b.setVault v).withdrawLiquidity user now amount minPtOut minSyOut =
      b.withdrawLiquidity user now amount minPtOut minSyOut >>= fun p =>
        .ok (p.1.setVault v, p.2) := by
  simp only [withdrawLiquidity, withdrawSy, sendPt, sendSy, debitLp, creditPt, creditSy, market,
    setMarket, setVault, bind_assoc, ok_bind]
  rfl

end

end Bank

namespace Call

theorem noData_bind {x y : Outcome (Bank N)} {f : Bank N → Bank N}
    (h : x = y >>= fun b => .ok (f b)) :
    noData x = noData y >>= fun p => .ok (f p.1, p.2) := by
  rw [h]
  simp only [noData, bind_assoc, ok_bind]

theorem act_set [Num N] (c : Call) (a : AccountName) (x : a.Content N) (b : Bank N)
    (h : c.uses a = false) :
    c.act (a.set x b) = c.act b >>= fun p => .ok (a.set x p.1, p.2) := by
  cases c with
  | strip => exact Bank.strip_set _ _ _ _ _ _ _ (of_decide_eq_false h)
  | merge => exact Bank.merge_set _ _ _ _ _ _ _ (of_decide_eq_false h)
  | depositYt => exact noData_bind (Bank.depositYt_set _ _ _ _ _ _ _ _ (of_decide_eq_false h))
  | collectInterest => exact Bank.collectInterest_set _ _ _ _ _ _ _ (of_decide_eq_false h)
  | depositLp =>
    obtain ⟨hm, ht⟩ := not_or.1 (of_decide_eq_false h)
    exact noData_bind (Bank.depositLp_set _ _ _ _ _ _ _ hm ht)
  | withdrawLp =>
    obtain ⟨hm, ht⟩ := not_or.1 (of_decide_eq_false h)
    exact noData_bind (Bank.withdrawLp_set _ _ _ _ _ _ _ hm ht)
  | tradePt => exact Bank.tradePt_set _ _ _ _ _ _ _ _ (of_decide_eq_false h)
  | depositLiquidity =>
    obtain rfl := not_not.1 (of_decide_eq_false h)
    exact Bank.depositLiquidity_set _ _ _ _ _ _ _
  | withdrawLiquidity =>
    obtain rfl := not_not.1 (of_decide_eq_false h)
    exact Bank.withdrawLiquidity_set _ _ _ _ _ _ _
  | mintSy => exact noData_bind (Bank.creditSy_set _ _ _ _ _)
  | redeemSy => exact noData_bind (Bank.debitSy_set _ _ _ _ _)
  | depositSy => exact noData_bind (Bank.depositSy_set _ _ _ _)
  | withdrawSy => exact noData_bind (Bank.withdrawSy_set _ _ _ _)
  | sendSy => exact noData_bind (Bank.sendSy_set _ _ _ _ _)
  | receiveSy => exact noData_bind (Bank.receiveSy_set _ _ _ _ _)
  | sendPt => exact noData_bind (Bank.sendPt_set _ _ _ _ _)
  | receivePt => exact noData_bind (Bank.receivePt_set _ _ _ _ _)

end Call

/-! ## The program -/

/-- The only field that handlers write in a copy. -/
inductive MarketEdit
  | setIsCurrentFlashSwap (value : Bool)
deriving DecidableEq

def MarketEdit.apply : MarketEdit → MarketTwo N → MarketTwo N
  | setIsCurrentFlashSwap value, m => { m with isCurrentFlashSwap := value }

/-- The program whose handlers call instructions, and those of `β`, which may use every account and
return an amount. -/
abbrev bankProgram [Num N] (β : Type) (nested : β → Bank N → Outcome (Bank N × UInt64)) :
    Program (Bank N) Fault where
  Account := AccountName
  decEq := inferInstance
  Content := AccountName.Content N
  get := AccountName.get
  set := AccountName.set
  get_set := AccountName.get_set
  set_get := AccountName.set_get
  set_set := AccountName.set_set
  get_set_of_ne := AccountName.get_set_of_ne
  owned := AccountName.owned
  Call := Call ⊕ β
  Ret
    | .inl c => c.Ret
    | .inr _ => UInt64
  act
    | .inl c, b => c.act b
    | .inr x, b => nested x b
  uses
    | .inl c, a => c.uses a
    | .inr _, _ => true
  act_set
    | .inl c, a, x, b, h => c.act_set a x b h
    | .inr _, _, _, _, h => Bool.noConfusion h
  Edit := MarketEdit
  target _ := .market
  edit := MarketEdit.apply

end ExponentCore
