import ExponentCore.Lib.Machine
import ExponentCore.Market.Bank

/-!
# Changes of the LP supply in a window

Deposits and withdrawals of liquidity check the limits of the market, and `change_limits` replaces
them. A window is recorded beside the bank: when it began, and the LP supply at that moment, which
the market itself keeps in `window_start_net_balance`.
-/

set_option autoImplicit false

namespace ExponentCore

/-- `ChangeLiquidityNetBalanceLimits`: the window starts again, from the balance that the last one
started from. -/
def LiquidityNetBalanceLimits.change (l : LiquidityNetBalanceLimits) (now : UInt64)
    (negative : UInt16) (positive windowDurationSeconds : UInt32) : LiquidityNetBalanceLimits where
  maxNetBalanceChangeNegativePercentage := negative
  maxNetBalanceChangePositivePercentage := positive
  windowDurationSeconds
  windowStartTimestamp := now.toUInt32
  windowStartNetBalance := l.windowStartNetBalance

/-- Limits that every change stays within. -/
def LiquidityNetBalanceLimits.unlimited : LiquidityNetBalanceLimits where
  windowStartTimestamp := 0
  windowStartNetBalance := 0
  maxNetBalanceChangeNegativePercentage := 0xffff
  maxNetBalanceChangePositivePercentage := 0xffffffff
  windowDurationSeconds := 0

inductive LiquidityOp
  | deposit (user : Nat) (now ptIntent syIntent minLpOut : UInt64)
  | withdraw (user : Nat) (now lpIn minPtOut minSyOut : UInt64)
  | changeLimits (now : UInt64) (negative : UInt16) (positive windowDurationSeconds : UInt32)
deriving DecidableEq

def LiquidityOp.now : LiquidityOp → UInt64
  | deposit _ now .. | withdraw _ now .. | changeLimits now .. => now

/-- Deposits and withdrawals check the limits. -/
def LiquidityOp.isChecked : LiquidityOp → Bool
  | changeLimits .. => false
  | _ => true

namespace Bank

variable {N : Type} [Num N] (b : Bank N)

def limits : LiquidityNetBalanceLimits := b.market.liquidityNetBalanceLimits

def setLimits (l : LiquidityNetBalanceLimits) : Bank N :=
  b.setMarket { b.market with liquidityNetBalanceLimits := l }

/-- The bank as it would be without limits on the changes of the LP supply. -/
def unlimited : Bank N := b.setLimits .unlimited

def liquidityStep (b : Bank N) : LiquidityOp → Outcome (Bank N)
  | .deposit user now ptIntent syIntent minLpOut => do
    let (b, _) ← b.depositLiquidity user now ptIntent syIntent minLpOut
    .ok b
  | .withdraw user now lpIn minPtOut minSyOut => do
    let (b, _) ← b.withdrawLiquidity user now lpIn minPtOut minSyOut
    .ok b
  | .changeLimits now negative positive windowDurationSeconds =>
    .ok (b.setLimits (b.limits.change now negative positive windowDurationSeconds))

/-- The LP tokens that an instruction mints or burns. -/
def lpChange : LiquidityOp → Outcome Int
  | .deposit _ _ ptIntent syIntent _ => do
    let (_, r) ← b.market.financials.addLiquidity syIntent ptIntent b.mintLp
    .ok r.lpOut.toNat
  | .withdraw _ _ lpIn _ _ => .ok (-lpIn.toNat)
  | .changeLimits .. => .ok 0

end Bank

/-- A window of time, and the latest time seen. -/
structure Window where
  clock : Nat
  began : Nat
  lpSupply : Nat
deriving DecidableEq

namespace Window

variable {N : Type} (w : Window)

/-- The window in which an instruction at a time is made: a new one if the last one has elapsed. -/
def current (l : LiquidityNetBalanceLimits) (lpSupply : UInt64) (now : UInt64) : Window :=
  if w.began + l.windowDurationSeconds.toNat < now.toNat then
    { clock := now.toNat, began := now.toNat, lpSupply := lpSupply.toNat }
  else { w with clock := now.toNat }

/-- The window after a successful instruction. -/
def record (b : Bank N) (op : LiquidityOp) (w : Window) : Window :=
  match op with
  | .changeLimits now .. =>
    { clock := now.toNat, began := now.toNat, lpSupply := b.mintLp.toNat }
  | op => w.current b.limits b.mintLp op.now

end Window

/-- A bank and the window of its market. -/
abbrev WindowedBank (N : Type) := Bank N × Window

namespace WindowedBank

variable {N : Type} [Num N]

def step : WindowedBank N → LiquidityOp → Outcome (WindowedBank N) :=
  Machine.recording Bank.liquidityStep fun b op _ w => w.record b op

end WindowedBank

end ExponentCore
