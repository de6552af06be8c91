import ExponentCore.Vault.Instructions

/-!
# The YT token accounts of a vault

YT exists four times: in the mint, in the escrow account of the vault, and as the `yt_balance` of
the vault's own and of the users' positions. `YtWorld` has the token accounts beside the positions;
a step is an instruction with the token account it names, or what the token program allows anybody
to do with their own YT.
-/

set_option autoImplicit false

namespace ExponentCore

/-- A token account of the YT mint: the escrow of the vault, or any other. -/
inductive YtAccount
  | escrow
  | outside (index : Nat)
deriving DecidableEq

/-- The account, if its owner can sign an instruction; the escrow belongs to a program address. -/
def YtAccount.ofSigner : YtAccount → Outcome Nat
  | .escrow => .error .cpi
  | .outside i => .ok i

/-- The mint and the token accounts. -/
structure YtTokens where
  supply : UInt64 := 0
  escrowYt : UInt64 := 0
  accounts : List UInt64 := []
deriving DecidableEq

namespace YtTokens

variable (t : YtTokens)

def balance : YtAccount → Outcome UInt64
  | .escrow => .ok t.escrowYt
  | .outside i => getAt t.accounts i

def setBalance (amount : UInt64) : YtAccount → YtTokens
  | .escrow => { t with escrowYt := amount }
  | .outside i => { t with accounts := t.accounts.set i amount }

/-- Adds to a balance. -/
def credit (dst : YtAccount) (amount : UInt64) : Outcome YtTokens := do
  let b ← t.balance dst
  let b ← transferIn b amount
  .ok (t.setBalance b dst)

/-- Takes out of a balance. -/
def debit (src : YtAccount) (amount : UInt64) : Outcome YtTokens := do
  let b ← t.balance src
  let b ← transferOut b amount
  .ok (t.setBalance b src)

/-! ## The token program -/

def mintTo (dst : YtAccount) (amount : UInt64) : Outcome YtTokens := do
  let t ← t.credit dst amount
  let supply ← transferIn t.supply amount
  .ok { t with supply }

def burn (src : YtAccount) (amount : UInt64) : Outcome YtTokens := do
  let t ← t.debit src amount
  let supply ← transferOut t.supply amount
  .ok { t with supply }

def transfer (src dst : YtAccount) (amount : UInt64) : Outcome YtTokens := do
  let t ← t.debit src amount
  t.credit dst amount

/-- All YT that is not in the escrow. -/
def outside : Nat := (t.accounts.map UInt64.toNat).sum

end YtTokens

/-! ## The instructions with their token accounts -/

structure YtWorld where
  world : VaultWorld
  tokens : YtTokens

inductive YtOp
  /-- an instruction, with the YT account that it mints to, burns from or transfers from or to -/
  | instruct (op : VaultOp) (account : YtAccount)
  | createAccount
  | transfer (src : Nat) (dst : YtAccount) (amount : UInt64)
  | burn (src : Nat) (amount : UInt64)

namespace YtWorld

/-- What an instruction does to the YT: `mint_py` of a strip, `burn_py` of a merge, and the
transfers of a deposit and a withdrawal. -/
def moveYt (before after : VaultWorld) (op : VaultOp) (account : YtAccount) (t : YtTokens) :
    Outcome YtTokens :=
  match op with
  | .strip now syState amount => do
    let (_, _, amountPy) ← handleStrip before.vault before.yieldPosition now syState amount
    t.mintTo account amountPy
  | .merge now _ amountPy => do
    if ← after.vault.isActive now then
      let src ← account.ofSigner
      t.burn (.outside src) amountPy
    else .ok t
  | .depositYt _ _ _ amount => do
    let src ← account.ofSigner
    t.transfer (.outside src) .escrow amount
  | .withdrawYt _ _ _ amount => t.transfer .escrow account amount
  | _ => .ok t

def initializeVault (args : InitializeVaultArgs) : YtWorld := ⟨.initializeVault args, {}⟩

def step (s : YtWorld) : YtOp → Outcome YtWorld
  | .instruct op account => do
    let world ← s.world.instruct op
    let tokens ← moveYt s.world world op account s.tokens
    .ok ⟨world, tokens⟩
  | .createAccount =>
    .ok { s with tokens := { s.tokens with accounts := s.tokens.accounts ++ [0] } }
  | .transfer src dst amount => do
    let tokens ← s.tokens.transfer (.outside src) dst amount
    .ok { s with tokens }
  | .burn src amount => do
    let tokens ← s.tokens.burn (.outside src) amount
    .ok { s with tokens }

end YtWorld

/-- The YT that the users' positions stand for. -/
def VaultWorld.userYt (w : VaultWorld) : Nat :=
  (w.userPositions.map fun p => p.ytBalance.toNat).sum

def YtOp.Clocked (s : YtWorld) : YtOp → Prop
  | .instruct op _ => op.Clocked s.world
  | _ => True

instance (s : YtWorld) : ∀ o : YtOp, Decidable (o.Clocked s)
  | .instruct op _ => inferInstanceAs (Decidable (op.Clocked s.world))
  | .createAccount | .transfer .. | .burn .. => instDecidableTrue

end ExponentCore
