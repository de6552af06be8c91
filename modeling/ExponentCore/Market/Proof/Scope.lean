import ExponentCore.Market.Proof.Supply

/-!
# Whom instructions are for, and which way they trade

A handler calls instructions for the user that has signed it and for no other (`FlashSwap.confined`,
`Wrapper.confined`). A flash swap trades PT the way it says (`FlashSwap.on_side`); the trades of a
wrapper are in its log. So what every call in a `Scope` keeps that trades on some sides only, all the
instructions in that scope and on those sides keep (`Bank.Keeps.throughout`).
-/

set_option autoImplicit false

namespace ExponentCore

open Cached Handler

/-! ## Trades -/

/-- The side of the trader. -/
inductive Side
  | buyPt
  | sellPt
deriving DecidableEq

/-- A trade of nothing is refused, and is on no side. -/
def Side.ofTrade (netTraderPt : Int) : List Side :=
  if 0 < netTraderPt then [.buyPt] else if netTraderPt < 0 then [.sellPt] else []

def Call.sides : Call → List Side
  | tradePt _ _ _ netTraderPt _ => Side.ofTrade netTraderPt
  | _ => []

/-- YT is bought by selling the PT that come with it. -/
def FlashSwap.sides : FlashSwap → List Side
  | buyYt .. => [.sellPt]
  | sellYt .. => [.buyPt]

section
variable {N : Type} [Num N]

def eventSides {β : Type} {nested : β → Bank N → Outcome (Bank N × UInt64)} (sides : β → List Side) :
    Cached.Event (bankProgram β nested) → List Side
  | .called (.inl c) => c.sides
  | .called (.inr x) => sides x
  | .edited _ => []

/-- The sides of the trades that a wrapper makes. How much it trades, and so which way, may depend
on the market: `wrapper_withdraw_liquidity` sells the PT that it is paid, which it reads as an
`i64`. -/
def Wrapper.sides (w : Wrapper) (b : Bank N) : List Side :=
  match w.run b with
  | .ok (_, _, log) => log.flatMap (eventSides FlashSwap.sides)
  | .error _ => []

def BankOp.sides : BankOp → Bank N → List Side
  | call c _, _ => c.sides
  | flashSwap x, _ => x.sides
  | wrapper w, b => w.sides b
  | withdrawYt .., _ | vault .., _ | lp .., _ => []

end

theorem Side.ofTrade_neg_natCast (n : Nat) : Side.ofTrade (-(n : Int)) ⊆ [.sellPt] := by
  intro s hs
  unfold ofTrade at hs
  rw [if_neg (by omega)] at hs
  split at hs
  · exact hs
  · cases hs

theorem Side.ofTrade_natCast (n : Nat) : Side.ofTrade (n : Int) ⊆ [.buyPt] := by
  intro s hs
  unfold ofTrade at hs
  split at hs
  · exact hs
  · rw [if_neg (by omega)] at hs
    cases hs

/-! ## Actors -/

/-- Who acts: a user, and the positions whose owner has to agree. -/
structure Actor where
  user : Option Nat := none
  yieldPosition : Option Nat := none
  lpPosition : Option Nat := none

def Call.actor : Call → Actor
  | depositYt user position .. | collectInterest user position .. =>
    { user := user, yieldPosition := position }
  | depositLp user position .. | withdrawLp user position .. =>
    { user := user, lpPosition := position }
  | c => { user := c.user }

def FlashSwap.actor (x : FlashSwap) : Actor := { user := x.user }

def Wrapper.actor : Wrapper → Actor
  | strip i _ | collectInterest i | buyYt i .. =>
    { user := i.user, yieldPosition := i.yieldPosition }
  | provideLiquidity i .. =>
    { user := i.user, yieldPosition := i.yieldPosition, lpPosition := i.lpPosition }
  | provideLiquidityBase i .. | provideLiquidityClassic i .. | withdrawLiquidity i ..
  | withdrawLiquidityClassic i _ => { user := i.user, lpPosition := i.lpPosition }
  | merge i _ | buyPt i .. | sellPt i .. | sellYt i .. => { user := i.user }

/-- Anybody may stage the yield of a position. -/
def VaultOp.actor : VaultOp → Actor
  | depositYt _ _ user _ | withdrawYt _ _ user _ | collectInterest _ user _
  | collectEmission user .. => { yieldPosition := user }
  | initializeYieldPosition .. | strip .. | merge .. | stageYield .. | collectTreasuryInterest ..
  | collectTreasuryEmission .. | addEmission .. | removeVaultEmission _ => {}

def LpOp.actor : LpOp → Actor
  | depositLp _ position _ | withdrawLp _ position _ | marketCollectEmission position _
  | claimFarmEmissions position .. => { lpPosition := position }
  | initLpPosition _ | addMarketEmission .. | removeMarketEmission _ | addFarm .. | modifyFarm ..
  | accrue _ => {}

def BankOp.actor : BankOp → Actor
  | call c _ => c.actor
  | withdrawYt user position .. => { user := user, yieldPosition := position }
  | flashSwap x => x.actor
  | wrapper w => w.actor
  | vault op _ => op.actor
  | lp op _ => op.actor

/-! ## Scopes -/

/-- Some users and some positions. -/
structure Scope where
  users : Nat → Prop
  yieldPositions : Nat → Prop
  lpPositions : Nat → Prop

namespace Scope

variable (S : Scope)

/-- Nobody acts who is not in the scope. -/
structure Has (a : Actor) : Prop where
  user : ∀ u ∈ a.user, S.users u
  yieldPosition : ∀ i ∈ a.yieldPosition, S.yieldPositions i
  lpPosition : ∀ i ∈ a.lpPosition, S.lpPositions i

variable {S} {a : Actor}

/-- The user without the positions. -/
theorem Has.ofUser (h : S.Has a) : S.Has { user := a.user } :=
  ⟨h.user, fun _ hi => (nomatch hi), fun _ hi => (nomatch hi)⟩

/-- The user with the position in the vault alone. -/
theorem Has.ofYield (h : S.Has a) : S.Has { user := a.user, yieldPosition := a.yieldPosition } :=
  ⟨h.user, h.yieldPosition, fun _ hi => (nomatch hi)⟩

/-- The user with the position in the market alone. -/
theorem Has.ofLp (h : S.Has a) : S.Has { user := a.user, lpPosition := a.lpPosition } :=
  ⟨h.user, fun _ hi => (nomatch hi), h.lpPosition⟩

theorem has_nobody : S.Has {} :=
  ⟨fun _ hu => (nomatch hu), fun _ hi => (nomatch hi), fun _ hi => (nomatch hi)⟩

end Scope

variable {N : Type} [Num N]

/-- An instruction in the scope is called, or a flash swap in it. -/
def Scope.Event {β : Type} {nested : β → Bank N → Outcome (Bank N × UInt64)} (S : Scope)
    (actor : β → Actor) : Cached.Event (bankProgram β nested) → Prop
  | .called (.inl c) => S.Has c.actor
  | .called (.inr x) => S.Has (actor x)
  | .edited _ => True

/-- A call trades on some sides only. -/
def TradesOn {β : Type} {nested : β → Bank N → Outcome (Bank N × UInt64)} (sides : β → List Side)
    (allowed : List Side) (e : Cached.Event (bankProgram β nested)) : Prop :=
  eventSides sides e ⊆ allowed

section
variable {S : Scope} {D : Side → Prop}

open scoped Classical in
/-- A flash swap calls instructions for its user. -/
theorem FlashSwap.confined {x : FlashSwap} (hx : S.Has x.actor) :
    wp (onEvents (onlyEvents (S.Event Empty.elim))) () (x.handler (N := N)) fun _ _ => True := by
  cases x with
  | buyYt i syIn ytOut =>
    have huser : S.Has { user := i.user } := hx
    simp +contextual [handler, ExponentCore.buyYt, onlyEvents_eq_some, Scope.Event, Call.actor,
      Call.user, Scope.has_nobody, huser]
  | sellYt i ytIn minSyOut =>
    have huser : S.Has { user := i.user } := hx
    simp +contextual [handler, ExponentCore.sellYt, onlyEvents_eq_some, Scope.Event, Call.actor,
      Call.user, huser]

open scoped Classical in
/-- It trades on its side. -/
theorem FlashSwap.on_side (x : FlashSwap) :
    wp (onEvents (onlyEvents (TradesOn Empty.elim x.sides))) ()
      (x.handler (N := N)) fun _ _ => True := by
  cases x with
  | buyYt i syIn ytOut =>
    have hsell (n : UInt64) :
        Side.ofTrade (-(n.toNat : Int)) ⊆ (FlashSwap.buyYt i syIn ytOut).sides :=
      Side.ofTrade_neg_natCast n.toNat
    simp +contextual [handler, ExponentCore.buyYt, onlyEvents_eq_some, TradesOn, eventSides,
      Call.sides, toI64_eq_some, hsell]
  | sellYt i ytIn minSyOut =>
    have hbuy (n : UInt64) :
        Side.ofTrade (n.toNat : Int) ⊆ (FlashSwap.sellYt i ytIn minSyOut).sides :=
      Side.ofTrade_natCast n.toNat
    simp +contextual [handler, ExponentCore.sellYt, onlyEvents_eq_some, TradesOn, eventSides,
      Call.sides, toI64_eq_some, hbuy]

open scoped Classical in
/-- So does a wrapper, on the positions of its user, and the flash swaps that it calls are for its
user too. -/
theorem Wrapper.confined {w : Wrapper} (hw : S.Has w.actor) :
    wp (onEvents (onlyEvents (S.Event FlashSwap.actor))) () (w.handler (N := N))
      fun _ _ => True := by
  cases w with
  | strip i amountBase =>
    have huser : S.Has { user := i.user } := hw.ofUser
    have hyield : S.Has { user := i.user, yieldPosition := i.yieldPosition } := hw.ofYield
    simp [handler, wrapperStrip, onlyEvents_eq_some, Scope.Event, Call.actor, Call.user,
      huser, hyield]
  | merge i amountPy =>
    have huser : S.Has { user := i.user } := hw.ofUser
    simp [handler, wrapperMerge, onlyEvents_eq_some, Scope.Event, Call.actor, Call.user, huser]
  | collectInterest i =>
    have huser : S.Has { user := i.user } := hw.ofUser
    have hyield : S.Has { user := i.user, yieldPosition := i.yieldPosition } := hw.ofYield
    simp [handler, wrapperCollectInterest, onlyEvents_eq_some, Scope.Event, Call.actor, Call.user,
      huser, hyield]
  | buyPt i ptAmount maxBaseAmount =>
    have huser : S.Has { user := i.user } := hw.ofUser
    simp [handler, wrapperBuyPt, onlyEvents_eq_some, Scope.Event, Call.actor, Call.user, huser]
  | sellPt i amountPt minBaseAmount =>
    have huser : S.Has { user := i.user } := hw.ofUser
    simp +contextual [handler, wrapperSellPt, onlyEvents_eq_some, Scope.Event, Call.actor,
      Call.user, inI64_eq_ok, huser]
  | buyYt i ytOut maxBaseAmount =>
    have huser : S.Has { user := i.user } := hw.ofUser
    have hyield : S.Has { user := i.user, yieldPosition := i.yieldPosition } := hw.ofYield
    simp [handler, wrapperBuyYt, onlyEvents_eq_some, Scope.Event, Call.actor, Call.user,
      FlashSwap.actor, FlashSwap.user, Invocation.inner, huser, hyield]
  | sellYt i ytAmount minBaseAmount =>
    have huser : S.Has { user := i.user } := hw.ofUser
    simp [handler, wrapperSellYt, onlyEvents_eq_some, Scope.Event, Call.actor, Call.user,
      FlashSwap.actor, FlashSwap.user, Invocation.inner, huser]
  | provideLiquidity i amountBase minLpOut =>
    have huser : S.Has { user := i.user } := hw.ofUser
    have hyield : S.Has { user := i.user, yieldPosition := i.yieldPosition } := hw.ofYield
    have hlp : S.Has { user := i.user, lpPosition := i.lpPosition } := hw.ofLp
    simp [handler, wrapperProvideLiquidity, onlyEvents_eq_some, Scope.Event, Call.actor, Call.user,
      huser, hyield, hlp]
  | provideLiquidityBase i minLpOut externalPtToBuy externalSyConstraint =>
    have huser : S.Has { user := i.user } := hw.ofUser
    have hlp : S.Has { user := i.user, lpPosition := i.lpPosition } := hw.ofLp
    simp [handler, wrapperProvideLiquidityBase, onlyEvents_eq_some, Scope.Event, Call.actor,
      Call.user, huser, hlp]
  | provideLiquidityClassic i amountBase amountPt minLpOut =>
    have huser : S.Has { user := i.user } := hw.ofUser
    have hlp : S.Has { user := i.user, lpPosition := i.lpPosition } := hw.ofLp
    simp [handler, wrapperProvideLiquidityClassic, onlyEvents_eq_some, Scope.Event, Call.actor,
      Call.user, huser, hlp]
  | withdrawLiquidity i amountLp syConstraint =>
    have huser : S.Has { user := i.user } := hw.ofUser
    have hlp : S.Has { user := i.user, lpPosition := i.lpPosition } := hw.ofLp
    simp [handler, wrapperWithdrawLiquidity, onlyEvents_eq_some, Scope.Event, Call.actor,
      Call.user, huser, hlp]
  | withdrawLiquidityClassic i amountLp =>
    have huser : S.Has { user := i.user } := hw.ofUser
    have hlp : S.Has { user := i.user, lpPosition := i.lpPosition } := hw.ofLp
    simp [handler, wrapperWithdrawLiquidityClassic, onlyEvents_eq_some, Scope.Event, Call.actor,
      Call.user, huser, hlp]

/-! ## What instructions in a scope keep -/

/-- Calls in the scope that trade on some sides only keep a relation between banks, and so do edits
of the market, `withdraw_yt`, and the instructions of the vault and of LP positions that move no
tokens. -/
structure Bank.Keeps (S : Scope) (D : Side → Prop) (R : Bank N → Bank N → Prop) : Prop where
  refl (b : Bank N) : R b b
  trans (b b' b'' : Bank N) : R b b' → R b' b'' → R b b''
  call (c : Call) (b b' : Bank N) (r : c.Ret) :
    S.Has c.actor → (∀ s ∈ c.sides, D s) → c.act b = .ok (b', r) → R b b'
  edit (e : MarketEdit) (b : Bank N) : R b (b.setMarket (e.apply b.market))
  withdrawYt (user position : Nat) (now : UInt64) (syState : SyState) (amount : UInt64)
    (b b' : Bank N) : S.Has { user, yieldPosition := position } →
    b.step (.withdrawYt user position now syState amount) = .ok b' → R b b'
  vault (op : VaultOp) (w : VaultWorld) (b : Bank N) :
    S.Has op.actor → b.vaultWorld.instruct op = .ok w → R b { b with vaultWorld := w }
  lp (op : LpOp) (w : LpWorld N) (b : Bank N) :
    S.Has op.actor → b.lpWorld.step op = .ok w → R b { b with lpWorld := w }

namespace Bank.Keeps

variable {R : Bank N → Bank N → Prop} {b b' : Bank N} {op : BankOp}

theorem event {β : Type} {nested : β → Bank N → Outcome (Bank N × UInt64)} {actor : β → Actor}
    {sides : β → List Side} (h : Keeps S D R)
    (hnested : ∀ x b b' r, S.Has (actor x) → (∀ s ∈ sides x, D s) → nested x b = .ok (b', r) →
      R b b')
    {e : Cached.Event (bankProgram β nested)} (hactor : S.Event actor e)
    (hsides : ∀ s ∈ eventSides sides e, D s) (happly : e.apply b = .ok b') : R b b' := by
  cases e with
  | called c =>
    simp only [Cached.Event.apply] at happly
    split at happly
    · rename_i r hact
      obtain rfl := Except.ok.inj happly
      cases c with
      | inl c => exact h.call c b _ r hactor hsides hact
      | inr x => exact hnested x b _ r hactor hsides hact
    · cases happly
  | edited e =>
    obtain rfl := Except.ok.inj happly
    exact h.edit e b

open scoped Classical in
theorem flashSwap (h : Keeps S D R) {x : FlashSwap} {r : UInt64}
    {log : List (Cached.Event (coreProgram N))} (hx : S.Has x.actor) (hsides : ∀ s ∈ x.sides, D s)
    (hrun : x.run b = .ok (b', r, log)) : R b b' := by
  have hactor := events_of_run x.synced (FlashSwap.confined hx) hrun
  have hside := events_of_run x.synced x.on_side hrun
  refine kept_of_run h.refl h.trans (fun e he b b' happly => ?_) x.synced hrun
  exact h.event (fun y => y.elim) (hactor e he) (fun s hs => hsides s (hside e he hs)) happly

open scoped Classical in
theorem wrapper (h : Keeps S D R) {w : Wrapper} {u : Unit}
    {log : List (Cached.Event (wrapperProgram N))} (hw : S.Has w.actor)
    (hsides : ∀ s ∈ w.sides b, D s) (hrun : w.run b = .ok (b', u, log)) : R b b' := by
  have hactor := events_of_run w.synced (Wrapper.confined hw) hrun
  rw [Wrapper.sides, hrun] at hsides
  refine kept_of_run h.refl h.trans (fun e he b b' happly => ?_) w.synced hrun
  refine h.event (fun x b b' r hx hs hact => ?_) (hactor e he)
    (fun s hs => hsides s (List.mem_flatMap.2 ⟨e, he, hs⟩)) happly
  simp only [FlashSwap.act, bind_eq_ok, Except.ok.injEq, Prod.exists, Prod.mk.injEq] at hact
  obtain ⟨_, _, log, hswap, rfl, rfl⟩ := hact
  exact h.flashSwap hx hs hswap

/-- What calls in a scope keep, every instruction in it keeps. -/
theorem step (h : Keeps S D R) (hop : S.Has op.actor) (hsides : ∀ s ∈ op.sides b, D s)
    (hstep : b.step op = .ok b') : R b b' := by
  cases op with
  | call c hc =>
    simp only [Bank.step, bind_eq_ok, Except.ok.injEq, Prod.exists] at hstep
    obtain ⟨_, r, hact, rfl⟩ := hstep
    exact h.call c b _ r hop hsides hact
  | withdrawYt user position now syState amount =>
    exact h.withdrawYt user position now syState amount b b' hop hstep
  | flashSwap x =>
    simp only [Bank.step, bind_eq_ok, Except.ok.injEq, Prod.exists] at hstep
    obtain ⟨_, r, log, hrun, rfl⟩ := hstep
    exact h.flashSwap hop hsides hrun
  | wrapper w =>
    simp only [Bank.step, bind_eq_ok, Except.ok.injEq, Prod.exists] at hstep
    obtain ⟨_, u, log, hrun, rfl⟩ := hstep
    exact h.wrapper hop hsides hrun
  | vault op hmoves =>
    simp only [Bank.step, bind_eq_ok, Except.ok.injEq] at hstep
    obtain ⟨w, hw, rfl⟩ := hstep
    exact h.vault op w b hop hw
  | lp op hmoves =>
    simp only [Bank.step, bind_eq_ok, Except.ok.injEq] at hstep
    obtain ⟨w, hw, rfl⟩ := hstep
    exact h.lp op w b hop hw

/-- **What calls in a scope keep, every run in it keeps**, from its first state to each other. -/
theorem throughout (h : Keeps S D R) {ops : List BankOp} (hops : ∀ op ∈ ops, S.Has op.actor)
    (hsides : Machine.Admits Bank.step
      (Machine.Accepted Bank.step fun b op _ => ∀ s ∈ op.sides b, D s) b ops) :
    Machine.Throughout Bank.step (R b) b ops := by
  refine Machine.throughout_of_step (fun b₁ op b₂ hR hP hstep => ?_) (h.refl b)
    ((Machine.admits_of_forall hops).and hsides)
  exact h.trans b b₁ b₂ hR (h.step hP.1 (hP.2 b₂ hstep) hstep)

end Bank.Keeps

end

end ExponentCore
