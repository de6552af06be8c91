import ExponentCore.Lib.ListSum
import ExponentCore.Vault.Ledger
import ExponentCore.Vault.Proof.Handlers

/-!
# Operations as sequences of events

An operation of the vault is a few elementary changes in a row: a refresh, the staging of a user's
position, a mint, a burn, a move of YT, a payment. `VaultEvent` is one such change, on the world and
its ledger; `step_events` takes a successful operation apart into events. An invariant of a run is
then proved once for each kind of event (`VaultRun.induction`), not once for each handler.

The relation has two parameters: `A` is what is known of an operation in the state it is given to,
and `P` what is known of the stagings.
-/

set_option autoImplicit false

namespace ExponentCore

/-! ## Positions by holder -/

namespace VaultWorld

variable {w : VaultWorld} {p p' : YieldTokenPosition}

def position? (w : VaultWorld) : Holder → Option YieldTokenPosition
  | .vault => some w.yieldPosition
  | .user i => w.userPositions[i]?

def setPosition (w : VaultWorld) (h : Holder) (p : YieldTokenPosition) : VaultWorld :=
  match h with
  | .vault => { w with yieldPosition := p }
  | .user i => { w with userPositions := w.userPositions.set i p }

@[simp] theorem setPosition_vault (h : Holder) : (w.setPosition h p).vault = w.vault := by
  cases h <;> rfl

@[simp] theorem setPosition_clock (h : Holder) : (w.setPosition h p).clock = w.clock := by
  cases h <;> rfl

/-- Replacing a position trades its value for the new one in every sum. -/
theorem sum_setPosition {q : YieldTokenPosition} {M : Type} [AddCommMonoid M]
    (f : YieldTokenPosition → M) {h : Holder}
    (hp : w.position? h = some p) :
    (((w.setPosition h q).positions).map f).sum + f p = (w.positions.map f).sum + f q := by
  cases h with
  | vault =>
    obtain rfl : w.yieldPosition = p := by simpa [position?] using hp
    simp only [positions, setPosition, List.map_cons, List.sum_cons]
    rw [add_comm (f q), add_comm (f w.yieldPosition), add_right_comm]
  | user i =>
    simp only [positions, setPosition, List.map_cons, List.sum_cons]
    rw [add_assoc, ListSum.sum_map_set hp, ← add_assoc]

/-- Replacing the vault's own and a user's position trades both values for the new ones. -/
theorem sum_setPositions {q : YieldTokenPosition} {M : Type} [AddCommMonoid M]
    (f : YieldTokenPosition → M) {i : Nat}
    {u y : YieldTokenPosition} (hu : w.position? (.user i) = some u) :
    ((((w.setPosition .vault q).setPosition (.user i) y).positions).map f).sum
        + (f w.yieldPosition + f u)
      = (w.positions.map f).sum + (f q + f y) := by
  have h₁ := w.sum_setPosition (h := .vault) (q := q) f rfl
  have hu' : (w.setPosition .vault q).position? (.user i) = some u := hu
  have h₂ := (w.setPosition .vault q).sum_setPosition (q := y) f hu'
  rw [add_comm (f w.yieldPosition), ← add_assoc, h₂, add_right_comm, h₁, add_assoc]

/-- What holds of all positions, and of a new one, holds after replacing one by it. -/
theorem forall_setPosition {Q : YieldTokenPosition → Prop} {h : Holder}
    (hall : ∀ q ∈ w.positions, Q q) (hnew : Q p') :
    ∀ q ∈ (w.setPosition h p').positions, Q q := by
  intro q hq
  cases h with
  | vault =>
    simp only [positions, setPosition, List.mem_cons] at hq hall
    rcases hq with rfl | hq
    · exact hnew
    · exact hall q (.inr hq)
  | user i =>
    simp only [positions, setPosition, List.mem_cons] at hq hall
    rcases hq with rfl | hq
    · exact hall _ (.inl rfl)
    · rcases List.mem_or_eq_of_mem_set hq with hq | rfl
      · exact hall q (.inr hq)
      · exact hnew

theorem position?_mem {h : Holder} (hp : w.position? h = some p) : p ∈ w.positions := by
  cases h with
  | vault =>
    obtain rfl : w.yieldPosition = p := by simpa [position?] using hp
    exact List.mem_cons_self
  | user i => exact List.mem_cons_of_mem _ (List.mem_of_getElem? hp)

theorem position?_setPosition {h k : Holder} (hp : w.position? h = some p) :
    (w.setPosition h p').position? k = if k = h then some p' else w.position? k := by
  cases h with
  | vault =>
    cases k with
    | vault => rfl
    | user j => rfl
  | user i =>
    cases k with
    | vault => rfl
    | user j =>
      have hlen := (List.getElem?_eq_some_iff.1 hp).1
      simp only [position?, setPosition, Holder.user.injEq]
      split
      · rename_i hj
        rw [hj, List.getElem?_set_self hlen]
      · rename_i hj
        rw [List.getElem?_set_ne (Ne.symm hj)]

end VaultWorld

/-! ## A position that has just earned -/

/-- Every emission of the vault has a tracker, and it is at the final index. -/
def SettledWith (v : Vault) (p : YieldTokenPosition) : Prop :=
  ∀ (j : Nat) (e : EmissionInfo), v.emissions[j]? = some e →
    ∃ t : YieldTokenTracker, p.emissions[j]? = some t ∧ t.lastSeenIndex = e.finalIndex

/-- What is known of a position right after it has earned. -/
structure JustEarned (v : Vault) (p : YieldTokenPosition) : Prop where
  final_ne_zero : v.finalSyExchangeRate ≠ 0
  index : v.isInEmergencyMode = false → p.interest.lastSeenIndex = v.finalSyExchangeRate
  settled : SettledWith v p

section
variable {v v' : Vault} {p p' : YieldTokenPosition}

theorem earnTrackers_settled {b : UInt64} {ts ts' : List YieldTokenTracker}
    {es : List EmissionInfo} (h : YieldTokenPosition.earnTrackers b ts es = .ok ts') {j : Nat}
    {e : EmissionInfo} (he : es[j]? = some e) :
    ∃ t : YieldTokenTracker, ts'[j]? = some t ∧ t.lastSeenIndex = e.finalIndex := by
  induction es generalizing ts ts' j with
  | nil => simp at he
  | cons x es ih =>
    cases ts with
    | nil => cases h
    | cons t ts =>
      simp only [YieldTokenPosition.earnTrackers, bind_eq_ok, Except.ok.injEq] at h
      obtain ⟨k, -, t₁, -, ts₁, hts, rfl⟩ := h
      cases j with
      | zero =>
        obtain rfl : x = e := by simpa using he
        exact ⟨_, rfl, rfl⟩
      | succ j => exact ih hts (by simpa using he)

/-- A vault with the same times and rates. -/
structure SameRates (v v' : Vault) : Prop where
  startTs : v'.startTs = v.startTs
  duration : v'.duration = v.duration
  lastSeen : v'.lastSeenSyExchangeRate = v.lastSeenSyExchangeRate
  allTimeHigh : v'.allTimeHighSyExchangeRate = v.allTimeHighSyExchangeRate
  final : v'.finalSyExchangeRate = v.finalSyExchangeRate

/-- A vault with the same times, rates and emissions. -/
structure SameView (v v' : Vault) : Prop extends SameRates v v' where
  emissions : v'.emissions = v.emissions

section
variable (h : SameRates v v')
include h

theorem SameRates.isInEmergencyMode : v'.isInEmergencyMode = v.isInEmergencyMode := by
  rw [Vault.isInEmergencyMode, h.lastSeen, h.allTimeHigh, Vault.isInEmergencyMode]

theorem SameRates.isActive (t : UInt32) : v'.isActive t = v.isActive t := by
  simp only [Vault.isActive, Vault.isExpired, h.startTs, h.duration]

theorem SameRates.maturity : v'.maturity = v.maturity := by
  rw [Vault.maturity, h.startTs, h.duration, Vault.maturity]

end

theorem SameView.justEarned (h : SameView v v') (hj : JustEarned v p) : JustEarned v' p where
  final_ne_zero := h.final ▸ hj.final_ne_zero
  index he := h.final ▸ hj.index (h.isInEmergencyMode ▸ he)
  settled j e he := hj.settled j e (h.emissions ▸ he)

theorem Earned.sameView (h : Earned v p v' p') : SameView v v' := by
  obtain ⟨c, t, -, -, -, rfl⟩ := h.credit
  exact ⟨⟨rfl, rfl, rfl, rfl, rfl⟩, rfl⟩

theorem Earned.justEarned (h : Earned v p v' p') : JustEarned v' p' := by
  refine h.sameView.justEarned ⟨h.final_ne_zero, fun he => ?_, fun j e hj => ?_⟩
  · rcases h.index with ⟨he', -⟩ | ⟨-, hi⟩
    · rw [he'] at he; cases he
    · exact hi
  · obtain ⟨b, -, ht⟩ := h.trackers
    exact earnTrackers_settled ht hj

end

/-! ## Events -/

section
variable (A : VaultRun → VaultOp → Prop) (P : Staging → Prop)

inductive VaultEvent : VaultRun → VaultRun → Prop
  /-- the SY state is recorded and the vault's own position earns -/
  | refresh {w g op now syState v₁ v₂ p₁} (hread : op.syRead = some (now, syState))
      (hA : A (w, g) op) (hr : Refreshed w.vault w.yieldPosition now syState v₁ v₂ p₁)
      (hP : P ⟨.vault, v₁, w.yieldPosition⟩) :
      VaultEvent (w, g) ({ w with vault := v₂, yieldPosition := p₁, clock := now },
        g.sawSyState now w.vault v₂)
  /-- a user's position earns -/
  | earn {w g i u u' v'} (hu : w.position? (.user i) = some u) (hP : P ⟨.user i, w.vault, u⟩)
      (he : u.earnAllWithTracking w.vault = .ok (v', u')) :
      VaultEvent (w, g) ({ w.setPosition (.user i) u' with vault := v' }, g)
  | mint {w g x py v' p'} (hactive : w.vault.isActive w.clock = .ok true)
      (hcalm : w.vault.isInEmergencyMode = false) (hj : JustEarned w.vault w.yieldPosition)
      (hm : Minted w.vault w.yieldPosition x py v' p') :
      VaultEvent (w, g) ({ w.setPosition .vault p' with vault := v' },
        { g with strips := ⟨py.toNat, w.vault.lastSeenSyExchangeRate⟩ :: g.strips })
  | burn {w g a x v' p'} (hcalm : w.vault.isInEmergencyMode = false)
      (hj : JustEarned w.vault w.yieldPosition)
      (hb : Burned w.vault w.yieldPosition w.clock a x v' p') :
      VaultEvent (w, g) ({ w.setPosition .vault p' with vault := v' },
        { g with merges := ⟨a.toNat, w.vault.lastSeenSyExchangeRate,
          w.vault.isActive w.clock = .ok true⟩ :: g.merges })
  /-- YT moves from the vault's position to a user's -/
  | deposit {w g i u a v' p' u'} (hu : w.position? (.user i) = some u)
      (hactive : w.vault.isActive w.clock = .ok true)
      (hcalm : w.vault.isInEmergencyMode = false) (hj : JustEarned w.vault w.yieldPosition)
      (hju : JustEarned w.vault u) (hm : Moved w.vault w.yieldPosition u a v' p' u') :
      VaultEvent (w, g)
        ({ (w.setPosition .vault p').setPosition (.user i) u' with vault := v' }, g)
  /-- YT moves from a user's position to the vault's, in emergency mode too -/
  | withdraw {w g i u a v' p' u'} (hu : w.position? (.user i) = some u)
      (hactive : w.vault.isActive w.clock = .ok true)
      (hj : JustEarned w.vault w.yieldPosition) (hju : JustEarned w.vault u)
      (hm : Moved w.vault u w.yieldPosition a v' u' p') :
      VaultEvent (w, g)
        ({ (w.setPosition .vault p').setPosition (.user i) u' with vault := v' }, g)
  | rebalance {w g} {s : UInt64} (hb : Vault.Backed { w.vault with syForPt := s }) :
      VaultEvent (w, g) ({ w with vault := { w.vault with syForPt := s } }, g)
  | payInterest {w g h p a v' p'} (hp : w.position? h = some p)
      (hpay : InterestPaid w.vault p a v' p') :
      VaultEvent (w, g) ({ w.setPosition h p' with vault := v' },
        { g with interestPaid := g.interestPaid + a.toNat })
  | payTreasury {w g a v'} (hpay : TreasuryPaid w.vault a v') :
      VaultEvent (w, g) ({ w with vault := v' }, g)
  | payEmission {w g h p index a p'} (hp : w.position? h = some p)
      (hpay : p.collectEmissionAt index a = .ok p') :
      VaultEvent (w, g) (w.setPosition h p', g.paidEmission index.toNat a.toNat)
  | payTreasuryEmission {w g} {index : UInt16} {a t : UInt64} {e : EmissionInfo}
      (he : w.vault.emissions[index.toNat]? = some e)
      (ht : t.toNat + a.toNat = e.treasuryEmission.toNat) :
      VaultEvent (w, g) ({ w with vault := { w.vault with
          emissions := w.vault.emissions.set index.toNat { e with treasuryEmission := t } } },
        g.paidTreasuryEmission index.toNat a.toNat)
  | openPosition {w g} {owner key : Pubkey} :
      VaultEvent (w, g)
        ({ w with userPositions := w.userPositions ++ [{ owner, vault := key }] }, g)
  | addEmission {w g accounts syState token treasury fee i}
      (hA : A (w, g) (.addEmission accounts syState token treasury fee))
      (hi : syState.emissionIndexes[w.vault.emissions.length]? = some i) :
      VaultEvent (w, g) ({ w with vault := { w.vault with
        cpiAccounts := accounts
        emissions := w.vault.emissions ++ [EmissionInfo.new token treasury i fee] } }, g)
  | removeEmission {w g index} (hA : A (w, g) (.removeVaultEmission index)) :
      VaultEvent (w, g) ({ w with vault := { w.vault with
        emissions := w.vault.emissions.eraseIdx index.toNat } }, g)

end

/-! ## From operations to events -/

open Relation

section
variable {A : VaultRun → VaultOp → Prop} {P : Staging → Prop}
  {w w' : VaultWorld} {g : VaultLedger} {op : VaultOp} {v v₁ v₂ v₃ : Vault}
  {p p₁ u u₁ : YieldTokenPosition} {now : UInt32} {syState : SyState}

theorem stagedEmission_of_collectEmissionAt {index : UInt16} {a : UInt64} {p' : YieldTokenPosition}
    (h : p.collectEmissionAt index a = .ok p') :
    p'.stagedEmission index.toNat + a.toNat = p.stagedEmission index.toNat := by
  obtain ⟨t, s, ht, hs, rfl⟩ := collectEmissionAt_eq_ok h
  have hlen := (List.getElem?_eq_some_iff.1 ht).1
  simp only [YieldTokenPosition.stagedEmission, List.getElem?_set_self hlen, ht, Option.map_some,
    Option.getD_some]
  exact hs

/-- What a collection takes out of one position is missing from the total. -/
theorem stagedEmission_setPosition {h : Holder} {index : UInt16} {a : UInt64}
    {p' : YieldTokenPosition} (hp : w.position? h = some p)
    (hpay : p.collectEmissionAt index a = .ok p') :
    w.stagedEmission index.toNat - (w.setPosition h p').stagedEmission index.toNat = a.toNat := by
  have hsum := w.sum_setPosition (q := p') (fun q => q.stagedEmission index.toNat) hp
  have hone := stagedEmission_of_collectEmissionAt hpay
  simp only [VaultWorld.stagedEmission]
  omega

theorem VaultLedger.sawSyState_congr {before after after' : Vault}
    (hr : after'.lastSeenSyExchangeRate = after.lastSeenSyExchangeRate)
    (he : after'.emissions = after.emissions) :
    g.sawSyState now before after' = g.sawSyState now before after := by
  simp only [VaultLedger.sawSyState, VaultWorld.indexGrowth, hr, he]

theorem Refreshed.isActive (hr : Refreshed v p now syState v₁ v₂ p₁) (t : UInt32) :
    v₂.isActive t = v.isActive t := by
  rw [hr.earned.sameView.isActive, hr.updated.isActive]

theorem Refreshed.ptSupply (hr : Refreshed v p now syState v₁ v₂ p₁) :
    v₂.ptSupply = v.ptSupply := by
  obtain ⟨c, t, -, -, -, h⟩ := hr.earned.credit
  rw [h]
  exact hr.updated.ptSupply

/-- The events of an operation that touches the vault's and a user's position start alike. -/
theorem refresh_earn_events {i : Nat} {rest : VaultRun}
    (hread : op.syRead = some (now, syState)) (hA : A (w, g) op)
    (hP : ∀ s ∈ w.ownStaging now syState ++ w.userStaging now syState i, P s)
    (hu : w.userPositions[i]? = some u)
    (hr : Refreshed w.vault w.yieldPosition now syState v₁ v₂ p₁)
    (hearn : u.earnAllWithTracking v₂ = .ok (v₃, u₁))
    (hrest : VaultEvent A P
      ({ w with
          vault := v₃, yieldPosition := p₁, userPositions := w.userPositions.set i u₁
          clock := now }, g.sawSyState now w.vault v₂) rest) :
    ReflTransGen (VaultEvent A P) (w, g) rest := by
  rw [VaultWorld.ownStaging_of_refreshed hr, VaultWorld.userStaging_of_refreshed hr hu] at hP
  have hown : P ⟨.vault, v₁, w.yieldPosition⟩ := hP _ (by simp)
  have huser : P ⟨.user i, v₂, u⟩ := hP _ (by simp)
  have h₁ : VaultEvent A P (w, g) _ := .refresh hread hA hr hown
  exact .head h₁ (.head (.earn (i := i) hu huser hearn) (.single hrest))

/-- **An operation is a sequence of events**, and so is what the ledger records of it. -/
theorem step_events (hA : A (w, g) op) (htimely : op.Timely w) (hP : ∀ s ∈ w.stagings op, P s)
    (h : w.step op = .ok w') :
    ReflTransGen (VaultEvent A P) (w, g) (w', g.record w op w') := by
  have hP : ∀ s ∈ w.stagingsDuring op, P s := by
    simpa only [VaultWorld.stagings, h] using hP
  cases op with
  | initializeYieldPosition owner key =>
    cases h
    exact .single .openPosition
  | strip now syState x =>
    obtain ⟨v₁, v₂, p₁, v', p', py, hr, he, hm, rfl⟩ := VaultWorld.step_strip h
    simp only [VaultWorld.stagingsDuring, VaultWorld.ownStaging_of_refreshed hr] at hP
    have hactive : v₂.isActive now = .ok true := by rw [hr.isActive]; exact htimely
    have h₁ : VaultEvent A P (w, g) _ := .refresh rfl hA hr (hP _ (by simp))
    have h₂ := VaultEvent.mint (A := A) (P := P) (g := g.sawSyState now w.vault v₂)
      (w := { w with vault := v₂, yieldPosition := p₁, clock := now }) hactive he
      hr.earned.justEarned hm
    obtain ⟨e, t, s, -, ht, rfl⟩ := hm.vault
    rw [hr.ptSupply] at ht
    have hpy : t.toNat - w.vault.ptSupply.toNat = py.toNat := by omega
    simp only [VaultLedger.record, hpy]
    exact .head h₁ (.single h₂)
  | merge now syState a =>
    obtain ⟨v₁, v₂, p₁, v', p', x, hr, he, hb, rfl⟩ := VaultWorld.step_merge h
    simp only [VaultWorld.stagingsDuring, VaultWorld.ownStaging_of_refreshed hr] at hP
    have h₁ : VaultEvent A P (w, g) _ := .refresh rfl hA hr (hP _ (by simp))
    have h₂ := VaultEvent.burn (A := A) (P := P) (g := g.sawSyState now w.vault v₂)
      (w := { w with vault := v₂, yieldPosition := p₁, clock := now }) he
      hr.earned.justEarned hb
    obtain ⟨e, t, s, -, ht, rfl⟩ := hb.vault
    rw [hr.ptSupply] at ht
    have ha : w.vault.ptSupply.toNat - t.toNat = a.toNat := by omega
    simp only [hr.isActive] at h₂
    simp only [VaultLedger.record, ha]
    exact .head h₁ (.single h₂)
  | depositYt now syState i a =>
    obtain ⟨u, v₁, v₂, p₁, v₃, u₁, v', p', u', hu, hr, he, hearn, hm, rfl⟩ :=
      VaultWorld.step_depositYt h
    have hview := (earned_of_ok hearn).sameView
    have hactive : v₃.isActive now = .ok true := by
      rw [hview.isActive, hr.isActive]; exact htimely
    have hlen := (List.getElem?_eq_some_iff.1 hu).1
    have hfinal := VaultEvent.deposit (A := A) (P := P) (g := g.sawSyState now w.vault v₂)
      (w := { w with
        vault := v₃, yieldPosition := p₁, userPositions := w.userPositions.set i u₁
        clock := now }) (i := i) (List.getElem?_set_self hlen) hactive
      (hview.isInEmergencyMode ▸ he) (hview.justEarned hr.earned.justEarned)
      (earned_of_ok hearn).justEarned hm
    obtain ⟨s, hs⟩ := hm.vault
    have hlast : v'.lastSeenSyExchangeRate = v₂.lastSeenSyExchangeRate := by
      rw [hs]; exact hview.lastSeen
    have hemissions : v'.emissions = v₂.emissions := by rw [hs]; exact hview.emissions
    refine refresh_earn_events rfl hA hP hu hr hearn ?_
    rw [VaultLedger.record, VaultLedger.sawSyState_congr hlast hemissions]
    simpa only [VaultWorld.setPosition, List.set_set] using hfinal
  | withdrawYt now syState i a =>
    obtain ⟨u, v₁, v₂, p₁, v₃, u₁, v', p', u', hu, hr, hearn, hm, rfl⟩ :=
      VaultWorld.step_withdrawYt h
    have hview := (earned_of_ok hearn).sameView
    have hactive : v₃.isActive now = .ok true := by
      rw [hview.isActive, hr.isActive]; exact htimely
    have hlen := (List.getElem?_eq_some_iff.1 hu).1
    have hfinal := VaultEvent.withdraw (A := A) (P := P) (g := g.sawSyState now w.vault v₂)
      (w := { w with
        vault := v₃, yieldPosition := p₁, userPositions := w.userPositions.set i u₁
        clock := now }) (i := i) (List.getElem?_set_self hlen) hactive
      (hview.justEarned hr.earned.justEarned) (earned_of_ok hearn).justEarned hm
    obtain ⟨s, hs⟩ := hm.vault
    have hlast : v'.lastSeenSyExchangeRate = v₂.lastSeenSyExchangeRate := by
      rw [hs]; exact hview.lastSeen
    have hemissions : v'.emissions = v₂.emissions := by rw [hs]; exact hview.emissions
    refine refresh_earn_events rfl hA hP hu hr hearn ?_
    rw [VaultLedger.record, VaultLedger.sawSyState_congr hlast hemissions]
    simpa only [VaultWorld.setPosition, List.set_set] using hfinal
  | stageYield now syState i =>
    obtain ⟨u, v₁, v₂, p₁, v₃, u₁, v', hu, hr, he, hearn, ⟨s, rfl⟩, hb, rfl⟩ :=
      VaultWorld.step_stageYield h
    have hview := (earned_of_ok hearn).sameView
    refine refresh_earn_events rfl hA hP hu hr hearn ?_
    have hlast : { v₃ with syForPt := s }.lastSeenSyExchangeRate = v₂.lastSeenSyExchangeRate :=
      hview.lastSeen
    rw [VaultLedger.record, VaultLedger.sawSyState_congr hlast hview.emissions]
    exact .rebalance hb
  | collectInterest now i amount =>
    obtain ⟨u, a, v₁, u₁, v', u', hu, -, hearn, hp, rfl⟩ := VaultWorld.step_collectInterest h
    simp only [VaultWorld.stagingsDuring, hu, Option.toList_some] at hP
    have h₁ : VaultEvent A P (w, g) _ := .earn (i := i) hu (hP _ (by simp)) hearn
    have hlen := (List.getElem?_eq_some_iff.1 hu).1
    have h₂ := VaultEvent.payInterest (A := A) (P := P) (g := g)
      (w := { w.setPosition (.user i) u₁ with vault := v₁ }) (h := .user i)
      (List.getElem?_set_self hlen) hp
    obtain ⟨c, t, -, -, -, hv₁⟩ := (earned_of_ok hearn).credit
    obtain ⟨e, c', he, -, rfl⟩ := hp.vault
    rw [hv₁] at he
    have ha : w.vault.totalSyInEscrow.toNat - e.toNat = a.toNat := by
      simp only at he
      omega
    simp only [VaultLedger.record, ha]
    refine .head h₁ (.single ?_)
    simpa only [VaultWorld.setPosition, List.set_set] using h₂
  | collectTreasuryInterest amount kind =>
    obtain ⟨v', p', a, rfl, ⟨rfl, hp⟩ | ⟨rfl, rfl, ht⟩⟩ :=
      VaultWorld.step_collectTreasuryInterest h
    · have h₁ := VaultEvent.payInterest (A := A) (P := P) (g := g) (h := .vault) rfl hp
      obtain ⟨e, c, he, -, rfl⟩ := hp.vault
      have ha : w.vault.totalSyInEscrow.toNat - e.toNat = a.toNat := by omega
      simp only [VaultLedger.record, ha]
      exact .single h₁
    · exact .single (.payTreasury ht)
  | collectEmission i index amount =>
    obtain ⟨u, a, u', hu, ha, rfl⟩ := VaultWorld.step_collectEmission h
    have h₁ := VaultEvent.payEmission (A := A) (P := P) (g := g) (h := .user i) hu ha
    rw [← stagedEmission_setPosition (h := .user i) hu ha] at h₁
    exact .single h₁
  | collectTreasuryEmission index amount kind =>
    obtain ⟨rfl, a, p', ha, rfl⟩ | ⟨rfl, a, e, t, he, ht, rfl⟩ :=
      VaultWorld.step_collectTreasuryEmission h
    · have h₁ := VaultEvent.payEmission (A := A) (P := P) (w := w) (g := g) (h := .vault) rfl ha
      rw [← stagedEmission_setPosition (w := w) (h := .vault) rfl ha] at h₁
      exact .single h₁
    · have hlen := (List.getElem?_eq_some_iff.1 he).1
      have hpaid : w.treasuryEmission index.toNat - t.toNat = a.toNat := by
        simp only [VaultWorld.treasuryEmission, he, Option.map_some, Option.getD_some]
        omega
      have hnew : VaultWorld.treasuryEmission { w with vault := { w.vault with
          emissions := w.vault.emissions.set index.toNat { e with treasuryEmission := t } } }
          index.toNat = t.toNat := by
        simp [VaultWorld.treasuryEmission, hlen]
      simp only [VaultLedger.record, hnew, hpaid]
      exact .single (.payTreasuryEmission he ht)
  | addEmission accounts syState token treasury fee =>
    obtain ⟨i, hi, rfl⟩ := VaultWorld.step_addEmission h
    exact .single (.addEmission hA hi)
  | removeVaultEmission index =>
    obtain ⟨-, rfl⟩ := VaultWorld.step_removeVaultEmission h
    exact .single (.removeEmission hA)

theorem VaultRun.admits {Q : VaultWorld → VaultOp → Prop} {ops : List VaultOp}
    (h : Machine.Admits VaultWorld.step Q w ops) :
    Machine.Admits VaultRun.step (fun r op => Q r.1 op) (w, g) ops :=
  Machine.admits_recording.2 h

/-- What every event preserves, a successful operation preserves. -/
theorem VaultRun.step_induction {I : VaultRun → Prop}
    (hevent : ∀ r r', I r → VaultEvent A P r r' → I r') (hinv : I (w, g))
    (hA : A (w, g) op) (htimely : op.Timely w) (hP : ∀ s ∈ w.stagings op, P s)
    (h : w.step op = .ok w') : I (w', g.record w op w') := by
  have hevents := step_events (g := g) hA htimely hP h
  clear h
  generalize (w', g.record w op w') = r' at hevents
  induction hevents with
  | refl => exact hinv
  | tail _ he ih => exact hevent _ _ ih he

/-- The invariant rule for runs of the vault: one case for each kind of event. -/
theorem VaultRun.induction {Inv : VaultRun → Prop} {w₀ : VaultWorld} {ops : List VaultOp}
    (hevent : ∀ r r', Inv r → VaultEvent A P r r' → Inv r') (h₀ : Inv (w₀, {}))
    (hadm : Machine.Admits VaultRun.step
      (fun r op => A r op ∧ op.Timely r.1 ∧ ∀ s ∈ r.1.stagings op, P s) (w₀, {}) ops) :
    Inv (VaultRun.of w₀ ops) := by
  refine Machine.run_induction ?_ h₀ hadm
  rintro ⟨w, g⟩ op r' hinv ⟨hA, htimely, hP⟩ hstep
  obtain ⟨w', hs, rfl⟩ := Machine.recording_eq_ok.1 hstep
  exact step_induction hevent hinv hA htimely hP hs

end

end ExponentCore
