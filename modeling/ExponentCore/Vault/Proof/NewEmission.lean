import ExponentCore.Vault.Proof.EmissionSolvency

/-!
# What a newly added emission pays

`add_emission` records the index at which an emission was added, but the missing trackers of the
positions are created at zero, in whichever instruction stages a position first. A staging that
finds the tracker below the initial index pays the growth below it too. When no staging does so with
anything to pay on (`Staging.FromFloor`), a run pays each position at most the growth above the
initial index on its SY balance (`emissionCredited_le_growthAboveInitial`). Nothing stops the SY
program from reporting an index below the initial one later either (`VaultOp.KeepsFloor`).
-/

set_option autoImplicit false

namespace ExponentCore

open Number

namespace VaultOp

/-- **What a later operation has to keep**: the report names no index below the floor for the
emission of a slot, and the emission stays in its slot. -/
def KeepsFloor (slot : Nat) (floor : Number) : VaultOp → Prop
  | .removeVaultEmission index => slot < index.toNat
  | op => ∀ r ∈ op.syRead, ∀ x ∈ r.2.emissionIndexes[slot]?, floor ≤ x

instance (slot : Nat) (floor : Number) : ∀ op : VaultOp, Decidable (op.KeepsFloor slot floor)
  | .removeVaultEmission _ => inferInstanceAs (Decidable (_ < _))
  | .initializeYieldPosition .. | .strip .. | .merge .. | .depositYt .. | .withdrawYt ..
  | .stageYield .. | .collectInterest .. | .collectTreasuryInterest .. | .collectEmission ..
  | .collectTreasuryEmission .. | .addEmission .. =>
    inferInstanceAs (Decidable (∀ _ ∈ _, ∀ _ ∈ _, _ ≤ _))

theorem KeepsFloor.read {slot : Nat} {floor : Number} {op : VaultOp} {now : UInt32}
    {syState : SyState} (h : op.KeepsFloor slot floor) (hread : op.syRead = some (now, syState)) :
    ∀ x ∈ syState.emissionIndexes[slot]?, floor ≤ x := by
  cases op with
  | removeVaultEmission => cases hread
  | _ => exact h _ hread

end VaultOp

namespace Staging

variable (s : Staging) (slot : Nat)

/-- The balance that the staging pays emissions on. -/
def syBalance : Nat :=
  match (do
    let (vault, position) ← (s.position.ensureTrackers s.vault).earnSyInterest s.vault
    position.totalSyBalance vault : Outcome UInt64) with
  | .ok b => b.toNat
  | .error _ => 0

/-- The final index of the emission of a slot, which the staging pays up to. -/
def finalIndex : Nat := ((s.vault.emissions[slot]?).map fun e => e.finalIndex.raw).getD 0

/-- What the staging pays on the emission of a slot. -/
def paid : Nat := (s.finalIndex slot - s.position.trackerIndex slot) * s.syBalance / denom

/-- The growth of the index above a floor, on the balance that is paid on. -/
def dueAbove (floor : Number) : Nat :=
  (s.finalIndex slot - max (s.position.trackerIndex slot) floor.raw) * s.syBalance

/-- **The condition**: the staging finds the tracker at the floor or beyond, or there is nothing to
pay on. -/
def FromFloor (floor : Number) : Prop :=
  floor.raw ≤ s.position.trackerIndex slot ∨
    s.position.ytBalance = 0 ∧ s.position.interest.staged = 0

instance (floor : Number) : Decidable (s.FromFloor slot floor) :=
  inferInstanceAs (Decidable (_ ∨ _))

end Staging

namespace VaultWorld

variable (w : VaultWorld) (k : Holder) (slot : Nat)

/-- What a holder has staged of the emission of a slot. -/
def stagedAt : Nat := ((w.position? k).map fun p => p.stagedEmission slot).getD 0

/-- What an operation credits to a holder: by how much the staged emission rises. -/
def credited (op : VaultOp) : Nat :=
  (Machine.next step w op).stagedAt k slot - w.stagedAt k slot

/-- What the stagings of a holder are due for the growth above a floor. -/
def dueAbove (floor : Number) (op : VaultOp) : Nat :=
  (((w.stagings op).filter (·.holder = k)).map fun s => s.dueAbove slot floor).sum

end VaultWorld

section
variable {w w' : VaultWorld} {v v' v₁ v₂ : Vault} {p p' p₁ u u' : YieldTokenPosition}
  {now : UInt32} {syState : SyState} {k : Holder} {slot : Nat} {op : VaultOp} {floor : Number}
  {s : Staging}

/-! ## One staging -/

theorem Staging.syBalance_of_ok (h : p.earnAllWithTracking v = .ok (v', p')) :
    Staging.syBalance ⟨k, v, p⟩ = p'.interest.staged.toNat
      + p.ytBalance.toNat * denom / v.finalSyExchangeRate.raw := by
  simp only [YieldTokenPosition.earnAllWithTracking, YieldTokenPosition.earnAll, bind_eq_ok,
    Prod.exists] at h
  obtain ⟨v₁, p₁, h₁, p₂, h₂, heq⟩ := h
  obtain ⟨rfl, rfl⟩ := Prod.mk.inj (Except.ok.inj heq)
  simp only [YieldTokenPosition.earnEmissions, bind_eq_ok, Except.ok.injEq] at h₂
  obtain ⟨b, hb, es, -, rfl⟩ := h₂
  have hrun : (do
      let (vault, position) ← (p.ensureTrackers v).earnSyInterest v
      position.totalSyBalance vault : Outcome UInt64) = .ok b :=
    bind_eq_ok.2 ⟨(v₁, p₁), h₁, hb⟩
  simp only [Staging.syBalance, hrun]
  simp only [YieldTokenPosition.totalSyBalance, bind_eq_ok, pyToSy_eq_ok, addU64_eq_ok] at hb
  obtain ⟨sy, ⟨-, hsy⟩, hb⟩ := hb
  obtain ⟨c, t, -, -, rfl, s, -, rfl⟩ := earnSyInterest_eq_ok h₁
  rw [hb, hsy]
  rfl

theorem Staging.paid_of_ok {s : Nat} (h : p.earnAllWithTracking v = .ok (v', p')) :
    p'.stagedEmission s = p.stagedEmission s + Staging.paid ⟨k, v, p⟩ s := by
  have hearned := earned_of_ok h
  simp only [Staging.paid, Staging.finalIndex]
  cases he : v.emissions[s]? with
  | none =>
    have hsame := hearned.tracker_of_none he
    simp [YieldTokenPosition.stagedEmission, hsame]
  | some e =>
    obtain ⟨b, hb, -, hpaid⟩ := hearned.tracker he
    rw [hpaid, hb, ← Staging.syBalance_of_ok (k := k) h]
    rfl

theorem Staging.syBalance_of_idle (h : p.earnAllWithTracking v = .ok (v', p'))
    (hidle : p.ytBalance = 0 ∧ p.interest.staged = 0) : Staging.syBalance ⟨k, v, p⟩ = 0 := by
  obtain ⟨c, t, hc, hs, -, -⟩ := (earned_of_ok h).credit
  rw [Staging.syBalance_of_ok h, hs, YieldTokenPosition.credit_zero_balance hidle.1 hc, hidle.1,
    hidle.2]
  simp

/-- A staging that went through pays no more than is due above the floor, if it starts from it. -/
theorem Staging.paid_le_dueAbove (h : s.position.earnAllWithTracking s.vault = .ok (v', p'))
    (hs : s.FromFloor slot floor) : s.paid slot * denom ≤ s.dueAbove slot floor := by
  rcases hs with hle | hidle
  · rw [Staging.dueAbove, max_eq_left hle]
    exact Nat.div_mul_le_self _ _
  · rw [Staging.paid, Staging.syBalance_of_idle h hidle, Nat.mul_zero, Nat.zero_div, Nat.zero_mul]
    exact Nat.zero_le _

/-! ## One operation -/

/-- What the stagings of an operation pay to a holder. -/
def VaultWorld.paidTo (w : VaultWorld) (k : Holder) (slot : Nat) (op : VaultOp) : Nat :=
  (((w.stagingsDuring op).filter (·.holder = k)).map fun s => s.paid slot).sum

/-- What the staging of the vault's own position and the staging of a user's position leave. -/
structure StagedBy (w : VaultWorld) (slot : Nat) (op : VaultOp) (w' : VaultWorld) : Prop where
  through : ∀ s ∈ w.stagingsDuring op, ∃ r, s.position.earnAllWithTracking s.vault = .ok r
  staged : ∀ k, w'.stagedAt k slot ≤ w.stagedAt k slot + w.paidTo k slot op

theorem stagedAt_user {i j : Nat} (hu : w.userPositions[j]? = some u)
    (hw : w'.userPositions = w.userPositions.set j u') :
    w'.stagedAt (.user i) slot
      = if i = j then u'.stagedEmission slot else w.stagedAt (.user i) slot := by
  have hlen := (List.getElem?_eq_some_iff.1 hu).1
  simp only [VaultWorld.stagedAt, VaultWorld.position?, hw]
  split
  · rename_i h
    rw [h, List.getElem?_set_self hlen]
    rfl
  · rename_i h
    rw [List.getElem?_set_ne (Ne.symm h)]

theorem stagedAt_vault : w.stagedAt .vault slot = w.yieldPosition.stagedEmission slot := rfl

theorem stagedAt_of_get {i : Nat} (hu : w.userPositions[i]? = some u) :
    w.stagedAt (.user i) slot = u.stagedEmission slot := by
  simp only [VaultWorld.stagedAt, VaultWorld.position?, hu, Option.map_some, Option.getD_some]

/-- An operation that stages nothing only lowers what is staged. -/
theorem StagedBy.of_le (hst : w.stagingsDuring op = [])
    (hle : ∀ k, w'.stagedAt k slot ≤ w.stagedAt k slot) : StagedBy w slot op w' where
  through s hs := by rw [hst] at hs; cases hs
  staged k := (hle k).trans (Nat.le_add_right _ _)

/-- An operation that only refreshes. -/
theorem StagedBy.of_refreshed
    (hr : Refreshed w.vault w.yieldPosition now syState v₁ v₂ p₁)
    (hst : w.stagingsDuring op = w.ownStaging now syState)
    (hp : w'.yieldPosition.emissions = p₁.emissions) (hu : w'.userPositions = w.userPositions) :
    StagedBy w slot op w' where
  through s hs := by
    rw [hst, VaultWorld.ownStaging_of_refreshed hr, List.mem_singleton] at hs
    subst hs
    exact ⟨_, hr.earn⟩
  staged k := by
    have hown := Staging.paid_of_ok (k := .vault) (s := slot) hr.earn
    rw [VaultWorld.paidTo, hst, VaultWorld.ownStaging_of_refreshed hr]
    cases k with
    | vault =>
      simp only [List.filter_cons, decide_true, ↓reduceIte, List.filter_nil, List.map_cons,
        List.map_nil, List.sum_cons, List.sum_nil, stagedAt_vault]
      simp only [YieldTokenPosition.stagedEmission, hp] at hown ⊢
      omega
    | user i =>
      simp only [VaultWorld.stagedAt, VaultWorld.position?, hu]
      exact Nat.le_add_right _ _

/-- An operation that refreshes and stages a user's position. -/
theorem StagedBy.of_earned {i : Nat} {v₃ : Vault} {u₁ : YieldTokenPosition}
    (hr : Refreshed w.vault w.yieldPosition now syState v₁ v₂ p₁)
    (hu : w.userPositions[i]? = some u) (hearn : u.earnAllWithTracking v₂ = .ok (v₃, u₁))
    (hst : w.stagingsDuring op = w.ownStaging now syState ++ w.userStaging now syState i)
    (hp : w'.yieldPosition.emissions = p₁.emissions)
    (hw : w'.userPositions = w.userPositions.set i u') (hu' : u'.emissions = u₁.emissions) :
    StagedBy w slot op w' where
  through s hs := by
    rw [hst, VaultWorld.ownStaging_of_refreshed hr, VaultWorld.userStaging_of_refreshed hr hu] at hs
    simp only [List.cons_append, List.nil_append, List.mem_cons, List.not_mem_nil, or_false] at hs
    rcases hs with rfl | rfl
    · exact ⟨_, hr.earn⟩
    · exact ⟨_, hearn⟩
  staged k := by
    have hown := Staging.paid_of_ok (k := .vault) (s := slot) hr.earn
    have huser := Staging.paid_of_ok (k := .user i) (s := slot) hearn
    rw [VaultWorld.paidTo, hst, VaultWorld.ownStaging_of_refreshed hr,
      VaultWorld.userStaging_of_refreshed hr hu]
    cases k with
    | vault =>
      simp only [YieldTokenPosition.stagedEmission] at hown
      simp [stagedAt_vault, YieldTokenPosition.stagedEmission, hp]
      omega
    | user j =>
      rw [stagedAt_user hu hw]
      by_cases hj : j = i
      · subst hj
        simp only [YieldTokenPosition.stagedEmission] at huser
        simp [stagedAt_of_get hu, YieldTokenPosition.stagedEmission, hu']
        omega
      · rw [if_neg hj]
        exact Nat.le_add_right _ _

/-- An operation that replaces a user's position by one that has not staged more. -/
theorem stagedAt_set_le {i : Nat} (hu : w.userPositions[i]? = some u)
    (hy : w'.yieldPosition = w.yieldPosition) (hw : w'.userPositions = w.userPositions.set i u')
    (hle : u'.stagedEmission slot ≤ u.stagedEmission slot) (k : Holder) :
    w'.stagedAt k slot ≤ w.stagedAt k slot := by
  cases k with
  | vault => rw [stagedAt_vault, stagedAt_vault, hy]
  | user j =>
    rw [stagedAt_user hu hw]
    split
    · rename_i hj
      rw [hj, stagedAt_of_get hu]
      exact hle
    · exact le_rfl

theorem stagedEmission_collect_le {index : UInt16} {a : UInt64}
    (h : p.collectEmissionAt index a = .ok p') :
    p'.stagedEmission slot ≤ p.stagedEmission slot := by
  have hpaid := stagedEmission_paid (s := slot) (g := {}) h
  have hzero : ({} : VaultLedger).emissionPaid slot = 0 := rfl
  omega

theorem stagedBy_of_ok {s : Nat} (h : w.step op = .ok w') : StagedBy w s op w' := by
  cases op with
  | initializeYieldPosition owner key =>
    cases h
    refine .of_le rfl fun k => ?_
    cases k with
    | vault => exact le_rfl
    | user i =>
      simp only [VaultWorld.stagedAt, VaultWorld.position?, List.getElem?_append]
      split
      · exact le_rfl
      · cases hget :
          [({ owner, vault := key } : YieldTokenPosition)][i - w.userPositions.length]? with
        | none => exact Nat.zero_le _
        | some u =>
          obtain rfl := List.mem_singleton.1 (List.mem_of_getElem? hget)
          exact Nat.zero_le _
  | strip now syState x =>
    obtain ⟨v₁, v₂, p₁, v', p', py, hr, -, hm, rfl⟩ := VaultWorld.step_strip h
    exact .of_refreshed hr rfl hm.emissions.2 rfl
  | merge now syState a =>
    obtain ⟨v₁, v₂, p₁, v', p', x, hr, -, hb, rfl⟩ := VaultWorld.step_merge h
    exact .of_refreshed hr rfl hb.emissions.2 rfl
  | depositYt now syState i a =>
    obtain ⟨u, v₁, v₂, p₁, v₃, u₁, v', p', u', hu, hr, -, hearn, hm, rfl⟩ :=
      VaultWorld.step_depositYt h
    exact .of_earned hr hu hearn rfl hm.emissions.2.1 rfl hm.emissions.2.2
  | withdrawYt now syState i a =>
    obtain ⟨u, v₁, v₂, p₁, v₃, u₁, v', p', u', hu, hr, hearn, hm, rfl⟩ :=
      VaultWorld.step_withdrawYt h
    exact .of_earned hr hu hearn rfl hm.emissions.2.2 rfl hm.emissions.2.1
  | stageYield now syState i =>
    obtain ⟨u, v₁, v₂, p₁, v₃, u₁, v', hu, hr, -, hearn, -, -, rfl⟩ :=
      VaultWorld.step_stageYield h
    exact .of_earned hr hu hearn rfl rfl rfl rfl
  | collectInterest now i amount =>
    obtain ⟨u, a, v₁, u₁, v', u', hu, -, hearn, hpay, rfl⟩ := VaultWorld.step_collectInterest h
    have hst : w.stagingsDuring (.collectInterest now i amount) = [⟨.user i, w.vault, u⟩] := by
      simp [VaultWorld.stagingsDuring, hu]
    refine ⟨fun s hs => ?_, fun k => ?_⟩
    · rw [hst, List.mem_singleton] at hs
      subst hs
      exact ⟨_, hearn⟩
    · have huser := Staging.paid_of_ok (k := .user i) (s := s) hearn
      rw [VaultWorld.paidTo, hst]
      cases k with
      | vault => exact Nat.le_add_right _ _
      | user j =>
        rw [stagedAt_user hu rfl]
        by_cases hj : j = i
        · subst hj
          simp only [YieldTokenPosition.stagedEmission] at huser
          simp [stagedAt_of_get hu, YieldTokenPosition.stagedEmission, hpay.emissions.2]
          omega
        · rw [if_neg hj]
          exact Nat.le_add_right _ _
  | collectTreasuryInterest amount kind =>
    obtain ⟨v', p', a, rfl, hpay⟩ := VaultWorld.step_collectTreasuryInterest h
    refine .of_le rfl fun k => ?_
    cases k with
    | vault =>
      have hsame : p'.emissions = w.yieldPosition.emissions := by
        rcases hpay with ⟨-, hp⟩ | ⟨-, rfl, -⟩
        · exact hp.emissions.2
        · rfl
      simp [stagedAt_vault, YieldTokenPosition.stagedEmission, hsame]
    | user i => exact le_rfl
  | collectEmission i index amount =>
    obtain ⟨u, a, u', hu, ha, rfl⟩ := VaultWorld.step_collectEmission h
    exact .of_le rfl (stagedAt_set_le hu rfl rfl (stagedEmission_collect_le ha))
  | collectTreasuryEmission index amount kind =>
    refine .of_le rfl fun k => ?_
    obtain ⟨-, a, p', ha, rfl⟩ | ⟨-, a, e, t, -, -, rfl⟩ :=
      VaultWorld.step_collectTreasuryEmission h
    · cases k with
      | vault => exact stagedEmission_collect_le ha
      | user i => exact le_rfl
    · exact le_rfl
  | addEmission accounts syState token treasury fee =>
    obtain ⟨i, -, rfl⟩ := VaultWorld.step_addEmission h
    exact .of_le rfl fun _ => le_rfl
  | removeVaultEmission index =>
    obtain ⟨-, rfl⟩ := VaultWorld.step_removeVaultEmission h
    exact .of_le rfl fun _ => le_rfl

/-- What an operation credits is due above the floor, if its stagings start from it. -/
theorem credited_le_dueAbove
    (hf : ∀ s ∈ w.stagings op, s.holder = k → s.FromFloor slot floor) :
    w.credited k slot op * denom ≤ w.dueAbove k slot floor op := by
  unfold VaultWorld.credited VaultWorld.dueAbove
  rcases Machine.next_cases VaultWorld.step w op with ⟨w', h, hn⟩ | ⟨-, hn⟩
  · have hst : w.stagings op = w.stagingsDuring op := by simp only [VaultWorld.stagings, h]
    rw [hst] at hf ⊢
    have hby := stagedBy_of_ok (s := slot) h
    have hcredit : w'.stagedAt k slot - w.stagedAt k slot ≤ w.paidTo k slot op := by
      have := hby.staged k
      omega
    rw [hn]
    refine (Nat.mul_le_mul_right _ hcredit).trans ?_
    rw [VaultWorld.paidTo, ← List.sum_map_mul_right]
    refine List.sum_le_sum fun s hs => ?_
    obtain ⟨hmem, hk⟩ := List.mem_filter.1 hs
    obtain ⟨⟨v', p'⟩, hearn⟩ := hby.through s hmem
    exact Staging.paid_le_dueAbove hearn (hf s hmem (by simpa using hk))
  · rw [hn, Nat.sub_self, Nat.zero_mul]
    exact Nat.zero_le _

/-! ## Trackers that start from the floor -/

/-- **From the floor on**: the emission of the slot is at the floor or beyond, and the holder's
tracker is too, unless its position holds nothing yet. -/
structure Floored (k : Holder) (slot : Nat) (floor : Number) (w : VaultWorld) : Prop where
  emission : ∃ e, w.vault.emissions[slot]? = some e ∧ floor ≤ e.finalIndex
  tracker : ∀ p, w.position? k = some p →
    floor.raw ≤ p.trackerIndex slot ∨ p.ytBalance = 0 ∧ p.interest.staged = 0

theorem Floored.setPosition {q : YieldTokenPosition} {h : Holder} (hf : Floored k slot floor w)
    (hp : w.position? h = some p)
    (hnew : k = h →
      floor.raw ≤ q.trackerIndex slot ∨ q.ytBalance = 0 ∧ q.interest.staged = 0) :
    Floored k slot floor (w.setPosition h q) where
  emission := by simpa using hf.emission
  tracker q hq := by
    rw [VaultWorld.position?_setPosition hp] at hq
    split at hq
    · rename_i hk
      obtain rfl := Option.some.inj hq
      exact hnew hk
    · exact hf.tracker q hq

theorem Floored.withVault (hf : Floored k slot floor w)
    (he : ∀ e, w.vault.emissions[slot]? = some e → floor ≤ e.finalIndex →
      ∃ e', v'.emissions[slot]? = some e' ∧ floor ≤ e'.finalIndex) :
    Floored k slot floor { w with vault := v' } where
  emission := by
    obtain ⟨e, hget, hfin⟩ := hf.emission
    exact he e hget hfin
  tracker := hf.tracker

theorem Floored.sameEmissions (hf : Floored k slot floor w)
    (he : v'.emissions = w.vault.emissions) : Floored k slot floor { w with vault := v' } :=
  hf.withVault fun e hget hfin => ⟨e, he ▸ hget, hfin⟩

/-- A settled position is at the final index. -/
theorem Floored.settled (hf : Floored k slot floor w) (hj : SettledWith w.vault p)
    (hs : p'.emissions = p.emissions) : floor.raw ≤ p'.trackerIndex slot := by
  obtain ⟨e, hget, hfin⟩ := hf.emission
  have hsame : p'.trackerIndex slot = p.trackerIndex slot := by
    rw [YieldTokenPosition.trackerIndex, hs, YieldTokenPosition.trackerIndex]
  rw [hsame, hj.trackerIndex hget]
  exact hfin

/-- An update that reports no index below the floor keeps it, and leaves the vault's own position at
the final index. -/
theorem Floored.refresh (hf : Floored k slot floor w)
    (hr : Refreshed w.vault w.yieldPosition now syState v₁ v₂ p₁)
    (hreport : ∀ x ∈ syState.emissionIndexes[slot]?, floor ≤ x) :
    Floored k slot floor { w with vault := v₂, yieldPosition := p₁, clock := now } := by
  have hnew : Floored k slot floor { w with vault := v₂ } := by
    refine hf.withVault fun e hget hfin => ?_
    obtain ⟨e', hget', hu⟩ := emissionUpdated_of_ok hr.update hget
    refine ⟨e', hr.earned.sameView.emissions ▸ hget', ?_⟩
    rcases hu.final with ⟨-, hf'⟩ | ⟨-, hf'⟩
    · rw [hf']
      unfold reportedIndex
      cases hx : syState.emissionIndexes[slot]? with
      | none => exact hfin
      | some x => exact hreport x hx
    · rw [hf']
      exact hfin
  have hset := hnew.setPosition (h := .vault) (q := p₁) rfl
    (fun _ => .inl (hnew.settled hr.earned.justEarned.settled rfl))
  exact ⟨hset.emission, hset.tracker⟩

theorem Floored.event {A : VaultRun → VaultOp → Prop} {P : Staging → Prop} {r r' : VaultRun}
    (hA : ∀ r op, A r op → op.KeepsFloor slot floor)
    (hf : Floored k slot floor r.1) (he : VaultEvent A P r r') :
    Floored k slot floor r'.1 := by
  cases he with
  | refresh hread hop hr hP => exact hf.refresh hr ((hA _ _ hop).read hread)
  | earn hu hP hearn =>
    have he := earned_of_ok hearn
    have hv := hf.sameEmissions he.sameView.emissions
    have hset := hf.setPosition hu (fun _ => .inl (hv.settled he.justEarned.settled rfl))
    exact hset.sameEmissions (by simpa using he.sameView.emissions)
  | mint hactive hcalm hj hm =>
    have hset := hf.setPosition (h := .vault) rfl fun _ =>
      .inl (hf.settled hj.settled hm.emissions.2)
    exact hset.sameEmissions hm.emissions.1
  | burn hcalm hj hb =>
    have hset := hf.setPosition (h := .vault) rfl fun _ =>
      .inl (hf.settled hj.settled hb.emissions.2)
    exact hset.sameEmissions hb.emissions.1
  | @deposit w g i u a v' p' u' hu hactive hcalm hj hju hm =>
    have hset := hf.setPosition (h := .vault) rfl fun _ =>
      .inl (hf.settled hj.settled hm.emissions.2.1)
    have hset' := hset.setPosition (h := .user i) hu fun _ =>
      .inl (hf.settled hju.settled hm.emissions.2.2)
    exact hset'.sameEmissions hm.emissions.1
  | @withdraw w g i u a v' p' u' hu hactive hj hju hm =>
    have hset := hf.setPosition (h := .vault) rfl fun _ =>
      .inl (hf.settled hj.settled hm.emissions.2.2)
    have hset' := hset.setPosition (h := .user i) hu fun _ =>
      .inl (hf.settled hju.settled hm.emissions.2.1)
    exact hset'.sameEmissions hm.emissions.1
  | rebalance hb => exact hf.sameEmissions rfl
  | @payInterest w g h p a v' p' hp hpay =>
    obtain ⟨s, hs, hp'⟩ := hpay.position
    have hset := hf.setPosition (q := p') hp fun hk => by
      subst hk
      rcases hf.tracker p hp with hle | ⟨hy, hst⟩
      · exact .inl (by rw [hp']; exact hle)
      · -- what is paid was staged, so a position that holds nothing keeps holding nothing
        refine .inr ⟨by rw [hp']; exact hy, ?_⟩
        rw [hst, UInt64.toNat_zero] at hs
        rw [hp']
        exact UInt64.toNat_inj.1 (by simp; omega)
    exact hset.sameEmissions (by simpa using hpay.emissions.1)
  | payTreasury hpay => exact hf.sameEmissions hpay.emissions
  | @payEmission w g h p index a p' hp hpay =>
    refine hf.setPosition hp fun hk => ?_
    subst hk
    have hsame := collectEmissionAt_same hpay
    rw [trackerIndex_of_collectEmissionAt hpay, hsame.1, hsame.2]
    exact hf.tracker p hp
  | @payTreasuryEmission w g index a t e hget ht =>
    refine hf.withVault fun e₁ he₁ hfin => ?_
    by_cases hj : index.toNat = slot
    · subst hj
      have hlen := (List.getElem?_eq_some_iff.1 hget).1
      obtain rfl : e = e₁ := Option.some.inj (hget.symm.trans he₁)
      exact ⟨_, List.getElem?_set_self hlen, hfin⟩
    · exact ⟨e₁, (List.getElem?_set_ne hj).trans he₁, hfin⟩
  | @openPosition w g owner key =>
    refine ⟨hf.emission, fun q hq => ?_⟩
    cases k with
    | vault => exact hf.tracker q hq
    | user i =>
      simp only [VaultWorld.position?, List.getElem?_append] at hq
      split at hq
      · exact hf.tracker q hq
      · obtain rfl := List.mem_singleton.1 (List.mem_of_getElem? hq)
        exact .inr ⟨rfl, rfl⟩
  | addEmission hop hi =>
    refine hf.withVault fun e₁ he₁ hfin => ⟨e₁, ?_, hfin⟩
    exact (List.getElem?_append_left (List.getElem?_eq_some_iff.1 he₁).1).trans he₁
  | removeEmission hop =>
    exact hf.withVault fun e₁ he₁ hfin =>
      ⟨e₁, (List.getElem?_eraseIdx_of_lt (hA _ _ hop)).trans he₁, hfin⟩

/-- A staging of a holder is of the position that the operation finds. -/
theorem position?_of_staging (hs : s ∈ w.stagingsDuring op) :
    w.position? s.holder = some s.position := by
  have hown : ∀ {now syState}, s ∈ w.ownStaging now syState →
      w.position? s.holder = some s.position := by
    intro now syState hs
    unfold VaultWorld.ownStaging at hs
    split at hs
    · obtain rfl := List.mem_singleton.1 hs
      rfl
    · cases hs
  have huser : ∀ {now syState i}, s ∈ w.userStaging now syState i →
      w.position? s.holder = some s.position := by
    intro now syState i hs
    unfold VaultWorld.userStaging at hs
    split at hs
    · rename_i hu hv
      obtain rfl := List.mem_singleton.1 hs
      exact hu
    · cases hs
  cases op with
  | strip | merge => exact hown hs
  | depositYt | withdrawYt | stageYield =>
    rcases List.mem_append.1 hs with hs | hs
    · exact hown hs
    · exact huser hs
  | collectInterest now i amount =>
    obtain ⟨u, hu, rfl⟩ := List.mem_map.1 hs
    exact Option.mem_toList.1 hu
  | _ => cases hs

/-! ## Whole runs -/

/-- **No retroactive pay**: a position that holds nothing when an emission is added, or whose
tracker is already at the initial index, is credited at most the growth above the initial index on
its SY balance, over every later run in which the emission stays in its slot and no report names an
index below the initial one. -/
theorem emissionCredited_le_growthAboveInitial (w w' : VaultWorld) (accounts : CpiAccounts)
    (syState : SyState) (token treasury : Pubkey) (fee : UInt16) (e : EmissionInfo)
    (ops : List VaultOp) (k : Holder)
    (hadd : w.step (.addEmission accounts syState token treasury fee) = .ok w')
    (he : w'.vault.emissions[w.vault.emissions.length]? = some e)
    (hheld : ∀ p, w.position? k = some p →
      e.initialIndex.raw ≤ p.trackerIndex w.vault.emissions.length ∨
        p.ytBalance = 0 ∧ p.interest.staged = 0)
    (hops : Machine.Admits VaultWorld.step
      (fun w₁ op => op.Timely w₁ ∧ op.KeepsFloor w.vault.emissions.length e.initialIndex) w' ops) :
    Machine.total VaultWorld.step
        (fun w₁ op => w₁.credited k w.vault.emissions.length op) w' ops * denom
      ≤ Machine.total VaultWorld.step
        (fun w₁ op => w₁.dueAbove k w.vault.emissions.length e.initialIndex op) w' ops := by
  obtain ⟨i₀, hi, rfl⟩ := VaultWorld.step_addEmission hadd
  obtain rfl : EmissionInfo.new token treasury i₀ fee = e := by simpa using he
  have hfloored := hops.with_invariant (I := Floored k w.vault.emissions.length i₀)
    (fun w₁ op w₂ hf hop hs =>
      VaultRun.step_induction (g := {}) (P := fun _ => True)
        (A := fun _ op => op.KeepsFloor w.vault.emissions.length i₀)
        (I := fun r => Floored k w.vault.emissions.length i₀ r.1)
        (fun r r' h he => h.event (fun _ _ ha => ha) he) hf hop.2 hop.1 (fun _ _ => trivial) hs)
    ⟨⟨_, he, le_rfl⟩, hheld⟩
  refine Machine.total_mul_le (fun w₁ op h => credited_le_dueAbove fun s hs hk => ?_) hfloored
  have hduring : s ∈ w₁.stagingsDuring op := by
    unfold VaultWorld.stagings at hs
    split at hs
    · exact hs
    · cases hs
  exact h.1.tracker _ (hk ▸ position?_of_staging hduring)

/-- A staging that finds the tracker below the floor pays more than is due above it, as soon as the
growth below the floor is worth a unit. -/
theorem Staging.dueAbove_lt_paid (hbelow : s.position.trackerIndex slot ≤ floor.raw)
    (hfinal : floor.raw ≤ s.finalIndex slot)
    (hunit : denom ≤ (floor.raw - s.position.trackerIndex slot) * s.syBalance) :
    s.dueAbove slot floor < s.paid slot * denom := by
  have hsplit : (s.finalIndex slot - s.position.trackerIndex slot) * s.syBalance
      = s.dueAbove slot floor
        + (floor.raw - s.position.trackerIndex slot) * s.syBalance := by
    rw [Staging.dueAbove, max_eq_right hbelow, ← Nat.add_mul]
    congr 1
    omega
  have hfloor := Nat.lt_div_mul_add denom_pos
    (a := (s.finalIndex slot - s.position.trackerIndex slot) * s.syBalance)
  rw [Staging.paid]
  omega

namespace VaultWorld

/-- An emission is added to a new vault, then PY is stripped and the index rises. -/
def stripAfterAddition : List VaultOp :=
  [.strip 1 (wholeState 1 5) 100, .strip 2 (wholeState 1 6) 0]

def withEmission (w : VaultWorld) : VaultWorld :=
  Machine.next step w (.addEmission {} (wholeState 1 5) 0 0 0)

theorem emissionCredited_le_growthAboveInitial_strip :
    Machine.total step (fun w₁ op => w₁.credited .vault 0 op) freshVault.withEmission
        stripAfterAddition * denom
      ≤ Machine.total step
        (fun w₁ op => w₁.dueAbove .vault 0 (fromNaturalU64 5) op) freshVault.withEmission
        stripAfterAddition :=
  emissionCredited_le_growthAboveInitial freshVault freshVault.withEmission {} (wholeState 1 5) 0 0
    0 (EmissionInfo.new 0 0 (fromNaturalU64 5) 0) stripAfterAddition .vault rfl rfl
    (fun p hp => .inr (by cases hp; exact ⟨rfl, rfl⟩)) (by decide +kernel)

/-- PY is stripped before the emission is added. -/
def strippedVault : VaultWorld := Machine.run step freshVault [.strip 1 (wholeRate 1) 100]

/-- Staging right after the addition, with no growth of the index, pays the whole initial index. -/
theorem not_emissionCredited_le_growthAboveInitial_stripped :
    Machine.Admits step (fun w op => op.Sane w ∧ op.Timely w ∧ op.IndexesGrow w)
        strippedVault.withEmission [.strip 2 (wholeState 1 5) 0] ∧
      ¬ Machine.total step (fun w₁ op => w₁.credited .vault 0 op) strippedVault.withEmission
          [.strip 2 (wholeState 1 5) 0] * denom
        ≤ Machine.total step
          (fun w₁ op => w₁.dueAbove .vault 0 (fromNaturalU64 5) op) strippedVault.withEmission
          [.strip 2 (wholeState 1 5) 0] := by
  decide +kernel

end VaultWorld

end

end ExponentCore
