import ExponentCore.Vault.Proof.StagingOrder

/-!
# A holder on its own

Every run of the vault is a run of the machine of each holder on what it sees (`sees_holding`): the
vault with all its positions refines `Holding`. Two runs that look the same to a holder therefore
leave it the same position (`position_independent`), whatever the others do in them.
-/

set_option autoImplicit false

namespace ExponentCore

open Number

namespace Outlook

variable {o : Outlook}

@[simp] theorem outlook_vault : o.vault.outlook = o := by
  have hmap : (EmissionInfo.finalIndex ∘ fun index => EmissionInfo.new 0 0 index 0) = id := rfl
  simp only [Vault.outlook, vault, List.map_map, hmap, List.map_id]

end Outlook

/-! ## What operations do to the outlook -/

section
variable {v v' : Vault} {now : UInt32} {syState : SyState}

theorem Vault.outlook_congr (hr : SameRates v v')
    (hi : v'.emissions.map EmissionInfo.finalIndex = v.emissions.map EmissionInfo.finalIndex) :
    v'.outlook = v.outlook := by
  rw [outlook, outlook, hr.startTs, hr.duration, hr.lastSeen, hr.allTimeHigh, hr.final, hi]

theorem Vault.outlook_isActive {active : Bool} (h : v.isActive now = .ok active) :
    v.outlook.isActive now = active := by
  cases active with
  | true =>
    obtain ⟨hstart, hend, -⟩ := isActive_eq_true.1 h
    exact decide_eq_true ⟨hstart, hend⟩
  | false =>
    refine decide_eq_false ?_
    intro hactive
    obtain ⟨hstart, hend⟩ := hactive
    cases isActive_eq_false.1 h with
    | inl hlt => exact absurd hstart (not_le.2 hlt)
    | inr hlt => exact absurd hend (not_le.2 hlt.2)

theorem Vault.outlook_of_update (h : v.updateFromSyState syState now = .ok v') :
    v'.outlook = v.outlook.after now syState := by
  have hu := updated_of_ok h
  obtain ⟨active, hactive⟩ : ∃ active, v.isActive now = .ok active := by
    cases hu.final with
    | inl hf => exact ⟨true, hf.1⟩
    | inr hf => exact ⟨false, hf.1⟩
  have hlook := outlook_isActive hactive
  have hrate : v'.finalSyExchangeRate = (v.outlook.after now syState).finalSyExchangeRate := by
    rw [finalRate_of_ok h, finalRateAt, hactive, Outlook.after, hlook]
    simp only [Except.ok.injEq, outlook]
  have hindexes : v'.emissions.map EmissionInfo.finalIndex
      = (v.outlook.after now syState).finalIndexes := by
    rw [finalIndexes_of_ok h, finalIndexesAt, hactive, Outlook.after, hlook]
    simp only [Except.ok.injEq, outlook]
    refine List.mapIdx_eq_iff.2 fun slot => ?_
    rw [List.getElem?_mapIdx, List.getElem?_map, Option.map_map]
    rfl
  rw [outlook, hu.startTs, hu.duration, hu.lastSeen, hu.allTimeHigh, hrate, hindexes]
  rfl

theorem Refreshed.outlook {p p₁ : YieldTokenPosition} {v₁ v₂ : Vault}
    (h : Refreshed v p now syState v₁ v₂ p₁) : v₂.outlook = v.outlook.after now syState := by
  obtain ⟨_, _, -, -, hv⟩ := YieldTokenPosition.earnAllWithTracking_eq_ok.1 h.earn
  have hupdate := Vault.outlook_of_update h.update
  rw [hv]
  exact hupdate

end

/-! ## The vault follows the machine of a holder -/

/-- The vault that a holder sees, with its position. -/
structure Holding.Of (user : Nat) (w : VaultWorld) (h : Holding) : Prop where
  outlook : w.vault.outlook = h.outlook
  position : w.userPositions[user]? = some h.position

namespace Holding

variable {user holder : Nat} {w w' : VaultWorld} {h : Holding} {v₁ v₂ v' : Vault}
  {p₁ p' u u' : YieldTokenPosition} {now : UInt32} {syState : SyState}

/-- The others' positions are none of the holder's. -/
theorem Of.set_ne (hof : Of user w h) (hne : holder ≠ user) :
    (w.userPositions.set holder u')[user]? = some h.position := by
  rw [List.getElem?_set_ne hne]
  exact hof.position

theorem Of.set_self (hof : Of user w h) : (w.userPositions.set user u')[user]? = some u' :=
  List.getElem?_set_self (List.getElem?_eq_some_iff.1 hof.position).1

theorem outlook_of_earn (hearn : u.earnAllWithTracking v₂ = .ok (v', u')) :
    v'.outlook = v₂.outlook := by
  obtain ⟨_, _, -, -, rfl⟩ := YieldTokenPosition.earnAllWithTracking_eq_ok.1 hearn
  rfl

/-- A position earns in a vault as the machine says. -/
theorem earn_of_ok (hv : v₂.outlook = h.outlook)
    (hearn : h.position.earnAllWithTracking v₂ = .ok (v', u')) :
    h.earn = .ok u' ∧ v'.outlook = h.outlook := by
  obtain ⟨c, t, hc, -, rfl⟩ := YieldTokenPosition.earnAllWithTracking_eq_ok.1 hearn
  have hsame : h.outlook.vault.outlook = v₂.outlook := by rw [Outlook.outlook_vault, hv]
  refine ⟨?_, hv⟩
  rw [earn, YieldTokenPosition.earned_congr hsame, hc, ok_bind]

/-- **What the holder does not see** leaves it as it is. -/
theorem Of.hidden {op : VaultOp} (hof : Of user w h) (hsight : op.sight user = none)
    (hstep : w.step op = .ok w') : Of user w' h := by
  cases op with
  | initializeYieldPosition owner vault =>
    cases hstep
    refine ⟨hof.outlook, ?_⟩
    rw [List.getElem?_append_left (List.getElem?_eq_some_iff.1 hof.position).1]
    exact hof.position
  | strip | merge | depositYt | withdrawYt | stageYield | addEmission | removeVaultEmission =>
    cases hsight
  | collectInterest now holder amount =>
    have hne : holder ≠ user := by
      intro heq
      simp [VaultOp.sight, heq] at hsight
    obtain ⟨u, a, v₁, u₁, v', u', -, -, hearn, hpaid, rfl⟩ := VaultWorld.step_collectInterest hstep
    obtain ⟨_, _, -, -, rfl⟩ := YieldTokenPosition.earnAllWithTracking_eq_ok.1 hearn
    obtain ⟨_, _, -, -, rfl⟩ := hpaid.vault
    exact ⟨hof.outlook, hof.set_ne hne⟩
  | collectTreasuryInterest amount kind =>
    obtain ⟨v', p', a, rfl, ⟨-, hpaid⟩ | ⟨-, -, _, _, -, -, rfl⟩⟩ :=
      VaultWorld.step_collectTreasuryInterest hstep
    · obtain ⟨_, _, -, -, rfl⟩ := hpaid.vault
      exact ⟨hof.outlook, hof.position⟩
    · exact ⟨hof.outlook, hof.position⟩
  | collectEmission holder index amount =>
    have hne : holder ≠ user := by
      intro heq
      simp [VaultOp.sight, heq] at hsight
    obtain ⟨_, _, _, -, -, rfl⟩ := VaultWorld.step_collectEmission hstep
    exact ⟨hof.outlook, hof.set_ne hne⟩
  | collectTreasuryEmission index amount kind =>
    obtain ⟨-, _, _, -, rfl⟩ | ⟨-, a, e, t, he, -, rfl⟩ :=
      VaultWorld.step_collectTreasuryEmission hstep
    · exact ⟨hof.outlook, hof.position⟩
    · have hlook : Vault.outlook { w.vault with
          emissions := w.vault.emissions.set index.toNat { e with treasuryEmission := t } }
          = w.vault.outlook :=
        Vault.outlook_congr ⟨rfl, rfl, rfl, rfl, rfl⟩ (ListSum.map_set_of_eq he rfl)
      exact ⟨hlook.trans hof.outlook, hof.position⟩

/-- Another's operation is the report that the vault records. -/
theorem Of.report {p : YieldTokenPosition} (hof : Of user w h)
    (hr : Refreshed w.vault p now syState v₁ v₂ p₁) (hv : v'.outlook = v₂.outlook)
    (hvault : w'.vault = v') (hposition : w'.userPositions[user]? = some h.position) :
    Of user w' (h.reported now syState) := by
  refine ⟨?_, hposition⟩
  rw [hvault, hv, hr.outlook, hof.outlook]
  rfl

/-- The holder's own operation begins with the report, and its position earns. -/
theorem Of.earn {p : YieldTokenPosition} (hof : Of user w h)
    (hr : Refreshed w.vault p now syState v₁ v₂ p₁) (hu : w.userPositions[user]? = some u)
    (hearn : u.earnAllWithTracking v₂ = .ok (v', u')) :
    (h.reported now syState).earn = .ok u' ∧ v'.outlook = h.outlook.after now syState := by
  obtain rfl : h.position = u := Option.some.inj (hof.position.symm.trans hu)
  have hv : v₂.outlook = (h.reported now syState).outlook := by
    rw [hr.outlook, hof.outlook]
    rfl
  exact earn_of_ok hv hearn

/-- **What the holder sees** is a step of the machine. -/
theorem Of.seen {op : VaultOp} {s : Sight} (hof : Of user w h) (hsight : op.sight user = some s)
    (hstep : w.step op = .ok w') : ∃ h', h.step s = .ok h' ∧ Of user w' h' := by
  cases op with
  | initializeYieldPosition | collectTreasuryInterest | collectTreasuryEmission => cases hsight
  | strip now syState x =>
    cases hsight
    obtain ⟨v₁, v₂, p₁, v', p', py, hr, -, hm, rfl⟩ := VaultWorld.step_strip hstep
    obtain ⟨_, _, _, -, -, hv⟩ := hm.vault
    exact ⟨_, rfl, hof.report hr (by rw [hv]; rfl) rfl hof.position⟩
  | merge now syState a =>
    cases hsight
    obtain ⟨v₁, v₂, p₁, v', p', x, hr, -, hb, rfl⟩ := VaultWorld.step_merge hstep
    obtain ⟨_, _, _, -, -, hv⟩ := hb.vault
    exact ⟨_, rfl, hof.report hr (by rw [hv]; rfl) rfl hof.position⟩
  | depositYt now syState holder a =>
    obtain ⟨u, v₁, v₂, p₁, v₃, u₁, v', p', u', hu, hr, -, hearn, hm, rfl⟩ :=
      VaultWorld.step_depositYt hstep
    obtain ⟨_, hv⟩ := hm.vault
    have houtlook : v'.outlook = v₃.outlook := by rw [hv]; rfl
    by_cases hne : holder = user
    · subst hne
      simp only [VaultOp.sight, ↓reduceIte, Option.some.injEq] at hsight
      subst hsight
      obtain ⟨b, hb, rfl⟩ := hm.destination
      obtain ⟨hown, hlook⟩ := hof.earn hr hu hearn
      refine ⟨{ h.reported now syState with position := { u₁ with ytBalance := b } }, ?_,
        houtlook.trans hlook, hof.set_self⟩
      rw [step, hown, ok_bind, incYtBalance_eq_ok.2 ⟨b, hb, rfl⟩, ok_bind]
    · simp only [VaultOp.sight, hne, ↓reduceIte, Option.some.injEq] at hsight
      subst hsight
      exact ⟨_, rfl, hof.report hr (houtlook.trans (outlook_of_earn hearn)) rfl (hof.set_ne hne)⟩
  | withdrawYt now syState holder a =>
    obtain ⟨u, v₁, v₂, p₁, v₃, u₁, v', p', u', hu, hr, hearn, hm, rfl⟩ :=
      VaultWorld.step_withdrawYt hstep
    obtain ⟨_, hv⟩ := hm.vault
    have houtlook : v'.outlook = v₃.outlook := by rw [hv]; rfl
    by_cases hne : holder = user
    · subst hne
      simp only [VaultOp.sight, ↓reduceIte, Option.some.injEq] at hsight
      subst hsight
      obtain ⟨b, hb, rfl⟩ := hm.source
      obtain ⟨hown, hlook⟩ := hof.earn hr hu hearn
      refine ⟨{ h.reported now syState with position := { u₁ with ytBalance := b } }, ?_,
        houtlook.trans hlook, hof.set_self⟩
      rw [step, hown, ok_bind, decYtBalance_eq_ok.2 ⟨b, hb, rfl⟩, ok_bind]
    · simp only [VaultOp.sight, hne, ↓reduceIte, Option.some.injEq] at hsight
      subst hsight
      exact ⟨_, rfl, hof.report hr (houtlook.trans (outlook_of_earn hearn)) rfl (hof.set_ne hne)⟩
  | stageYield now syState holder =>
    obtain ⟨u, v₁, v₂, p₁, v₃, u₁, v', hu, hr, -, hearn, ⟨_, hv⟩, -, rfl⟩ :=
      VaultWorld.step_stageYield hstep
    have houtlook : v'.outlook = v₃.outlook := by rw [hv]; rfl
    by_cases hne : holder = user
    · subst hne
      simp only [VaultOp.sight, ↓reduceIte, Option.some.injEq] at hsight
      subst hsight
      obtain ⟨hown, hlook⟩ := hof.earn hr hu hearn
      refine ⟨{ h.reported now syState with position := u₁ }, ?_, houtlook.trans hlook,
        hof.set_self⟩
      rw [step, hown, ok_bind]
    · simp only [VaultOp.sight, hne, ↓reduceIte, Option.some.injEq] at hsight
      subst hsight
      exact ⟨_, rfl, hof.report hr (houtlook.trans (outlook_of_earn hearn)) rfl (hof.set_ne hne)⟩
  | collectInterest now holder amount =>
    by_cases hne : holder = user
    · subst hne
      simp only [VaultOp.sight, ↓reduceIte, Option.some.injEq] at hsight
      subst hsight
      obtain ⟨u, a, v₁, u₁, v', u', hu, ha, hearn, hpaid, rfl⟩ :=
        VaultWorld.step_collectInterest hstep
      obtain rfl : h.position = u := Option.some.inj (hof.position.symm.trans hu)
      obtain ⟨hown, hlook⟩ := earn_of_ok hof.outlook hearn
      obtain ⟨_, _, -, -, rfl⟩ := hpaid.vault
      obtain ⟨s, hs, rfl⟩ := hpaid.position
      have hcollect : u₁.interest.collect a = .ok { u₁.interest with staged := s } := by
        rw [YieldTokenTracker.collect, checkedSub_eq_some.2 hs]
        rfl
      refine ⟨{ h with position := { u₁ with interest := { u₁.interest with staged := s } } }, ?_,
        hlook, hof.set_self⟩
      rw [step, ha, ok_bind, hown, ok_bind, hcollect, ok_bind]
    · simp only [VaultOp.sight, hne, ↓reduceIte] at hsight
      cases hsight
  | collectEmission holder index amount =>
    by_cases hne : holder = user
    · subst hne
      simp only [VaultOp.sight, ↓reduceIte, Option.some.injEq] at hsight
      subst hsight
      simp only [VaultWorld.step, ExponentCore.collectEmission, bind_eq_ok, getAt_eq_ok,
        Prod.exists, Except.ok.injEq, Prod.mk.injEq] at hstep
      obtain ⟨u, hu, u', _, _, ⟨t, ht, a, ha, _, -, _, -, _, _, -, q, hq, rfl, -, -⟩, rfl⟩ := hstep
      obtain rfl : h.position = u := Option.some.inj (hof.position.symm.trans hu)
      refine ⟨{ h with position := q }, ?_, hof.outlook, hof.set_self⟩
      rw [step, getAt_eq_ok.2 ht, ok_bind, ha, ok_bind, hq, ok_bind]
    · simp only [VaultOp.sight, hne, ↓reduceIte] at hsight
      cases hsight
  | addEmission accounts syState token treasury fee =>
    cases hsight
    obtain ⟨i, hi, rfl⟩ := VaultWorld.step_addEmission hstep
    have hlen : h.outlook.finalIndexes.length = w.vault.emissions.length := by
      rw [← hof.outlook]
      exact List.length_map _
    refine ⟨{ h with
      outlook := { h.outlook with finalIndexes := h.outlook.finalIndexes ++ [i] } }, ?_, ?_,
      hof.position⟩
    · rw [step, hlen, getAt_eq_ok.2 hi, ok_bind]
    · rw [← hof.outlook]
      simp only [Vault.outlook, List.map_append, List.map_cons, List.map_nil]
      rfl
  | removeVaultEmission index =>
    cases hsight
    obtain ⟨-, rfl⟩ := VaultWorld.step_removeVaultEmission hstep
    refine ⟨_, rfl, ?_, hof.position⟩
    rw [← hof.outlook]
    simp only [Vault.outlook, List.eraseIdx_map]

theorem sees_holding (user : Nat) :
    Machine.Sees VaultWorld.step step (VaultOp.sight user) (Of user) where
  hidden _ _ _ _ hsight hstep hof := hof.hidden hsight hstep
  seen _ _ _ _ _ hsight hstep hof := hof.seen hsight hstep

end Holding

namespace VaultWorld

/-- **What a position becomes is independent of the others**: if two runs look the same to a holder,
from worlds where its position and the outlook are the same, then they leave it the same position,
whatever the others strip, merge, move, stage or collect in them, and whatever the treasury does. -/
theorem position_independent (user : Nat) (w₁ w₂ w₁' w₂' : VaultWorld) (ops₁ ops₂ : List VaultOp)
    (p : YieldTokenPosition) (hp₁ : w₁.userPositions[user]? = some p)
    (hp₂ : w₂.userPositions[user]? = some p) (hlook : w₂.vault.outlook = w₁.vault.outlook)
    (hsame : ops₁.filterMap (VaultOp.sight user) = ops₂.filterMap (VaultOp.sight user))
    (h₁ : ops₁.foldlM VaultWorld.step w₁ = .ok w₁')
    (h₂ : ops₂.foldlM VaultWorld.step w₂ = .ok w₂') :
    w₁'.vault.outlook = w₂'.vault.outlook ∧
      w₁'.userPositions[user]? = w₂'.userPositions[user]? := by
  have hof₁ : Holding.Of user w₁ ⟨w₁.vault.outlook, p⟩ := ⟨rfl, hp₁⟩
  have hof₂ : Holding.Of user w₂ ⟨w₁.vault.outlook, p⟩ := ⟨hlook, hp₂⟩
  obtain ⟨h, hend₁, hend₂⟩ := (Holding.sees_holding user).foldlM_unique hof₁ hof₂ hsame h₁ h₂
  exact ⟨hend₁.outlook.trans hend₂.outlook.symm, hend₁.position.trans hend₂.position.symm⟩

/-- A user stages twice; the other one deposits in between, or withdraws everything and leaves with
its interest. -/
theorem position_independent_twoHolders : ∃ w₁ w₂,
    [.stageYield 4 (report 4 1) 1, .depositYt 5 (report 5 1) 0 1000,
      .stageYield 6 (report 6 2) 1].foldlM VaultWorld.step twoHolders = .ok w₁ ∧
    [.stageYield 4 (report 4 1) 1, .withdrawYt 5 (report 5 1) 0 100000000, .collectInterest 5 0 .all,
      .stageYield 6 (report 6 2) 1].foldlM VaultWorld.step twoHolders = .ok w₂ ∧
    w₁.userPositions[1]? = w₂.userPositions[1]? := by
  obtain ⟨w₁, h₁, -⟩ : ∃ w₁, [.stageYield 4 (report 4 1) 1, .depositYt 5 (report 5 1) 0 1000,
      .stageYield 6 (report 6 2) 1].foldlM VaultWorld.step twoHolders = .ok w₁ ∧
      w₁.clock = 6 := by
    decide +kernel
  obtain ⟨w₂, h₂, -⟩ : ∃ w₂, [.stageYield 4 (report 4 1) 1,
      .withdrawYt 5 (report 5 1) 0 100000000, .collectInterest 5 0 .all,
      .stageYield 6 (report 6 2) 1].foldlM VaultWorld.step twoHolders = .ok w₂ ∧ w₂.clock = 6 := by
    decide +kernel
  obtain ⟨p, hp⟩ : ∃ p, twoHolders.userPositions[1]? = some p := by
    rw [← Option.isSome_iff_exists]
    decide +kernel
  have hindependent := position_independent 1 twoHolders twoHolders w₁ w₂ _ _ p hp hp rfl
    (by simp [VaultOp.sight]) h₁ h₂
  exact ⟨w₁, w₂, h₁, h₂, hindependent.2⟩

end VaultWorld

end ExponentCore
