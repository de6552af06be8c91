import ExponentCore.Vault.Proof.Independence

/-!
# After the maturity

After the maturity of a vault no report changes its final rate or the final indexes of its emissions
(`Outlook.sameFinal_after`). A position that is settled, with its trackers at these, earns nothing
from then on (`Holding.Settled.earn`), so it is no more than an account: what becomes of it is what
its holder deposits, withdraws and collects, and no report, and nobody else, has a part in it
(`account_after_maturity`).
-/

set_option autoImplicit false

namespace ExponentCore

open Number

namespace Outlook

variable {o o₁ o' : Outlook} {now : UInt32} {syState : SyState}

def maturity (o : Outlook) : Nat := o.startTs.toNat + o.duration.toNat

/-- What a report leaves as it is after the maturity. -/
structure SameFinal (o o' : Outlook) : Prop where
  maturity : o'.maturity = o.maturity
  rate : o'.finalSyExchangeRate = o.finalSyExchangeRate
  indexes : o'.finalIndexes = o.finalIndexes

theorem SameFinal.refl : SameFinal o o := ⟨rfl, rfl, rfl⟩

theorem SameFinal.trans (h : SameFinal o o₁) (h' : SameFinal o₁ o') : SameFinal o o' where
  maturity := h'.maturity.trans h.maturity
  rate := h'.rate.trans h.rate
  indexes := h'.indexes.trans h.indexes

/-- **A report after the maturity** changes nothing final. -/
theorem sameFinal_after (h : o.maturity < now.toNat) : SameFinal o (o.after now syState) := by
  have hidle : o.isActive now = false := by
    refine decide_eq_false ?_
    intro hactive
    exact absurd hactive.2 (not_le.2 h)
  refine ⟨rfl, ?_, ?_⟩
  · simp only [after, hidle, Bool.false_eq_true, ↓reduceIte]
  · simp only [after, hidle, Bool.false_eq_true, ↓reduceIte]
    refine List.mapIdx_eq_iff.2 fun slot => ?_
    rw [Option.map_id']

end Outlook

/-! ## Settled positions -/

namespace YieldTokenPosition

variable {p p' : YieldTokenPosition} {v : Vault} {b c : UInt64} {op : AccountOp}
  {ts ts' : List YieldTokenTracker} {es : List EmissionInfo}

/-- The trackers of a position are at the final values of what is looked at. -/
structure SettledAt (p : YieldTokenPosition) (o : Outlook) : Prop where
  interest : p.interest.lastSeenIndex = o.finalSyExchangeRate
  emissions : ∀ (k : Nat) (x : Number), o.finalIndexes[k]? = some x → p.seenIndexes[k]? = some x

theorem interestDue_settled (hp : p.interest.lastSeenIndex = v.finalSyExchangeRate)
    (h : p.interestDue v = .ok c) : c = 0 := by
  simp only [interestDue, bind_eq_ok] at h
  obtain ⟨m, hm, hscale⟩ := h
  obtain rfl : m = 0 := calcEarnedSy_of_le hp.ge hm
  exact Except.ok.inj (hscale.symm.trans (scaleSyToCurrentRate_zero hscale))

theorem incStaged_zero {t t' : YieldTokenTracker} (h : t.incStaged 0 = .ok t') : t' = t := by
  simp only [YieldTokenTracker.incStaged, bind_eq_ok, unwrap_eq_ok, checkedAdd_eq_some,
    Except.ok.injEq] at h
  obtain ⟨s, hs, rfl⟩ := h
  obtain rfl : s = t.staged := UInt64.toNat_inj.1 (by simpa using hs)
  rfl

theorem earnTrackers_eq_of_settled
    (hts : ∀ (k : Nat) (x : Number), (es.map EmissionInfo.finalIndex)[k]? = some x →
      (ts.map YieldTokenTracker.lastSeenIndex)[k]? = some x)
    (h : earnTrackers b ts es = .ok ts') : ts' = ts := by
  induction es generalizing ts ts' with
  | nil => exact Except.ok.inj (h.symm.trans earnTrackers_nil)
  | cons e es ih =>
    cases ts with
    | nil => cases h
    | cons t ts =>
      simp only [earnTrackers, bind_eq_ok, Except.ok.injEq] at h
      obtain ⟨n, hn, t', ht', ts₁, h₁, rfl⟩ := h
      have hlast : t.lastSeenIndex = e.finalIndex := Option.some.inj (hts 0 e.finalIndex rfl)
      obtain rfl : n = 0 := by
        rw [calcShareValue_eq_ok, hlast, Nat.sub_self, Nat.zero_mul, Nat.zero_div] at hn
        exact UInt64.toNat_inj.1 hn
      obtain rfl := incStaged_zero ht'
      obtain rfl : ts₁ = ts := ih (fun k x hx => hts (k + 1) x hx) h₁
      rw [← hlast]

/-- **A settled position earns nothing**, and stays as it is. -/
theorem earned_settled (hp : p.SettledAt v.outlook) (h : p.earned v = .ok (c, p')) : p' = p := by
  have hlen : v.emissions.length ≤ p.emissions.length := by
    refine not_lt.1 fun hlt => ?_
    have hx := hp.emissions _ _ (List.getElem?_eq_getElem
      (show p.emissions.length < v.outlook.finalIndexes.length by
        rwa [Vault.outlook, List.length_map]))
    rw [seenIndexes, List.getElem?_eq_none (by rw [List.length_map])] at hx
    cases hx
  have hensure : p.ensureTrackers v = p := by
    simp [ensureTrackers, Nat.sub_eq_zero_of_le hlen]
  have hrate : p.interest.lastSeenIndex = v.finalSyExchangeRate := hp.interest
  simp only [earned, hensure, ← hrate, ite_self, bind_eq_ok, Except.ok.injEq,
    Prod.mk.injEq] at h
  obtain ⟨x, hx, i, hi, q, hq, -, rfl⟩ := h
  obtain rfl : x = 0 := by
    cases hcalm : v.isInEmergencyMode with
    | true =>
      rw [hcalm] at hx
      exact (Except.ok.inj hx).symm
    | false =>
      rw [hcalm] at hx
      exact interestDue_settled hrate hx
  obtain rfl := incStaged_zero hi
  simp only [earnEmissions, bind_eq_ok, Except.ok.injEq] at hq
  obtain ⟨b, -, ts, hts, rfl⟩ := hq
  obtain rfl := earnTrackers_eq_of_settled hp.emissions hts
  rfl

/-- **The account of a position keeps its trackers** where they are. -/
theorem SettledAt.account {o : Outlook} (hp : p.SettledAt o) (h : p.account op = .ok p') :
    p'.SettledAt o := by
  cases op with
  | deposit amount =>
    obtain ⟨_, -, rfl⟩ := incYtBalance_eq_ok.1 h
    exact ⟨hp.interest, hp.emissions⟩
  | withdraw amount =>
    obtain ⟨_, -, rfl⟩ := decYtBalance_eq_ok.1 h
    exact ⟨hp.interest, hp.emissions⟩
  | collectInterest amount =>
    simp only [YieldTokenPosition.account, YieldTokenTracker.collect, bind_eq_ok, unwrap_eq_ok,
      Except.ok.injEq] at h
    obtain ⟨_, -, _, ⟨_, -, rfl⟩, rfl⟩ := h
    exact ⟨hp.interest, hp.emissions⟩
  | collectEmission index amount =>
    simp only [YieldTokenPosition.account, bind_eq_ok] at h
    obtain ⟨_, -, _, -, hcollect⟩ := h
    refine ⟨?_, ?_⟩
    · rw [(collectEmissionAt_same hcollect).2]
      exact hp.interest
    · rw [seenIndexes_collectEmissionAt hcollect]
      exact hp.emissions

theorem SettledAt.congr {o o' : Outlook} (hp : p.SettledAt o) (h : o.SameFinal o') :
    p.SettledAt o' where
  interest := hp.interest.trans h.rate.symm
  emissions := by
    rw [h.indexes]
    exact hp.emissions

end YieldTokenPosition

/-! ## The run of an account -/

namespace Holding

variable {user : Nat} {w w' : VaultWorld} {h h' : Holding} {s : Sight} {op : VaultOp}
  {ops : List VaultOp} {p' : YieldTokenPosition} {t : Nat}

theorem earn_settled (hp : h.position.SettledAt h.outlook) (hearn : h.earn = .ok p') :
    p' = h.position := by
  simp only [earn, bind_eq_ok, Prod.exists, Except.ok.injEq] at hearn
  obtain ⟨c, q, hq, rfl⟩ := hearn
  have hv : h.position.SettledAt h.outlook.vault.outlook := by
    rw [Outlook.outlook_vault]
    exact hp
  exact YieldTokenPosition.earned_settled hv hq

theorem earn_reported {now : UInt32} {syState : SyState} (hp : h.position.SettledAt h.outlook)
    (hafter : h.outlook.maturity < now.toNat) (hearn : (h.reported now syState).earn = .ok p') :
    p' = h.position :=
  earn_settled (h := h.reported now syState) (hp.congr (Outlook.sameFinal_after hafter)) hearn

/-- **A step after the maturity** is one of the account, or nothing. -/
theorem step_settled (hp : h.position.SettledAt h.outlook) (hafter : s.After h.outlook.maturity)
    (hstep : h.step s = .ok h') :
    h.outlook.SameFinal h'.outlook ∧ (s.own = none ∧ h'.position = h.position ∨
      ∃ op, s.own = some op ∧ h.position.account op = .ok h'.position) := by
  cases s with
  | report now syState =>
    cases hstep
    exact ⟨Outlook.sameFinal_after hafter, .inl ⟨rfl, rfl⟩⟩
  | stage now syState =>
    simp only [step, bind_eq_ok, Except.ok.injEq] at hstep
    obtain ⟨q, hq, rfl⟩ := hstep
    exact ⟨Outlook.sameFinal_after hafter, .inl ⟨rfl, earn_reported hp hafter hq⟩⟩
  | deposit now syState amount =>
    simp only [step, bind_eq_ok, Except.ok.injEq] at hstep
    obtain ⟨q, hq, q', hq', rfl⟩ := hstep
    obtain rfl := earn_reported hp hafter hq
    exact ⟨Outlook.sameFinal_after hafter, .inr ⟨_, rfl, hq'⟩⟩
  | withdraw now syState amount =>
    simp only [step, bind_eq_ok, Except.ok.injEq] at hstep
    obtain ⟨q, hq, q', hq', rfl⟩ := hstep
    obtain rfl := earn_reported hp hafter hq
    exact ⟨Outlook.sameFinal_after hafter, .inr ⟨_, rfl, hq'⟩⟩
  | collectInterest amount =>
    simp only [step, bind_eq_ok, Except.ok.injEq] at hstep
    obtain ⟨a, ha, q, hq, i, hi, rfl⟩ := hstep
    obtain rfl := earn_settled hp hq
    refine ⟨.refl, .inr ⟨_, rfl, ?_⟩⟩
    rw [YieldTokenPosition.account, ha, ok_bind, hi, ok_bind]
  | collectEmission index amount =>
    simp only [step, bind_eq_ok, Except.ok.injEq] at hstep
    obtain ⟨t, ht, a, ha, q, hq, rfl⟩ := hstep
    refine ⟨.refl, .inr ⟨_, rfl, ?_⟩⟩
    rw [YieldTokenPosition.account, ht, ok_bind, ha, ok_bind, hq]
  | emissionAdded | emissionRemoved => cases hafter

theorem after_of_sight (h : op.After t) (hsight : op.sight user = some s) : s.After t := by
  cases op with
  | strip | merge =>
    cases hsight
    exact h.1 _ rfl
  | depositYt | withdrawYt | stageYield =>
    obtain rfl := Option.some.inj hsight
    split
    · exact h.1 _ rfl
    · exact h.1 _ rfl
  | collectInterest | collectEmission =>
    simp only [VaultOp.sight, Option.ite_none_right_eq_some, Option.some.injEq] at hsight
    obtain ⟨-, rfl⟩ := hsight
    trivial
  | addEmission | removeVaultEmission => cases h.2
  | initializeYieldPosition | collectTreasuryInterest | collectTreasuryEmission => cases hsight

/-- What an operation after the maturity is to the account of a holder. -/
theorem Of.account (hof : Of user w h) (hp : h.position.SettledAt h.outlook)
    (hafter : op.After h.outlook.maturity) (hstep : w.step op = .ok w') :
    ∃ h', Of user w' h' ∧ h.outlook.SameFinal h'.outlook ∧
      (op.own user = none ∧ h'.position = h.position ∨
        ∃ a, op.own user = some a ∧ h.position.account a = .ok h'.position) := by
  cases hs : op.sight user with
  | none =>
    refine ⟨h, hof.hidden hs hstep, .refl, .inl ⟨?_, rfl⟩⟩
    rw [VaultOp.own, hs]
    rfl
  | some s =>
    obtain ⟨h', hstep', hof'⟩ := hof.seen hs hstep
    obtain ⟨hsame, hcase⟩ := step_settled hp (after_of_sight hafter hs) hstep'
    refine ⟨h', hof', hsame, ?_⟩
    rw [VaultOp.own, hs]
    exact hcase

/-- **A run after the maturity** is a run of the account. -/
theorem Of.run_account (hof : Of user w h) (hp : h.position.SettledAt h.outlook)
    (hafter : ∀ op ∈ ops, op.After h.outlook.maturity)
    (hrun : ops.foldlM VaultWorld.step w = .ok w') :
    ∃ h', Of user w' h' ∧ h.outlook.SameFinal h'.outlook ∧
      (ops.filterMap (VaultOp.own user)).foldlM YieldTokenPosition.account h.position
        = .ok h'.position := by
  induction ops generalizing w h with
  | nil =>
    cases hrun
    exact ⟨h, hof, .refl, rfl⟩
  | cons op ops ih =>
    obtain ⟨w₁, h₁, h₂⟩ := Machine.foldlM_cons_eq_ok.1 hrun
    obtain ⟨g, hofg, hsame, hcase⟩ := hof.account hp (hafter op List.mem_cons_self) h₁
    have hafter' : ∀ op ∈ ops, op.After g.outlook.maturity := by
      intro op hop
      rw [hsame.maturity]
      exact hafter op (List.mem_cons_of_mem _ hop)
    obtain ⟨hown, hposition⟩ | ⟨a, hown, ha⟩ := hcase
    · have hpg : g.position.SettledAt g.outlook := by
        rw [hposition]
        exact hp.congr hsame
      obtain ⟨h', hof', hsame', hrun'⟩ := ih hofg hpg hafter' h₂
      rw [List.filterMap_cons_none hown, ← hposition]
      exact ⟨h', hof', hsame.trans hsame', hrun'⟩
    · have hpg : g.position.SettledAt g.outlook := (hp.account ha).congr hsame
      obtain ⟨h', hof', hsame', hrun'⟩ := ih hofg hpg hafter' h₂
      rw [List.filterMap_cons_some hown]
      exact ⟨h', hof', hsame.trans hsame', Machine.foldlM_cons_eq_ok.2 ⟨_, ha, hrun'⟩⟩

end Holding

namespace VaultWorld

variable {w w' : VaultWorld} {now : UInt32} {syState : SyState} {user : Nat}

/-- **A staging settles the position.** -/
theorem settled_of_stageYield (h : w.step (.stageYield now syState user) = .ok w') :
    w'.vault.outlook.maturity = w.vault.outlook.maturity ∧
      ∃ p, w'.userPositions[user]? = some p ∧ p.SettledAt w'.vault.outlook := by
  obtain ⟨u, v₁, v₂, p₁, v₃, u₁, v', hu, hr, hcalm, hearn, ⟨_, hv⟩, -, rfl⟩ :=
    step_stageYield h
  have houtlook : v'.outlook = v₂.outlook := by
    rw [← Holding.outlook_of_earn hearn, hv]
    rfl
  have hearned := earned_of_ok hearn
  refine ⟨?_, u₁, List.getElem?_set_self (List.getElem?_eq_some_iff.1 hu).1, ?_⟩
  · show v'.outlook.maturity = _
    rw [houtlook, hr.outlook]
    rfl
  · show u₁.SettledAt v'.outlook
    rw [houtlook]
    refine ⟨?_, hearned.settled.index⟩
    obtain ⟨hbad, -⟩ | ⟨-, hindex⟩ := hearned.index
    · rw [hcalm] at hbad
      cases hbad
    · exact hindex

/-- **After the maturity a position is an account**: once it has been staged, at any time, a run of
operations after the maturity, of whatever users, on whatever reports, leaves the position that its
holder's own deposits, withdrawals and collections make of it, and the final rate and the final
indexes as they were. -/
theorem account_after_maturity (user : Nat) (now : UInt32) (syState : SyState)
    (w w₁ w₂ : VaultWorld) (ops : List VaultOp) (p : YieldTokenPosition)
    (hstage : w.step (.stageYield now syState user) = .ok w₁)
    (hp : w₁.userPositions[user]? = some p)
    (hafter : ∀ op ∈ ops, op.After (w.vault.startTs.toNat + w.vault.duration.toNat))
    (hrun : ops.foldlM VaultWorld.step w₁ = .ok w₂) :
    ∃ p', (ops.filterMap (VaultOp.own user)).foldlM YieldTokenPosition.account p = .ok p' ∧
      w₂.userPositions[user]? = some p' ∧
      w₂.vault.finalSyExchangeRate = w₁.vault.finalSyExchangeRate ∧
      w₂.vault.finalIndexes = w₁.vault.finalIndexes := by
  obtain ⟨hmaturity, q, hq, hsettled⟩ := settled_of_stageYield hstage
  obtain rfl : q = p := Option.some.inj (hq.symm.trans hp)
  have hof : Holding.Of user w₁ ⟨w₁.vault.outlook, q⟩ := ⟨rfl, hq⟩
  have hafter' : ∀ op ∈ ops, op.After w₁.vault.outlook.maturity := by
    rw [hmaturity]
    exact hafter
  obtain ⟨h', hof', hsame, haccount⟩ := hof.run_account hsettled hafter' hrun
  refine ⟨h'.position, haccount, hof'.position, ?_, ?_⟩
  · exact (congrArg Outlook.finalSyExchangeRate hof'.outlook).trans hsame.rate
  · exact (congrArg Outlook.finalIndexes hof'.outlook).trans hsame.indexes

/-- Rate and index rise further, another holder stages and PT are redeemed: the position that was
staged before is left to its holder. -/
theorem account_after_maturity_twoHolders : ∃ w₁ w₂ p p',
    twoHolders.step (.stageYield 4 (report 4 1) 1) = .ok w₁ ∧
    [.stageYield 1001 (report 9 5) 0, .merge 1002 (report 9 6) 1000,
      .stageYield 1003 (report 10 7) 1, .collectInterest 1003 1 .all].foldlM VaultWorld.step w₁
      = .ok w₂ ∧
    w₁.userPositions[1]? = some p ∧ w₂.userPositions[1]? = some p' ∧
    p.account (.collectInterest .all) = .ok p' := by
  obtain ⟨w₁, h₁, w₂, h₂, -⟩ : ∃ w₁, twoHolders.step (.stageYield 4 (report 4 1) 1) = .ok w₁ ∧
      ∃ w₂, [.stageYield 1001 (report 9 5) 0, .merge 1002 (report 9 6) 1000,
        .stageYield 1003 (report 10 7) 1, .collectInterest 1003 1 .all].foldlM VaultWorld.step w₁
        = .ok w₂ ∧ w₂.clock = 1003 := by
    decide +kernel
  obtain ⟨-, p, hp, -⟩ := settled_of_stageYield h₁
  obtain ⟨p', haccount, hp', -, -⟩ := account_after_maturity 1 4 (report 4 1) twoHolders w₁ w₂ _ p
    h₁ hp (by decide +kernel) h₂
  obtain ⟨q, hq, hlast⟩ := Machine.foldlM_cons_eq_ok.1 haccount
  obtain rfl : q = p' := Except.ok.inj hlast
  exact ⟨w₁, w₂, p, q, h₁, h₂, hp, hp', hq⟩

end VaultWorld

end ExponentCore
