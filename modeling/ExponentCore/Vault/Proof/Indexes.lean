import ExponentCore.Vault.Proof.Events

/-!
# How rates and indexes are ordered

`Ordered` is the invariant that the accounting of interest and emissions rests on. While the vault
has not expired, its final rate is the last seen rate, and no user's index is ahead of the index of
the vault's own position; YT therefore never moves to a position with a lower index. Outside
emergency mode the vault's own position is at the final rate.
-/

set_option autoImplicit false

namespace ExponentCore

namespace VaultRun

/-- The last recorded time is not after the maturity. -/
def Unexpired (r : VaultRun) : Prop := r.1.clock.toNat ≤ r.1.vault.maturity

end VaultRun

/-- Where the index of a position may be. -/
structure Placed (r : VaultRun) (p : YieldTokenPosition) : Prop where
  index_le : p.interest.lastSeenIndex ≤ r.2.highestRate
  index_pos : p.ytBalance ≠ 0 → 0 < p.interest.lastSeenIndex
  index_le_own : r.Unexpired → p.interest.lastSeenIndex ≤ r.1.yieldPosition.interest.lastSeenIndex

/-- **The order of rates and indexes** (module doc). -/
structure Ordered (r : VaultRun) : Prop where
  last_le : r.1.vault.lastSeenSyExchangeRate ≤ r.1.vault.allTimeHighSyExchangeRate
  started : r.1.vault.finalSyExchangeRate ≠ 0 → r.1.vault.startTs ≤ r.1.clock
  final_last : r.Unexpired → r.1.vault.finalSyExchangeRate = r.1.vault.lastSeenSyExchangeRate
  final_le : r.1.vault.finalSyExchangeRate ≤ r.2.highestRate
  own_index : r.1.vault.isInEmergencyMode = false →
    r.1.yieldPosition.interest.lastSeenIndex = r.1.vault.finalSyExchangeRate
  own_le : r.Unexpired →
    r.1.yieldPosition.interest.lastSeenIndex ≤ r.1.vault.allTimeHighSyExchangeRate
  placed : ∀ p ∈ r.1.positions, Placed r p

section
variable {A : VaultRun → VaultOp → Prop} {P : Staging → Prop} {w : VaultWorld}
  {g g' : VaultLedger} {r r' : VaultRun} {v v' v₁ v₂ : Vault} {p p' p₁ u u' : YieldTokenPosition}
  {now : UInt32} {syState : SyState} {k : Holder} {i : Nat}

/-! ## Changes that the order does not see -/

theorem Ordered.withVault (h : Ordered (w, g)) (hv : SameRates w.vault v')
    (hg : g'.highestRate = g.highestRate) : Ordered ({ w with vault := v' }, g') := by
  have hun : VaultRun.Unexpired ({ w with vault := v' }, g') ↔ VaultRun.Unexpired (w, g) := by
    simp only [VaultRun.Unexpired, hv.maturity]
  exact
    { last_le := by simpa only [hv.lastSeen, hv.allTimeHigh] using h.last_le
      started := by simpa only [hv.final, hv.startTs] using h.started
      final_last := by simpa only [hun, hv.final, hv.lastSeen] using h.final_last
      final_le := by simpa only [hv.final, hg] using h.final_le
      own_index := by simpa only [hv.isInEmergencyMode, hv.final] using h.own_index
      own_le := by simpa only [hun, hv.allTimeHigh] using h.own_le
      placed := fun p hp =>
        { index_le := by simpa only [hg] using (h.placed p hp).index_le
          index_pos := (h.placed p hp).index_pos
          index_le_own := by simpa only [hun] using (h.placed p hp).index_le_own } }

/-- A user's position may be replaced by any that is well placed. -/
theorem Ordered.setUser (h : Ordered (w, g)) (hu : Placed (w, g) u') :
    Ordered (w.setPosition (.user i) u', g) where
  last_le := h.last_le
  started := h.started
  final_last := h.final_last
  final_le := h.final_le
  own_index := h.own_index
  own_le := h.own_le
  placed := fun q hq =>
    have hold := VaultWorld.forall_setPosition (h := .user i) (Q := Placed (w, g)) h.placed hu q hq
    ⟨hold.index_le, hold.index_pos, hold.index_le_own⟩

/-- The vault's own position may be replaced by one with the same index. -/
theorem Ordered.setOwn (h : Ordered (w, g))
    (hl : p'.interest.lastSeenIndex = w.yieldPosition.interest.lastSeenIndex)
    (hpos : p'.ytBalance ≠ 0 → 0 < p'.interest.lastSeenIndex) :
    Ordered (w.setPosition .vault p', g) := by
  have hown := h.placed w.yieldPosition List.mem_cons_self
  have hnew : Placed (w, g) p' :=
    { index_le := hl ▸ hown.index_le
      index_pos := hpos
      index_le_own := fun _ => hl.le }
  have hplaced := VaultWorld.forall_setPosition (h := .vault) (Q := Placed (w, g)) h.placed hnew
  exact
    { last_le := h.last_le
      started := h.started
      final_last := h.final_last
      final_le := h.final_le
      own_index := fun he => hl.trans (h.own_index he)
      own_le := fun hun => hl.trans_le (h.own_le hun)
      placed := fun q hq =>
        have hold := hplaced q hq
        ⟨hold.index_le, hold.index_pos, fun hun => (hold.index_le_own hun).trans_eq hl.symm⟩ }

/-- A position may be replaced by one with the same balance and index. -/
theorem Ordered.setPosition (h : Ordered (w, g)) (hp : w.position? k = some p)
    (hy : p'.ytBalance = p.ytBalance)
    (hl : p'.interest.lastSeenIndex = p.interest.lastSeenIndex) :
    Ordered (w.setPosition k p', g) := by
  have hold := h.placed p (VaultWorld.position?_mem hp)
  have hpos : p'.ytBalance ≠ 0 → 0 < p'.interest.lastSeenIndex := by
    rw [hy, hl]; exact hold.index_pos
  cases k with
  | vault =>
    obtain rfl : w.yieldPosition = p := by simpa [VaultWorld.position?] using hp
    exact h.setOwn hl hpos
  | user i =>
    exact h.setUser ⟨hl ▸ hold.index_le, hpos, fun hun => hl ▸ hold.index_le_own hun⟩

/-! ## Refreshing -/

/-- After a refresh the vault is active, or it has expired and its final rate is frozen. -/
theorem Ordered.phase (h : Ordered (w, g)) (hnow : w.clock ≤ now)
    (hr : Refreshed w.vault w.yieldPosition now syState v₁ v₂ p₁) :
    (w.vault.isActive now = .ok true ∧ now.toNat ≤ w.vault.maturity ∧
      v₁.finalSyExchangeRate = syState.exchangeRate) ∨
    (w.vault.isActive now = .ok false ∧ w.vault.maturity < now.toNat ∧
      v₁.finalSyExchangeRate = w.vault.finalSyExchangeRate ∧ w.vault.startTs ≤ now) := by
  rcases hr.updated.final with ⟨ha, hf⟩ | ⟨ha, hf⟩
  · exact .inl ⟨ha, (Vault.isActive_eq_true.1 ha).2.1, hf⟩
  · have hstart : w.vault.startTs ≤ now :=
      UInt32.le_trans (h.started (hf ▸ hr.earned.final_ne_zero)) hnow
    rcases Vault.isActive_eq_false.1 ha with hlt | ⟨-, hlt⟩
    · rw [UInt32.le_iff_toNat_le] at hstart
      omega
    · exact .inr ⟨ha, hlt, hf, hstart⟩

/-- A staging leaves the index alone in emergency mode, and moves it to the final rate else. -/
theorem Refreshed.index (hr : Refreshed v p now syState v₁ v₂ p₁) :
    (v₂.isInEmergencyMode = true ∧ p₁.interest.lastSeenIndex = p.interest.lastSeenIndex) ∨
      (v₂.isInEmergencyMode = false ∧ p₁.interest.lastSeenIndex = v₂.finalSyExchangeRate) := by
  rw [hr.earned.sameView.isInEmergencyMode, hr.earned.sameView.final]
  exact hr.earned.index

theorem Refreshed.lastSeen (hr : Refreshed v p now syState v₁ v₂ p₁) :
    v₂.lastSeenSyExchangeRate = syState.exchangeRate := by
  rw [hr.earned.sameView.lastSeen, hr.updated.lastSeen]

theorem Refreshed.allTimeHigh (hr : Refreshed v p now syState v₁ v₂ p₁) :
    v₂.allTimeHighSyExchangeRate = max syState.exchangeRate v.allTimeHighSyExchangeRate := by
  rw [hr.earned.sameView.allTimeHigh, hr.updated.allTimeHigh]

theorem Refreshed.maturity (hr : Refreshed v p now syState v₁ v₂ p₁) :
    v₂.maturity = v.maturity := by
  rw [hr.earned.sameView.maturity, hr.updated.maturity]

/-- Until maturity a refresh makes the recorded rate the final one. -/
theorem Ordered.refresh_final (h : Ordered (w, g)) (hnow : w.clock ≤ now)
    (hr : Refreshed w.vault w.yieldPosition now syState v₁ v₂ p₁)
    (hun : now.toNat ≤ w.vault.maturity) : v₂.finalSyExchangeRate = syState.exchangeRate := by
  rcases h.phase hnow hr with ⟨-, -, hf⟩ | ⟨-, hlt, -, -⟩
  · rw [hr.earned.sameView.final, hf]
  · omega

/-- Until maturity the index of the vault's own position is at most a rate that is not below the
all-time high. -/
theorem Ordered.own_le_final (h : Ordered (w, g)) (hnow : w.clock ≤ now)
    (hr : Refreshed w.vault w.yieldPosition now syState v₁ v₂ p₁)
    (hun : now.toNat ≤ w.vault.maturity) (hcalm : v₂.isInEmergencyMode = false) :
    w.yieldPosition.interest.lastSeenIndex ≤ v₂.finalSyExchangeRate := by
  rw [h.refresh_final hnow hr hun]
  rw [Vault.isInEmergencyMode_eq_false, hr.lastSeen, hr.allTimeHigh] at hcalm
  have hclock : w.clock.toNat ≤ now.toNat := UInt32.le_iff_toNat_le.1 hnow
  exact (h.own_le (hclock.trans hun)).trans ((le_max_right _ _).trans hcalm)

theorem Ordered.refresh (h : Ordered (w, g)) (hnow : w.clock ≤ now)
    (hr : Refreshed w.vault w.yieldPosition now syState v₁ v₂ p₁) :
    Ordered ({ w with vault := v₂, yieldPosition := p₁, clock := now },
      g.sawSyState now w.vault v₂) := by
  have hu := hr.updated
  have he := hr.earned
  have hview := he.sameView
  have hown := h.placed w.yieldPosition List.mem_cons_self
  have hclock : w.clock.toNat ≤ now.toNat := UInt32.le_iff_toNat_le.1 hnow
  have hhigh : g.highestRate ≤ (g.sawSyState now w.vault v₂).highestRate := by
    simp only [VaultLedger.sawSyState]
    split
    · exact le_max_left _ _
    · exact le_rfl
  have hfinal_le : v₂.finalSyExchangeRate ≤ (g.sawSyState now w.vault v₂).highestRate := by
    rw [hview.final]
    rcases h.phase hnow hr with ⟨ha, -, hf⟩ | ⟨-, -, hf, -⟩
    · rw [hf, ← hr.lastSeen]
      simp only [VaultLedger.sawSyState, if_pos ha]
      exact le_max_right _ _
    · rw [hf]
      exact h.final_le.trans hhigh
  -- until maturity the index of the vault's own position does not fall
  have hgrow : now.toNat ≤ w.vault.maturity →
      w.yieldPosition.interest.lastSeenIndex ≤ p₁.interest.lastSeenIndex := by
    intro hun
    rcases hr.index with ⟨-, hi⟩ | ⟨hcalm, hi⟩
    · exact hi.ge
    · rw [hi]
      exact h.own_le_final hnow hr hun hcalm
  exact
    { last_le := by
        rw [hr.lastSeen, hr.allTimeHigh]; exact le_max_left _ _
      started := by
        intro _
        rw [hview.startTs, hu.startTs]
        rcases h.phase hnow hr with ⟨ha, -, -⟩ | ⟨-, -, -, hs⟩
        · exact UInt32.le_iff_toNat_le.2 (Vault.isActive_eq_true.1 ha).1
        · exact hs
      final_last := by
        intro hun
        rw [VaultRun.Unexpired, hr.maturity] at hun
        rw [h.refresh_final hnow hr hun, hr.lastSeen]
      final_le := hfinal_le
      own_index := by
        intro hcalm
        rcases hr.index with ⟨he', -⟩ | ⟨-, hi⟩
        · rw [he'] at hcalm; cases hcalm
        · exact hi
      own_le := by
        intro hun
        rw [VaultRun.Unexpired, hr.maturity] at hun
        rw [hr.allTimeHigh]
        rcases hr.index with ⟨-, hi⟩ | ⟨-, hi⟩
        · rw [hi]
          exact (h.own_le (hclock.trans hun)).trans (le_max_right _ _)
        · rw [hi, h.refresh_final hnow hr hun]
          exact le_max_left _ _
      placed := by
        intro q hq
        rcases List.mem_cons.1 hq with rfl | hq
        · refine ⟨?_, ?_, fun _ => le_rfl⟩
          · rcases hr.index with ⟨-, hi⟩ | ⟨-, hi⟩
            · exact hi ▸ hown.index_le.trans hhigh
            · exact hi ▸ hfinal_le
          · rw [he.ytBalance]
            rcases hr.index with ⟨-, hi⟩ | ⟨-, hi⟩
            · exact hi ▸ hown.index_pos
            · intro _
              rw [hi, hview.final]
              exact Nat.pos_of_ne_zero fun h0 => he.final_ne_zero (Number.eq_zero_iff.2 h0)
        · have hold := h.placed q (List.mem_cons_of_mem _ hq)
          refine ⟨hold.index_le.trans hhigh, hold.index_pos, fun hun => ?_⟩
          rw [VaultRun.Unexpired, hr.maturity] at hun
          exact (hold.index_le_own (hclock.trans hun)).trans (hgrow hun) }

/-! ## Every event -/

theorem Minted.sameRates {x py : UInt64} (h : Minted v p x py v' p') : SameRates v v' := by
  obtain ⟨e, t, s, -, -, rfl⟩ := h.vault
  exact ⟨rfl, rfl, rfl, rfl, rfl⟩

theorem Burned.sameRates {a x : UInt64} (h : Burned v p now a x v' p') : SameRates v v' := by
  obtain ⟨e, t, s, -, -, rfl⟩ := h.vault
  exact ⟨rfl, rfl, rfl, rfl, rfl⟩

theorem Moved.sameRates {a : UInt64} (h : Moved v p u a v' p' u') : SameRates v v' := by
  obtain ⟨s, rfl⟩ := h.vault
  exact ⟨rfl, rfl, rfl, rfl, rfl⟩

theorem InterestPaid.sameRates {a : UInt64} (h : InterestPaid v p a v' p') : SameRates v v' := by
  obtain ⟨e, c, -, -, rfl⟩ := h.vault
  exact ⟨rfl, rfl, rfl, rfl, rfl⟩

theorem TreasuryPaid.sameRates {a : UInt64} (h : TreasuryPaid v a v') : SameRates v v' := by
  obtain ⟨e, t, -, -, rfl⟩ := h
  exact ⟨rfl, rfl, rfl, rfl, rfl⟩

theorem Minted.emissions {x py : UInt64} (h : Minted v p x py v' p') :
    v'.emissions = v.emissions ∧ p'.emissions = p.emissions := by
  obtain ⟨e, t, s, -, -, rfl⟩ := h.vault
  obtain ⟨b, -, rfl⟩ := h.position
  exact ⟨rfl, rfl⟩

theorem Burned.emissions {a x : UInt64} (h : Burned v p now a x v' p') :
    v'.emissions = v.emissions ∧ p'.emissions = p.emissions := by
  obtain ⟨e, t, s, -, -, rfl⟩ := h.vault
  rcases h.position with ⟨-, b, -, rfl⟩ | ⟨-, rfl⟩
  · exact ⟨rfl, rfl⟩
  · exact ⟨rfl, rfl⟩

theorem Moved.emissions {a : UInt64} (h : Moved v p u a v' p' u') :
    v'.emissions = v.emissions ∧ p'.emissions = p.emissions ∧ u'.emissions = u.emissions := by
  obtain ⟨s, rfl⟩ := h.vault
  obtain ⟨b, -, rfl⟩ := h.source
  obtain ⟨c, -, rfl⟩ := h.destination
  exact ⟨rfl, rfl, rfl⟩

theorem InterestPaid.emissions {a : UInt64} (h : InterestPaid v p a v' p') :
    v'.emissions = v.emissions ∧ p'.emissions = p.emissions := by
  obtain ⟨e, c, -, -, rfl⟩ := h.vault
  obtain ⟨s, -, rfl⟩ := h.position
  exact ⟨rfl, rfl⟩

theorem TreasuryPaid.emissions {a : UInt64} (h : TreasuryPaid v a v') :
    v'.emissions = v.emissions := by
  obtain ⟨e, t, -, -, rfl⟩ := h
  rfl

theorem Minted.interest {x py : UInt64} (h : Minted v p x py v' p') :
    p'.interest = p.interest := by
  obtain ⟨b, -, rfl⟩ := h.position
  rfl

theorem Burned.interest {a x : UInt64} (h : Burned v p now a x v' p') :
    p'.interest = p.interest := by
  rcases h.position with ⟨-, b, -, rfl⟩ | ⟨-, rfl⟩
  · rfl
  · rfl

theorem Moved.interest {a : UInt64} (h : Moved v p u a v' p' u') :
    p'.interest = p.interest ∧ u'.interest = u.interest := by
  obtain ⟨b, -, rfl⟩ := h.source
  obtain ⟨c, -, rfl⟩ := h.destination
  exact ⟨rfl, rfl⟩

theorem InterestPaid.stake {a : UInt64} (h : InterestPaid v p a v' p') :
    p'.ytBalance = p.ytBalance ∧ p'.interest.lastSeenIndex = p.interest.lastSeenIndex := by
  obtain ⟨s, -, rfl⟩ := h.position
  exact ⟨rfl, rfl⟩

theorem collectEmissionAt_same {index : UInt16} {a : UInt64}
    (h : p.collectEmissionAt index a = .ok p') :
    p'.ytBalance = p.ytBalance ∧ p'.interest = p.interest := by
  obtain ⟨t, s, -, -, rfl⟩ := collectEmissionAt_eq_ok h
  exact ⟨rfl, rfl⟩

theorem JustEarned.index_pos (h : JustEarned v p) (hcalm : v.isInEmergencyMode = false) :
    0 < p.interest.lastSeenIndex := by
  rw [h.index hcalm]
  exact Nat.pos_of_ne_zero fun h0 => h.final_ne_zero (Number.eq_zero_iff.2 h0)

theorem unexpired_of_active (h : w.vault.isActive w.clock = .ok true) :
    VaultRun.Unexpired (w, g) :=
  (Vault.isActive_eq_true.1 h).2.1

/-- Until maturity the recorded rate is positive once a position has earned. -/
theorem Ordered.last_pos (h : Ordered (w, g)) (hun : VaultRun.Unexpired (w, g))
    (hj : JustEarned w.vault p) : 0 < w.vault.lastSeenSyExchangeRate := by
  have hlast : w.vault.finalSyExchangeRate = w.vault.lastSeenSyExchangeRate := h.final_last hun
  rw [← hlast]
  exact Nat.pos_of_ne_zero fun h0 => hj.final_ne_zero (Number.eq_zero_iff.2 h0)

/-- A vault that has recorded a rate has started, so it is active until maturity. -/
theorem Ordered.active_of_burned {a x : UInt64} (h : Ordered (w, g))
    (hun : VaultRun.Unexpired (w, g)) (hj : JustEarned w.vault p)
    (hb : Burned w.vault u w.clock a x v' u') : w.vault.isActive w.clock = .ok true := by
  rcases hb.position with ⟨hactive, -⟩ | ⟨hover, -⟩
  · exact hactive
  · have hstart : w.vault.startTs.toNat ≤ w.clock.toNat :=
      UInt32.le_iff_toNat_le.1 (h.started hj.final_ne_zero)
    have hle : w.clock.toNat ≤ w.vault.maturity := hun
    rcases Vault.isActive_eq_false.1 hover with hlt | ⟨-, hlt⟩
    · omega
    · omega

theorem Ordered.event (hA : ∀ r op, A r op → op.Sane r.1) (h : Ordered r)
    (he : VaultEvent A P r r') : Ordered r' := by
  cases he with
  | refresh hread hop hr hP => exact h.refresh (hA _ _ hop _ hread).1 hr
  | earn hu hP hearn =>
    have he := earned_of_ok hearn
    have hold := h.placed _ (VaultWorld.position?_mem hu)
    refine Ordered.withVault (h.setUser ?_) he.sameView.toSameRates rfl
    rcases he.index with ⟨-, hi⟩ | ⟨hcalm, hi⟩
    · exact ⟨hi ▸ hold.index_le, by rw [he.ytBalance, hi]; exact hold.index_pos,
        fun hun => hi ▸ hold.index_le_own hun⟩
    · refine ⟨hi ▸ h.final_le, fun _ => ?_, fun _ => (hi.trans (h.own_index hcalm).symm).le⟩
      rw [hi]
      exact Nat.pos_of_ne_zero fun h0 => he.final_ne_zero (Number.eq_zero_iff.2 h0)
  | mint hactive hcalm hj hm =>
    have hl := congrArg YieldTokenTracker.lastSeenIndex hm.interest
    exact (h.setOwn hl fun _ => hl ▸ hj.index_pos hcalm).withVault hm.sameRates rfl
  | burn hcalm hj hb =>
    have hl := congrArg YieldTokenTracker.lastSeenIndex hb.interest
    exact (h.setOwn hl fun _ => hl ▸ hj.index_pos hcalm).withVault hb.sameRates rfl
  | deposit hu hactive hcalm hj hju hm =>
    have hl := congrArg YieldTokenTracker.lastSeenIndex hm.interest.1
    have hlu := congrArg YieldTokenTracker.lastSeenIndex hm.interest.2
    have hold := h.placed _ (VaultWorld.position?_mem hu)
    refine Ordered.withVault
      (Ordered.setUser (h.setOwn hl fun _ => hl ▸ hj.index_pos hcalm) ?_) hm.sameRates rfl
    exact ⟨hlu ▸ hold.index_le, fun _ => hlu ▸ hju.index_pos hcalm,
      fun hun => hlu.trans_le ((hold.index_le_own hun).trans_eq hl.symm)⟩
  | @withdraw w _ _ u a _ p' u' hu hactive hj hju hm =>
    have hl := congrArg YieldTokenTracker.lastSeenIndex hm.interest.2
    have hlu := congrArg YieldTokenTracker.lastSeenIndex hm.interest.1
    have hold := h.placed _ (VaultWorld.position?_mem hu)
    have hown := h.placed _ List.mem_cons_self
    have hbehind := hold.index_le_own (unexpired_of_active hactive)
    obtain ⟨b, hb, hu'⟩ := hm.source
    obtain ⟨c, hc, hp'⟩ := hm.destination
    -- YT only comes from a position that has an index, and the vault's is not behind it
    have hpos : p'.ytBalance ≠ 0 → 0 < p'.interest.lastSeenIndex := by
      intro hne
      rw [hl]
      by_cases ha : u.ytBalance = 0
      · refine hown.index_pos fun (h0 : w.yieldPosition.ytBalance = 0) => hne ?_
        rw [hp', ← UInt64.toNat_inj]
        rw [← UInt64.toNat_inj, UInt64.toNat_zero] at ha h0
        simp only [UInt64.toNat_zero]
        omega
      · exact (hold.index_pos ha).trans_le hbehind
    have hposu : u'.ytBalance ≠ 0 → 0 < u'.interest.lastSeenIndex := by
      intro hne
      rw [hlu]
      refine hold.index_pos fun h0 => hne ?_
      rw [hu', ← UInt64.toNat_inj]
      rw [← UInt64.toNat_inj, UInt64.toNat_zero] at h0
      simp only [UInt64.toNat_zero]
      omega
    refine Ordered.withVault (Ordered.setUser (h.setOwn hl hpos) ?_) hm.sameRates rfl
    exact ⟨hlu ▸ hold.index_le, hposu,
      fun hun => hlu.trans_le ((hold.index_le_own hun).trans_eq hl.symm)⟩
  | rebalance _ => exact h.withVault ⟨rfl, rfl, rfl, rfl, rfl⟩ rfl
  | payInterest hp hpay =>
    refine (h.setPosition hp hpay.stake.1 hpay.stake.2).withVault ?_ rfl
    simpa using hpay.sameRates
  | payTreasury hpay => exact h.withVault hpay.sameRates rfl
  | payEmission hp hpay =>
    have hsame := collectEmissionAt_same hpay
    exact (h.setPosition hp hsame.1 (congrArg _ hsame.2)).withVault ⟨rfl, rfl, rfl, rfl, rfl⟩ rfl
  | payTreasuryEmission _ _ => exact h.withVault ⟨rfl, rfl, rfl, rfl, rfl⟩ rfl
  | openPosition =>
    refine ⟨h.last_le, h.started, h.final_last, h.final_le, h.own_index, h.own_le, fun q hq => ?_⟩
    simp only [VaultWorld.positions, List.mem_cons, List.mem_append, List.not_mem_nil,
      or_false] at hq
    rcases hq with rfl | hq | rfl
    · have hold := h.placed _ List.mem_cons_self
      exact ⟨hold.index_le, hold.index_pos, fun _ => le_rfl⟩
    · have hold := h.placed q (List.mem_cons_of_mem _ hq)
      exact ⟨hold.index_le, hold.index_pos, hold.index_le_own⟩
    · exact ⟨Nat.zero_le _, fun hne => absurd rfl hne, fun _ => Nat.zero_le _⟩
  | addEmission _ _ => exact h.withVault ⟨rfl, rfl, rfl, rfl, rfl⟩ rfl
  | removeEmission _ => exact h.withVault ⟨rfl, rfl, rfl, rfl, rfl⟩ rfl

theorem ordered_initializeVault (args : InitializeVaultArgs) :
    Ordered (VaultWorld.initializeVault args, {}) where
  last_le := le_rfl
  started h := absurd rfl h
  final_last _ := rfl
  final_le := le_rfl
  own_index _ := rfl
  own_le _ := le_rfl
  placed q hq := by
    obtain rfl := List.mem_singleton.1 hq
    exact ⟨le_rfl, fun hne => absurd rfl hne, fun _ => le_rfl⟩

end

end ExponentCore
