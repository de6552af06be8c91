import ExponentCore.Vault.Observed
import ExponentCore.Vault.Proof.NewEmission

/-!
# An emission index that falls and recovers

A staging pays the growth of the final index beyond the tracker and then sets the tracker to the
final index, also when that is lower; an update after maturity does the same for the treasury with
the last seen index. So a growth is paid twice when the index falls, is observed, and recovers. As
long as every payment starts from the highest index so far (`ObservationOp.FromHighest`), nothing is
(`growth_paid_once`); `not_growth_paid_once` is a fall and a recovery.
-/

set_option autoImplicit false

namespace ExponentCore

open Number

/-- What the treasury has of the emission of a slot. -/
def Vault.treasuryEmissionAt (v : Vault) (slot : Nat) : Nat :=
  ((v.emissions[slot]?).map fun e => e.treasuryEmission.toNat).getD 0

/-- The staging of the position; whose it is does not matter here. -/
def Observation.staging (s : Observation) : Staging := ⟨.user 0, s.vault, s.position⟩

namespace ObservationOp

/-- The clock does not run backwards. -/
def Clocked (s : Observation) : ObservationOp → Prop
  | .update now _ => s.clock ≤ now
  | .stage => True

instance (s : Observation) : ∀ op, Decidable (Clocked s op)
  | .update _ _ => inferInstanceAs (Decidable (_ ≤ _))
  | .stage => instDecidableTrue

/-- The SY balance of the position is `balance` whenever it is staged. -/
def OnBalance (balance : Nat) (s : Observation) : ObservationOp → Prop
  | .update _ _ => True
  | .stage => s.staging.syBalance = balance

instance (balance : Nat) (s : Observation) : ∀ op, Decidable (OnBalance balance s op)
  | .update _ _ => instDecidableTrue
  | .stage => inferInstanceAs (Decidable (_ = _))

/-- **The condition**: a payment starts from the highest index that the tracker, or the vault, has
had. -/
def FromHighest (slot : Nat) (s : Observation) (l : IndexLog) : ObservationOp → Prop
  | .update now syState => s.vault.isExpired now = .ok true →
    ∀ e ∈ s.vault.emissions[slot]?, reportedIndex syState slot e.lastSeenIndex ≤ e.lastSeenIndex ∨
      e.lastSeenIndex.raw = l.highest
  | .stage => ∀ e ∈ s.vault.emissions[slot]?,
    e.finalIndex.raw ≤ s.position.trackerIndex slot ∨
      s.position.trackerIndex slot = l.highestTracker

instance (slot : Nat) (s : Observation) (l : IndexLog) : ∀ op, Decidable (FromHighest slot s l op)
  | .update now syState =>
    match h : s.vault.isExpired now, he : s.vault.emissions[slot]? with
    | .ok true, some e =>
      decidable_of_iff (reportedIndex syState slot e.lastSeenIndex ≤ e.lastSeenIndex ∨
        e.lastSeenIndex.raw = l.highest) (by simp [FromHighest, h, he])
    | .ok true, none => isTrue (by simp [FromHighest, he])
    | .ok false, _ => isTrue (by simp [FromHighest, h])
    | .error _, _ => isTrue (by simp [FromHighest, h])
  | .stage =>
    match he : s.vault.emissions[slot]? with
    | some e =>
      decidable_of_iff (e.finalIndex.raw ≤ s.position.trackerIndex slot ∨
        s.position.trackerIndex slot = l.highestTracker) (by simp [FromHighest, he])
    | none => isTrue (by simp [FromHighest, he])

end ObservationOp

namespace Observation

/-- A vault and a position with the history of the index of a slot. -/
abbrev Logged := Observation × IndexLog

/-- A step, recorded in the history. -/
abbrev loggedStep (slot : Nat) : Logged → ObservationOp → Outcome Logged :=
  Machine.recording step (IndexLog.record slot)

/-- The history starts from what the vault and the position have recorded. -/
def startLog (s : Observation) (slot : Nat) (e : EmissionInfo) : IndexLog where
  highestActive := e.finalIndex.raw
  highestToMaturity := e.lastSeenIndex.raw
  highest := e.lastSeenIndex.raw
  highestTracker := s.position.trackerIndex slot

end Observation

open Observation ObservationOp

variable {slot balance : Nat} {s₀ s s' : Observation} {l : IndexLog} {r r' : Logged}
  {op : ObservationOp} {e e' : EmissionInfo}

/-- What has been paid since `s₀`, and how far the indexes have come. -/
structure PaidOnce (slot balance : Nat) (s₀ : Observation) (r : Logged) : Prop where
  emission : ∃ e, r.1.vault.emissions[slot]? = some e ∧ e.finalIndex.raw ≤ r.2.highestActive ∧
    e.lastSeenIndex.raw ≤ r.2.highest
  tracker : r.1.position.trackerIndex slot ≤ r.2.highestTracker
  started : s₀.position.trackerIndex slot ≤ r.2.highestTracker
  reached : r.2.highestTracker ≤ r.2.highestActive ∨
    r.2.highestTracker = s₀.position.trackerIndex slot
  paid : r.1.position.stagedEmission slot * denom ≤ s₀.position.stagedEmission slot * denom
    + (r.2.highestTracker - s₀.position.trackerIndex slot) * balance
  escrow : r.1.vault.totalSyInEscrow = s₀.vault.totalSyInEscrow
  maturity : r.1.vault.maturity = s₀.vault.maturity
  toMaturity : r.2.highestToMaturity ≤ r.2.highest
  treasury : r.1.vault.treasuryEmissionAt slot * denom
    ≤ s₀.vault.treasuryEmissionAt slot * denom
      + (r.2.highest - r.2.highestToMaturity) * s₀.vault.totalSyInEscrow.toNat
  early : r.1.clock.toNat ≤ r.1.vault.maturity →
    r.1.vault.treasuryEmissionAt slot = s₀.vault.treasuryEmissionAt slot

theorem paidOnce_start (he : s.vault.emissions[slot]? = some e) :
    PaidOnce slot balance s (s, s.startLog slot e) where
  emission := ⟨e, he, le_rfl, le_rfl⟩
  tracker := le_rfl
  started := le_rfl
  reached := .inr rfl
  paid := Nat.le_add_right _ _
  escrow := rfl
  maturity := rfl
  toMaturity := le_rfl
  treasury := Nat.le_add_right _ _
  early _ := rfl

/-- A payment that starts from the highest index adds no more than the growth beyond it. -/
theorem growth_add_le {m m' start b n : Nat} (hs : start ≤ m) (hm : m ≤ m')
    (hn : n * denom ≤ (m' - m) * b) :
    n * denom + (m - start) * b ≤ (m' - start) * b := by
  have hsplit : m' - start = (m' - m) + (m - start) := by omega
  rw [hsplit, Nat.add_mul]
  exact Nat.add_le_add_right hn _

theorem PaidOnce.stage (h : PaidOnce slot balance s₀ (s, l)) (hb : s.staging.syBalance = balance)
    (hfrom : FromHighest slot s l .stage) (hs : s.step .stage = .ok s') :
    PaidOnce slot balance s₀ (s', l.settle slot s'.position) := by
  obtain ⟨e, he, hfin, hlast⟩ := h.emission
  simp only [Observation.step, bind_eq_ok, Prod.exists, Except.ok.injEq] at hs
  obtain ⟨v', p', hearn, rfl⟩ := hs
  have hearned := earned_of_ok hearn
  have hview := hearned.sameView
  have hpaid : p'.stagedEmission slot = s.position.stagedEmission slot
      + (e.finalIndex.raw - s.position.trackerIndex slot) * balance / denom := by
    rw [Staging.paid_of_ok (k := .user 0) (s := slot) hearn, ← hb]
    simp [Staging.paid, Staging.finalIndex, Observation.staging, he]
  obtain ⟨b, -, htracker, -⟩ := hearned.tracker he
  have hsettle : l.settle slot p' =
      { l with highestTracker := max l.highestTracker e.finalIndex.raw } := by
    rw [← htracker]
    rfl
  have hbehind := h.tracker
  have hold := h.paid
  have hstarted := h.started
  obtain ⟨c, t, -, -, -, hv'⟩ := hearned.credit
  have hesc : v'.totalSyInEscrow = s.vault.totalSyInEscrow := by rw [hv']
  have htreasury : v'.treasuryEmissionAt slot = s.vault.treasuryEmissionAt slot := by
    rw [Vault.treasuryEmissionAt, hview.emissions, Vault.treasuryEmissionAt]
  have hdiv := Nat.div_mul_le_self
    ((e.finalIndex.raw - s.position.trackerIndex slot) * balance) denom
  rw [hsettle]
  exact
    { emission := ⟨e, hview.emissions ▸ he, hfin, hlast⟩
      tracker := htracker.trans_le (le_max_right _ _)
      started := hstarted.trans (le_max_left _ _)
      reached := by
        rcases le_total e.finalIndex.raw l.highestTracker with hle | hle
        · simpa only [max_eq_left hle] using h.reached
        · exact .inl ((max_eq_right hle).trans_le hfin)
      paid := by
        simp only at hold hstarted hbehind ⊢
        rw [hpaid, Nat.add_mul]
        rcases hfrom e he with hle | heq
        · -- the index is not above the tracker: nothing is paid
          rw [Nat.sub_eq_zero_of_le hle, Nat.zero_mul, Nat.zero_div, Nat.zero_mul, Nat.add_zero,
            max_eq_left (hle.trans hbehind)]
          exact hold
        · -- the payment starts from the highest index of the tracker
          rw [heq] at hdiv ⊢
          have hmax : max l.highestTracker e.finalIndex.raw - l.highestTracker
              = e.finalIndex.raw - l.highestTracker := by omega
          have hgrow := growth_add_le hstarted (le_max_left l.highestTracker e.finalIndex.raw)
            (hdiv.trans_eq (congrArg (· * balance) hmax.symm))
          omega
      escrow := hesc.trans h.escrow
      maturity := hview.maturity.trans h.maturity
      toMaturity := h.toMaturity
      treasury := htreasury ▸ h.treasury
      early := fun hle => by
        rw [htreasury]
        exact h.early (hview.maturity ▸ hle) }

theorem PaidOnce.update {now : UInt32} {syState : SyState} (h : PaidOnce slot balance s₀ (s, l))
    (hclock : s.clock ≤ now) (hfrom : FromHighest slot s l (.update now syState))
    (hs : s.step (.update now syState) = .ok s') :
    PaidOnce slot balance s₀ (s', l.observe slot now s.vault s'.vault) := by
  obtain ⟨e, he, hfin, hlast⟩ := h.emission
  simp only [Observation.step, bind_eq_ok, Except.ok.injEq] at hs
  obtain ⟨v', hv', rfl⟩ := hs
  have hu := Vault.updated_of_ok hv'
  obtain ⟨e', he', hE⟩ := emissionUpdated_of_ok hv' he
  have hlog : l.observe slot now s.vault v' =
      { l with
        highestActive :=
          if s.vault.isActive now = .ok true then max l.highestActive e'.lastSeenIndex.raw
          else l.highestActive
        highestToMaturity :=
          if s.vault.isExpired now = .ok false then max l.highestToMaturity e'.lastSeenIndex.raw
          else l.highestToMaturity
        highest := max l.highest e'.lastSeenIndex.raw } := by
    simp only [IndexLog.observe, he']
  have htreasury : v'.treasuryEmissionAt slot = e'.treasuryEmission.toNat := by
    simp [Vault.treasuryEmissionAt, he']
  have htreasury₀ : s.vault.treasuryEmissionAt slot = e.treasuryEmission.toNat := by
    simp [Vault.treasuryEmissionAt, he]
  have hold := h.treasury
  have hto := h.toMaturity
  have hle : s.clock.toNat ≤ now.toNat := UInt32.le_iff_toNat_le.1 hclock
  rw [hlog]
  refine
    { emission := ⟨e', he', ?_, le_max_right _ _⟩
      tracker := h.tracker
      started := h.started
      reached := ?_
      paid := h.paid
      escrow := hu.escrow.trans h.escrow
      maturity := hu.maturity.trans h.maturity
      toMaturity := ?_
      treasury := ?_
      early := ?_ }
  · rcases hE.final with ⟨ha, hf⟩ | ⟨ha, hf⟩
    · simp only [ha, ↓reduceIte, hf, hE.lastSeen, reportedIndex]
      cases hx : syState.emissionIndexes[slot]? with
      | none => exact hfin.trans (le_max_left _ _)
      | some x => exact le_max_right _ _
    · simp only [ha, hf]
      exact hfin
  · refine h.reached.imp_left fun hr => hr.trans ?_
    simp only
    split
    · exact le_max_left _ _
    · exact le_rfl
  · simp only at hto ⊢
    split
    · exact max_le_max_right _ hto
    · exact hto.trans (le_max_left _ _)
  · rcases hE.treasury with ⟨hexp, ht⟩ | ⟨hun, ht⟩
    · have hexpired : s.vault.isExpired now = .ok true := by
        have hnow := now.toNat_lt
        exact Vault.isExpired_eq_ok.2 ⟨by omega, by simp [hexp]⟩
      have hdiv := Nat.div_mul_le_self
        ((e'.lastSeenIndex.raw - e.lastSeenIndex.raw) * s.vault.totalSyInEscrow.toNat) denom
      simp only [hexpired, Except.ok.injEq, Bool.true_eq_false, ↓reduceIte] at hold hto ⊢
      rw [htreasury, ht, Nat.add_mul]
      rw [htreasury₀] at hold
      have hescrow : s.vault.totalSyInEscrow = s₀.vault.totalSyInEscrow := h.escrow
      rw [hescrow] at hdiv ⊢
      rcases hfrom hexpired e he with hle | heq
      · -- the index is not above the last one: nothing is paid
        rw [← hE.lastSeen, le_def] at hle
        rw [Nat.sub_eq_zero_of_le hle, Nat.zero_mul, Nat.zero_div, Nat.zero_mul, Nat.add_zero,
          max_eq_left (hle.trans hlast)]
        exact hold
      · -- the payment starts from the highest index that was observed
        rw [heq] at hdiv ⊢
        have hmax : max l.highest e'.lastSeenIndex.raw - l.highest
            = e'.lastSeenIndex.raw - l.highest := by omega
        have hgrow := growth_add_le hto (le_max_left l.highest e'.lastSeenIndex.raw)
          (hdiv.trans_eq (congrArg (· * s₀.vault.totalSyInEscrow.toNat) hmax.symm))
        omega
    · have hearly := h.early (hle.trans hun)
      simp only at hearly ⊢
      rw [htreasury, ht, ← htreasury₀, hearly]
      exact Nat.le_add_right _ _
  · intro hun
    have hmat : v'.maturity = s.vault.maturity := hu.maturity
    simp only [hmat] at hun
    rcases hE.treasury with ⟨hexp, -⟩ | ⟨-, ht⟩
    · omega
    · have hearly := h.early (hle.trans hun)
      simp only at hearly ⊢
      rw [htreasury, ht, ← htreasury₀, hearly]

/-- **A growth is paid once**: in every run in which the payments start from the highest index, the
position is credited at most the growth from its starting index to the highest one observed while
the vault was active, and the treasury at most the growth beyond the highest index that was observed
up to maturity. -/
theorem growth_paid_once (s : Observation) (slot : Nat) (e : EmissionInfo)
    (he : s.vault.emissions[slot]? = some e) (balance : Nat) (ops : List ObservationOp)
    (hops : Machine.Admits (loggedStep slot)
      (fun r op => op.Clocked r.1 ∧ op.OnBalance balance r.1 ∧ op.FromHighest slot r.1 r.2)
      (s, s.startLog slot e) ops) :
    let r := Machine.run (loggedStep slot) (s, s.startLog slot e) ops
    (r.1.position.stagedEmission slot - s.position.stagedEmission slot) * 10 ^ 12
        ≤ (r.2.highestActive - s.position.trackerIndex slot) * balance ∧
      (r.1.vault.treasuryEmissionAt slot - s.vault.treasuryEmissionAt slot) * 10 ^ 12
        ≤ (r.2.highest - r.2.highestToMaturity) * s.vault.totalSyInEscrow.toNat := by
  have hinv : PaidOnce slot balance s
      (Machine.run (loggedStep slot) (s, s.startLog slot e) ops) := by
    refine Machine.run_induction ?_ (paidOnce_start he) hops
    rintro ⟨s₁, l⟩ op r' h ⟨hclock, hb, hfrom⟩ hstep
    obtain ⟨s₂, hs, rfl⟩ := Machine.recording_eq_ok.1 hstep
    cases op with
    | update now syState => exact h.update hclock hfrom hs
    | stage => exact h.stage hb hfrom hs
  intro r
  have hr : PaidOnce slot balance s r := hinv
  clear_value r
  have hpaid := hr.paid
  have htreasury := hr.treasury
  have hmono : (r.2.highestTracker - s.position.trackerIndex slot) * balance
      ≤ (r.2.highestActive - s.position.trackerIndex slot) * balance := by
    rcases hr.reached with hle | heq
    · exact Nat.mul_le_mul_right _ (Nat.sub_le_sub_right hle _)
    · rw [heq, Nat.sub_self, Nat.zero_mul]
      exact Nat.zero_le _
  constructor
  · show (_ - _) * denom ≤ _
    rw [Nat.sub_mul]
    omega
  · show (_ - _) * denom ≤ _
    rw [Nat.sub_mul]
    omega

/-! ## A fall and a recovery -/

namespace Observation

/-- A rate of one, and one index. -/
def indexAt (n : UInt64) : SyState := ⟨1, [fromNaturalU64 n]⟩

/-- A vault with an emission at index 1 after a strip of 100, and its own position. -/
def stripped : Observation :=
  let w := Machine.run VaultWorld.step VaultWorld.freshVault
    [.addEmission {} (indexAt 1) 7 8 0, .strip 1 (indexAt 1) 100]
  ⟨w.vault, w.yieldPosition, w.clock⟩

/-- The emission of `stripped`. -/
def strippedEmission : EmissionInfo := .new 7 8 (fromNaturalU64 1) 0

/-- The index rises to 3, with a staging on the way, and to 5 after maturity. -/
def rise : List ObservationOp :=
  [.stage, .update 2 (indexAt 2), .stage, .update 3 (indexAt 3), .stage, .update 1001 (indexAt 5)]

theorem growth_paid_once_rise :
    let r := Machine.run (loggedStep 0) (stripped, stripped.startLog 0 strippedEmission) rise
    (r.1.position.stagedEmission 0 - stripped.position.stagedEmission 0) * 10 ^ 12
        ≤ (r.2.highestActive - stripped.position.trackerIndex 0) * 100 ∧
      (r.1.vault.treasuryEmissionAt 0 - stripped.vault.treasuryEmissionAt 0) * 10 ^ 12
        ≤ (r.2.highest - r.2.highestToMaturity) * stripped.vault.totalSyInEscrow.toNat :=
  growth_paid_once stripped 0 strippedEmission (by decide +kernel) 100 rise (by decide +kernel)

/-- The index falls from 2 to 1 and recovers, before the maturity and after it. -/
def fallAndRecover : List ObservationOp :=
  [.update 2 (indexAt 2), .stage, .update 3 (indexAt 1), .stage, .update 4 (indexAt 2), .stage,
    .update 1001 (indexAt 1), .update 1002 (indexAt 2)]

/-- The position is credited 200 for a growth worth 100, and the treasury 100 for no growth at all.
-/
theorem not_growth_paid_once_fallAndRecover :
    let r := Machine.run (loggedStep 0) (stripped, stripped.startLog 0 strippedEmission)
      fallAndRecover
    stripped.vault.emissions[0]? = some strippedEmission ∧
      Machine.Admits (loggedStep 0) (fun r op => op.Clocked r.1 ∧ op.OnBalance 100 r.1)
        (stripped, stripped.startLog 0 strippedEmission) fallAndRecover ∧
      ¬ (r.1.position.stagedEmission 0 - stripped.position.stagedEmission 0) * 10 ^ 12
        ≤ (r.2.highestActive - stripped.position.trackerIndex 0) * 100 ∧
      ¬ (r.1.vault.treasuryEmissionAt 0 - stripped.vault.treasuryEmissionAt 0) * 10 ^ 12
        ≤ (r.2.highest - r.2.highestToMaturity) * stripped.vault.totalSyInEscrow.toNat := by
  decide +kernel

end Observation

end ExponentCore
