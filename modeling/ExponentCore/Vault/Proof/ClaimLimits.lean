import ExponentCore.Vault.ClaimLimits

/-!
# Claim limits bound what leaves the vault

As long as timestamps and the duration fit `u32`, `verify_claim_limits` is a step of a limiter
(`ClaimLimits.next_toLimiter`), so a sequence of calls is a run of the limiter
(`ClaimLimits.run_toLimiter`) and what holds of its windows holds of theirs (`claims_bounded`).
-/

set_option autoImplicit false

namespace ExponentCore

open Windowed

namespace ClaimLimits

variable {l l' : ClaimLimits} {c : ClaimCall} {cs : List ClaimCall}
  {s s' : ClaimLimits × List Claim}

/-! ## The limiter -/

def toLimiter (l : ClaimLimits) : Limiter where
  start := l.claimWindowStartTimestamp.toNat
  total := l.totalClaimAmountInWindow.toNat
  max := l.maxClaimAmountPerWindow.toNat
  length := l.claimWindowDurationSeconds.toNat

def toRequest (c : ClaimCall) : Request := ⟨c.currentTimestamp.toNat, c.amount.toNat⟩

def toLogged (s : ClaimLimits × List Claim) : Limiter × List Claim := (s.1.toLimiter, s.2)

/-- A window as the next call finds it. -/
def advance (l : ClaimLimits) (now : UInt32) : ClaimLimits :=
  if l.claimWindowStartTimestamp.toNat + l.claimWindowDurationSeconds.toNat < now.toNat then
    { l with claimWindowStartTimestamp := now, totalClaimAmountInWindow := 0 }
  else l

theorem advance_fields (l : ClaimLimits) (now : UInt32) :
    (l.advance now).maxClaimAmountPerWindow = l.maxClaimAmountPerWindow ∧
      (l.advance now).claimWindowDurationSeconds = l.claimWindowDurationSeconds ∧
      ((l.advance now).claimWindowStartTimestamp = l.claimWindowStartTimestamp ∨
        (l.advance now).claimWindowStartTimestamp = now) := by
  unfold advance
  split
  · exact ⟨rfl, rfl, .inr rfl⟩
  · exact ⟨rfl, rfl, .inl rfl⟩

theorem toLimiter_advance (l : ClaimLimits) (now : UInt32) :
    (l.advance now).toLimiter = l.toLimiter.advance now.toNat := by
  unfold advance Limiter.advance
  split
  · rename_i h
    exact (if_pos h).symm
  · rename_i h
    exact (if_neg h).symm

theorem step_eq_ok : l.step c = .ok l' ↔
    l.claimWindowStartTimestamp.toNat + l.claimWindowDurationSeconds.toNat < 2 ^ 32 ∧
      ∃ total : UInt64,
        total.toNat = (l.advance c.currentTimestamp).totalClaimAmountInWindow.toNat
          + c.amount.toNat ∧
        total ≤ (l.advance c.currentTimestamp).maxClaimAmountPerWindow ∧
        l' = { l.advance c.currentTimestamp with totalClaimAmountInWindow := total } := by
  have hend {e : UInt32}
      (h : e.toNat = l.claimWindowStartTimestamp.toNat + l.claimWindowDurationSeconds.toNat) :
      (if e < c.currentTimestamp then
        { l with
          claimWindowStartTimestamp := c.currentTimestamp, totalClaimAmountInWindow := 0 }
        else l) = l.advance c.currentTimestamp := by
    simp only [advance, UInt32.lt_iff_toNat_lt, h]
  simp only [step, verifyClaimLimits, bind_eq_ok, addU32_eq_ok, addU64_eq_ok, require_eq_ok,
    unwrap_eq_ok, checkedAdd_eq_some, Except.ok.injEq]
  constructor
  · rintro ⟨e, he, total, htotal, _, hle, total', htotal', rfl⟩
    rw [hend he] at *
    obtain rfl : total' = total := UInt64.toNat_inj.1 (htotal'.trans htotal.symm)
    have := e.toNat_lt
    exact ⟨by omega, total', htotal', hle, rfl⟩
  · rintro ⟨hfit, total, htotal, hle, rfl⟩
    refine ⟨UInt32.ofNat _, UInt32.toNat_ofNat_of_lt' hfit, ?_⟩
    rw [hend (UInt32.toNat_ofNat_of_lt' hfit)]
    exact ⟨total, htotal, (), hle, total, htotal, rfl⟩

theorem toLimiter_step (h : l.step c = .ok l') :
    l.toLimiter.step (toRequest c) = .ok l'.toLimiter := by
  obtain ⟨-, total, htotal, hle, rfl⟩ := step_eq_ok.1 h
  have hadvance := toLimiter_advance l c.currentTimestamp
  rw [Limiter.step_eq_ok]
  simp only [toRequest, ← hadvance]
  constructor
  · rw [(advance_fields _ _).1, UInt64.le_iff_toNat_le, htotal] at hle
    exact hle
  · simp only [toLimiter, htotal]

/-- A call is accepted if the limiter admits it. -/
theorem step_of_toLimiter {m : Limiter}
    (hfit : l.claimWindowStartTimestamp.toNat + l.claimWindowDurationSeconds.toNat < 2 ^ 32)
    (h : l.toLimiter.step (toRequest c) = .ok m) : ∃ l', l.step c = .ok l' := by
  obtain ⟨hle, -⟩ := Limiter.step_eq_ok.1 h
  have hadvance := toLimiter_advance l c.currentTimestamp
  simp only [toRequest, ← hadvance] at hle
  have hsmall : (l.advance c.currentTimestamp).totalClaimAmountInWindow.toNat + c.amount.toNat
      < 2 ^ 64 :=
    hle.trans_lt l.maxClaimAmountPerWindow.toNat_lt
  refine ⟨_, step_eq_ok.2 ⟨hfit, UInt64.ofNat _, UInt64.toNat_ofNat_of_lt' hsmall, ?_, rfl⟩⟩
  rw [UInt64.le_iff_toNat_le, UInt64.toNat_ofNat_of_lt' hsmall, (advance_fields _ _).1]
  exact hle

theorem next_toLimiter
    (hfit : s.1.claimWindowStartTimestamp.toNat + s.1.claimWindowDurationSeconds.toNat < 2 ^ 32) :
    toLogged (Machine.next logged s c) =
      Machine.next Limiter.logged (toLogged s) (toRequest c) := by
  rcases Machine.next_cases logged s c with ⟨s', hs, hnext⟩ | ⟨⟨e, he⟩, hnext⟩
  · obtain ⟨l', hl', rfl⟩ := Machine.recording_eq_ok.1 hs
    rw [hnext]
    refine (Machine.next_of_ok ?_).symm
    exact Machine.recording_eq_ok.2 ⟨_, toLimiter_step hl', rfl⟩
  · rw [hnext]
    cases hm : Limiter.logged (toLogged s) (toRequest c) with
    | error u => exact (Machine.next_of_error hm).symm
    | ok m =>
      obtain ⟨m', hm', -⟩ := Machine.recording_eq_ok.1 hm
      obtain ⟨l', hl'⟩ := step_of_toLimiter hfit hm'
      have hok : logged s c = .ok _ := Machine.recording_eq_ok.2 ⟨l', hl', rfl⟩
      rw [he] at hok
      cases hok

/-- The times of a call fit. -/
def Fits (duration : UInt32) (c : ClaimCall) : Prop :=
  c.currentTimestamp.toNat + duration.toNat < 2 ^ 32

instance {d : UInt32} : Decidable (Fits d c) := inferInstanceAs (Decidable (_ < _))

/-- The duration is that of `l`, and the window ends in time. -/
def Ends (l : ClaimLimits) (s : ClaimLimits × List Claim) : Prop :=
  s.1.claimWindowDurationSeconds = l.claimWindowDurationSeconds ∧
    s.1.claimWindowStartTimestamp.toNat + l.claimWindowDurationSeconds.toNat < 2 ^ 32

theorem ends_step (h : Ends l s) (hc : Fits l.claimWindowDurationSeconds c)
    (hstep : logged s c = .ok s') : Ends l s' := by
  obtain ⟨l', hl', rfl⟩ := Machine.recording_eq_ok.1 hstep
  obtain ⟨-, total, -, -, rfl⟩ := step_eq_ok.1 hl'
  obtain ⟨-, hkept, hbegan⟩ := advance_fields s.1 c.currentTimestamp
  refine ⟨hkept.trans h.1, ?_⟩
  show (s.1.advance c.currentTimestamp).claimWindowStartTimestamp.toNat + _ < _
  rcases hbegan with heq | heq
  · rw [heq]
    exact h.2
  · rw [heq]
    exact hc

section
variable
  (hstart : l.claimWindowStartTimestamp.toNat + l.claimWindowDurationSeconds.toNat < 2 ^ 32)
  (hfit : ∀ c ∈ cs, Fits l.claimWindowDurationSeconds c)
include hstart hfit

theorem ends_run : Ends l (Machine.run logged (l, []) cs) :=
  Machine.run_induction (fun _ _ _ hs hc hstep => ends_step hs hc hstep) ⟨rfl, hstart⟩
    (Machine.admits_of_forall hfit)

/-- **A sequence of calls is a run of the limiter.** -/
theorem run_toLimiter : toLogged (Machine.run logged (l, []) cs)
    = Machine.run Limiter.logged (l.toLimiter, []) (cs.map toRequest) := by
  have hall : Machine.Admits logged (fun _ c => Fits l.claimWindowDurationSeconds c) (l, []) cs :=
    Machine.admits_of_forall hfit
  have hadm := hall.with_invariant (I := Ends l)
    (fun _ _ _ hs hc hstep => ends_step hs hc hstep) ⟨rfl, hstart⟩
  refine Machine.run_map (f := toLogged) (g := toRequest) (fun s c hs => next_toLimiter ?_) hadm
  rw [hs.1.1]
  exact hs.1.2

end

/-! ## Claims -/

/-- **Claim limits bound what is claimed**: the calls accepted in one window stay within the
maximum, those in an interval no longer than a window within twice the maximum, and a call is
accepted if and only if its amount fits beside what its window has accepted. -/
theorem claims_bounded (htotal : l.totalClaimAmountInWindow ≤ l.maxClaimAmountPerWindow)
    (hstart : l.claimWindowStartTimestamp.toNat + l.claimWindowDurationSeconds.toNat < 2 ^ 32)
    (hfit : ∀ c ∈ cs, Fits l.claimWindowDurationSeconds c)
    (hcs : cs.Pairwise fun c d => c.currentTimestamp ≤ d.currentTimestamp) :
    (∀ w, l.toLimiter.totalIn w (Machine.run logged (l, []) cs).2
      ≤ l.maxClaimAmountPerWindow.toNat) ∧
    (∀ a b, b ≤ a + l.claimWindowDurationSeconds.toNat →
      claimedBetween a b (Machine.run logged (l, []) cs).2
        ≤ 2 * l.maxClaimAmountPerWindow.toNat) ∧
    ∀ before c after, cs = before ++ c :: after →
      ((∃ l', (Machine.run logged (l, []) before).1.step c = .ok l') ↔
        l.toLimiter.totalIn
            (l.toLimiter.windowAt (Machine.run logged (l, []) before).2 c.currentTimestamp.toNat)
            (Machine.run logged (l, []) before).2 + c.amount.toNat
          ≤ l.maxClaimAmountPerWindow.toNat) := by
  have hsorted {ds : List ClaimCall}
      (hds : ds.Pairwise fun c d => c.currentTimestamp ≤ d.currentTimestamp) :
      (ds.map toRequest).Pairwise fun r r' => r.time ≤ r'.time :=
    List.pairwise_map.2 hds
  have hinv {ds : List ClaimCall} (hds : ∀ c ∈ ds, Fits l.claimWindowDurationSeconds c)
      (horder : ds.Pairwise fun c d => c.currentTimestamp ≤ d.currentTimestamp) :
      Limiter.Inv l.toLimiter (toLogged (Machine.run logged (l, []) ds)) := by
    rw [run_toLimiter hstart hds]
    exact Limiter.inv_run htotal (hsorted horder)
  have hrun := hinv hfit hcs
  refine ⟨hrun.bounded, fun a b hab => ?_, ?_⟩
  · refine claimedBetween_le hrun.successive (fun w => ?_) hab
    exact (Nat.le_add_left _ _).trans (hrun.bounded w)
  · rintro before c after rfl
    have hbefore := hinv (fun d hd => hfit d (List.mem_append_left _ hd))
      (List.pairwise_append.1 hcs).1
    obtain ⟨hduration, hend⟩ := ends_run hstart fun d hd => hfit d (List.mem_append_left _ hd)
    rw [← hduration] at hend
    refine Iff.trans ?_ (hbefore.admitted_iff (r := toRequest c))
    constructor
    · rintro ⟨l', hl'⟩
      exact ⟨_, toLimiter_step hl'⟩
    · rintro ⟨m, hm⟩
      exact step_of_toLimiter hend hm

theorem claims_bounded_sample :
    claimedBetween 10 20 (Machine.run logged (⟨0, 0, 100, 10⟩, []) [⟨60, 5⟩, ⟨30, 9⟩, ⟨80, 16⟩]).2
      ≤ 2 * (100 : UInt64).toNat :=
  (claims_bounded (l := ⟨0, 0, 100, 10⟩) (by decide) (by decide) (by decide)
    (by decide)).2.1 10 20 (by decide)

end ClaimLimits

/-- What a collection pays, to the user and to the treasury, is what the limits accepted. -/
theorem collectInterestWithinLimits_paid {v v' : Vault} {p p' : YieldTokenPosition}
    {amount : Amount} {now : UInt32} {user fee : UInt64}
    (h : collectInterestWithinLimits v p amount now = .ok (v', p', user, fee)) :
    ∃ c l', v.claimLimits.step c = .ok l' ∧ c.currentTimestamp = now ∧
      user.toNat + fee.toNat = c.amount.toNat := by
  simp only [collectInterestWithinLimits, collectInterest, handleCollectInterest,
    calcCollectInterest, bind_eq_ok, unwrap_eq_ok, checkedSub_eq_some, Except.ok.injEq,
    Prod.exists, Prod.mk.injEq] at h
  obtain ⟨n, hn, l', hl', m, hm, _, _, -, user', fee', ⟨_, hsplit, rfl, rfl⟩, _, -, _, -, _, -, -,
    -, rfl, rfl⟩ := h
  obtain rfl : n = m := Except.ok.inj (hn.symm.trans hm)
  exact ⟨⟨n, now⟩, l', hl', rfl, hsplit⟩

end ExponentCore
