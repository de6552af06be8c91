import ExponentCore.Lib.Machine

/-!
# Limits on what is claimed in a window of time

A limiter admits claims as long as their sum in the current window is within a maximum. A window
begins with the first claim after the last one has elapsed, so windows do not lie on a grid.
`step_eq_ok` says when a claim is admitted.

Every window stays within the maximum (`Inv.bounded`). Windows are longer than any interval between
the first claims of the next two, so no interval of their length meets three of them
(`two_windows`), and the claims in such an interval stay within twice the maximum
(`claimedBetween_le`).
-/

set_option autoImplicit false

namespace Windowed

/-! ## Claims -/

/-- A claim that was admitted, with the start of its window. -/
structure Claim where
  window : Nat
  time : Nat
  amount : Nat
deriving DecidableEq

def totalWhere (p : Claim → Prop) [DecidablePred p] (h : List Claim) : Nat :=
  ((h.filter p).map Claim.amount).sum

section
variable {p q : Claim → Prop} [DecidablePred p] [DecidablePred q] {h : List Claim} {c : Claim}

@[simp] theorem totalWhere_nil : totalWhere p [] = 0 := rfl

theorem totalWhere_cons :
    totalWhere p (c :: h) = (if p c then c.amount else 0) + totalWhere p h := by
  unfold totalWhere
  by_cases hc : p c
  · simp [hc]
  · simp [hc]

theorem totalWhere_concat :
    totalWhere p (h ++ [c]) = totalWhere p h + if p c then c.amount else 0 := by
  induction h with
  | nil => simp [totalWhere_cons]
  | cons d h ih => rw [List.cons_append, totalWhere_cons, totalWhere_cons, ih, Nat.add_assoc]

theorem totalWhere_eq_zero (hnone : ∀ c ∈ h, ¬ p c) : totalWhere p h = 0 := by
  induction h with
  | nil => rfl
  | cons c h ih =>
    rw [totalWhere_cons, if_neg (hnone c List.mem_cons_self),
      ih fun d hd => hnone d (List.mem_cons_of_mem c hd)]

/-- What is in one of two parts is within their sum. -/
theorem totalWhere_le_add {s : Claim → Prop} [DecidablePred s]
    (hcover : ∀ c ∈ h, s c → p c ∨ q c) : totalWhere s h ≤ totalWhere p h + totalWhere q h := by
  induction h with
  | nil => exact Nat.le_refl _
  | cons c h ih =>
    have hrest := ih fun d hd => hcover d (List.mem_cons_of_mem c hd)
    have hfirst := hcover c List.mem_cons_self
    rw [totalWhere_cons, totalWhere_cons, totalWhere_cons]
    by_cases hs : s c
    · rcases hfirst hs with hp | hq
      · simp only [hs, hp, if_true]
        omega
      · simp only [hs, hq, if_true]
        omega
    · simp only [hs, if_false]
      omega

end

def claimedIn (w : Nat) (h : List Claim) : Nat := totalWhere (fun c => c.window = w) h

/-- What was claimed from `a` to `b`, both included. -/
def claimedBetween (a b : Nat) (h : List Claim) : Nat :=
  totalWhere (fun c => a ≤ c.time ∧ c.time ≤ b) h

/-- A window begins after the ones before it have elapsed, with a claim of its own. -/
structure Successive (length : Nat) (c d : Claim) : Prop where
  elapsed : c.window + length < d.window
  before : c.time ≤ d.window
  since : d.window ≤ d.time

section
variable {length a b : Nat} {h : List Claim}

theorem not_three_windows {c d e : Claim} (hcd : Successive length c d)
    (hde : Successive length d e) (hab : b ≤ a + length) (hc : a ≤ c.time) (he : e.time ≤ b) :
    False := by
  have := hcd.before
  have := hde.elapsed
  have := hde.since
  omega

/-- The claims of a short interval are in two windows. -/
theorem two_windows (hs : ∀ c ∈ h, ∀ d ∈ h, c.window < d.window → Successive length c d)
    (hab : b ≤ a + length) :
    ∃ u v, ∀ c ∈ h, a ≤ c.time ∧ c.time ≤ b → c.window = u ∨ c.window = v := by
  by_cases hone : ∃ c ∈ h, a ≤ c.time ∧ c.time ≤ b
  · obtain ⟨c, hc, hct⟩ := hone
    by_cases htwo : ∃ d ∈ h, (a ≤ d.time ∧ d.time ≤ b) ∧ d.window ≠ c.window
    · obtain ⟨d, hd, hdt, hdc⟩ := htwo
      refine ⟨c.window, d.window, fun e he het => ?_⟩
      by_contra hne
      rw [not_or] at hne
      -- three windows in one of six orders
      have hno {x y z : Claim} (hx : x ∈ h) (hy : y ∈ h) (hz : z ∈ h) (hxt : a ≤ x.time)
          (hzt : z.time ≤ b) : ¬ (x.window < y.window ∧ y.window < z.window) := fun ⟨hxy, hyz⟩ =>
        not_three_windows (hs x hx y hy hxy) (hs y hy z hz hyz) hab hxt hzt
      have h₁ := hno hc hd he hct.1 het.2
      have h₂ := hno hc he hd hct.1 hdt.2
      have h₃ := hno hd hc he hdt.1 het.2
      have h₄ := hno hd he hc hdt.1 hct.2
      have h₅ := hno he hc hd het.1 hdt.2
      have h₆ := hno he hd hc het.1 hct.2
      omega
    · refine ⟨c.window, c.window, fun d hd hdt => .inl ?_⟩
      by_contra hne
      exact htwo ⟨d, hd, hdt, hne⟩
  · exact ⟨0, 0, fun c hc hct => absurd ⟨c, hc, hct⟩ hone⟩

theorem claimedBetween_le {max : Nat}
    (hs : ∀ c ∈ h, ∀ d ∈ h, c.window < d.window → Successive length c d)
    (hmax : ∀ w, claimedIn w h ≤ max) (hab : b ≤ a + length) : claimedBetween a b h ≤ 2 * max := by
  obtain ⟨u, v, huv⟩ := two_windows hs hab
  have hle : claimedBetween a b h ≤ claimedIn u h + claimedIn v h := totalWhere_le_add huv
  have hu := hmax u
  have hv := hmax v
  omega

end

/-! ## A limiter -/

structure Request where
  time : Nat
  amount : Nat
deriving DecidableEq

structure Limiter where
  start : Nat
  total : Nat
  max : Nat
  length : Nat
deriving DecidableEq

namespace Limiter

/-- A window that has elapsed is left. -/
def advance (l : Limiter) (now : Nat) : Limiter :=
  if l.start + l.length < now then { l with start := now, total := 0 } else l

def step (l : Limiter) (r : Request) : Except Unit Limiter :=
  if (l.advance r.time).total + r.amount ≤ l.max then
    .ok { l.advance r.time with total := (l.advance r.time).total + r.amount }
  else .error ()

/-- The claim that an admitted request becomes. -/
def record (_ : Limiter) (r : Request) (l' : Limiter) (h : List Claim) : List Claim :=
  h ++ [⟨l'.start, r.time, r.amount⟩]

/-- A limiter with the claims that it has admitted. -/
abbrev logged : Limiter × List Claim → Request → Except Unit (Limiter × List Claim) :=
  Machine.recording step record

/-- What was admitted in a window, with what the limiter knew of at first. -/
def totalIn (l : Limiter) (w : Nat) (h : List Claim) : Nat :=
  (if w = l.start then l.total else 0) + claimedIn w h

/-- The window in which the last claim was admitted. -/
def lastWindow (l : Limiter) (h : List Claim) : Nat := (h.getLast?.map Claim.window).getD l.start

/-- The window of a request: the last one, unless that has elapsed. -/
def windowAt (l : Limiter) (h : List Claim) (now : Nat) : Nat :=
  if l.lastWindow h + l.length < now then now else l.lastWindow h

variable {l l₀ : Limiter} {s s' : Limiter × List Claim} {r : Request} {now : Nat}

theorem step_eq_ok {l' : Limiter} : l.step r = .ok l' ↔
    (l.advance r.time).total + r.amount ≤ l.max ∧
      l' = { l.advance r.time with total := (l.advance r.time).total + r.amount } := by
  unfold step
  split
  · rename_i h
    simp only [Except.ok.injEq, h, true_and]
    exact eq_comm
  · rename_i h
    simp only [h, reduceCtorEq, false_and]

theorem advance_cases (l : Limiter) (now : Nat) :
    l.start + l.length < now ∧ l.advance now = { l with start := now, total := 0 } ∨
      ¬ l.start + l.length < now ∧ l.advance now = l := by
  unfold advance
  split
  · rename_i h
    exact .inl ⟨h, rfl⟩
  · rename_i h
    exact .inr ⟨h, rfl⟩

/-- **What holds along a run** from `l₀`. -/
structure Inv (l₀ : Limiter) (s : Limiter × List Claim) : Prop where
  max : s.1.max = l₀.max
  length : s.1.length = l₀.length
  started : l₀.start ≤ s.1.start
  windows : ∀ c ∈ s.2, l₀.start ≤ c.window ∧ c.window ≤ s.1.start
  last : s.1.start = l₀.lastWindow s.2
  begun : s.1.start = l₀.start ∨ ∃ c ∈ s.2, c.time = s.1.start
  earlier : ∀ c ∈ s.2, c.window < s.1.start →
    c.window + l₀.length < s.1.start ∧ c.time ≤ s.1.start
  successive : ∀ c ∈ s.2, ∀ d ∈ s.2, c.window < d.window → Successive l₀.length c d
  total : s.1.total = l₀.totalIn s.1.start s.2
  bounded : ∀ w, l₀.totalIn w s.2 ≤ l₀.max

/-- Time does not go back. -/
def Timely (s : Limiter × List Claim) (r : Request) : Prop := ∀ c ∈ s.2, c.time ≤ r.time

theorem inv_init (h : l₀.total ≤ l₀.max) : Inv l₀ (l₀, []) where
  max := rfl
  length := rfl
  started := Nat.le_refl _
  windows _ hc := absurd hc List.not_mem_nil
  last := rfl
  begun := .inl rfl
  earlier _ hc := absurd hc List.not_mem_nil
  successive _ hc := absurd hc List.not_mem_nil
  total := by simp [totalIn, claimedIn]
  bounded w := by
    simp only [totalIn, claimedIn, totalWhere_nil, Nat.add_zero]
    split <;> omega

theorem Inv.totalIn_new (h : Inv l₀ s) (hnow : s.1.start < now) : l₀.totalIn now s.2 = 0 := by
  have hstarted := h.started
  rw [totalIn, if_neg (by omega), Nat.zero_add]
  refine totalWhere_eq_zero fun c hc heq => ?_
  have := (h.windows c hc).2
  omega

/-- The total that a request is measured by is that of its window. -/
theorem Inv.advanced (h : Inv l₀ s) :
    (s.1.advance now).start = l₀.windowAt s.2 now ∧
      (s.1.advance now).total = l₀.totalIn (l₀.windowAt s.2 now) s.2 := by
  rw [windowAt, ← h.last, ← h.length]
  rcases advance_cases s.1 now with ⟨helapsed, heq⟩ | ⟨hrunning, heq⟩
  · rw [if_pos helapsed, heq]
    exact ⟨rfl, (h.totalIn_new (by omega)).symm⟩
  · rw [if_neg hrunning, heq]
    exact ⟨rfl, h.total⟩

/-- **Who is admitted**: a request whose amount fits beside what its window has admitted. -/
theorem Inv.admitted_iff (h : Inv l₀ s) :
    (∃ l', s.1.step r = .ok l') ↔
      l₀.totalIn (l₀.windowAt s.2 r.time) s.2 + r.amount ≤ l₀.max := by
  simp only [step_eq_ok, exists_and_left, exists_eq, and_true]
  rw [h.advanced.2, h.max]

/-- The window of a request comes after the others, and begins with a claim that was admitted,
unless it is the first. -/
theorem Inv.window (h : Inv l₀ s) (ht : Timely s r) :
    s.1.start ≤ (s.1.advance r.time).start ∧
      ((s.1.advance r.time).start = s.1.start ∨ (s.1.advance r.time).start = r.time) ∧
      ((s.1.advance r.time).start = l₀.start ∨ (s.1.advance r.time).start ≤ r.time) ∧
      ∀ c ∈ s.2, c.window < (s.1.advance r.time).start →
        c.window + l₀.length < (s.1.advance r.time).start ∧
          c.time ≤ (s.1.advance r.time).start := by
  have hlength := h.length
  rcases advance_cases s.1 r.time with ⟨helapsed, heq⟩ | ⟨hrunning, heq⟩
  · rw [heq]
    dsimp only
    refine ⟨by omega, .inr rfl, .inr (Nat.le_refl _), fun c hc _ => ⟨?_, ht c hc⟩⟩
    have := (h.windows c hc).2
    omega
  · rw [heq]
    refine ⟨Nat.le_refl _, .inl rfl, ?_, h.earlier⟩
    rcases h.begun with hfirst | ⟨c, hc, hct⟩
    · exact .inl hfirst
    · exact .inr (hct ▸ ht c hc)

theorem inv_step (h : Inv l₀ s) (ht : Timely s r) (hstep : logged s r = .ok s') : Inv l₀ s' := by
  obtain ⟨l', hl', rfl⟩ := Machine.recording_eq_ok.1 hstep
  obtain ⟨hle, rfl⟩ := step_eq_ok.1 hl'
  obtain ⟨hstart, hnew, hfirst, hearlier⟩ := h.window ht
  have hfields : (s.1.advance r.time).max = s.1.max ∧ (s.1.advance r.time).length = s.1.length := by
    rcases advance_cases s.1 r.time with ⟨-, heq⟩ | ⟨-, heq⟩ <;> rw [heq] <;> exact ⟨rfl, rfl⟩
  have htotal : (s.1.advance r.time).total = l₀.totalIn (s.1.advance r.time).start s.2 := by
    rw [h.advanced.2, h.advanced.1]
  have hstarted := h.started
  generalize s.1.advance r.time = m at *
  have hconcat (w : Nat) : l₀.totalIn w (s.2 ++ [⟨m.start, r.time, r.amount⟩])
      = l₀.totalIn w s.2 + if m.start = w then r.amount else 0 := by
    rw [totalIn, totalIn, claimedIn, claimedIn, totalWhere_concat, Nat.add_assoc]
  refine ⟨hfields.1.trans h.max, hfields.2.trans h.length, hstarted.trans hstart, ?_, ?_, ?_, ?_,
    ?_, ?_, ?_⟩
  · intro c hc
    rcases List.mem_append.1 hc with hc | hc
    · exact ⟨(h.windows c hc).1, (h.windows c hc).2.trans hstart⟩
    · obtain rfl := List.mem_singleton.1 hc
      exact ⟨hstarted.trans hstart, Nat.le_refl _⟩
  · simp [lastWindow, record]
  · rcases hnew with heq | heq
    · rcases h.begun with hbegun | ⟨c, hc, hct⟩
      · exact .inl (heq.trans hbegun)
      · exact .inr ⟨c, List.mem_append_left _ hc, hct.trans heq.symm⟩
    · exact .inr ⟨_, List.mem_append_right _ (List.mem_singleton_self _), heq.symm⟩
  · intro c hc hlt
    rcases List.mem_append.1 hc with hc | hc
    · exact hearlier c hc hlt
    · obtain rfl := List.mem_singleton.1 hc
      exact absurd hlt (Nat.lt_irrefl _)
  · intro c hc d hd hlt
    rcases List.mem_append.1 hc with hc | hc
    · rcases List.mem_append.1 hd with hd | hd
      · exact h.successive c hc d hd hlt
      · obtain rfl := List.mem_singleton.1 hd
        obtain ⟨helapsed, hbefore⟩ := hearlier c hc hlt
        have hlow := (h.windows c hc).1
        dsimp only at hlt
        exact ⟨helapsed, hbefore, hfirst.resolve_left (by omega)⟩
    · obtain rfl := List.mem_singleton.1 hc
      rcases List.mem_append.1 hd with hd | hd
      · have := (h.windows d hd).2
        dsimp only at hlt
        omega
      · obtain rfl := List.mem_singleton.1 hd
        exact absurd hlt (Nat.lt_irrefl _)
  · show m.total + r.amount = l₀.totalIn m.start (s.2 ++ [⟨m.start, r.time, r.amount⟩])
    rw [hconcat, if_pos rfl, htotal]
  · intro w
    show l₀.totalIn w (s.2 ++ [⟨m.start, r.time, r.amount⟩]) ≤ l₀.max
    rw [hconcat]
    by_cases hw : m.start = w
    · subst hw
      rw [if_pos rfl, ← htotal, ← h.max]
      exact hle
    · rw [if_neg hw, Nat.add_zero]
      exact h.bounded w

/-! ### Runs -/

/-- Requests in order of time. -/
theorem timely_of_sorted {rs : List Request} (hrs : rs.Pairwise fun r r' => r.time ≤ r'.time)
    (hs : ∀ c ∈ s.2, ∀ r ∈ rs, c.time ≤ r.time) : Machine.Admits logged Timely s rs := by
  induction rs generalizing s with
  | nil => trivial
  | cons r rs ih =>
    obtain ⟨hfirst, hrest⟩ := List.pairwise_cons.1 hrs
    refine ⟨fun c hc => hs c hc r List.mem_cons_self, ih hrest ?_⟩
    intro c hc r' hr'
    rcases Machine.next_cases logged s r with ⟨s', hstep, hnext⟩ | ⟨-, hnext⟩
    · rw [hnext] at hc
      obtain ⟨l', -, rfl⟩ := Machine.recording_eq_ok.1 hstep
      rcases List.mem_append.1 hc with hc | hc
      · exact hs c hc r' (List.mem_cons_of_mem r hr')
      · obtain rfl := List.mem_singleton.1 hc
        exact hfirst r' hr'
    · rw [hnext] at hc
      exact hs c hc r' (List.mem_cons_of_mem r hr')

theorem inv_run {rs : List Request} (h : l₀.total ≤ l₀.max)
    (hrs : rs.Pairwise fun r r' => r.time ≤ r'.time) : Inv l₀ (Machine.run logged (l₀, []) rs) :=
  Machine.run_induction (fun _ _ _ hs ht hstep => inv_step hs ht hstep) (inv_init h)
    (timely_of_sorted hrs fun _ hc => absurd hc List.not_mem_nil)

end Limiter

end Windowed
