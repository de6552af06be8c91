import ExponentCore.Vault.Proof.Events

/-!
# What updates and stagings do to one emission

The emissions of a vault and the trackers of a position are parallel lists; a slot is an index into
both. `EmissionUpdated` is what an update does to the emission of a slot, `Earned.tracker` what a
staging does to the tracker of a slot: it is paid the growth of the final index beyond the tracker's
own, on the balance after the interest was staged.
-/

set_option autoImplicit false

namespace ExponentCore

open Number

variable {v v' v₁ v₂ : Vault} {p p' p₁ : YieldTokenPosition} {now : UInt32} {syState : SyState}
  {e e' : EmissionInfo} {slot : Nat}

/-! ## The loops -/

theorem mapM_eq_ok {α β : Type} {f : α → Outcome β} {l : List α} {l' : List β}
    (h : l.mapM f = .ok l') {j : Nat} {a : α} (ha : l[j]? = some a) :
    ∃ b, l'[j]? = some b ∧ f a = .ok b := by
  induction l generalizing l' j with
  | nil => simp at ha
  | cons x l ih =>
    simp only [List.mapM_cons, bind_eq_ok, pure_eq_ok, Except.ok.injEq] at h
    obtain ⟨b, hb, bs, hbs, rfl⟩ := h
    cases j with
    | zero =>
      obtain rfl : x = a := by simpa using ha
      exact ⟨b, rfl, hb⟩
    | succ j => exact ih hbs (by simpa using ha)

theorem mapM_length {α β : Type} {f : α → Outcome β} {l : List α} {l' : List β}
    (h : l.mapM f = .ok l') : l'.length = l.length := by
  induction l generalizing l' with
  | nil =>
    simp only [List.mapM_nil, pure_eq_ok, Except.ok.injEq] at h
    rw [← h, List.length_nil, List.length_nil]
  | cons x l ih =>
    simp only [List.mapM_cons, bind_eq_ok, pure_eq_ok, Except.ok.injEq] at h
    obtain ⟨b, -, bs, hbs, rfl⟩ := h
    simp [ih hbs]

@[simp] theorem recordIndexes_nil {active : Bool} {es : List EmissionInfo} :
    Vault.recordIndexes active es [] = .ok es := by
  cases es <;> rfl

@[simp] theorem addTreasuryEmissions_nil {es : List EmissionInfo} :
    Vault.addTreasuryEmissions es [] = .ok es := by
  cases es <;> rfl

theorem recordIndexes_eq_ok {active : Bool} {es es' : List EmissionInfo} {xs : List Number}
    (h : Vault.recordIndexes active es xs = .ok es') (he : es[slot]? = some e) :
    es'[slot]? = some { e with
      lastSeenIndex := (xs[slot]?).getD e.lastSeenIndex
      finalIndex := if active then (xs[slot]?).getD e.finalIndex else e.finalIndex } := by
  induction xs generalizing es es' slot with
  | nil =>
    obtain rfl := Except.ok.inj (recordIndexes_nil.symm.trans h)
    simpa using he
  | cons x xs ih =>
    cases es with
    | nil => cases h
    | cons y es =>
      simp only [Vault.recordIndexes, bind_eq_ok, Except.ok.injEq] at h
      obtain ⟨es₁, h₁, rfl⟩ := h
      cases slot with
      | zero =>
        obtain rfl : y = e := by simpa using he
        simp
      | succ slot => simpa using ih h₁ (by simpa using he)

theorem recordIndexes_length {active : Bool} {es es' : List EmissionInfo} {xs : List Number}
    (h : Vault.recordIndexes active es xs = .ok es') : es'.length = es.length := by
  induction xs generalizing es es' with
  | nil => rw [Except.ok.inj (recordIndexes_nil.symm.trans h)]
  | cons x xs ih =>
    cases es with
    | nil => cases h
    | cons y es =>
      simp only [Vault.recordIndexes, bind_eq_ok, Except.ok.injEq] at h
      obtain ⟨es₁, h₁, rfl⟩ := h
      simp [ih h₁]

theorem addTreasuryEmissions_eq_ok {es es' : List EmissionInfo} {ss : List UInt64}
    (h : Vault.addTreasuryEmissions es ss = .ok es') (he : es[slot]? = some e) :
    ∃ t : UInt64, t.toNat = e.treasuryEmission.toNat + ((ss[slot]?).getD 0).toNat ∧
      es'[slot]? = some { e with treasuryEmission := t } := by
  induction ss generalizing es es' slot with
  | nil =>
    obtain rfl := Except.ok.inj (addTreasuryEmissions_nil.symm.trans h)
    exact ⟨e.treasuryEmission, by simp, he⟩
  | cons s ss ih =>
    cases es with
    | nil => cases h
    | cons y es =>
      simp only [Vault.addTreasuryEmissions, bind_eq_ok, unwrap_eq_ok, checkedAdd_eq_some,
        Except.ok.injEq] at h
      obtain ⟨t, ht, es₁, h₁, rfl⟩ := h
      cases slot with
      | zero =>
        obtain rfl : y = e := by simpa using he
        exact ⟨t, by simpa using ht, rfl⟩
      | succ slot => simpa using ih h₁ (by simpa using he)

theorem addTreasuryEmissions_length {es es' : List EmissionInfo} {ss : List UInt64}
    (h : Vault.addTreasuryEmissions es ss = .ok es') : es'.length = es.length := by
  induction ss generalizing es es' with
  | nil => rw [Except.ok.inj (addTreasuryEmissions_nil.symm.trans h)]
  | cons s ss ih =>
    cases es with
    | nil => cases h
    | cons y es =>
      simp only [Vault.addTreasuryEmissions, bind_eq_ok, Except.ok.injEq] at h
      obtain ⟨t, -, es₁, h₁, rfl⟩ := h
      simp [ih h₁]

/-! ## Updating one emission -/

/-- The index of an emission after an update: the reported one, if there is one. -/
def reportedIndex (syState : SyState) (slot : Nat) (index : Number) : Number :=
  (syState.emissionIndexes[slot]?).getD index

/-- **What an update does** to the emission of a slot. -/
structure EmissionUpdated (v : Vault) (now : UInt32) (syState : SyState) (slot : Nat)
    (e e' : EmissionInfo) : Prop where
  tokenAccount : e'.tokenAccount = e.tokenAccount
  initialIndex : e'.initialIndex = e.initialIndex
  lastSeen : e'.lastSeenIndex = reportedIndex syState slot e.lastSeenIndex
  final : v.isActive now = .ok true ∧ e'.finalIndex = reportedIndex syState slot e.finalIndex ∨
    v.isActive now = .ok false ∧ e'.finalIndex = e.finalIndex
  treasury : v.maturity < now.toNat ∧ e'.treasuryEmission.toNat = e.treasuryEmission.toNat
      + (e'.lastSeenIndex.raw - e.lastSeenIndex.raw) * v.totalSyInEscrow.toNat / denom ∨
    now.toNat ≤ v.maturity ∧ e'.treasuryEmission = e.treasuryEmission

theorem calcEmissionSurpluses_eq_ok {ss : List UInt64}
    (h : v.calcEmissionSurpluses syState = .ok ss) (he : v.emissions[slot]? = some e) :
    ((ss[slot]?).getD 0).toNat = ((reportedIndex syState slot e.lastSeenIndex).raw
      - e.lastSeenIndex.raw) * v.totalSyInEscrow.toNat / denom := by
  unfold Vault.calcEmissionSurpluses at h
  unfold reportedIndex
  cases hx : syState.emissionIndexes[slot]? with
  | none =>
    have hlen := mapM_length h
    have hnone : ss[slot]? = none := by
      rw [List.getElem?_eq_none_iff, hlen, List.length_zip]
      rw [List.getElem?_eq_none_iff] at hx
      omega
    simp [hnone]
  | some x =>
    have hzip : (v.emissions.zip syState.emissionIndexes)[slot]? = some (e, x) := by
      simp [List.getElem?_zip_eq_some, he, hx]
    obtain ⟨s, hs, hshare⟩ := mapM_eq_ok h hzip
    rw [hs]
    simpa using calcShareValue_eq_ok.1 hshare

theorem skimEmissions_slot (h : v.skimEmissions syState now = .ok v')
    (he : v.emissions[slot]? = some e) :
    ∃ t : UInt64, v'.emissions[slot]? = some { e with treasuryEmission := t } ∧
      (v.maturity < now.toNat ∧ t.toNat = e.treasuryEmission.toNat
          + ((reportedIndex syState slot e.lastSeenIndex).raw - e.lastSeenIndex.raw)
            * v.totalSyInEscrow.toNat / denom ∨
        now.toNat ≤ v.maturity ∧ t = e.treasuryEmission) := by
  rw [Vault.skimEmissions, bind_eq_ok] at h
  obtain ⟨b, hb, h⟩ := h
  obtain ⟨-, rfl⟩ := Vault.isExpired_eq_ok.1 hb
  by_cases hexp : v.maturity < now.toNat
  · simp only [hexp, decide_true, ↓reduceIte, Vault.increaseEmissionLamboFund, bind_eq_ok,
      Except.ok.injEq] at h
    obtain ⟨ss, hss, es, hes, rfl⟩ := h
    obtain ⟨t, ht, hget⟩ := addTreasuryEmissions_eq_ok hes he
    exact ⟨t, hget, .inl ⟨hexp, by rw [ht, calcEmissionSurpluses_eq_ok hss he]⟩⟩
  · simp only [hexp, decide_false, Bool.false_eq_true, ↓reduceIte, Except.ok.injEq] at h
    subst h
    exact ⟨e.treasuryEmission, he, .inr ⟨not_lt.1 hexp, rfl⟩⟩

theorem skimEmissions_length (h : v.skimEmissions syState now = .ok v') :
    v'.emissions.length = v.emissions.length := by
  rw [Vault.skimEmissions, bind_eq_ok] at h
  obtain ⟨b, -, h⟩ := h
  cases b with
  | true =>
    simp only [↓reduceIte, Vault.increaseEmissionLamboFund, bind_eq_ok, Except.ok.injEq] at h
    obtain ⟨_, -, es, hes, rfl⟩ := h
    exact addTreasuryEmissions_length hes
  | false =>
    simp only [Bool.false_eq_true, ↓reduceIte, Except.ok.injEq] at h
    rw [h]

theorem emissionUpdated_of_ok (h : v.updateFromSyState syState now = .ok v')
    (he : v.emissions[slot]? = some e) :
    ∃ e', v'.emissions[slot]? = some e' ∧ EmissionUpdated v now syState slot e e' := by
  simp only [Vault.updateFromSyState, bind_eq_ok] at h
  obtain ⟨v₁, h₁, v₂, h₂, v₃, h₃, h₄⟩ := h
  obtain ⟨n, t, -, -, rfl⟩ := Vault.skimSy_eq_ok h₁
  obtain ⟨s, hget, hs⟩ := skimEmissions_slot h₂ he
  obtain ⟨es, rfl⟩ := Vault.skimEmissions_eq_ok h₂
  simp only [Vault.recordSyState, bind_eq_ok, Except.ok.injEq] at h₃
  obtain ⟨active, ha, es', hes, rfl⟩ := h₃
  obtain ⟨k, rfl, -⟩ := Vault.setSyForPt_eq_ok h₄
  refine ⟨_, recordIndexes_eq_ok hes hget, ?_⟩
  exact
    { tokenAccount := rfl
      initialIndex := rfl
      lastSeen := rfl
      final := by
        cases active with
        | true => exact .inl ⟨ha, rfl⟩
        | false => exact .inr ⟨ha, rfl⟩
      treasury := hs }

theorem updateFromSyState_length (h : v.updateFromSyState syState now = .ok v') :
    v'.emissions.length = v.emissions.length := by
  simp only [Vault.updateFromSyState, bind_eq_ok] at h
  obtain ⟨v₁, h₁, v₂, h₂, v₃, h₃, h₄⟩ := h
  obtain ⟨n, t, -, -, rfl⟩ := Vault.skimSy_eq_ok h₁
  have hlen := skimEmissions_length h₂
  simp only [Vault.recordSyState, bind_eq_ok, Except.ok.injEq] at h₃
  obtain ⟨active, -, es', hes, rfl⟩ := h₃
  obtain ⟨k, rfl, -⟩ := Vault.setSyForPt_eq_ok h₄
  exact (recordIndexes_length hes).trans hlen

/-! ## Staging one tracker -/

namespace YieldTokenPosition

/-- The index of the tracker of a slot; a missing tracker starts from zero. -/
def trackerIndex (p : YieldTokenPosition) (slot : Nat) : Nat :=
  ((p.emissions[slot]?).map fun t => t.lastSeenIndex.raw).getD 0

theorem ensureTrackers_getElem? (hlen : slot < v.emissions.length) :
    (p.ensureTrackers v).emissions[slot]? = some ((p.emissions[slot]?).getD {}) := by
  unfold ensureTrackers
  by_cases h : slot < p.emissions.length
  · rw [List.getElem?_append_left h, List.getElem?_eq_getElem h, Option.getD_some]
  · rw [List.getElem?_append_right (not_lt.1 h), List.getElem?_replicate,
      if_pos (by omega), List.getElem?_eq_none (not_lt.1 h), Option.getD_none]

@[simp] theorem earnTrackers_nil {b : UInt64} {ts : List YieldTokenTracker} :
    earnTrackers b ts [] = .ok ts := by
  cases ts <;> rfl

theorem earnTrackers_getElem? {b : UInt64} {ts ts' : List YieldTokenTracker}
    {es : List EmissionInfo} {t : YieldTokenTracker} (h : earnTrackers b ts es = .ok ts')
    (he : es[slot]? = some e) (ht : ts[slot]? = some t) :
    ∃ s : UInt64, ts'[slot]? = some ⟨e.finalIndex, s⟩ ∧ s.toNat = t.staged.toNat
      + (e.finalIndex.raw - t.lastSeenIndex.raw) * b.toNat / denom := by
  induction es generalizing ts ts' slot with
  | nil => simp at he
  | cons x es ih =>
    cases ts with
    | nil => cases h
    | cons y ts =>
      simp only [earnTrackers, bind_eq_ok, calcShareValue_eq_ok, YieldTokenTracker.incStaged,
        unwrap_eq_ok, checkedAdd_eq_some, Except.ok.injEq] at h
      obtain ⟨n, hn, t', ⟨s, hs, rfl⟩, ts₁, h₁, rfl⟩ := h
      cases slot with
      | zero =>
        obtain rfl : x = e := by simpa using he
        obtain rfl : y = t := by simpa using ht
        exact ⟨s, rfl, by rw [hs, hn]⟩
      | succ slot => simpa using ih h₁ (by simpa using he) (by simpa using ht)

theorem earnTrackers_tail {b : UInt64} {ts ts' : List YieldTokenTracker}
    {es : List EmissionInfo} (h : earnTrackers b ts es = .ok ts') (hlen : es.length ≤ slot) :
    ts'[slot]? = ts[slot]? := by
  induction es generalizing ts ts' slot with
  | nil => rw [Except.ok.inj (earnTrackers_nil.symm.trans h)]
  | cons x es ih =>
    cases ts with
    | nil => cases h
    | cons y ts =>
      simp only [earnTrackers, bind_eq_ok, Except.ok.injEq] at h
      obtain ⟨n, -, t', -, ts₁, h₁, rfl⟩ := h
      cases slot with
      | zero => simp at hlen
      | succ slot => simpa using ih h₁ (by simpa using hlen)

end YieldTokenPosition

/-- **What a staging pays** on one emission. -/
theorem Earned.tracker (h : Earned v p v' p') (he : v.emissions[slot]? = some e) :
    ∃ b : UInt64, b.toNat = p'.interest.staged.toNat
        + p.ytBalance.toNat * denom / v.finalSyExchangeRate.raw ∧
      p'.trackerIndex slot = e.finalIndex.raw ∧
      p'.stagedEmission slot = p.stagedEmission slot
        + (e.finalIndex.raw - p.trackerIndex slot) * b.toNat / denom := by
  obtain ⟨b, hb, hts⟩ := h.trackers
  have hlen := (List.getElem?_eq_some_iff.1 he).1
  have ht := YieldTokenPosition.ensureTrackers_getElem? (p := p) hlen
  obtain ⟨s, hget, hs⟩ := YieldTokenPosition.earnTrackers_getElem? hts he ht
  refine ⟨b, hb, ?_, ?_⟩
  · simp [YieldTokenPosition.trackerIndex, hget]
  · cases hp : p.emissions[slot]? with
    | none =>
      simp only [hp, Option.getD_none] at hs
      simp [YieldTokenPosition.stagedEmission, YieldTokenPosition.trackerIndex, hget, hp, hs]
    | some t =>
      simp only [hp, Option.getD_some] at hs
      simp [YieldTokenPosition.stagedEmission, YieldTokenPosition.trackerIndex, hget, hp, hs]

/-- A staging leaves the trackers alone that belong to no emission. -/
theorem Earned.tracker_of_none (h : Earned v p v' p') (he : v.emissions[slot]? = none) :
    p'.emissions[slot]? = p.emissions[slot]? := by
  obtain ⟨b, -, hts⟩ := h.trackers
  rw [List.getElem?_eq_none_iff] at he
  have htail : (p.ensureTrackers v).emissions[slot]? = p.emissions[slot]? := by
    unfold YieldTokenPosition.ensureTrackers
    by_cases hlt : slot < p.emissions.length
    · rw [List.getElem?_append_left hlt]
    · rw [List.getElem?_append_right (not_lt.1 hlt), List.getElem?_replicate,
        if_neg (by omega), List.getElem?_eq_none (not_lt.1 hlt)]
  rw [YieldTokenPosition.earnTrackers_tail hts he, htail]

/-- What a collection takes out of a slot of a position is recorded as paid. -/
theorem stagedEmission_paid {s : Nat} {index : UInt16} {a : UInt64} {g : VaultLedger}
    (h : p.collectEmissionAt index a = .ok p') :
    p'.stagedEmission s + (g.paidEmission index.toNat a.toNat).emissionPaid s
      = p.stagedEmission s + g.emissionPaid s := by
  by_cases hj : s = index.toNat
  · subst hj
    have hone := stagedEmission_of_collectEmissionAt h
    simp only [VaultLedger.paidEmission, ↓reduceIte]
    omega
  · obtain ⟨t, s, -, -, rfl⟩ := collectEmissionAt_eq_ok h
    simp [VaultLedger.paidEmission, hj, YieldTokenPosition.stagedEmission,
      List.getElem?_set_ne (Ne.symm hj)]

theorem trackerIndex_of_collectEmissionAt {j : Nat} {index : UInt16} {a : UInt64}
    (h : p.collectEmissionAt index a = .ok p') : p'.trackerIndex j = p.trackerIndex j := by
  obtain ⟨t, s, ht, -, rfl⟩ := collectEmissionAt_eq_ok h
  by_cases hj : index.toNat = j
  · subst hj
    have hlen := (List.getElem?_eq_some_iff.1 ht).1
    simp only [YieldTokenPosition.trackerIndex, List.getElem?_set_self hlen, ht, Option.map_some]
  · simp [YieldTokenPosition.trackerIndex, List.getElem?_set_ne hj]

theorem SettledWith.trackerIndex (h : SettledWith v p) (he : v.emissions[slot]? = some e) :
    p.trackerIndex slot = e.finalIndex.raw := by
  obtain ⟨t, ht, hi⟩ := h slot e he
  simp [YieldTokenPosition.trackerIndex, ht, hi]

end ExponentCore
