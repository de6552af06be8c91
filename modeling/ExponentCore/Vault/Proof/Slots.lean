import ExponentCore.Lib.Slots
import ExponentCore.Vault.Proof.Emissions
import ExponentCore.Vault.Proof.Indexes

/-!
# The emissions of a vault in their slots

The vault's list and the trackers of every position as a `Slots.Ledger`: an operation that stages
positions settles them, `add_emission` and `RemoveVaultEmission` change the list. As long as the
list never changes under a tracker (`VaultOp.KeepsSlots`), trackers and ledger agree, and an
emission credits for its own growth (`VaultWorld.guards_slots`).
-/

set_option autoImplicit false

namespace ExponentCore

open Slots

/-- The emissions of a vault by name, and what the positions have seen of them. -/
abbrev EmissionLedger := Ledger Holder Number

def Vault.finalIndexes (v : Vault) : List Number := v.emissions.map EmissionInfo.finalIndex

def YieldTokenPosition.seenIndexes (p : YieldTokenPosition) : List Number :=
  p.emissions.map YieldTokenTracker.lastSeenIndex

/-- The last seen indexes in the trackers of a holder. -/
def VaultWorld.seenIndexes (w : VaultWorld) (h : Holder) : Option (List Number) :=
  (w.position? h).map YieldTokenPosition.seenIndexes

/-- The positions that an operation stages. -/
def VaultOp.staged : VaultOp → List Holder
  | .strip .. | .merge .. => [.vault]
  | .depositYt _ _ user _ | .withdrawYt _ _ user _ | .stageYield _ _ user => [.vault, .user user]
  | .collectInterest _ user _ => [.user user]
  | _ => []

/-- The ledger after an operation. -/
def EmissionLedger.record (_w : VaultWorld) (op : VaultOp) (w' : VaultWorld) (g : EmissionLedger) :
    EmissionLedger :=
  match op with
  | .initializeYieldPosition .. => g
  | .addEmission .. => g.add
  | .removeVaultEmission slot => g.remove slot.toNat
  | _ => g.settle op.staged w'.vault.finalIndexes

/-- The operation neither lists an emission where a position has a tracker already, nor takes one
off before the last slot with a tracker there or beyond. -/
def VaultOp.SparesTrackers (w : VaultWorld) : VaultOp → Prop
  | .addEmission .. => ∀ p ∈ w.positions, p.emissions.length ≤ w.vault.emissions.length
  | .removeVaultEmission slot =>
    slot.toNat + 1 = w.vault.emissions.length ∨ ∀ p ∈ w.positions, p.emissions.length ≤ slot.toNat
  | _ => True

/-- An operation that succeeds changes no slot that a position has a tracker for. -/
def VaultOp.KeepsSlots (w : VaultWorld) (op : VaultOp) : Prop :=
  ∀ w', w.step op = .ok w' → op.SparesTrackers w

instance (w : VaultWorld) : ∀ op : VaultOp, Decidable (op.SparesTrackers w)
  | .addEmission .. => List.decidableBAll _ _
  | .removeVaultEmission slot =>
    have : Decidable (∀ p ∈ w.positions, p.emissions.length ≤ slot.toNat) :=
      List.decidableBAll _ _
    inferInstanceAs (Decidable (_ ∨ _))
  | .initializeYieldPosition .. | .strip .. | .merge .. | .depositYt .. | .withdrawYt ..
  | .stageYield .. | .collectInterest .. | .collectTreasuryInterest .. | .collectEmission ..
  | .collectTreasuryEmission .. => instDecidableTrue

instance (w : VaultWorld) (op : VaultOp) : Decidable (op.KeepsSlots w) :=
  match h : w.step op with
  | .ok w' => decidable_of_iff (op.SparesTrackers w) ⟨fun hs _ _ => hs, fun hk => hk w' h⟩
  | .error _ => isTrue fun w' hw => by rw [h] at hw; cases hw

/-- An operation either changes the list, or opens a position, or stages. -/
def VaultOp.keepsList : VaultOp → Bool
  | .initializeYieldPosition .. | .addEmission .. | .removeVaultEmission _ => false
  | _ => true

/-! ## Stagings settle -/

section
variable {v v' : Vault} {p p' u : YieldTokenPosition} {w w' : VaultWorld} {op : VaultOp} {i : Nat}

/-- Every emission of the vault has a tracker at its final index; old trackers stay. -/
structure Settled (v : Vault) (p p' : YieldTokenPosition) : Prop where
  length : p'.seenIndexes.length = max p.seenIndexes.length v.finalIndexes.length
  index : ∀ (k : Nat) (x : Number), v.finalIndexes[k]? = some x → p'.seenIndexes[k]? = some x

theorem length_earnTrackers {b : UInt64} {ts ts' : List YieldTokenTracker}
    {es : List EmissionInfo} (h : YieldTokenPosition.earnTrackers b ts es = .ok ts') :
    ts'.length = ts.length := by
  induction es generalizing ts ts' with
  | nil =>
    obtain rfl : ts = ts' := by simpa [YieldTokenPosition.earnTrackers] using h
    rfl
  | cons e es ih =>
    cases ts with
    | nil => cases h
    | cons t ts =>
      simp only [YieldTokenPosition.earnTrackers, bind_eq_ok, Except.ok.injEq] at h
      obtain ⟨k, -, t₁, -, ts₁, hts, rfl⟩ := h
      rw [List.length_cons, List.length_cons, ih hts]

theorem Earned.settled (h : Earned v p v' p') : Settled v p p' := by
  obtain ⟨b, -, hts⟩ := h.trackers
  refine ⟨?_, fun k x hx => ?_⟩
  · have hlen := length_earnTrackers hts
    simp only [YieldTokenPosition.ensureTrackers, List.length_append, List.length_replicate]
      at hlen
    simp only [YieldTokenPosition.seenIndexes, Vault.finalIndexes, List.length_map, hlen]
    omega
  · rw [Vault.finalIndexes, List.getElem?_map, Option.map_eq_some_iff] at hx
    obtain ⟨e, he, rfl⟩ := hx
    obtain ⟨t, ht, hindex⟩ := earnTrackers_settled hts he
    rw [YieldTokenPosition.seenIndexes, List.getElem?_map, ht, Option.map_some, hindex]

/-- The books of a vault and the YT of a position change, not the emissions. -/
theorem Settled.congr (h : Settled v p u) (hv : v'.emissions = v.emissions)
    (hp : p'.emissions = u.emissions) : Settled v' p p' := by
  have hindexes : v'.finalIndexes = v.finalIndexes := by rw [Vault.finalIndexes, hv]; rfl
  have hseen : p'.seenIndexes = u.seenIndexes := by rw [YieldTokenPosition.seenIndexes, hp]; rfl
  exact ⟨by rw [hseen, hindexes]; exact h.length, by rw [hseen, hindexes]; exact h.index⟩

theorem seenIndexes_collectEmissionAt {index : UInt16} {a : UInt64}
    (h : p.collectEmissionAt index a = .ok p') : p'.seenIndexes = p.seenIndexes := by
  obtain ⟨t, s, ht, -, rfl⟩ := collectEmissionAt_eq_ok h
  exact ListSum.map_set_of_eq ht rfl

theorem length_finalIndexes (h : v'.emissions.length = v.emissions.length) :
    v'.finalIndexes.length = v.finalIndexes.length := by
  rw [Vault.finalIndexes, Vault.finalIndexes, List.length_map, List.length_map, h]

theorem Refreshed.length_finalIndexes {now : UInt32} {syState : SyState} {v₁ v₂ : Vault}
    (hr : Refreshed v p now syState v₁ v₂ p') (hv : v'.emissions = v₂.emissions) :
    v'.finalIndexes.length = v.finalIndexes.length := by
  refine ExponentCore.length_finalIndexes ?_
  rw [hv, hr.earned.sameView.emissions, updateFromSyState_length hr.update]

/-- What the vault's own staging leaves. -/
theorem Refreshed.settled {now : UInt32} {syState : SyState} {v₁ v₂ : Vault}
    {p₁ : YieldTokenPosition} (hr : Refreshed v p now syState v₁ v₂ p₁)
    (hv : v'.emissions = v₂.emissions) (hp : p'.emissions = p₁.emissions) : Settled v' p p' :=
  hr.earned.settled.congr (hv.trans hr.earned.sameView.emissions) hp

/-! ## One operation -/

namespace VaultWorld

/-- **What an operation that keeps the list does to the trackers.** -/
structure Restaged (w : VaultWorld) (op : VaultOp) (w' : VaultWorld) : Prop where
  slots : w'.vault.finalIndexes.length = w.vault.finalIndexes.length
  others : ∀ h, h ∉ op.staged → w'.seenIndexes h = w.seenIndexes h
  staged : ∀ h ∈ op.staged, ∃ p p', w.position? h = some p ∧ w'.position? h = some p' ∧
    Settled w'.vault p p'

theorem position?_user {v : Vault} {q : YieldTokenPosition} {us : List YieldTokenPosition}
    {c : UInt32} : (⟨v, q, us, c⟩ : VaultWorld).position? (.user i) = us[i]? := rfl

/-- Other users are not concerned. -/
theorem seenIndexes_set_ne {v : Vault} {q : YieldTokenPosition} {c : UInt32} {j : Nat}
    (hne : j ≠ i) :
    (⟨v, q, w.userPositions.set i p', c⟩ : VaultWorld).seenIndexes (.user j) =
      w.seenIndexes (.user j) := by
  rw [seenIndexes, position?_user, List.getElem?_set_ne (Ne.symm hne)]
  rfl

theorem restaged_own {c : UInt32} (hop : op.staged = [.vault])
    (hslots : v'.finalIndexes.length = w.vault.finalIndexes.length)
    (hs : Settled v' w.yieldPosition p') :
    w.Restaged op { w with vault := v', yieldPosition := p', clock := c } := by
  refine ⟨hslots, fun h hh => ?_, fun h hh => ?_⟩
  · rw [hop] at hh
    cases h with
    | vault => exact absurd (List.mem_singleton.2 rfl) hh
    | user j => rfl
  · rw [hop, List.mem_singleton] at hh
    subst hh
    exact ⟨_, _, rfl, rfl, hs⟩

theorem restaged_user {c : UInt32} {u' : YieldTokenPosition} (hop : op.staged = [.vault, .user i])
    (hslots : v'.finalIndexes.length = w.vault.finalIndexes.length)
    (hu : w.userPositions[i]? = some u) (hs : Settled v' w.yieldPosition p')
    (hs' : Settled v' u u') :
    w.Restaged op { w with
      vault := v', yieldPosition := p', userPositions := w.userPositions.set i u',
      clock := c } := by
  have hlt := (List.getElem?_eq_some_iff.1 hu).1
  refine ⟨hslots, fun h hh => ?_, fun h hh => ?_⟩
  · rw [hop, List.mem_cons, List.mem_singleton, not_or] at hh
    cases h with
    | vault => exact absurd rfl hh.1
    | user j => exact seenIndexes_set_ne fun hj => hh.2 (by rw [hj])
  · rw [hop, List.mem_cons, List.mem_singleton] at hh
    rcases hh with rfl | rfl
    · exact ⟨_, _, rfl, rfl, hs⟩
    · exact ⟨u, u', hu, List.getElem?_set_self hlt, hs'⟩

/-- Nothing of the emissions changes, not even the trackers' indexes. -/
theorem restaged_none (hop : op.staged = [])
    (hslots : w'.vault.finalIndexes.length = w.vault.finalIndexes.length)
    (hseen : w'.seenIndexes = w.seenIndexes) : w.Restaged op w' := by
  refine ⟨hslots, fun h _ => by rw [hseen], fun h hh => ?_⟩
  rw [hop] at hh
  cases hh

theorem restaged_of_ok (hop : op.keepsList = true) (h : w.step op = .ok w') :
    w.Restaged op w' := by
  cases op with
  | initializeYieldPosition | addEmission | removeVaultEmission => cases hop
  | strip now syState x =>
    obtain ⟨v₁, v₂, p₁, v', p', py, hr, -, hm, rfl⟩ := step_strip h
    obtain ⟨hv, hp⟩ := hm.emissions
    exact restaged_own rfl (hr.length_finalIndexes hv) (hr.settled hv hp)
  | merge now syState a =>
    obtain ⟨v₁, v₂, p₁, v', p', x, hr, -, hb, rfl⟩ := step_merge h
    obtain ⟨hv, hp⟩ := hb.emissions
    exact restaged_own rfl (hr.length_finalIndexes hv) (hr.settled hv hp)
  | depositYt now syState user a =>
    obtain ⟨u, v₁, v₂, p₁, v₃, u₁, v', p', u', hu, hr, -, hearn, hm, rfl⟩ := step_depositYt h
    obtain ⟨hv, hp, hu'⟩ := hm.emissions
    have he := earned_of_ok hearn
    have hv₂ := hv.trans he.sameView.emissions
    exact restaged_user rfl (hr.length_finalIndexes hv₂) hu (hr.settled hv₂ hp)
      (he.settled.congr hv₂ hu')
  | withdrawYt now syState user a =>
    obtain ⟨u, v₁, v₂, p₁, v₃, u₁, v', p', u', hu, hr, hearn, hm, rfl⟩ := step_withdrawYt h
    obtain ⟨hv, hu', hp⟩ := hm.emissions
    have he := earned_of_ok hearn
    have hv₂ := hv.trans he.sameView.emissions
    exact restaged_user rfl (hr.length_finalIndexes hv₂) hu (hr.settled hv₂ hp)
      (he.settled.congr hv₂ hu')
  | stageYield now syState user =>
    obtain ⟨u, v₁, v₂, p₁, v₃, u₁, v', hu, hr, -, hearn, ⟨s, rfl⟩, -, rfl⟩ := step_stageYield h
    have he := earned_of_ok hearn
    have hv₂ := he.sameView.emissions
    exact restaged_user rfl (hr.length_finalIndexes hv₂) hu (hr.settled hv₂ rfl)
      (he.settled.congr hv₂ rfl)
  | collectInterest now user amount =>
    obtain ⟨u, a, v₁, u₁, v', u', hu, -, hearn, hp, rfl⟩ := step_collectInterest h
    obtain ⟨hv, hu'⟩ := hp.emissions
    have he := earned_of_ok hearn
    have hv₂ := hv.trans he.sameView.emissions
    have hlt := (List.getElem?_eq_some_iff.1 hu).1
    refine ⟨length_finalIndexes (by rw [hv₂]), fun k hk => ?_, fun k hk => ?_⟩
    · rw [VaultOp.staged, List.mem_singleton] at hk
      cases k with
      | vault => rfl
      | user j => exact seenIndexes_set_ne fun hj => hk (by rw [hj])
    · rw [VaultOp.staged, List.mem_singleton] at hk
      subst hk
      exact ⟨u, u', hu, List.getElem?_set_self hlt, he.settled.congr hv₂ hu'⟩
  | collectTreasuryInterest amount kind =>
    obtain ⟨v', p', a, rfl, ⟨-, hp⟩ | ⟨-, rfl, ht⟩⟩ := step_collectTreasuryInterest h
    · obtain ⟨hv, hp'⟩ := hp.emissions
      refine restaged_none rfl (length_finalIndexes (by rw [hv])) (funext fun k => ?_)
      cases k with
      | vault => exact congrArg some (by rw [YieldTokenPosition.seenIndexes, hp']; rfl)
      | user j => rfl
    · exact restaged_none rfl (length_finalIndexes (by rw [ht.emissions])) rfl
  | collectEmission user index amount =>
    obtain ⟨u, a, u', hu, hcollect, rfl⟩ := step_collectEmission h
    have hlt := (List.getElem?_eq_some_iff.1 hu).1
    refine restaged_none rfl rfl (funext fun k => ?_)
    cases k with
    | vault => rfl
    | user j =>
      by_cases hj : j = user
      · subst hj
        rw [seenIndexes, position?_user, List.getElem?_set_self hlt, seenIndexes, position?, hu,
          Option.map_some, Option.map_some, seenIndexes_collectEmissionAt hcollect]
      · exact seenIndexes_set_ne hj
  | collectTreasuryEmission index amount kind =>
    rcases step_collectTreasuryEmission h with ⟨-, a, p', hcollect, rfl⟩ | ⟨-, a, e, t, he, -, rfl⟩
    · refine restaged_none rfl rfl (funext fun k => ?_)
      cases k with
      | vault => exact congrArg some (seenIndexes_collectEmissionAt hcollect)
      | user j => rfl
    · exact restaged_none rfl (length_finalIndexes List.length_set) rfl

theorem forall_seenIndexes {n : Nat} :
    (∀ h ts, w.seenIndexes h = some ts → ts.length ≤ n) ↔
      ∀ p ∈ w.positions, p.emissions.length ≤ n := by
  constructor
  · intro hall p hp
    obtain ⟨h, hh⟩ : ∃ h, w.position? h = some p := by
      rcases List.mem_cons.1 hp with rfl | hp
      · exact ⟨.vault, rfl⟩
      · obtain ⟨i, hi⟩ := List.mem_iff_getElem?.1 hp
        exact ⟨.user i, hi⟩
    have hlen := hall h p.seenIndexes (by rw [seenIndexes, hh]; rfl)
    rwa [YieldTokenPosition.seenIndexes, List.length_map] at hlen
  · intro hall h ts hts
    obtain ⟨p, hp, rfl⟩ := Option.map_eq_some_iff.1 hts
    rw [YieldTokenPosition.seenIndexes, List.length_map]
    exact hall p (position?_mem hp)

/-! ## Runs -/

/-- The ledger's view of a vault is right. -/
def SlotsKept (r : VaultWorld × EmissionLedger) : Prop :=
  r.2.Keeps r.1.vault.finalIndexes.length r.1.seenIndexes

/-- Every tracker is in the slot of the emission that it was made for, at the final index at which
the position was last staged. -/
def SlotsAligned (r : VaultWorld × EmissionLedger) : Prop := r.2.Aligned r.1.seenIndexes

abbrev recordEmissions :
    VaultWorld × EmissionLedger → VaultOp → Outcome (VaultWorld × EmissionLedger) :=
  Machine.recording VaultWorld.step EmissionLedger.record

variable {r r' : VaultWorld × EmissionLedger} {g : EmissionLedger}

theorem Restaged.keeps (h : w.Restaged op w') (hg : SlotsKept (w, g)) :
    SlotsKept (w', g.settle op.staged w'.vault.finalIndexes) := by
  unfold SlotsKept
  rw [h.slots]
  refine Ledger.Keeps.settle hg h.slots h.others fun x hx => ?_
  obtain ⟨p, p', hp, hp', hs⟩ := h.staged x hx
  refine ⟨p'.seenIndexes, by rw [seenIndexes, hp']; rfl, ?_, hs.index⟩
  rw [seenIndexes, hp]
  exact hs.length

theorem slotsKept_openPosition {owner key : Pubkey} (hg : SlotsKept (w, g)) :
    SlotsKept ({ w with userPositions := w.userPositions ++ [{ owner, vault := key }] }, g) := by
  refine Ledger.Keeps.opened hg fun h => ?_
  cases h with
  | vault => exact .inl rfl
  | user i =>
    rcases eq_or_ne i w.userPositions.length with rfl | hne
    · refine .inr ⟨?_, ?_⟩
      · rw [seenIndexes, position?, List.getElem?_eq_none le_rfl]
        rfl
      · rw [seenIndexes, position?_user, List.getElem?_concat_length]
        rfl
    · refine .inl ?_
      rw [seenIndexes, position?_user, ListSum.getElem?_concat_of_ne hne]
      rfl

/-- **One step**: trackers and ledger go on agreeing exactly if the list does not change under a
tracker. -/
theorem slots_step (hr : SlotsKept r) (h : recordEmissions r op = .ok r') :
    (SlotsAligned r' ↔ op.KeepsSlots r.1) ∧ (op.KeepsSlots r.1 → SlotsKept r') := by
  obtain ⟨w, g⟩ := r
  obtain ⟨w', hw, rfl⟩ := Machine.recording_eq_ok.1 h
  have hkeep (hP : op.KeepsSlots w ↔ True) (hk : SlotsKept (w', EmissionLedger.record w op w' g)) :
      (SlotsAligned (w', EmissionLedger.record w op w' g) ↔ op.KeepsSlots w) ∧
        (op.KeepsSlots w → SlotsKept (w', EmissionLedger.record w op w' g)) :=
    ⟨⟨fun _ => hP.2 trivial, fun _ => hk.aligned⟩, fun _ => hk⟩
  cases op with
  | initializeYieldPosition owner key =>
    refine hkeep ⟨fun _ => trivial, fun _ _ _ => trivial⟩ ?_
    obtain rfl := Except.ok.inj hw
    exact slotsKept_openPosition hr
  | addEmission accounts syState token treasury fee =>
    obtain ⟨i, -, heq⟩ := step_addEmission hw
    have hlen : w.vault.finalIndexes.length = w.vault.emissions.length := List.length_map _
    have hseen : w'.seenIndexes = w.seenIndexes := by rw [heq]; rfl
    have hslots : w'.vault.finalIndexes.length = w.vault.finalIndexes.length + 1 := by
      rw [heq]
      simp only [Vault.finalIndexes, List.length_map, List.length_append, List.length_singleton]
    have hP : (VaultOp.addEmission accounts syState token treasury fee).KeepsSlots w ↔
        ∀ h ts, w.seenIndexes h = some ts → ts.length ≤ w.vault.finalIndexes.length := by
      rw [forall_seenIndexes, hlen]
      exact ⟨fun hP => hP w' hw, fun hall _ _ => hall⟩
    constructor
    · rw [SlotsAligned, hseen, hP]
      exact Ledger.Keeps.aligned_add_iff hr
    · intro hkeeps
      rw [SlotsKept, hseen, hslots]
      exact Ledger.Keeps.add hr (hP.1 hkeeps)
  | removeVaultEmission slot =>
    obtain ⟨hlt, heq⟩ := step_removeVaultEmission hw
    have hlen : w.vault.finalIndexes.length = w.vault.emissions.length := List.length_map _
    have hseen : w'.seenIndexes = w.seenIndexes := by rw [heq]; rfl
    have hslots : w'.vault.finalIndexes.length = w.vault.finalIndexes.length - 1 := by
      rw [heq]
      simp only [Vault.finalIndexes, List.length_map, List.length_eraseIdx_of_lt hlt]
    have hP : (VaultOp.removeVaultEmission slot).KeepsSlots w ↔
        slot.toNat + 1 = w.vault.finalIndexes.length ∨
          ∀ h ts, w.seenIndexes h = some ts → ts.length ≤ slot.toNat := by
      rw [forall_seenIndexes, hlen]
      exact ⟨fun hP => hP w' hw, fun hall _ _ => hall⟩
    rw [← hlen] at hlt
    constructor
    · rw [SlotsAligned, hseen, hP]
      exact Ledger.Keeps.aligned_remove_iff hr hlt
    · intro hkeeps
      rw [SlotsKept, hseen, hslots]
      exact Ledger.Keeps.remove hr hlt (hP.1 hkeeps)
  | strip | merge | depositYt | withdrawYt | stageYield | collectInterest | collectTreasuryInterest
  | collectEmission | collectTreasuryEmission =>
    exact hkeep ⟨fun _ => trivial, fun _ _ _ => trivial⟩ ((restaged_of_ok rfl hw).keeps hr)

theorem slotsKept_initializeVault (args : InitializeVaultArgs) :
    SlotsKept (initializeVault args, .start) := by
  refine Ledger.Keeps.start fun h ts hts => ?_
  cases h with
  | vault => exact (Option.some.inj hts).symm
  | user i => cases hts

/-- What staging a position credits depends on what the position has seen of each emission. -/
theorem SlotsKept.trackerIndex {h : Holder} {k s : Nat} (hr : SlotsKept r)
    (hp : r.1.position? h = some p) (hs : r.2.registry.listed[k]? = some s) :
    p.trackerIndex k = ((r.2.marks h).seen s).raw := by
  have hts : r.1.seenIndexes h = some p.seenIndexes := by rw [seenIndexes, hp]; rfl
  have ht := hr.tracks h _ hts
  rw [YieldTokenPosition.trackerIndex]
  cases hk : p.emissions[k]? with
  | some t =>
    have hseen : p.seenIndexes[k]? = some t.lastSeenIndex := by
      rw [YieldTokenPosition.seenIndexes, List.getElem?_map, hk, Option.map_some]
    rw [← ht.seen k s _ hs hseen]
    rfl
  | none =>
    have hle : p.seenIndexes.length ≤ k := by
      rw [YieldTokenPosition.seenIndexes, List.length_map]
      exact List.getElem?_eq_none_iff.1 hk
    rw [ht.unseen k s hs hle]
    rfl

/-- **What an emission credits is its own**: staging a position pays for the growth of the emission
since the index at which the position settled that emission last. -/
def CreditsOwn (r : VaultWorld × EmissionLedger) : Prop :=
  ∀ (h : Holder) (p : YieldTokenPosition), r.1.position? h = some p →
    ∀ v v' p', p.earnAllWithTracking v = .ok (v', p') →
      ∀ (k s : Nat) (e : EmissionInfo), r.2.registry.listed[k]? = some s →
        v.emissions[k]? = some e →
        ∃ b : UInt64, b.toNat = p'.interest.staged.toNat
            + p.ytBalance.toNat * Number.denom / v.finalSyExchangeRate.raw ∧
          p'.stagedEmission k = p.stagedEmission k
            + (e.finalIndex.raw - ((r.2.marks h).seen s).raw) * b.toNat / Number.denom

theorem SlotsKept.creditsOwn (hr : SlotsKept r) : CreditsOwn r := by
  intro h p hp v v' p' hearn k s e hs he
  obtain ⟨b, hb, -, hpaid⟩ := (earned_of_ok hearn).tracker he
  rw [hr.trackerIndex hp hs] at hpaid
  exact ⟨b, hb, hpaid⟩

/-- **Slots stay aligned** exactly as long as the list does not change under a tracker. -/
theorem guards_slots : Machine.Guards recordEmissions SlotsKept (fun r op => op.KeepsSlots r.1)
    (fun r => SlotsAligned r ∧ CreditsOwn r) where
  holds r hr := ⟨Ledger.Keeps.aligned hr, hr.creditsOwn⟩
  keeps r op r' hr hP h := (slots_step hr h).2 hP
  needed r op r' hr h hQ := (slots_step hr h).1.1 hQ.1
  failing r op e h w' hw := by
    have hok : recordEmissions r op = .ok (w', EmissionLedger.record r.1 op w' r.2) :=
      Machine.recording_eq_ok.2 ⟨w', hw, rfl⟩
    rw [hok] at h
    cases h

end VaultWorld

end

end ExponentCore
