import ExponentCore.Market.Proof.LpEmissions
import ExponentCore.Market.Proof.LpFarms
import ExponentCore.Vault.Proof.Slots

/-!
# The emissions of a market in their slots

The same ledger as for a vault, kept beside a market and its LP positions. The subtraction in
`calc_earned_emissions` has no guard here, so a tracker must not be ahead of its index either
(`LpWorld.NotAhead`); indexes only grow, and a list that never changes under a tracker keeps that
too.

`slots_sound_iff` is about runs that interleave a vault and a market: slots stay aligned, streams
credit for their own growth and no subtraction underflows, throughout, exactly if no step changes a
list under a tracker. `removedUnderTracker` is a run with such a step: a position of the market can
no longer stage.
-/

set_option autoImplicit false

namespace ExponentCore

open Number Slots

variable {K : Type}

/-- The emissions of a market by name, and what the LP positions have seen of them. -/
abbrev LpLedger := Ledger Nat Number

def LpPosition.seenIndexes (p : LpPosition) : List Number :=
  p.emissions.map PersonalYieldTracker.lastSeenIndex

/-- The last seen indexes in the trackers of a position. -/
def LpWorld.seenIndexes (w : LpWorld K) (i : Nat) : Option (List Number) :=
  w.lpPositions[i]?.map LpPosition.seenIndexes

/-- The ledger after an operation. -/
def LpLedger.record (w : LpWorld K) (op : LpOp) (w' : LpWorld K) (g : LpLedger) : LpLedger :=
  match op with
  | .initLpPosition _ => g.settle [w.lpPositions.length] w'.market.emissionIndexes
  | .depositLp _ position _ | .withdrawLp _ position _ =>
    g.settle [position] w'.market.emissionIndexes
  | .addMarketEmission .. => g.add
  | .removeMarketEmission slot => g.remove slot.toNat
  | _ => g

/-- The operation neither lists an emission where a position has a tracker already, nor takes one
off before the last slot with a tracker there or beyond. -/
def LpOp.SparesTrackers (w : LpWorld K) : LpOp → Prop
  | .addMarketEmission .. => ∀ p ∈ w.lpPositions, p.emissions.length ≤ w.market.emissions.length
  | .removeMarketEmission slot =>
    slot.toNat + 1 = w.market.emissions.length ∨
      ∀ p ∈ w.lpPositions, p.emissions.length ≤ slot.toNat
  | _ => True

/-- An operation that succeeds changes no slot that a position has a tracker for. -/
def LpOp.KeepsSlots (w : LpWorld K) (op : LpOp) : Prop :=
  ∀ w', w.step op = .ok w' → op.SparesTrackers w

instance (w : LpWorld K) : ∀ op : LpOp, Decidable (op.SparesTrackers w)
  | .addMarketEmission .. => List.decidableBAll _ _
  | .removeMarketEmission slot =>
    have : Decidable (∀ p ∈ w.lpPositions, p.emissions.length ≤ slot.toNat) :=
      List.decidableBAll _ _
    inferInstanceAs (Decidable (_ ∨ _))
  | .initLpPosition _ | .depositLp .. | .withdrawLp .. | .marketCollectEmission ..
  | .addFarm .. | .modifyFarm .. | .claimFarmEmissions .. | .accrue _ => instDecidableTrue

instance (w : LpWorld K) (op : LpOp) : Decidable (op.KeepsSlots w) :=
  match h : w.step op with
  | .ok w' => decidable_of_iff (op.SparesTrackers w) ⟨fun hs _ _ => hs, fun hk => hk w' h⟩
  | .error _ => isTrue fun w' hw => by rw [h] at hw; cases hw

namespace LpWorld

/-! ## Trackers and indexes -/

/-- **No tracker is ahead** of the index in its slot. -/
structure NotAhead (w : LpWorld K) : Prop where
  behind : ∀ r x, w.market.rewardIndex r = some x → ∀ p ∈ w.lpPositions,
    (p.tracker r).lastSeenIndex ≤ x
  /-- farms are never taken off, so there is no tracker for a farm that is not listed yet -/
  farms : ∀ p ∈ w.lpPositions, p.farms.length ≤ w.market.lpFarm.farmEmissions.length

section
variable {w w' : LpWorld K} {m m' : MarketTwo K} {p p' : LpPosition} {r : LpReward}
  {x : Number} {i j k : Nat} {op : LpOp} {cs : List UInt64} {es : List MarketEmission}
  {f : LpFarm} {lp : UInt64} {now : UInt32} {q : LpPosition} {fs : List Number}

/-- Every index of `m` is one of `m'` that has not fallen. -/
def IndexesGrow (m m' : MarketTwo K) : Prop :=
  ∀ r x', m'.rewardIndex r = some x' → ∃ x, m.rewardIndex r = some x ∧ x ≤ x'

theorem indexesGrow_update (h : MarketEmission.updateAll lp m.emissions cs = .ok es) :
    IndexesGrow m { m with emissions := es } := by
  intro r x' hx'
  cases r with
  | farm k => exact ⟨x', hx', le_rfl⟩
  | emission k =>
    obtain ⟨e', he', rfl⟩ := Option.map_eq_some_iff.1 ((List.getElem?_map ..).symm.trans hx')
    have hlt : k < m.emissions.length := by
      rw [← MarketEmission.length_updateAll h]
      exact (List.getElem?_eq_some_iff.1 he').1
    obtain ⟨e₁, he₁, hsome, hnone⟩ :=
      MarketEmission.updateAll_get h (List.getElem?_eq_getElem hlt)
    obtain rfl : e₁ = e' := Option.some.inj (he₁.symm.trans he')
    refine ⟨_, emissionIndexes_get (List.getElem?_eq_getElem hlt), ?_⟩
    cases hc : cs[k]? with
    | none => rw [hnone hc]
    | some c =>
      obtain ⟨d, -, hraw⟩ := (hsome c hc).index
      exact le_def.2 (hraw ▸ Nat.le_add_right _ _)

theorem indexesGrow_advance (h : m.lpFarm.increaseShareIndexes now lp = .ok f) :
    IndexesGrow m { m with lpFarm := f } := by
  intro r x' hx'
  cases r with
  | emission k => exact ⟨x', hx', le_rfl⟩
  | farm k =>
    obtain ⟨e', he', rfl⟩ := Option.map_eq_some_iff.1 ((List.getElem?_map ..).symm.trans hx')
    obtain ⟨e, he, hadv⟩ := getElem?_of_forall₂ (LpFarm.increaseShareIndexes_eq_ok h).2 he'
    obtain ⟨n, -, hraw⟩ := hadv.index
    exact ⟨_, farmIndexes_get he, le_def.2 (hraw ▸ Nat.le_add_right _ _)⟩

theorem IndexesGrow.of_eq (he : m'.emissionIndexes = m.emissionIndexes)
    (hf : m'.lpFarm.getLastSeenIndices = m.lpFarm.getLastSeenIndices) : IndexesGrow m m' := by
  intro r x hx
  rw [MarketTwo.rewardIndex, he, hf] at hx
  exact ⟨x, hx, le_rfl⟩

theorem tracker_newFromMarket {owner : Pubkey} (hx : m.rewardIndex r = some x) :
    ((LpPosition.newFromMarket m owner).tracker r).lastSeenIndex = x := by
  cases r with
  | emission k =>
    obtain ⟨e, he, rfl⟩ := Option.map_eq_some_iff.1 ((List.getElem?_map ..).symm.trans hx)
    rw [newFromMarket_emission he]
  | farm k =>
    obtain ⟨e, he, rfl⟩ := Option.map_eq_some_iff.1 ((List.getElem?_map ..).symm.trans hx)
    rw [newFromMarket_farm he]

/-- A payment does not change what a tracker has seen. -/
theorem seen_set {ts : List PersonalYieldTracker} {t t' : PersonalYieldTracker}
    (ht : ts[j]? = some t) (h : t'.lastSeenIndex = t.lastSeenIndex) :
    (PersonalYieldTrackers.tracker (ts.set j t') k).lastSeenIndex
      = (PersonalYieldTrackers.tracker ts k).lastSeenIndex := by
  rw [PersonalYieldTrackers.tracker_set (List.getElem?_eq_some_iff.1 ht).1]
  split
  · rename_i hk
    rw [hk, PersonalYieldTrackers.tracker_of_some ht, h]
  · rfl

/-- A missing tracker counts from zero. -/
theorem missing_le {ts : List PersonalYieldTracker} (h : ts.length ≤ k) :
    (PersonalYieldTrackers.tracker ts k).lastSeenIndex ≤ x := by
  rw [PersonalYieldTrackers.tracker_of_length_le h]
  exact le_def.2 (Nat.zero_le _)

theorem step_removeMarketEmission {slot : UInt8} :
    w.step (.removeMarketEmission slot) = .ok w' ↔ slot.toNat < w.market.emissions.length ∧
      w' = { w with
        market := { w.market with emissions := w.market.emissions.eraseIdx slot.toNat }
        amountsClaimable := w.amountsClaimable.eraseIdx slot.toNat } := by
  simp only [step, removeMarketEmission, bind_eq_ok, Except.ok.injEq]
  constructor
  · rintro ⟨m, hm, rfl⟩
    split at hm
    · rename_i hlt
      obtain rfl := Except.ok.inj hm
      exact ⟨hlt, rfl⟩
    · cases hm
  · rintro ⟨hlt, rfl⟩
    exact ⟨_, if_pos hlt, rfl⟩

/-- A position that has staged nothing. -/
structure SameSeen (p q : LpPosition) : Prop where
  seen : ∀ r, (q.tracker r).lastSeenIndex = (p.tracker r).lastSeenIndex
  farms : q.farms.length = p.farms.length

/-- No index falls, no farm is taken off, and no position stages. -/
structure Quiet (w w' : LpWorld K) : Prop where
  indexes : IndexesGrow w.market w'.market
  farms : w'.market.lpFarm.farmEmissions.length = w.market.lpFarm.farmEmissions.length
  positions : ∀ q ∈ w'.lpPositions, ∃ p ∈ w.lpPositions, SameSeen p q

theorem sameSeen_refl : SameSeen p p := ⟨fun _ => rfl, rfl⟩

theorem positions_set (hp : w.lpPositions[i]? = some p) (hs : SameSeen p p') :
    ∀ q ∈ w.lpPositions.set i p', ∃ p ∈ w.lpPositions, SameSeen p q := by
  intro q hq
  rcases List.mem_or_eq_of_mem_set hq with hq | rfl
  · exact ⟨q, hq, sameSeen_refl⟩
  · exact ⟨p, List.mem_of_getElem? hp, hs⟩

theorem NotAhead.quiet (h : w.NotAhead) (hq : Quiet w w') : w'.NotAhead where
  behind r x hx q hmem := by
    obtain ⟨p, hp, hs⟩ := hq.positions q hmem
    obtain ⟨y, hy, hle⟩ := hq.indexes r x hx
    rw [hs.seen]
    exact (h.behind r y hy p hp).trans hle
  farms q hmem := by
    obtain ⟨p, hp, hs⟩ := hq.positions q hmem
    rw [hs.farms, hq.farms]
    exact h.farms p hp

theorem NotAhead.event (h : w.NotAhead) (he : LpEvent (fun w op => op.KeepsSlots w) w w') :
    w'.NotAhead := by
  have hsame : ∀ q ∈ w.lpPositions, ∃ p ∈ w.lpPositions, SameSeen p q :=
    fun q hq => ⟨q, hq, sameSeen_refl⟩
  have hfarms := FarmsListed.event h.farms he
  cases he with
  | advance _ _ hw =>
    obtain ⟨f, hf, rfl⟩ := advanced_eq_ok hw
    have hall := (LpFarm.increaseShareIndexes_eq_ok hf).2
    exact h.quiet ⟨indexesGrow_advance hf, hall.length_eq.symm, hsame⟩
  | update hes => exact h.quiet ⟨indexesGrow_update hes, rfl, hsame⟩
  | @stage _ i p p' hp hs =>
    refine ⟨fun r x hx q hq => ?_, hfarms⟩
    rcases List.mem_or_eq_of_mem_set hq with hq | rfl
    · exact h.behind r x hx q hq
    · exact (hs.settles r x hx).index.le
  | stake hp _ _ =>
    exact h.quiet ⟨.of_eq rfl rfl, rfl,
      positions_set hp ⟨fun r => by rw [tracker_withBalance], rfl⟩⟩
  | collect hp he ht _ _ _ =>
    refine h.quiet ⟨.of_eq (ListSum.map_set_of_eq he rfl) rfl, rfl, positions_set hp ⟨?_, rfl⟩⟩
    intro r
    cases r with
    | emission k =>
      apply seen_set ht
      rfl
    | farm k => rfl
  | addEmission hA =>
    refine ⟨fun r x hx p hp => ?_, h.farms⟩
    cases r with
    | farm k => exact h.behind (.farm k) x hx p hp
    | emission k =>
      have hx' : (addMarketEmission w.market _ _).emissionIndexes[k]? = some x := hx
      rw [addMarketEmission, MarketTwo.emissionIndexes, List.map_append] at hx'
      rcases getElem?_push hx' with hx' | ⟨rfl, rfl⟩
      · exact h.behind (.emission k) x hx' p hp
      · rw [List.length_map]
        exact missing_le (hA _ rfl p hp)
  | @removeEmission _ j hA =>
    refine ⟨fun r x hx p hp => ?_, h.farms⟩
    cases r with
    | farm k => exact h.behind (.farm k) x hx p hp
    | emission k =>
      obtain ⟨e, he, rfl⟩ := Option.map_eq_some_iff.1 ((List.getElem?_map ..).symm.trans hx)
      by_cases hk : k < j.toNat
      · rw [List.getElem?_eraseIdx_of_lt hk] at he
        exact h.behind (.emission k) _ (emissionIndexes_get he) p hp
      · rw [List.getElem?_eraseIdx_of_ge (not_lt.1 hk)] at he
        have hlt := (List.getElem?_eq_some_iff.1 he).1
        have hok := step_removeMarketEmission.2
          ⟨(not_lt.1 hk).trans_lt (k.lt_succ_self.trans hlt), rfl⟩
        rcases hA _ hok with hlast | hshort
        · omega
        · exact missing_le ((hshort p hp).trans (not_lt.1 hk))
  | addFarm _ _ _ _ =>
    refine ⟨fun r x hx p hp => ?_, hfarms⟩
    cases r with
    | emission k => exact h.behind (.emission k) x hx p hp
    | farm k =>
      have hx' : (w.market.addFarm _ _ _).lpFarm.getLastSeenIndices[k]? = some x := hx
      rw [MarketTwo.addFarm, LpFarm.getLastSeenIndices, List.map_append] at hx'
      rcases getElem?_push hx' with hx' | ⟨rfl, rfl⟩
      · exact h.behind (.farm k) x hx' p hp
      · rw [List.length_map]
        exact missing_le (h.farms p hp)
  | modifyFarm _ _ _ hf _ =>
    exact h.quiet ⟨.of_eq rfl (ListSum.map_set_of_eq hf rfl), List.length_set, hsame⟩
  | claimFarm hp _ _ ht _ _ =>
    refine h.quiet ⟨.of_eq rfl rfl, rfl, positions_set hp ⟨?_, List.length_set⟩⟩
    intro r
    cases r with
    | emission k => rfl
    | farm k =>
      apply seen_set ht
      rfl
  | openPosition =>
    refine ⟨fun r x hx p hp => ?_, hfarms⟩
    rcases List.mem_append.1 hp with hp | hp
    · exact h.behind r x hx p hp
    · obtain rfl := List.mem_singleton.1 hp
      exact (tracker_newFromMarket hx).le
  | accrue _ => exact ⟨h.behind, h.farms⟩

/-! ## One operation -/

/-- The ledger's view of a market is right. -/
def SlotsKept (r : LpWorld K × LpLedger) : Prop :=
  r.2.Keeps r.1.market.emissionIndexes.length r.1.seenIndexes

/-- Every tracker is in the slot of the emission that it was made for, at the index at which the
position was last staged. -/
def SlotsAligned (r : LpWorld K × LpLedger) : Prop := r.2.Aligned r.1.seenIndexes

/-- **What an emission credits is its own**: staging a position pays for the growth of the emission
since the index at which the position settled that emission last. -/
def CreditsOwn (r : LpWorld K × LpLedger) : Prop :=
  ∀ (i : Nat) (p : LpPosition), r.1.lpPositions[i]? = some p →
    ∀ es fs p', p.stageAll es fs = .ok p' →
      ∀ (k s : Nat) (x : Number), r.2.registry.listed[k]? = some s → es[k]? = some x →
        (p'.tracker (.emission k)).staged.toNat = (p.tracker (.emission k)).staged.toNat
          + (x.raw - ((r.2.marks i).seen s).raw) * p.lpBalance.toNat / denom

/-- **No subtraction underflows** in `calc_earned_emissions`: whenever `stage_all` is reached, at
what time it may be, the indexes it is called with are not below those in the trackers. -/
def StagesSafely (w : LpWorld K) : Prop :=
  ∀ now es f, MarketEmission.updateAll w.market.lpEscrowAmount w.market.emissions w.amountsClaimable
      = .ok es → w.market.lpFarm.increaseShareIndexes now w.market.lpEscrowAmount = .ok f →
    ∀ r x, r.indexIn (es.map MarketEmission.lpShareIndex) f.getLastSeenIndices = some x →
      ∀ p ∈ w.lpPositions, (p.tracker r).lastSeenIndex ≤ x

abbrev recordEmissions : LpWorld K × LpLedger → LpOp → Outcome (LpWorld K × LpLedger) :=
  Machine.recording step LpLedger.record

theorem NotAhead.stagesSafely (h : w.NotAhead) : w.StagesSafely := by
  intro now es f hes hf r x hx p hp
  have hadv := indexesGrow_advance (m := { w.market with emissions := es }) hf
  obtain ⟨y, hy, hle⟩ := hadv r x hx
  obtain ⟨z, hz, hle'⟩ := indexesGrow_update hes r y hy
  exact (h.behind r z hz p hp).trans (hle'.trans hle)

variable {r r' : LpWorld K × LpLedger} {g : LpLedger}

theorem SlotsKept.tracker {k s : Nat} (hr : SlotsKept r) (hp : r.1.lpPositions[i]? = some p)
    (hs : r.2.registry.listed[k]? = some s) :
    (p.tracker (.emission k)).lastSeenIndex = (r.2.marks i).seen s := by
  have hts : r.1.seenIndexes i = some p.seenIndexes := by rw [seenIndexes, hp]; rfl
  have ht := hr.tracks i _ hts
  cases hk : p.emissions[k]? with
  | some t =>
    have hseen : p.seenIndexes[k]? = some t.lastSeenIndex := by
      rw [LpPosition.seenIndexes, List.getElem?_map, hk, Option.map_some]
    rw [LpPosition.tracker, PersonalYieldTrackers.tracker_of_some hk]
    exact ht.seen k s _ hs hseen
  | none =>
    have hle := List.getElem?_eq_none_iff.1 hk
    rw [LpPosition.tracker, PersonalYieldTrackers.tracker_of_length_le hle]
    exact (ht.unseen k s hs ((List.length_map _).trans_le hle)).symm

theorem SlotsKept.creditsOwn (hr : SlotsKept r) : CreditsOwn r := by
  intro i p hp es fs p' hstage k s x hs hx
  have hpaid := ((stagedAll_of_ok hstage).settles (.emission k) x hx).paid
  rwa [hr.tracker hp hs] at hpaid

/-- Staking and unstaking stage a position first. -/
structure Restaked (w : LpWorld K) (i : Nat) (w' : LpWorld K) : Prop where
  slots : w'.market.emissionIndexes.length = w.market.emissionIndexes.length
  position : ∃ p q p' fs, w.lpPositions[i]? = some p ∧ w'.lpPositions = w.lpPositions.set i q ∧
    StagedAll w'.market.emissionIndexes fs p p' ∧ q.emissions = p'.emissions

theorem restaked_of_updateAndStage {e b : UInt64} (hp : w.lpPositions[i]? = some p)
    (h : updateAndStage w.market p now w.amountsClaimable = .ok (m, p')) :
    Restaked w i { w with
      market := { m with lpEscrowAmount := e }
      lpPositions := w.lpPositions.set i { p' with lpBalance := b }, clock := now } := by
  obtain ⟨es, f, hes, -, rfl, hs⟩ := updateAndStage_eq_ok h
  refine ⟨?_, p, _, p', _, hp, rfl, hs, rfl⟩
  simp only [MarketTwo.emissionIndexes, List.length_map, MarketEmission.length_updateAll hes]

theorem restaked_of_depositLp {a : UInt64} (h : w.step (.depositLp now i a) = .ok w') :
    Restaked w i w' := by
  simp only [step, withPosition, depositLp, bind_eq_ok, getAt_eq_ok, LpPosition.addLp,
    Except.ok.injEq, Prod.exists, Prod.mk.injEq] at h
  obtain ⟨p, hp, m, q, ⟨m₁, p₁, hs, e, -, p₂, ⟨b, -, rfl⟩, rfl, rfl⟩, rfl⟩ := h
  exact restaked_of_updateAndStage hp hs

theorem restaked_of_withdrawLp {a : UInt64} (h : w.step (.withdrawLp now i a) = .ok w') :
    Restaked w i w' := by
  simp only [step, withPosition, withdrawLp, bind_eq_ok, getAt_eq_ok, LpPosition.rmLp,
    Except.ok.injEq, Prod.exists, Prod.mk.injEq] at h
  obtain ⟨p, hp, m, q, ⟨m₁, p₁, hs, p₂, ⟨b, -, rfl⟩, e, -, rfl, rfl⟩, rfl⟩ := h
  exact restaked_of_updateAndStage hp hs

theorem seenIndexes_set_ne {w' : LpWorld K} (hpos : w'.lpPositions = w.lpPositions.set i q)
    (hne : j ≠ i) : w'.seenIndexes j = w.seenIndexes j := by
  rw [seenIndexes, hpos, List.getElem?_set_ne (Ne.symm hne), seenIndexes]

theorem seenIndexes_set_self (hpos : w'.lpPositions = w.lpPositions.set i q)
    (hp : w.lpPositions[i]? = some p) : w'.seenIndexes i = some q.seenIndexes := by
  rw [seenIndexes, hpos, List.getElem?_set_self (List.getElem?_eq_some_iff.1 hp).1]
  rfl

theorem Restaked.keeps (h : Restaked w i w') (hg : SlotsKept (w, g)) :
    SlotsKept (w', g.settle [i] w'.market.emissionIndexes) := by
  obtain ⟨p, q, p', fs, hp, hpos, hs, hq⟩ := h.position
  unfold SlotsKept
  rw [h.slots]
  refine Ledger.Keeps.settle hg h.slots (fun j hj => ?_) fun j hj => ?_
  · exact seenIndexes_set_ne hpos fun hji => hj (List.mem_singleton.2 hji)
  · obtain rfl := List.mem_singleton.1 hj
    have hseen : q.seenIndexes = p'.seenIndexes := by rw [LpPosition.seenIndexes, hq]; rfl
    refine ⟨_, seenIndexes_set_self hpos hp, ?_, fun k x hx => ?_⟩
    · rw [hseen, seenIndexes, hp]
      simp only [LpPosition.seenIndexes, List.length_map, Option.map_some, Option.getD_some]
      exact hs.emissions
    · have hindex := (hs.settles (.emission k) x hx).index
      have hlt : k < p'.emissions.length := by
        have hk := (List.getElem?_eq_some_iff.1 hx).1
        rw [hs.emissions]
        omega
      rw [LpPosition.tracker,
        PersonalYieldTrackers.tracker_of_some (List.getElem?_eq_getElem hlt)] at hindex
      rw [hseen, LpPosition.seenIndexes, List.getElem?_map, List.getElem?_eq_getElem hlt,
        Option.map_some, hindex]

theorem slotsKept_initLpPosition {owner : Pubkey} (hg : SlotsKept (w, g)) :
    SlotsKept ({ w with lpPositions := w.lpPositions ++ [LpPosition.newFromMarket w.market owner] },
      g.settle [w.lpPositions.length] w.market.emissionIndexes) := by
  have hnew : (LpPosition.newFromMarket w.market owner).seenIndexes = w.market.emissionIndexes := by
    rw [LpPosition.seenIndexes, LpPosition.newFromMarket, List.map_map]
    rfl
  refine Ledger.Keeps.settle hg rfl (fun j hj => ?_) fun j hj => ?_
  · have hne : j ≠ w.lpPositions.length := fun h => hj (List.mem_singleton.2 h)
    rw [seenIndexes, seenIndexes, ListSum.getElem?_concat_of_ne hne]
  · obtain rfl := List.mem_singleton.1 hj
    refine ⟨w.market.emissionIndexes, ?_, ?_, fun k x hx => hx⟩
    · rw [seenIndexes, List.getElem?_concat_length, Option.map_some, hnew]
    · rw [seenIndexes, List.getElem?_eq_none le_rfl]
      exact (Nat.zero_max _).symm

/-- Neither the list nor a tracker's index changes. -/
theorem SlotsKept.same (hg : SlotsKept (w, g))
    (hslots : w'.market.emissionIndexes.length = w.market.emissionIndexes.length)
    (hseen : w'.seenIndexes = w.seenIndexes) : SlotsKept (w', g) := by
  unfold SlotsKept
  rw [hslots, hseen]
  exact hg

/-- A position is paid. -/
theorem seenIndexes_set (hp : w.lpPositions[i]? = some p)
    (hpos : w'.lpPositions = w.lpPositions.set i q) (hq : q.seenIndexes = p.seenIndexes) :
    w'.seenIndexes = w.seenIndexes := by
  funext j
  by_cases hj : j = i
  · subst hj
    rw [seenIndexes_set_self hpos hp, hq, seenIndexes, hp, Option.map_some]
  · exact seenIndexes_set_ne hpos hj

theorem slotsKept_marketCollectEmission {index : UInt16} (hg : SlotsKept (w, g))
    (h : w.step (.marketCollectEmission i index) = .ok w') : SlotsKept (w', g) := by
  simp only [step, marketCollectEmission, bind_eq_ok, getAt_eq_ok, setAt_eq_ok, unwrap_eq_ok,
    Except.ok.injEq, Prod.exists, Prod.mk.injEq] at h
  obtain ⟨p, hp, m, q, cs, ⟨e, he, t, ht, ts, ⟨-, rfl⟩, -, -, cs', -, l, -, es, ⟨-, rfl⟩, rfl, rfl,
    rfl⟩, rfl⟩ := h
  refine hg.same ?_ (seenIndexes_set hp rfl (ListSum.map_set_of_eq ht rfl))
  simp only [MarketTwo.emissionIndexes, List.length_map, List.length_set]

theorem slotsKept_claimFarmEmissions {mint : Pubkey} {amount : Amount} (hg : SlotsKept (w, g))
    (h : w.step (.claimFarmEmissions i mint amount) = .ok w') : SlotsKept (w', g) := by
  simp only [step, claimFarmEmissions, bind_eq_ok, getAt_eq_ok, Except.ok.injEq, Prod.exists,
    Prod.mk.injEq] at h
  obtain ⟨p, hp, q, b, ⟨j, -, t, -, a, -, b', -, t', -, ts, -, rfl, rfl⟩, rfl⟩ := h
  exact hg.same rfl (seenIndexes_set hp rfl rfl)

theorem slotsKept_addFarm {mint : Pubkey} {rate : UInt64} {expiry : UInt32} (hg : SlotsKept (w, g))
    (h : w.step (.addFarm now mint rate expiry) = .ok w') : SlotsKept (w', g) := by
  simp only [step, withTokenFarm, bind_eq_ok, Except.ok.injEq, Prod.exists] at h
  obtain ⟨m, b, hm, rfl⟩ := h
  obtain ⟨f, -, -, -, rfl, -⟩ := addFarm_eq_ok hm
  exact hg.same rfl rfl

theorem slotsKept_modifyFarm {mint : Pubkey} {rate : UInt64} {expiry : UInt32}
    (hg : SlotsKept (w, g)) (h : w.step (.modifyFarm now mint expiry rate) = .ok w') :
    SlotsKept (w', g) := by
  simp only [step, withTokenFarm, bind_eq_ok, Except.ok.injEq, Prod.exists] at h
  obtain ⟨m, b, hm, rfl⟩ := h
  obtain ⟨f, j, e, -, -, -, rfl, -⟩ := modifyFarm_eq_ok hm
  exact hg.same rfl rfl

theorem forall_seenIndexes {n : Nat} :
    (∀ i ts, w.seenIndexes i = some ts → ts.length ≤ n) ↔
      ∀ p ∈ w.lpPositions, p.emissions.length ≤ n := by
  constructor
  · intro hall p hp
    obtain ⟨i, hi⟩ := List.mem_iff_getElem?.1 hp
    have hlen := hall i p.seenIndexes (by rw [seenIndexes, hi]; rfl)
    rwa [LpPosition.seenIndexes, List.length_map] at hlen
  · intro hall i ts hts
    obtain ⟨p, hp, rfl⟩ := Option.map_eq_some_iff.1 hts
    rw [LpPosition.seenIndexes, List.length_map]
    exact hall p (List.mem_of_getElem? hp)

/-- **One step**: trackers and ledger go on agreeing exactly if the list does not change under a
tracker. -/
theorem slots_step (hr : SlotsKept r) (h : recordEmissions r op = .ok r') :
    (SlotsAligned r' ↔ op.KeepsSlots r.1) ∧ (op.KeepsSlots r.1 → SlotsKept r') := by
  obtain ⟨w, g⟩ := r
  obtain ⟨w', hw, rfl⟩ := Machine.recording_eq_ok.1 h
  have hlen : w.market.emissionIndexes.length = w.market.emissions.length := List.length_map _
  have hkeep (hP : op.KeepsSlots w) (hk : SlotsKept (w', LpLedger.record w op w' g)) :
      (SlotsAligned (w', LpLedger.record w op w' g) ↔ op.KeepsSlots w) ∧
        (op.KeepsSlots w → SlotsKept (w', LpLedger.record w op w' g)) :=
    ⟨⟨fun _ => hP, fun _ => hk.aligned⟩, fun _ => hk⟩
  cases op with
  | initLpPosition owner =>
    obtain rfl := Except.ok.inj hw
    exact hkeep (fun _ _ => trivial) (slotsKept_initLpPosition hr)
  | depositLp now i a => exact hkeep (fun _ _ => trivial) ((restaked_of_depositLp hw).keeps hr)
  | withdrawLp now i a => exact hkeep (fun _ _ => trivial) ((restaked_of_withdrawLp hw).keeps hr)
  | addMarketEmission accounts token =>
    have hP : (LpOp.addMarketEmission accounts token).KeepsSlots w ↔
        ∀ i ts, w.seenIndexes i = some ts → ts.length ≤ w.market.emissionIndexes.length := by
      rw [forall_seenIndexes, hlen]
      exact ⟨fun hP => hP w' hw, fun hall _ _ => hall⟩
    obtain rfl := Except.ok.inj hw
    have hslots : (addMarketEmission w.market accounts token).emissionIndexes.length
        = w.market.emissionIndexes.length + 1 := by
      rw [addMarketEmission, MarketTwo.emissionIndexes, List.map_append, List.length_append]
      rfl
    constructor
    · rw [hP]
      exact Ledger.Keeps.aligned_add_iff hr
    · intro hkeeps
      rw [SlotsKept, hslots]
      exact Ledger.Keeps.add hr (hP.1 hkeeps)
  | removeMarketEmission slot =>
    have hP : (LpOp.removeMarketEmission slot).KeepsSlots w ↔
        slot.toNat + 1 = w.market.emissionIndexes.length ∨
          ∀ i ts, w.seenIndexes i = some ts → ts.length ≤ slot.toNat := by
      rw [forall_seenIndexes, hlen]
      exact ⟨fun hP => hP w' hw, fun hall _ _ => hall⟩
    obtain ⟨hlt, rfl⟩ := step_removeMarketEmission.1 hw
    have hslots : ((w.market.emissions.eraseIdx slot.toNat).map MarketEmission.lpShareIndex).length
        = w.market.emissionIndexes.length - 1 := by
      rw [List.length_map, List.length_eraseIdx_of_lt hlt, hlen]
    rw [← hlen] at hlt
    constructor
    · rw [hP]
      exact Ledger.Keeps.aligned_remove_iff hr hlt
    · intro hkeeps
      rw [SlotsKept, MarketTwo.emissionIndexes, hslots]
      exact Ledger.Keeps.remove hr hlt (hP.1 hkeeps)
  | marketCollectEmission i index =>
    exact hkeep (fun _ _ => trivial) (slotsKept_marketCollectEmission hr hw)
  | addFarm now mint rate expiry => exact hkeep (fun _ _ => trivial) (slotsKept_addFarm hr hw)
  | modifyFarm now mint expiry rate =>
    exact hkeep (fun _ _ => trivial) (slotsKept_modifyFarm hr hw)
  | claimFarmEmissions i mint amount =>
    exact hkeep (fun _ _ => trivial) (slotsKept_claimFarmEmissions hr hw)
  | accrue cs =>
    obtain rfl := Except.ok.inj hw
    exact hkeep (fun _ _ => trivial) (hr.same rfl rfl)

/-! ## Runs -/

theorem slotsKept_fresh (hw : w.Fresh) : SlotsKept (w, .start) := by
  have hslots : w.market.emissionIndexes.length = 0 := by
    rw [MarketTwo.emissionIndexes, hw.emissions]
    rfl
  rw [SlotsKept, hslots]
  refine Ledger.Keeps.start fun i ts hts => ?_
  rw [seenIndexes, hw.lpPositions] at hts
  cases hts

theorem notAhead_fresh (hw : w.Fresh) : w.NotAhead where
  behind r x hx p hp := by
    rw [hw.lpPositions] at hp
    cases hp
  farms p hp := by
    rw [hw.lpPositions] at hp
    cases hp

/-- **Slots stay aligned** exactly as long as the list does not change under a tracker. -/
theorem guards_slots : Machine.Guards (recordEmissions (K := K))
    (fun r => SlotsKept r ∧ r.1.NotAhead) (fun r op => op.KeepsSlots r.1)
    (fun r => SlotsAligned r ∧ CreditsOwn r ∧ r.1.StagesSafely) where
  holds r hr := ⟨Ledger.Keeps.aligned hr.1, hr.1.creditsOwn, hr.2.stagesSafely⟩
  keeps r op r' hr hP h := by
    obtain ⟨w', hw, rfl⟩ := Machine.recording_eq_ok.1 h
    exact ⟨(slots_step hr.1 h).2 hP, step_induction (fun _ _ hn he => hn.event he) hr.2 hP hw⟩
  needed r op r' hr h hQ := (slots_step hr.1 h).1.1 hQ.1
  failing r op e h w' hw := by
    have hok : recordEmissions r op = .ok (w', LpLedger.record r.1 op w' r.2) :=
      Machine.recording_eq_ok.2 ⟨w', hw, rfl⟩
    rw [hok] at h
    cases h

end

end LpWorld

/-! ## A vault and a market -/

/-- A vault and a market with their ledgers; a run interleaves operations on both. -/
abbrev recordBoth :
    (VaultWorld × EmissionLedger) × LpWorld K × LpLedger → VaultOp ⊕ LpOp →
      Outcome ((VaultWorld × EmissionLedger) × LpWorld K × LpLedger) :=
  Machine.par VaultWorld.recordEmissions LpWorld.recordEmissions

/-- **The slots are sound**: they are aligned, so every stream credits for its own growth, and no
subtraction of indexes underflows. -/
structure SlotsSound (s : (VaultWorld × EmissionLedger) × LpWorld K × LpLedger) : Prop where
  vault : VaultWorld.SlotsAligned s.1
  vaultCredits : VaultWorld.CreditsOwn s.1
  market : LpWorld.SlotsAligned s.2
  marketCredits : LpWorld.CreditsOwn s.2
  stagesSafely : s.2.1.StagesSafely

/-- The operation changes no slot that a position has a tracker for. -/
def KeepsSlots (s : (VaultWorld × EmissionLedger) × LpWorld K × LpLedger) : VaultOp ⊕ LpOp → Prop
  | .inl op => op.KeepsSlots s.1.1
  | .inr op => op.KeepsSlots s.2.1

instance (s : (VaultWorld × EmissionLedger) × LpWorld K × LpLedger) :
    ∀ op : VaultOp ⊕ LpOp, Decidable (KeepsSlots s op)
  | .inl op => inferInstanceAs (Decidable (op.KeepsSlots s.1.1))
  | .inr op => inferInstanceAs (Decidable (op.KeepsSlots s.2.1))

theorem guards_slotsSound : Machine.Guards (recordBoth (K := K))
    (fun s => VaultWorld.SlotsKept s.1 ∧ LpWorld.SlotsKept s.2 ∧ s.2.1.NotAhead) KeepsSlots
    SlotsSound := by
  have hboth := (VaultWorld.guards_slots).par (LpWorld.guards_slots (K := K))
  refine ⟨fun s hs => ?_, fun s op s' hs hP => ?_, fun s op s' hs h hQ => ?_, fun s op e h => ?_⟩
  · obtain ⟨⟨ha, hc⟩, ha', hc', hs'⟩ := hboth.holds s hs
    exact ⟨ha, hc, ha', hc', hs'⟩
  · exact hboth.keeps s op s' hs (by cases op <;> exact hP)
  · have hP := hboth.needed s op s' hs h
      ⟨⟨hQ.vault, hQ.vaultCredits⟩, hQ.market, hQ.marketCredits, hQ.stagesSafely⟩
    cases op <;> exact hP
  · have hP := hboth.failing s op e h
    cases op <;> exact hP

/-- A new vault and a new market, and nothing in the ledgers. -/
def freshBoth (args : InitializeVaultArgs) (w : LpWorld K) :
    (VaultWorld × EmissionLedger) × LpWorld K × LpLedger :=
  ((VaultWorld.initializeVault args, .start), w, .start)

/-- **Emission slots**: in a run that interleaves operations on a vault and on a market, the slots
are sound throughout exactly if no operation changes a slot that a position has a tracker for. -/
theorem slots_sound_iff (args : InitializeVaultArgs) (w : LpWorld K) (hw : w.Fresh)
    (ops : List (VaultOp ⊕ LpOp)) :
    Machine.Throughout recordBoth SlotsSound (freshBoth args w) ops ↔
      Machine.Admits recordBoth KeepsSlots (freshBoth args w) ops :=
  guards_slotsSound.throughout_iff ⟨VaultWorld.slotsKept_initializeVault args,
    LpWorld.slotsKept_fresh hw, LpWorld.notAhead_fresh hw⟩

/-- Emissions are listed before anybody has a tracker in their slots, and the last one of the market
is taken off again. -/
def lastSlotRemoved : List (VaultOp ⊕ LpOp) :=
  [.inl (.addEmission {} ⟨1, [0]⟩ 0 0 0), .inr (.addMarketEmission {} 7),
    .inl (.initializeYieldPosition 1 0), .inr (.initLpPosition 1), .inl (.strip 1 ⟨1, [1]⟩ 100),
    .inr (.addMarketEmission {} 8), .inr (.depositLp 10 0 100), .inl (.depositYt 2 ⟨1, [1]⟩ 0 100),
    .inr (.accrue [50, 0]), .inr (.depositLp 20 0 100), .inr (.removeMarketEmission 1)]

theorem slots_sound_iff_lastSlotRemoved :
    Machine.Throughout recordBoth SlotsSound
      (freshBoth ⟨0, 1000, 0, {}, 0, 0, 0, 0⟩ LpWorld.freshMarket) lastSlotRemoved :=
  (slots_sound_iff _ LpWorld.freshMarket LpWorld.freshMarket_fresh _).2 (by decide +kernel)

/-- A market lists two emissions, the first one accrues, a position stages, and the first one is
taken off. -/
def removedUnderTracker : List (VaultOp ⊕ LpOp) :=
  [.inr (.addMarketEmission {} 7), .inr (.addMarketEmission {} 8), .inr (.initLpPosition 1),
    .inr (.depositLp 10 0 100), .inr (.accrue [50, 0]), .inr (.depositLp 20 0 100),
    .inr (.removeMarketEmission 0)]

/-- The index of the second emission, zero, now meets the tracker of the first one, at one half. The
position can no longer withdraw. -/
theorem not_slots_sound_removedUnderTracker :
    let s := Machine.run recordBoth
      (freshBoth ⟨0, 1000, 0, {}, 0, 0, 0, 0⟩ LpWorld.freshMarket) removedUnderTracker
    ¬ SlotsSound s ∧ ¬ ∃ w', s.2.1.step (.withdrawLp 30 0 200) = .ok w' ∧ True := by
  refine ⟨fun h => ?_, by decide +kernel⟩
  have hseen := h.stagesSafely 30 [⟨8, 0, 0⟩] ⟨30, []⟩ (by decide +kernel) (by decide +kernel)
    (.emission 0) 0 rfl
    ⟨1, 200, [⟨⟨500000000000, by decide⟩, 50⟩, ⟨0, 0⟩], []⟩ (by decide +kernel)
  exact absurd hseen (by decide +kernel)

end ExponentCore
