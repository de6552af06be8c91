import ExponentCore.Market.Proof.LpRewards

/-!
# What LP positions are owed of an emission can be claimed

Each growth of an index is covered by the growth of `last_seen_staged` it was computed from, and a
claim takes the same from both sides. So `Accumulator.View.Funded` holds of every emission, with
`last_seen_staged` as the fund (`EmissionFunded`). A missing tracker counts from index zero, where
an emission starts, so positions that are older than an emission make no difference.

The result is `emissionsCovered_throughout`: in every state of every run the emissions are covered,
and no subtraction of the program can underflow.
-/

set_option autoImplicit false

namespace ExponentCore

open Number

variable {K : Type}

namespace LpWorld

/-- **The emissions are covered** by what the market has seen staged for it at the SY program. -/
structure EmissionsCovered (w : LpWorld K) : Prop where
  staked : w.Staked
  covered : ∀ (i : Nat) (e : MarketEmission), w.market.emissions[i]? = some e →
    w.owed (.emission i) e.lpShareIndex ≤ e.lastSeenStaged.toNat
  /-- no tracker is ahead of its index, so staging does not underflow -/
  behind : ∀ (i : Nat) (e : MarketEmission), w.market.emissions[i]? = some e → ∀ p ∈ w.lpPositions,
    (p.tracker (.emission i)).lastSeenIndex ≤ e.lpShareIndex
  /-- the subtraction in `update_emissions_from_position_state` does not underflow -/
  update : ∀ (i : Nat) (e : MarketEmission) (c : UInt64), w.market.emissions[i]? = some e →
    w.amountsClaimable[i]? = some c →
    e.lastSeenStaged ≤ c
  /-- the subtraction in `market_collect_emission` does not underflow -/
  collect : ∀ (i : Nat) (e : MarketEmission), w.market.emissions[i]? = some e → ∀ p ∈ w.lpPositions,
    (p.tracker (.emission i)).staged ≤ e.lastSeenStaged
  /-- what is staged can be claimed from the SY program -/
  claimable : ∀ (i : Nat) (e : MarketEmission), w.market.emissions[i]? = some e →
    ∀ p ∈ w.lpPositions, (p.tracker (.emission i)).staged ≤ w.amountsClaimable.getD i 0

end LpWorld

/-! ## The invariant -/

/-- The positions are within `last_seen_staged`, and that is within what is claimable. -/
structure EmissionFunded (w : LpWorld K) (i : Nat) (e : MarketEmission) : Prop where
  funded : (LpPosition.rewardView (.emission i)).Funded e.lpShareIndex.value
    e.lastSeenStaged.toNat w.lpPositions
  claimable : e.lastSeenStaged ≤ w.amountsClaimable.getD i 0

structure EmissionInv (w : LpWorld K) : Prop where
  staked : w.Staked
  funded : ∀ i e, w.market.emissions[i]? = some e → EmissionFunded w i e
  /-- no position has a tracker for an emission that is not listed yet -/
  listed : ∀ p ∈ w.lpPositions, p.emissions.length ≤ w.market.emissions.length

section
variable {A : LpWorld K → LpOp → Prop} {w w' : LpWorld K} {p p' q : LpPosition} {i j k : Nat}
  {e e' : MarketEmission} {es : List MarketEmission} {cs : List UInt64} {t : PersonalYieldTracker}
  {l c c' : UInt64} {owner token : Pubkey} {accounts : CpiAccounts}

theorem emissionIndexes_get {m : MarketTwo K} (he : m.emissions[i]? = some e) :
    m.rewardIndex (.emission i) = some e.lpShareIndex := by
  simp [MarketTwo.rewardIndex, LpReward.indexIn, MarketTwo.emissionIndexes, he]

theorem newFromMarket_emission {m : MarketTwo K} (he : m.emissions[i]? = some e) :
    (LpPosition.newFromMarket m owner).tracker (.emission i) = ⟨e.lpShareIndex, 0⟩ :=
  PersonalYieldTrackers.tracker_of_some (by simp [LpPosition.newFromMarket, he])

/-- What is claimable only matters where it is listed. -/
theorem getD_of_some (hc : cs[i]? = some c) : cs.getD i 0 = c := by
  rw [List.getD_eq_getElem?_getD, hc, Option.getD_some]

namespace EmissionFunded

theorem update (h : EmissionFunded w i e) (hstaked : w.Staked)
    (hc : w.amountsClaimable[i]? = some c)
    (hu : MarketEmission.Updated w.market.lpEscrowAmount c e e') : EmissionFunded w i e' := by
  obtain ⟨d, hd, hraw⟩ := hu.index
  refine ⟨?_, ?_⟩
  · rw [hu.lastSeenStaged, ← hd, Nat.add_comm, Nat.cast_add]
    exact funded_grow h.funded hstaked hraw
  · rw [hu.lastSeenStaged, getD_of_some hc]
    exact UInt64.le_refl c

/-- A claim takes what was staged from the position, from the market and from the SY program. -/
theorem collect (h : EmissionFunded w i e) (hp : w.lpPositions[j]? = some p)
    (ht : p.emissions[i]? = some t) (hc : w.amountsClaimable[i]? = some c)
    (hl : l.toNat + t.staged.toNat = e.lastSeenStaged.toNat)
    (hc' : c'.toNat + t.staged.toNat = c.toNat) :
    EmissionFunded { w with
      lpPositions :=
        w.lpPositions.set j { p with emissions := p.emissions.set i { t with staged := 0 } }
      amountsClaimable := w.amountsClaimable.set i c' } i { e with lastSeenStaged := l } := by
  have hlen := (List.getElem?_eq_some_iff.1 ht).1
  have htp : p.tracker (.emission i) = t := PersonalYieldTrackers.tracker_of_some ht
  have htp' : LpPosition.tracker { p with emissions := p.emissions.set i { t with staged := 0 } }
      (.emission i) = { t with staged := 0 } :=
    (PersonalYieldTrackers.tracker_set hlen i).trans (if_pos rfl)
  refine ⟨?_, ?_⟩
  · have hfund : (l.toNat : ℚ) = e.lastSeenStaged.toNat - t.staged.toNat :=
      eq_sub_of_add_eq (by exact_mod_cast hl)
    rw [hfund]
    exact funded_pay h.funded hp rfl (by rw [htp', htp]) (by rw [htp', htp]; exact Nat.zero_add _)
  · have hle := UInt64.le_iff_toNat_le.1 (getD_of_some hc ▸ h.claimable)
    have hc₁ : (w.amountsClaimable.set i c')[i]? = some c' :=
      List.getElem?_set_self (List.getElem?_eq_some_iff.1 hc).1
    rw [getD_of_some hc₁, UInt64.le_iff_toNat_le]
    show l.toNat ≤ c'.toNat
    omega

/-- Other emissions are not touched by a claim. -/
theorem collect_ne {n : UInt64} (h : EmissionFunded w j e) (hij : j ≠ i)
    (hp : w.lpPositions[k]? = some p)
    (ht : p.emissions[i]? = some t) :
    EmissionFunded { w with
      lpPositions :=
        w.lpPositions.set k { p with emissions := p.emissions.set i { t with staged := 0 } }
      amountsClaimable := w.amountsClaimable.set i n } j e := by
  have hlen := (List.getElem?_eq_some_iff.1 ht).1
  refine ⟨funded_congr h.funded hp rfl
    ((PersonalYieldTrackers.tracker_set hlen j).trans (if_neg hij)), ?_⟩
  simp only [List.getD_eq_getElem?_getD, List.getElem?_set_ne (Ne.symm hij)]
  exact List.getD_eq_getElem?_getD ▸ h.claimable

theorem accrue (h : EmissionFunded w i e) (hcs : LpOp.Accrues w (.accrue cs)) :
    EmissionFunded { w with amountsClaimable := cs } i e := by
  obtain ⟨hlen, hall⟩ := hcs
  refine ⟨h.funded, UInt64.le_trans h.claimable ?_⟩
  cases hc : w.amountsClaimable[i]? with
  | none =>
    rw [List.getD_eq_getElem?_getD, hc]
    exact UInt64.le_iff_toNat_le.2 (Nat.zero_le _)
  | some c =>
    obtain ⟨d, hd⟩ : ∃ d, cs[i]? = some d :=
      ⟨_, List.getElem?_eq_getElem ((List.getElem?_eq_some_iff.1 hc).1.trans_le hlen)⟩
    rw [getD_of_some hc, getD_of_some hd]
    exact hall (c, d) (List.mem_of_getElem? (List.getElem?_zip_eq_some.2 ⟨hc, hd⟩))

end EmissionFunded

namespace EmissionInv

/-- The slot of an updated list holds the update of what it held. -/
theorem update (h : EmissionInv w)
    (hes : MarketEmission.updateAll w.market.lpEscrowAmount w.market.emissions w.amountsClaimable
      = .ok es) (hget : es[i]? = some e') : EmissionFunded w i e' := by
  have hlen : i < w.market.emissions.length := by
    rw [← MarketEmission.length_updateAll hes]
    exact (List.getElem?_eq_some_iff.1 hget).1
  obtain ⟨e₁, hget₁, hsome, hnone⟩ :=
    MarketEmission.updateAll_get hes (List.getElem?_eq_getElem hlen)
  obtain rfl : e₁ = e' := Option.some.inj (hget₁.symm.trans hget)
  have hf := h.funded i _ (List.getElem?_eq_getElem hlen)
  cases hc : w.amountsClaimable[i]? with
  | none => rw [hnone hc]; exact hf
  | some c => exact hf.update h.staked hc (hsome c hc)

/-- A new emission starts at index zero, where missing trackers are. -/
theorem addEmission (h : EmissionInv w)
    (hget : (addMarketEmission w.market accounts token).emissions[i]? = some e) :
    EmissionFunded w i e := by
  simp only [addMarketEmission] at hget
  rcases Nat.lt_or_ge i w.market.emissions.length with hlt | hge
  · exact h.funded i e (by rwa [List.getElem?_append_left hlt] at hget)
  · rw [List.getElem?_append_right hge, List.getElem?_singleton] at hget
    split at hget
    · obtain rfl := Option.some.inj hget
      refine ⟨funded_start (fun q hq => ?_) (Nat.cast_nonneg _),
        UInt64.le_iff_toNat_le.2 (Nat.zero_le _)⟩
      exact PersonalYieldTrackers.tracker_of_length_le ((h.listed q hq).trans hge)
    · cases hget

theorem listed_set {x : LpPosition} (h : EmissionInv w)
    (hp : x.emissions.length ≤ w.market.emissions.length) :
    ∀ q ∈ w.lpPositions.set i x, q.emissions.length ≤ w.market.emissions.length := by
  intro q hq
  rcases List.mem_or_eq_of_mem_set hq with hq | rfl
  · exact h.listed q hq
  · exact hp

theorem event (hA : ∀ w op, A w op → op.Accrues w ∧ ¬ op.RemovesMarketEmission)
    (h : EmissionInv w) (he : LpEvent A w w') : EmissionInv w' := by
  refine ⟨h.staked.event he, ?_, ?_⟩
  · intro k e' hget
    cases he with
    | advance _ _ hw =>
      obtain ⟨f, -, rfl⟩ := LpWorld.advanced_eq_ok hw
      exact ⟨(h.funded k e' hget).funded, (h.funded k e' hget).claimable⟩
    | update hes => exact ⟨(h.update hes hget).funded, (h.update hes hget).claimable⟩
    | stage hp hs =>
      have hf := h.funded k e' hget
      exact ⟨funded_stage hf.funded (emissionIndexes_get hget) hp hs, hf.claimable⟩
    | stake hp hj hb =>
      have hf := h.funded k e' hget
      exact ⟨funded_stake hf.funded (hj _ _ (emissionIndexes_get hget)) hp, hf.claimable⟩
    | @collect _ i p j e t l c c' hp he ht hc hl hc' =>
      by_cases hk : k = j
      · subst hk
        have hlen := (List.getElem?_eq_some_iff.1 he).1
        obtain rfl : { e with lastSeenStaged := l } = e' := by
          simpa [List.getElem?_set_self hlen] using hget
        have hf := (h.funded k e he).collect hp ht hc hl hc'
        exact ⟨hf.funded, hf.claimable⟩
      · have hget' : w.market.emissions[k]? = some e' := by
          simpa [List.getElem?_set_ne (Ne.symm hk)] using hget
        have hf := (h.funded k e' hget').collect_ne (n := c') hk hp ht
        exact ⟨hf.funded, hf.claimable⟩
    | addEmission _ => exact ⟨(h.addEmission hget).funded, (h.addEmission hget).claimable⟩
    | removeEmission hop => exact absurd trivial (hA _ _ hop).2
    | addFarm _ _ _ _ => exact ⟨(h.funded k e' hget).funded, (h.funded k e' hget).claimable⟩
    | modifyFarm _ _ _ _ _ => exact ⟨(h.funded k e' hget).funded, (h.funded k e' hget).claimable⟩
    | claimFarm hp _ _ _ _ _ =>
      have hf := h.funded k e' hget
      exact ⟨funded_congr hf.funded hp rfl rfl, hf.claimable⟩
    | openPosition =>
      have hf := h.funded k e' hget
      exact ⟨funded_open hf.funded (newFromMarket_emission hget), hf.claimable⟩
    | accrue hop => exact (h.funded k e' hget).accrue (hA _ _ hop).1
  · cases he with
    | advance _ _ hw =>
      obtain ⟨f, -, rfl⟩ := LpWorld.advanced_eq_ok hw
      exact h.listed
    | update hes =>
      intro q hq
      rw [MarketEmission.length_updateAll hes]
      exact h.listed q hq
    | @stage _ i p p' hp hs =>
      refine h.listed_set ?_
      rw [hs.emissions, MarketTwo.emissionIndexes, List.length_map]
      exact max_le (h.listed p (List.mem_of_getElem? hp)) le_rfl
    | @stake _ i p b e hp _ _ =>
      exact h.listed_set (x := { p with lpBalance := b }) (h.listed p (List.mem_of_getElem? hp))
    | collect hp _ _ _ _ _ =>
      simp only [List.length_set]
      exact h.listed_set (by simpa using h.listed _ (List.mem_of_getElem? hp))
    | addEmission _ =>
      intro q hq
      rw [addMarketEmission, List.length_append]
      exact (h.listed q hq).trans (Nat.le_add_right _ _)
    | removeEmission hop => exact absurd trivial (hA _ _ hop).2
    | @claimFarm _ i p j f t mint a s b hp _ _ _ _ _ =>
      exact h.listed_set (x := { p with farms := p.farms.set j { t with staged := s } })
        (h.listed p (List.mem_of_getElem? hp))
    | openPosition =>
      intro q hq
      rcases List.mem_append.1 hq with hq | hq
      · exact h.listed q hq
      · obtain rfl := List.mem_singleton.1 hq
        simp [LpPosition.newFromMarket]
    | addFarm _ _ _ _ | modifyFarm _ _ _ _ _ | accrue _ => exact h.listed

theorem fresh (h : w.Fresh) : EmissionInv w where
  staked := h.staked
  funded i e he := by rw [h.emissions] at he; cases he
  listed p hp := by rw [h.lpPositions] at hp; cases hp

theorem emissionsCovered (h : EmissionInv w) : w.EmissionsCovered := by
  have hstaged : ∀ i e, w.market.emissions[i]? = some e → ∀ p ∈ w.lpPositions,
      (p.tracker (.emission i)).staged ≤ e.lastSeenStaged := by
    intro i e he p hp
    have hle := (h.funded i e he).funded.settled_le (fun _ _ => Nat.cast_nonneg _)
      (fun _ _ => Nat.cast_nonneg _) hp
    exact UInt64.le_iff_toNat_le.2 (Nat.cast_le.1 hle)
  exact
    { staked := h.staked
      covered := fun i e he => (h.funded i e he).funded.covered
      behind := fun i e he p hp => value_le_value.1 ((h.funded i e he).funded.behind p hp)
      update := fun i e c he hc => getD_of_some hc ▸ (h.funded i e he).claimable
      collect := hstaged
      claimable := fun i e he p hp =>
        UInt64.le_trans (hstaged i e he p hp) (h.funded i e he).claimable }

end EmissionInv

end

/-! ## Whole runs -/

namespace LpWorld

/-- **LP emission solvency**: as long as the SY program takes nothing back and no emission is
removed from the list, the emissions are covered in every state of every run. -/
theorem emissionsCovered_throughout (w : LpWorld K) (ops : List LpOp) (hw : w.Fresh)
    (hops : Machine.Admits step (fun w op => op.Accrues w ∧ ¬ op.RemovesMarketEmission) w ops) :
    Machine.Throughout step EmissionsCovered w ops := by
  have hinv : Machine.Throughout step EmissionInv w ops :=
    throughout_of_event (fun _ _ h he => h.event (fun _ _ hA => hA) he) (EmissionInv.fresh hw) hops
  exact hinv.mono fun _ h => h.emissionsCovered

/-- A position from before the emission stakes; another joins it, and the first leaves and collects.
-/
def stakeAndCollect : List LpOp :=
  [.initLpPosition 1, .addMarketEmission { claimEmission := [[]] } 7, .depositLp 10 0 100,
    .accrue [50], .initLpPosition 2, .depositLp 20 1 200, .accrue [80], .withdrawLp 30 0 100,
    .marketCollectEmission 0 0]

theorem emissionsCovered_throughout_stakeAndCollect :
    Machine.Throughout step EmissionsCovered freshMarket stakeAndCollect :=
  emissionsCovered_throughout freshMarket stakeAndCollect freshMarket_fresh (by decide +kernel)

end LpWorld

end ExponentCore
