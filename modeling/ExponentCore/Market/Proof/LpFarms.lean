import ExponentCore.Market.Proof.LpRewards

/-!
# When the token account of a farm covers its rewards

A farm owes its stakers what they have staged, what has accrued in the index, and what the rate will
still emit before the expiry. `add_farm` pays for the whole span, and every second that passes moves
its emission from the last part into the index; so `Accumulator.View.Funded` holds of every farm,
with what the account holds above the coming emissions as the fund (`FarmFunded`).

`modify_farm` does not look at what is owed: it leaves the account with what the new rate will emit
and pays the rest out. The farms stay covered exactly as long as nothing is owed when that happens
(`farmsCovered_iff`, `LpOp.SparesRewards`).
-/

set_option autoImplicit false

namespace ExponentCore

open Number

variable {K : Type}

/-- The seconds that a farm will still emit for. -/
def FarmEmission.remaining (f : FarmEmission) (lastSeenTimestamp : UInt32) : Nat :=
  f.expiryTimestamp.toNat - lastSeenTimestamp.toNat

/-- **The farms are covered**: the token account of a farm holds what is staged and accrued and what
the rate will still emit. -/
def LpWorld.FarmsCovered (w : LpWorld K) : Prop :=
  ∀ i f, w.market.lpFarm.farmEmissions[i]? = some f →
    w.owed (.farm i) f.index
        + f.tokenRate.toNat * f.remaining w.market.lpFarm.lastSeenTimestamp
      ≤ (w.tokenFarm f.mint).toNat

namespace LpOp

/-- **A modification spares the rewards** when the farm owes no more, at that time, than the new
account balance leaves above the new emissions. The balance is the need as a `u64`; short of a wrap
it equals the new emissions, and then nothing may be owed. -/
def SparesRewards (w : LpWorld K) : LpOp → Prop
  | .modifyFarm now mint expiry rate =>
    ∀ w₁ ∈ (w.advanced now).toOption, ∀ j ∈ w₁.market.lpFarm.findFarmEmissionPosition mint,
      ∀ f ∈ w₁.market.lpFarm.farmEmissions[j]?,
        w₁.owed (.farm j) f.index + rate.toNat * (expiry.toNat - now.toNat : Nat)
          ≤ (((expiry.toNat : Int) - now.toNat) * rate.toNat % 2 ^ 64 : Int)
  | _ => True

instance (w : LpWorld K) : ∀ op : LpOp, Decidable (op.SparesRewards w)
  | .modifyFarm .. => inferInstanceAs (Decidable (∀ _ ∈ (_ : Option (LpWorld K)), _))
  | .initLpPosition _ | .depositLp .. | .withdrawLp .. | .marketCollectEmission ..
  | .addMarketEmission .. | .removeMarketEmission _ | .addFarm .. | .claimFarmEmissions ..
  | .accrue _ => instDecidableTrue

end LpOp

/-! ## The invariant -/

/-- The positions are within what the token account holds above the coming emissions. -/
def FarmFunded (w : LpWorld K) (i : Nat) (f : FarmEmission) : Prop :=
  (LpPosition.rewardView (.farm i)).Funded f.index.value
    ((w.tokenFarm f.mint).toNat
      - f.tokenRate.toNat * f.remaining w.market.lpFarm.lastSeenTimestamp) w.lpPositions

structure FarmInv (w : LpWorld K) : Prop where
  staked : w.Staked
  seen : w.market.lpFarm.lastSeenTimestamp ≤ w.clock
  mints : ∀ (i j : Nat) (f g : FarmEmission), w.market.lpFarm.farmEmissions[i]? = some f →
    w.market.lpFarm.farmEmissions[j]? = some g → f.mint = g.mint → i = j
  funded : ∀ i f, w.market.lpFarm.farmEmissions[i]? = some f → FarmFunded w i f
  /-- no position has a tracker for a farm that is not listed yet -/
  listed : ∀ p ∈ w.lpPositions, p.farms.length ≤ w.market.lpFarm.farmEmissions.length

section
variable {A : LpWorld K → LpOp → Prop} {w w' : LpWorld K} {p p' q : LpPosition} {i j k : Nat}
  {f f' g : FarmEmission} {t : PersonalYieldTracker} {a b s rate : UInt64} {now expiry : UInt32}
  {owner mint : Pubkey} {op : LpOp}

theorem farmIndexes_get {m : MarketTwo K} (hf : m.lpFarm.farmEmissions[i]? = some f) :
    m.rewardIndex (.farm i) = some f.index := by
  simp [MarketTwo.rewardIndex, LpReward.indexIn, LpFarm.getLastSeenIndices, hf]

theorem newFromMarket_farm {m : MarketTwo K} (hf : m.lpFarm.farmEmissions[i]? = some f) :
    (LpPosition.newFromMarket m owner).tracker (.farm i) = ⟨f.index, 0⟩ :=
  PersonalYieldTrackers.tracker_of_some (by simp [LpPosition.newFromMarket, hf])

/-- An entry of a list with a new last entry. -/
theorem getElem?_push {α : Type} {l : List α} {x y : α} (h : (l ++ [x])[i]? = some y) :
    l[i]? = some y ∨ i = l.length ∧ y = x := by
  rcases Nat.lt_or_ge i l.length with hlt | hge
  · exact .inl (by rwa [List.getElem?_append_left hlt] at h)
  · rw [List.getElem?_append_right hge, List.getElem?_singleton] at h
    split at h
    · exact .inr ⟨by omega, (Option.some.inj h).symm⟩
    · cases h

/-- An entry of a list with one entry replaced. -/
theorem getElem?_replace {α : Type} {l : List α} {x y : α} (h : (l.set j x)[i]? = some y) :
    i = j ∧ y = x ∨ i ≠ j ∧ l[i]? = some y := by
  by_cases hij : i = j
  · subst hij
    have hlen : i < l.length := by
      have hset : (l.set i x).length = l.length := List.length_set
      rw [← hset]
      exact (List.getElem?_eq_some_iff.1 h).1
    rw [List.getElem?_set_self hlen] at h
    exact .inl ⟨rfl, (Option.some.inj h).symm⟩
  · exact .inr ⟨hij, by rwa [List.getElem?_set_ne (Ne.symm hij)] at h⟩

/-- What a farm emits in a span of time moves from the coming emissions into the index. -/
theorem FarmFunded.advance (h : FarmFunded w i f) (hstaked : w.Staked) {x : LpFarm}
    (hx : x.lastSeenTimestamp = now) (hle : w.market.lpFarm.lastSeenTimestamp ≤ now)
    (hadv : FarmEmission.Advanced w.market.lpFarm.lastSeenTimestamp now w.market.lpEscrowAmount
      f f') :
    FarmFunded { w with market := { w.market with lpFarm := x }, clock := now } i f' := by
  obtain ⟨n, hn, hraw⟩ := hadv.index
  have hsplit : f.remaining w.market.lpFarm.lastSeenTimestamp
      = min f.expiryTimestamp.toNat now.toNat - w.market.lpFarm.lastSeenTimestamp.toNat
        + f'.remaining x.lastSeenTimestamp := by
    rw [UInt32.le_iff_toNat_le] at hle
    rw [FarmEmission.remaining, FarmEmission.remaining, hadv.expiryTimestamp, hx]
    omega
  have hfund : ((w.tokenFarm f'.mint).toNat : ℚ)
        - f'.tokenRate.toNat * f'.remaining x.lastSeenTimestamp
      = (w.tokenFarm f.mint).toNat
        - f.tokenRate.toNat * f.remaining w.market.lpFarm.lastSeenTimestamp + n.toNat := by
    rw [hsplit, hadv.mint, hadv.tokenRate, hn]
    push_cast
    ring
  rw [FarmFunded, hfund]
  exact funded_grow h hstaked hraw

/-- The account of another farm may change. -/
theorem FarmFunded.congr (h : FarmFunded w i f)
    (hs : w'.market.lpFarm.lastSeenTimestamp = w.market.lpFarm.lastSeenTimestamp)
    (ht : w'.tokenFarm f.mint = w.tokenFarm f.mint) (hp : w'.lpPositions = w.lpPositions) :
    FarmFunded w' i f := by
  rw [FarmFunded, hs, ht, hp]
  exact h

/-- A claim takes the same from the position and from the token account. -/
theorem FarmFunded.claim (h : FarmFunded w j f) (hp : w.lpPositions[i]? = some p)
    (ht : p.farms[j]? = some t) (hs : s.toNat + a.toNat = t.staged.toNat)
    (hb : b.toNat + a.toNat = (w.tokenFarm f.mint).toNat) :
    FarmFunded { w with
      lpPositions := w.lpPositions.set i { p with farms := p.farms.set j { t with staged := s } }
      tokenFarm := Function.update w.tokenFarm f.mint b } j f := by
  have hcast : (b.toNat : ℚ) = (w.tokenFarm f.mint).toNat - a.toNat :=
    eq_sub_of_add_eq (by exact_mod_cast hb)
  simp only [FarmFunded, Function.update_self]
  rw [hcast, sub_right_comm]
  exact funded_claimFarm h hp ht hs

/-- Other farms are not touched by a claim. -/
theorem FarmFunded.claim_ne (h : FarmFunded w k g) (hk : k ≠ j) (hm : g.mint ≠ mint)
    (hp : w.lpPositions[i]? = some p) (ht : p.farms[j]? = some t) :
    FarmFunded { w with
      lpPositions := w.lpPositions.set i { p with farms := p.farms.set j { t with staged := s } }
      tokenFarm := Function.update w.tokenFarm mint b } k g := by
  simp only [FarmFunded, Function.update_of_ne hm]
  exact funded_claimFarm_ne h hk hp ht

namespace FarmInv

theorem advance (h : FarmInv w) (hle : w.clock ≤ now) (hw : w.advanced now = .ok w') :
    FarmInv w' := by
  obtain ⟨x, hx, rfl⟩ := LpWorld.advanced_eq_ok hw
  obtain ⟨hseen, hall⟩ := LpFarm.increaseShareIndexes_eq_ok hx
  exact
    { staked := h.staked
      seen := hseen ▸ UInt32.le_refl now
      mints := fun i j f g hf hg hm => by
        obtain ⟨f₀, hf₀, hadvf⟩ := getElem?_of_forall₂ hall hf
        obtain ⟨g₀, hg₀, hadvg⟩ := getElem?_of_forall₂ hall hg
        exact h.mints i j f₀ g₀ hf₀ hg₀ (by rw [← hadvf.mint, ← hadvg.mint, hm])
      funded := fun i f hf => by
        obtain ⟨f₀, hf₀, hadv⟩ := getElem?_of_forall₂ hall hf
        exact (h.funded i f₀ hf₀).advance h.staked hseen (UInt32.le_trans h.seen hle) hadv
      listed := fun q hq => hall.length_eq ▸ h.listed q hq }

/-- A position changes, and each farm is as funded as before. -/
theorem setPosition {q : LpPosition} (h : FarmInv w) (hp : w.lpPositions[i]? = some p)
    (hb : q.lpBalance = p.lpBalance)
    (hlen : q.farms.length ≤ w.market.lpFarm.farmEmissions.length)
    (hf : ∀ k f, w.market.lpFarm.farmEmissions[k]? = some f →
      FarmFunded { w with lpPositions := w.lpPositions.set i q } k f) :
    FarmInv { w with lpPositions := w.lpPositions.set i q } where
  staked := by
    rw [LpWorld.Staked, sum_lpBalance_set hp hb]
    exact h.staked
  seen := h.seen
  mints := h.mints
  funded := hf
  listed := LpWorld.FarmsListed.set h.listed hlen

theorem stage (h : FarmInv w) (hp : w.lpPositions[i]? = some p)
    (hs : StagedAll w.market.emissionIndexes w.market.lpFarm.getLastSeenIndices p p') :
    FarmInv { w with lpPositions := w.lpPositions.set i p' } := by
  refine h.setPosition hp hs.lpBalance ?_ fun k f hf =>
    funded_stage (h.funded k f hf) (farmIndexes_get hf) hp hs
  rw [hs.farms, LpFarm.getLastSeenIndices, List.length_map]
  exact max_le (h.listed p (List.mem_of_getElem? hp)) le_rfl

/-- The admin pays for the whole span of a new farm. -/
theorem addFarm (h : FarmInv w) (hseen : w.market.lpFarm.lastSeenTimestamp = w.clock)
    (hmint : ∀ f ∈ w.market.lpFarm.farmEmissions, f.mint ≠ mint)
    (hb : b.toNat = (w.tokenFarm mint).toNat + rate.toNat * (expiry.toNat - w.clock.toNat)) :
    FarmInv { w with
      market := w.market.addFarm rate expiry mint
      tokenFarm := Function.update w.tokenFarm mint b } where
  staked := h.staked
  seen := h.seen
  mints i j f g hf hg hm := by
    simp only [MarketTwo.addFarm] at hf hg
    rcases getElem?_push hf with hf | ⟨rfl, rfl⟩ <;> rcases getElem?_push hg with hg | ⟨rfl, rfl⟩
    · exact h.mints i j f g hf hg hm
    · exact absurd hm (hmint f (List.mem_of_getElem? hf))
    · exact absurd hm.symm (hmint g (List.mem_of_getElem? hg))
    · rfl
  funded k f hf := by
    simp only [MarketTwo.addFarm] at hf
    rcases getElem?_push hf with hf | ⟨rfl, rfl⟩
    · exact (h.funded k f hf).congr rfl
        (Function.update_of_ne (hmint f (List.mem_of_getElem? hf)) _ _) rfl
    · refine funded_start (fun q hq =>
        PersonalYieldTrackers.tracker_of_length_le (h.listed q hq)) ?_
      have hcast : (b.toNat : ℚ) = (w.tokenFarm mint).toNat
          + rate.toNat * (expiry.toNat - w.clock.toNat : Nat) := by exact_mod_cast hb
      simp only [Function.update_self, FarmEmission.remaining, MarketTwo.addFarm, hseen]
      rw [hcast, add_sub_cancel_right]
      exact Nat.cast_nonneg _
  listed q hq := by
    simp only [MarketTwo.addFarm, List.length_append, List.length_singleton]
    exact (h.listed q hq).trans (Nat.le_succ _)

theorem modifyFarm (h : FarmInv w) (hseen : w.market.lpFarm.lastSeenTimestamp = w.clock)
    (hf : w.market.lpFarm.farmEmissions[j]? = some f)
    (hcov : w.owed (.farm j) f.index + rate.toNat * (expiry.toNat - w.clock.toNat : Nat)
      ≤ b.toNat) :
    FarmInv { w with
      market := { w.market with lpFarm := { w.market.lpFarm with
        farmEmissions := w.market.lpFarm.farmEmissions.set j
          { f with expiryTimestamp := expiry, tokenRate := rate } } }
      tokenFarm := Function.update w.tokenFarm f.mint b } where
  staked := h.staked
  seen := h.seen
  mints i k g g' hg hg' hm := by
    rcases getElem?_replace hg with ⟨hi, rfl⟩ | ⟨-, hg₀⟩ <;>
      rcases getElem?_replace hg' with ⟨hk, rfl⟩ | ⟨-, hg₀'⟩
    · rw [hi, hk]
    · exact hi ▸ h.mints j k f g' hf hg₀' hm
    · exact hk ▸ h.mints i j g f hg₀ hf hm
    · exact h.mints i k g g' hg₀ hg₀' hm
  funded k g hg := by
    rcases getElem?_replace hg with ⟨rfl, rfl⟩ | ⟨hk, hg⟩
    · refine ⟨(h.funded k f hf).behind, ?_⟩
      simp only [Function.update_self, FarmEmission.remaining, hseen]
      exact le_sub_iff_add_le.2 hcov
    · exact (h.funded k g hg).congr rfl
        (Function.update_of_ne (fun hm => hk (h.mints k j g f hg hf hm)) _ _) rfl
  listed q hq := by
    simp only [List.length_set]
    exact h.listed q hq

theorem event
    (hA : ∀ w op, A w op → op.Timed w ∧ op.SparesRewards w)
    (h : FarmInv w) (he : LpEvent A w w') : FarmInv w' := by
  have hlisted := LpWorld.FarmsListed.event h.listed he
  cases he with
  | advance hread hop hw => exact h.advance ((hA _ _ hop).1 _ hread) hw
  | stage hp hs => exact h.stage hp hs
  | @stake _ i p b e hp hj hb =>
    exact
      { staked := h.staked.event (.stake (A := A) hp hj hb)
        seen := h.seen
        mints := h.mints
        funded := fun k f hf => funded_stake (h.funded k f hf) (hj _ _ (farmIndexes_get hf)) hp
        listed := hlisted }
  | @collect _ i p j e t l c c' hp _ _ _ _ _ =>
    have hset := h.setPosition
      (q := { p with emissions := p.emissions.set j { t with staged := 0 } }) hp rfl
      (h.listed p (List.mem_of_getElem? hp))
      fun k f hf => funded_congr (h.funded k f hf) hp rfl rfl
    exact ⟨hset.staked, hset.seen, hset.mints, hset.funded, hset.listed⟩
  | addFarm hseen _ hmint hb => exact h.addFarm hseen hmint hb
  | @modifyFarm w₀ _ j f mint expiry rate b hop hw hj hf hb =>
    obtain ⟨x, hx, hwx⟩ := LpWorld.advanced_eq_ok hw
    have hseen : w.market.lpFarm.lastSeenTimestamp = w.clock :=
      (congrArg (fun v => v.market.lpFarm.lastSeenTimestamp) hwx).trans
        (LpFarm.increaseShareIndexes_eq_ok hx).1
    obtain ⟨e, he, rfl⟩ := LpWorld.farm_of_find hj
    obtain rfl : e = f := Option.some.inj (he.symm.trans hf)
    have hspare := (hA _ _ hop).2 w (by rw [hw]; rfl) j hj e hf
    rw [← hb] at hspare
    exact h.modifyFarm hseen hf (by exact_mod_cast hspare)
  | @claimFarm _ i p j f t mint a s b hp hf hmint ht hs hb =>
    subst hmint
    have hset := h.setPosition (q := { p with farms := p.farms.set j { t with staged := s } })
      hp rfl (by simpa using h.listed p (List.mem_of_getElem? hp))
    exact
      { staked := h.staked.event (.claimFarm (A := A) hp hf rfl ht hs hb)
        seen := h.seen
        mints := h.mints
        funded := fun k g hg => by
          by_cases hk : k = j
          · subst hk
            obtain rfl : f = g := Option.some.inj (hf.symm.trans hg)
            exact (h.funded k f hf).claim hp ht hs hb
          · exact (h.funded k g hg).claim_ne hk (fun hm => hk (h.mints k j g f hg hf hm)) hp ht
        listed := hlisted }
  | openPosition =>
    exact
      { staked := h.staked.event (.openPosition (A := A))
        seen := h.seen
        mints := h.mints
        funded := fun k f hf => funded_open (h.funded k f hf) (newFromMarket_farm hf)
        listed := hlisted }
  | update _ | addEmission _ | removeEmission _ | accrue _ =>
    exact ⟨h.staked, h.seen, h.mints, h.funded, h.listed⟩

theorem fresh (h : w.Fresh) : FarmInv w where
  staked := h.staked
  seen := by rw [h.lpFarm]; exact UInt32.le_iff_toNat_le.2 (Nat.zero_le _)
  mints i j f g hf := by rw [h.lpFarm] at hf; cases hf
  funded i f hf := by rw [h.lpFarm] at hf; cases hf
  listed p hp := by rw [h.lpPositions] at hp; cases hp

theorem farmsCovered (h : FarmInv w) : w.FarmsCovered :=
  fun i f hf => le_sub_iff_add_le.1 (h.funded i f hf).covered

end FarmInv

/-- A modification after which the farms are covered has spared the rewards. -/
theorem sparesRewards_of_covered (h : w.step op = .ok w') (hcov : w'.FarmsCovered) :
    op.SparesRewards w := by
  cases op with
  | modifyFarm now mint expiry rate =>
    intro w₁ hw₁ j hj f hf
    simp only [LpWorld.step, LpWorld.withTokenFarm, bind_eq_ok, Except.ok.injEq, Prod.exists] at h
    obtain ⟨m, b, hm, rfl⟩ := h
    obtain ⟨x, j', f', hx, hj', hf', rfl, hb⟩ := LpWorld.modifyFarm_eq_ok hm
    have hadv : w.advanced now
        = .ok { w with market := { w.market with lpFarm := x }, clock := now } := by
      simp [LpWorld.advanced, hx]
    rw [hadv] at hw₁
    obtain rfl := Option.some.inj hw₁
    obtain rfl : j' = j := Option.some.inj (hj'.symm.trans hj)
    obtain rfl : f' = f := Option.some.inj (hf'.symm.trans hf)
    obtain ⟨e, he, rfl⟩ := LpWorld.farm_of_find hj
    obtain rfl : e = f' := Option.some.inj (he.symm.trans hf)
    have hlen := (List.getElem?_eq_some_iff.1 hf).1
    have hc := hcov j' { e with expiryTimestamp := expiry, tokenRate := rate }
      (List.getElem?_set_self hlen)
    simp only [Function.update_self, FarmEmission.remaining,
      (LpFarm.increaseShareIndexes_eq_ok hx).1] at hc
    rw [← hb]
    exact_mod_cast hc
  | initLpPosition _ | depositLp _ _ _ | withdrawLp _ _ _ | marketCollectEmission _ _
  | addMarketEmission _ _ | removeMarketEmission _ | addFarm _ _ _ _ | claimFarmEmissions _ _ _
  | accrue _ => trivial

end

/-! ## Whole runs -/

namespace LpWorld

/-- **Farm solvency**: while time does not run backwards, the farms are covered in every state of a
run exactly if every modification that succeeds spares the rewards. -/
theorem farmsCovered_iff (w : LpWorld K) (ops : List LpOp) (hw : w.Fresh)
    (htime : Machine.Admits step (fun w op => op.Timed w) w ops) :
    Machine.Throughout step FarmsCovered w ops ↔
      Machine.Admits step (fun w op => (∃ w', w.step op = .ok w') → op.SparesRewards w) w ops := by
  refine Machine.throughout_iff_admits_of_inv (I := FarmInv) ?_ (fun _ h => h.farmsCovered) ?_ ?_
    (FarmInv.fresh hw) htime
  · intro w op w' hinv ht hspare hs
    exact step_induction (A := fun w op => op.Timed w ∧ op.SparesRewards w)
      (fun _ _ h he => h.event (fun _ _ hA => hA) he) hinv ⟨ht, hspare ⟨w', hs⟩⟩ hs
  · exact fun w op w' _ _ hs hcov _ => sparesRewards_of_covered hs hcov
  · rintro w op e he ⟨w', hs⟩
    rw [he] at hs
    cases hs

/-- A farm is extended before anyone stakes, then it is earned from. -/
def extendFarm : List LpOp :=
  [.initLpPosition 1, .addFarm 0 7 10 100, .modifyFarm 50 7 200 20, .depositLp 60 0 100,
    .withdrawLp 80 0 100, .claimFarmEmissions 0 7 .all]

theorem farmsCovered_iff_extendFarm :
    Machine.Throughout step FarmsCovered freshMarket extendFarm :=
  (farmsCovered_iff freshMarket extendFarm freshMarket_fresh (by decide +kernel)).2
    (Machine.Admits.mono (P := fun w op => op.SparesRewards w) (by decide +kernel)
      fun _ _ h _ => h)

/-- A farm with a staker is changed to half its rate, half way to its expiry. -/
def modifyFarmWithStaker : List LpOp :=
  [.initLpPosition 1, .addFarm 0 7 10 100, .depositLp 0 0 100, .modifyFarm 50 7 100 5]

/-- Of the 1000 tokens 250 are left, but 500 have been earned and 250 will be. -/
theorem not_farmsCovered_modifyFarmWithStaker :
    Machine.Admits step (fun w op => op.Timed w) freshMarket modifyFarmWithStaker ∧
      ¬ Machine.Throughout step FarmsCovered freshMarket modifyFarmWithStaker := by
  refine ⟨by decide +kernel, fun h => ?_⟩
  have hcov : ∀ f ∈ (Machine.run step freshMarket
      modifyFarmWithStaker).market.lpFarm.farmEmissions[0]?, _ := fun f hf => h.last 0 f hf
  exact absurd hcov (by decide +kernel)

end LpWorld

end ExponentCore
