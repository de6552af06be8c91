import ExponentCore.Market.LpWorld
import ExponentCore.Market.Proof.LpPosition

/-!
# Operations on staked LP tokens as sequences of events

As for the vault, an operation is a few elementary changes in a row: the farms advance to a time,
the emissions are updated from the SY program, a position stages, LP tokens move, a reward is paid.
`LpEvent` is one such change; `LpWorld.step_events` takes a successful operation apart, and
`LpWorld.throughout_of_event` is the invariant rule that goes by events.

`A` is what is known of an operation in the state it is given to.
-/

set_option autoImplicit false

namespace ExponentCore

open Number Relation

variable {K : Type}

/-! ## Updating the indexes -/

/-- An entry of a list that was changed entry by entry comes from the entry in the same place. -/
theorem getElem?_of_forall₂ {α β : Type} {R : α → β → Prop} {l : List α} {l' : List β} {b : β}
    {i : Nat} (h : List.Forall₂ R l l') (hb : l'[i]? = some b) : ∃ a, l[i]? = some a ∧ R a b := by
  induction h generalizing i with
  | nil => simp at hb
  | cons hr _ ih =>
    cases i with
    | zero =>
      obtain rfl := Option.some.inj hb
      exact ⟨_, rfl, hr⟩
    | succ i => exact ih hb

/-- **What an update does** to an emission for which the SY program reports `c`. -/
structure MarketEmission.Updated (lpStaked c : UInt64) (e e' : MarketEmission) : Prop where
  tokenEscrow : e'.tokenEscrow = e.tokenEscrow
  lastSeenStaged : e'.lastSeenStaged = c
  index : ∃ d : UInt64, d.toNat + e.lastSeenStaged.toNat = c.toNat ∧
    e'.lpShareIndex.raw = e.lpShareIndex.raw + (fromRatio d lpStaked).raw

/-- **What passing time does** to a farm. -/
structure FarmEmission.Advanced (lastSeen now : UInt32) (lpStaked : UInt64)
    (e e' : FarmEmission) : Prop where
  mint : e'.mint = e.mint
  tokenRate : e'.tokenRate = e.tokenRate
  expiryTimestamp : e'.expiryTimestamp = e.expiryTimestamp
  index : ∃ n : UInt64,
    n.toNat = e.tokenRate.toNat * (min e.expiryTimestamp.toNat now.toNat - lastSeen.toNat) ∧
    e'.index.raw = e.index.raw + (fromRatio n lpStaked).raw

section
variable {lp c : UInt64} {e e' : MarketEmission} {es es' : List MarketEmission} {cs : List UInt64}
  {f f' : FarmEmission} {fs fs' : List FarmEmission} {last now expiry : UInt32} {i : Nat}

theorem MarketEmission.updated_of_ok (h : e.update c lp = .ok e') :
    MarketEmission.Updated lp c e e' := by
  simp only [update, bind_eq_ok, subU64_eq_ok, add_eq_ok, Except.ok.injEq] at h
  obtain ⟨d, hd, x, hx, rfl⟩ := h
  exact ⟨rfl, rfl, d, hd, hx⟩

theorem MarketEmission.length_updateAll (h : updateAll lp es cs = .ok es') :
    es'.length = es.length := by
  induction cs generalizing es es' with
  | nil =>
    obtain rfl : es = es' := by simpa [updateAll] using h
    rfl
  | cons c cs ih =>
    cases es with
    | nil => cases h
    | cons e es =>
      simp only [updateAll, bind_eq_ok, Except.ok.injEq] at h
      obtain ⟨e₁, -, es₁, hes, rfl⟩ := h
      rw [List.length_cons, List.length_cons, ih hes]

/-- A reported emission is updated; one that is not reported stays as it is. -/
theorem MarketEmission.updateAll_get (h : updateAll lp es cs = .ok es') (he : es[i]? = some e) :
    ∃ e', es'[i]? = some e' ∧ (∀ c, cs[i]? = some c → Updated lp c e e') ∧
      (cs[i]? = none → e' = e) := by
  induction cs generalizing es es' i with
  | nil =>
    obtain rfl : es = es' := by simpa [updateAll] using h
    exact ⟨e, he, by simp, fun _ => rfl⟩
  | cons c cs ih =>
    cases es with
    | nil => cases h
    | cons a es =>
      simp only [updateAll, bind_eq_ok, Except.ok.injEq] at h
      obtain ⟨a₁, ha, es₁, hes, rfl⟩ := h
      cases i with
      | zero =>
        obtain rfl : a = e := by simpa using he
        refine ⟨a₁, rfl, fun c' hc => ?_, fun hc => by simp at hc⟩
        obtain rfl : c = c' := by simpa using hc
        exact updated_of_ok ha
      | succ i => simpa using ih hes (by simpa using he)

theorem deltaTimeFarm_toNat :
    (deltaTimeFarm expiry last now).toNat = min expiry.toNat now.toNat - last.toNat := by
  have hmin : (min expiry now).toNat = min expiry.toNat now.toNat := by
    show (if expiry ≤ now then expiry else now).toNat = _
    split
    · rename_i h
      rw [UInt32.le_iff_toNat_le] at h
      omega
    · rename_i h
      rw [UInt32.le_iff_toNat_le] at h
      omega
  unfold deltaTimeFarm
  simp only
  split
  · rename_i h
    rw [UInt32.le_iff_toNat_le, hmin] at h
    rw [UInt32.toNat_zero]
    omega
  · rename_i h
    rw [UInt32.le_iff_toNat_le, not_le] at h
    rw [UInt32.toNat_sub_of_le _ _ (UInt32.le_iff_toNat_le.2 h.le), hmin]

theorem FarmEmission.advanced_of_ok
    (h : f.incIndex (deltaTimeFarm f.expiryTimestamp last now) lp = .ok f') :
    FarmEmission.Advanced last now lp f f' := by
  simp only [incIndex, bind_eq_ok, mulU64_eq_ok, add_eq_ok, Except.ok.injEq] at h
  obtain ⟨n, hn, x, hx, rfl⟩ := h
  refine ⟨rfl, rfl, rfl, n, ?_, hx⟩
  rw [hn, UInt32.toNat_toUInt64, deltaTimeFarm_toNat]

theorem LpFarm.increaseAll_forall (h : increaseAll last now lp fs = .ok fs') :
    List.Forall₂ (FarmEmission.Advanced last now lp) fs fs' := by
  induction fs generalizing fs' with
  | nil =>
    obtain rfl : [] = fs' := by simpa [increaseAll] using h
    exact .nil
  | cons f fs ih =>
    simp only [increaseAll, bind_eq_ok, Except.ok.injEq] at h
    obtain ⟨f₁, hf, fs₁, hfs, rfl⟩ := h
    exact .cons (FarmEmission.advanced_of_ok hf) (ih hfs)

theorem LpFarm.increaseShareIndexes_eq_ok {a a' : LpFarm}
    (h : a.increaseShareIndexes now lp = .ok a') :
    a'.lastSeenTimestamp = now ∧ List.Forall₂ (FarmEmission.Advanced a.lastSeenTimestamp now lp)
      a.farmEmissions a'.farmEmissions := by
  simp only [increaseShareIndexes, bind_eq_ok, Except.ok.injEq] at h
  obtain ⟨fs, hfs, rfl⟩ := h
  exact ⟨rfl, increaseAll_forall hfs⟩

end

/-! ## Events -/

def MarketTwo.rewardIndex (m : MarketTwo K) (r : LpReward) : Option Number :=
  r.indexIn m.emissionIndexes m.lpFarm.getLastSeenIndices

/-- A position that has just staged: every reward of the market has been settled. -/
def MarketTwo.JustStaged (m : MarketTwo K) (p : LpPosition) : Prop :=
  ∀ r x, m.rewardIndex r = some x → (p.tracker r).lastSeenIndex = x

inductive LpEvent (A : LpWorld K → LpOp → Prop) : LpWorld K → LpWorld K → Prop
  /-- time passes on the farms -/
  | advance {w z op now} (hread : op.time = some now) (hA : A w op)
      (hw : w.advanced now = .ok z) : LpEvent A w z
  /-- the market looks at its position in the SY program -/
  | update {w es}
      (he : MarketEmission.updateAll w.market.lpEscrowAmount w.market.emissions w.amountsClaimable
        = .ok es) :
      LpEvent A w { w with market := { w.market with emissions := es } }
  | stage {w i p p'} (hp : w.lpPositions[i]? = some p)
      (hs : StagedAll w.market.emissionIndexes w.market.lpFarm.getLastSeenIndices p p') :
      LpEvent A w { w with lpPositions := w.lpPositions.set i p' }
  /-- LP tokens move between the owner of a position and the escrow -/
  | stake {w i p} {b e : UInt64} (hp : w.lpPositions[i]? = some p) (hj : w.market.JustStaged p)
      (hb : b.toNat + w.market.lpEscrowAmount.toNat = p.lpBalance.toNat + e.toNat) :
      LpEvent A w { w with
        market := { w.market with lpEscrowAmount := e }
        lpPositions := w.lpPositions.set i { p with lpBalance := b } }
  | collect {w i p j e t} {l c c' : UInt64} (hp : w.lpPositions[i]? = some p)
      (he : w.market.emissions[j]? = some e) (ht : p.emissions[j]? = some t)
      (hc : w.amountsClaimable[j]? = some c)
      (hl : l.toNat + t.staged.toNat = e.lastSeenStaged.toNat)
      (hc' : c'.toNat + t.staged.toNat = c.toNat) :
      LpEvent A w { w with
        market :=
          { w.market with emissions := w.market.emissions.set j { e with lastSeenStaged := l } }
        lpPositions :=
          w.lpPositions.set i { p with emissions := p.emissions.set j { t with staged := 0 } }
        amountsClaimable := w.amountsClaimable.set j c' }
  | addEmission {w accounts token} (hA : A w (.addMarketEmission accounts token)) :
      LpEvent A w { w with market := addMarketEmission w.market accounts token }
  | removeEmission {w j} (hA : A w (.removeMarketEmission j)) :
      LpEvent A w { w with
        market := { w.market with emissions := w.market.emissions.eraseIdx j.toNat }
        amountsClaimable := w.amountsClaimable.eraseIdx j.toNat }
  | addFarm {w mint rate expiry} {b : UInt64} (hseen : w.market.lpFarm.lastSeenTimestamp = w.clock)
      (hexpiry : w.clock ≤ expiry) (hmint : ∀ f ∈ w.market.lpFarm.farmEmissions, f.mint ≠ mint)
      (hb : b.toNat
        = (w.tokenFarm mint).toNat + rate.toNat * (expiry.toNat - w.clock.toNat)) :
      LpEvent A w { w with
        market := w.market.addFarm rate expiry mint
        tokenFarm := Function.update w.tokenFarm mint b }
  | modifyFarm {w₀ w j f mint expiry rate} {b : UInt64}
      (hA : A w₀ (.modifyFarm w.clock mint expiry rate)) (hw : w₀.advanced w.clock = .ok w)
      (hj : w.market.lpFarm.findFarmEmissionPosition mint = some j)
      (hf : w.market.lpFarm.farmEmissions[j]? = some f)
      (hb : (b.toNat : Int) = (expiry.toNat - w.clock.toNat) * rate.toNat % 2 ^ 64) :
      LpEvent A w { w with
        market := { w.market with lpFarm := { w.market.lpFarm with
          farmEmissions := w.market.lpFarm.farmEmissions.set j
            { f with expiryTimestamp := expiry, tokenRate := rate } } }
        tokenFarm := Function.update w.tokenFarm mint b }
  | claimFarm {w i p j f t mint} {a s b : UInt64} (hp : w.lpPositions[i]? = some p)
      (hf : w.market.lpFarm.farmEmissions[j]? = some f) (hmint : f.mint = mint)
      (ht : p.farms[j]? = some t) (hs : s.toNat + a.toNat = t.staged.toNat)
      (hb : b.toNat + a.toNat = (w.tokenFarm mint).toNat) :
      LpEvent A w { w with
        lpPositions :=
          w.lpPositions.set i { p with farms := p.farms.set j { t with staged := s } }
        tokenFarm := Function.update w.tokenFarm mint b }
  | openPosition {w owner} :
      LpEvent A w { w with
        lpPositions := w.lpPositions ++ [LpPosition.newFromMarket w.market owner] }
  | accrue {w cs} (hA : A w (.accrue cs)) : LpEvent A w { w with amountsClaimable := cs }

/-! ## From operations to events -/

namespace LpWorld

variable {A : LpWorld K → LpOp → Prop} {w w' : LpWorld K} {op : LpOp} {m m' : MarketTwo K}
  {p p' : LpPosition} {now expiry : UInt32} {cs : List UInt64} {a t t' rate : UInt64} {i : Nat}
  {mint : Pubkey}

theorem advanced_eq_ok (h : w.advanced now = .ok w') :
    ∃ f, w.market.lpFarm.increaseShareIndexes now w.market.lpEscrowAmount = .ok f ∧
      w' = { w with market := { w.market with lpFarm := f }, clock := now } := by
  simp only [advanced, bind_eq_ok, Except.ok.injEq] at h
  obtain ⟨f, hf, rfl⟩ := h
  exact ⟨f, hf, rfl⟩

theorem updateAndStage_eq_ok (h : updateAndStage m p now cs = .ok (m', p')) :
    ∃ es f, MarketEmission.updateAll m.lpEscrowAmount m.emissions cs = .ok es ∧
      m.lpFarm.increaseShareIndexes now m.lpEscrowAmount = .ok f ∧
      m' = { m with emissions := es, lpFarm := f } ∧
      StagedAll m'.emissionIndexes m'.lpFarm.getLastSeenIndices p p' := by
  simp only [updateAndStage, MarketTwo.updateEmissionsFromPositionState, bind_eq_ok,
    Except.ok.injEq, Prod.mk.injEq] at h
  obtain ⟨m₁, ⟨es, hes, rfl⟩, f, hf, q, hq, rfl, rfl⟩ := h
  exact ⟨es, f, hes, hf, rfl, stagedAll_of_ok hq⟩

theorem StagedAll.justStaged (h : StagedAll m.emissionIndexes m.lpFarm.getLastSeenIndices p p') :
    m.JustStaged p' :=
  fun r x hx => (h.settles r x hx).index

/-- Staking and unstaking start alike. -/
theorem stake_events {e b : UInt64} (hread : op.time = some now) (hA : A w op)
    (hp : w.lpPositions[i]? = some p)
    (h : updateAndStage w.market p now w.amountsClaimable = .ok (m', p'))
    (hb : b.toNat + m'.lpEscrowAmount.toNat = p'.lpBalance.toNat + e.toNat) :
    ReflTransGen (LpEvent A) w { w with
      market := { m' with lpEscrowAmount := e }
      lpPositions := w.lpPositions.set i { p' with lpBalance := b }, clock := now } := by
  obtain ⟨es, f, hes, hf, rfl, hs⟩ := updateAndStage_eq_ok h
  have h₁ : LpEvent A w _ :=
    .advance (z := { w with market := { w.market with lpFarm := f }, clock := now }) hread hA
      (by simp [advanced, hf])
  have h₂ := LpEvent.update (A := A)
    (w := { w with market := { w.market with lpFarm := f }, clock := now }) hes
  have h₃ := LpEvent.stage (A := A)
    (w := { w with market := { w.market with lpFarm := f, emissions := es }, clock := now }) hp hs
  have hlen := (List.getElem?_eq_some_iff.1 hp).1
  have h₄ := LpEvent.stake (A := A) (w := { w with
    market := { w.market with lpFarm := f, emissions := es }
    lpPositions := w.lpPositions.set i p', clock := now })
    (List.getElem?_set_self hlen) (StagedAll.justStaged hs) hb
  rw [List.set_set] at h₄
  exact .head h₁ (.head h₂ (.head h₃ (.single h₄)))

theorem farm_of_find {f : LpFarm} {j : Nat} (h : f.findFarmEmissionPosition mint = some j) :
    ∃ e, f.farmEmissions[j]? = some e ∧ e.mint = mint := by
  obtain ⟨hlen, hm, -⟩ := List.findIdx?_eq_some_iff_getElem.1 h
  exact ⟨_, List.getElem?_eq_getElem hlen, by simpa using hm⟩

/-- Filling up or emptying down, `modify_farm` leaves what it has computed, as a `u64`. -/
theorem transferDifference_toNat {n : Int} (h : transferDifference n t = .ok t') :
    (t'.toNat : Int) = n % 2 ^ 64 := by
  have ht := asI64_mod t
  have ht' := t'.toNat_lt
  unfold transferDifference at h
  split at h
  · simp only [bind_eq_ok, inI64_eq_ok, transferIn_eq_ok] at h
    obtain ⟨r, ⟨-, rfl⟩, hr⟩ := h
    have hu := asU64_toNat (n - asI64 t)
    omega
  · simp only [bind_eq_ok, inI64_eq_ok, transferOut_eq_ok] at h
    obtain ⟨r, ⟨-, rfl⟩, hr⟩ := h
    have hu := asU64_toNat (asI64 t - n)
    omega

theorem modifyFarm_eq_ok (h : modifyFarm m t now mint expiry rate = .ok (m', t')) :
    ∃ f j e, m.lpFarm.increaseShareIndexes now m.lpEscrowAmount = .ok f ∧
      f.findFarmEmissionPosition mint = some j ∧ f.farmEmissions[j]? = some e ∧
      m' = { m with lpFarm := { f with
        farmEmissions := f.farmEmissions.set j
          { e with expiryTimestamp := expiry, tokenRate := rate } } } ∧
      (t'.toNat : Int) = (expiry.toNat - now.toNat) * rate.toNat % 2 ^ 64 := by
  simp only [modifyFarm, bind_eq_ok, unwrap_eq_ok, getAt_eq_ok, setAt_eq_ok, Except.ok.injEq,
    Prod.mk.injEq] at h
  obtain ⟨f, hf, j, hj, e, he, es, ⟨-, rfl⟩, n, hn, t₁, ht, rfl, rfl⟩ := h
  obtain ⟨-, rfl⟩ := inI64_eq_ok.1 hn
  refine ⟨f, j, e, hf, hj, he, rfl, ?_⟩
  rw [transferDifference_toNat ht, Int.mul_emod, asI64_mod]
  exact (Int.mod_modEq _ _).mul_right _

theorem addFarm_eq_ok (h : addFarm m t now mint rate expiry = .ok (m', t')) :
    ∃ f, m.lpFarm.increaseShareIndexes now m.lpEscrowAmount = .ok f ∧
      (∀ e ∈ m.lpFarm.farmEmissions, e.mint ≠ mint) ∧ now ≤ expiry ∧
      m' = { m with lpFarm := f }.addFarm rate expiry mint ∧
      t'.toNat = t.toNat + rate.toNat * (expiry.toNat - now.toNat) := by
  simp only [addFarm, bind_eq_ok, require_eq_ok, unwrap_eq_ok, checkedSubU32_eq_some,
    toU64_eq_some, transferIn_eq_ok, Except.ok.injEq, Prod.mk.injEq] at h
  obtain ⟨-, hmint, f, hf, d, hd, n, hn, t₁, ht, rfl, rfl⟩ := h
  refine ⟨f, hf, fun e he hem => hmint (List.any_eq_true.2 ⟨e, he, by simpa using hem⟩),
    UInt32.le_iff_toNat_le.2 (by omega), rfl, ?_⟩
  rw [ht, hn, UInt32.toNat_toUInt64, ← hd, Nat.add_sub_cancel, Nat.mul_comm]

/-- **An operation is a sequence of events.** -/
theorem step_events (hA : A w op) (h : w.step op = .ok w') : ReflTransGen (LpEvent A) w w' := by
  cases op with
  | initLpPosition owner =>
    cases h
    exact .single .openPosition
  | depositLp now i a =>
    simp only [step, withPosition, depositLp, bind_eq_ok, getAt_eq_ok, LpPosition.addLp,
      unwrap_eq_ok, expect_eq_ok, checkedAdd_eq_some, Except.ok.injEq, Prod.exists,
      Prod.mk.injEq] at h
    obtain ⟨p, hp, m, q, ⟨m₁, p₁, hs, e, he, p₂, ⟨b, hb, rfl⟩, rfl, rfl⟩, rfl⟩ := h
    exact stake_events rfl hA hp hs (by omega)
  | withdrawLp now i a =>
    simp only [step, withPosition, withdrawLp, bind_eq_ok, getAt_eq_ok, LpPosition.rmLp,
      unwrap_eq_ok, expect_eq_ok, checkedSub_eq_some, Except.ok.injEq, Prod.exists,
      Prod.mk.injEq] at h
    obtain ⟨p, hp, m, q, ⟨m₁, p₁, hs, p₂, ⟨b, hb, rfl⟩, e, he, rfl, rfl⟩, rfl⟩ := h
    exact stake_events rfl hA hp hs (by omega)
  | marketCollectEmission i j =>
    simp only [step, marketCollectEmission, bind_eq_ok, getAt_eq_ok, setAt_eq_ok, unwrap_eq_ok,
      checkedSub_eq_some, Except.ok.injEq, Prod.exists, Prod.mk.injEq] at h
    obtain ⟨p, hp, m, q, cs, ⟨e, he, t, ht, ts, ⟨-, rfl⟩, -, -, cs', hcs, l, hl, es, ⟨-, rfl⟩,
      rfl, rfl, rfl⟩, rfl⟩ := h
    unfold claimEmission at hcs
    split at hcs
    · rename_i c hc
      split at hcs
      · rename_i hle
        obtain rfl := Except.ok.inj hcs
        refine .single (.collect hp he ht hc hl ?_)
        rw [UInt64.toNat_sub_of_le _ _ hle]
        omega
      · cases hcs
    · cases hcs
  | addMarketEmission accounts token =>
    cases h
    exact .single (.addEmission hA)
  | removeMarketEmission j =>
    simp only [step, removeMarketEmission, bind_eq_ok] at h
    obtain ⟨m, hm, hw⟩ := h
    split at hm
    · obtain rfl := Except.ok.inj hm
      obtain rfl := Except.ok.inj hw
      exact .single (.removeEmission hA)
    · cases hm
  | addFarm now mint rate expiry =>
    simp only [step, withTokenFarm, bind_eq_ok, Except.ok.injEq, Prod.exists] at h
    obtain ⟨m, b, hm, rfl⟩ := h
    obtain ⟨f, hf, hmint, hle, rfl, hb⟩ := addFarm_eq_ok hm
    obtain ⟨hseen, hall⟩ := LpFarm.increaseShareIndexes_eq_ok hf
    have h₁ : LpEvent A w _ :=
      .advance (z := { w with market := { w.market with lpFarm := f }, clock := now }) rfl hA
        (by simp [advanced, hf])
    refine .head h₁ (.single (.addFarm hseen hle (fun e he => ?_) hb))
    obtain ⟨k, hk⟩ := List.mem_iff_getElem?.1 he
    obtain ⟨e₀, he₀, had⟩ := getElem?_of_forall₂ hall hk
    exact had.mint ▸ hmint e₀ (List.mem_of_getElem? he₀)
  | modifyFarm now mint expiry rate =>
    simp only [step, withTokenFarm, bind_eq_ok, Except.ok.injEq, Prod.exists] at h
    obtain ⟨m, b, hm, rfl⟩ := h
    obtain ⟨f, j, e, hf, hj, he, rfl, hb⟩ := modifyFarm_eq_ok hm
    have hadv : w.advanced now
        = .ok { w with market := { w.market with lpFarm := f }, clock := now } := by
      simp [advanced, hf]
    exact .head (.advance rfl hA hadv) (.single (.modifyFarm hA hadv hj he hb))
  | claimFarmEmissions i mint amount =>
    simp only [step, claimFarmEmissions, bind_eq_ok, getAt_eq_ok, setAt_eq_ok, okOr_eq_ok,
      PersonalYieldTracker.decStaged, expect_eq_ok, checkedSub_eq_some, transferOut_eq_ok,
      Except.ok.injEq, Prod.exists, Prod.mk.injEq] at h
    obtain ⟨p, hp, q, b, ⟨j, hj, t, ht, a, -, b', hb, t', ⟨s, hs, rfl⟩, ts, ⟨-, rfl⟩, rfl, rfl⟩,
      rfl⟩ := h
    obtain ⟨f, hf, hmint⟩ := farm_of_find hj
    exact .single (.claimFarm hp hf hmint ht hs hb)
  | accrue cs =>
    cases h
    exact .single (.accrue hA)

/-- What every event preserves, a successful operation preserves. -/
theorem step_induction {I : LpWorld K → Prop} (hevent : ∀ w w', I w → LpEvent A w w' → I w')
    (hinv : I w) (hA : A w op) (h : w.step op = .ok w') : I w' := by
  have hevents := step_events hA h
  clear h
  induction hevents with
  | refl => exact hinv
  | tail _ he ih => exact hevent _ _ ih he

/-- No position has a tracker for a farm that is not listed yet. -/
def FarmsListed (w : LpWorld K) : Prop :=
  ∀ p ∈ w.lpPositions, p.farms.length ≤ w.market.lpFarm.farmEmissions.length

/-- A position changes. -/
theorem FarmsListed.set {w : LpWorld K} (h : w.FarmsListed) {i : Nat} {q : LpPosition}
    (hq : q.farms.length ≤ w.market.lpFarm.farmEmissions.length) :
    ∀ p ∈ w.lpPositions.set i q, p.farms.length ≤ w.market.lpFarm.farmEmissions.length := by
  intro p hp
  rcases List.mem_or_eq_of_mem_set hp with hp | rfl
  · exact h p hp
  · exact hq

/-- **Farms are never taken off.** -/
theorem FarmsListed.event (h : w.FarmsListed) (he : LpEvent A w w') : w'.FarmsListed := by
  cases he with
  | advance _ _ hw =>
    obtain ⟨f, hf, rfl⟩ := advanced_eq_ok hw
    have hlen := (LpFarm.increaseShareIndexes_eq_ok hf).2.length_eq
    intro p hp
    exact (h p hp).trans_eq hlen
  | @stage _ i p p' hp hs =>
    apply h.set
    rw [hs.farms, LpFarm.getLastSeenIndices, List.length_map]
    exact max_le (h p (List.mem_of_getElem? hp)) le_rfl
  | @stake _ _ p _ _ hp _ _ => exact h.set (h p (List.mem_of_getElem? hp))
  | @collect _ _ p _ _ _ _ _ _ hp _ _ _ _ _ => exact h.set (h p (List.mem_of_getElem? hp))
  | addFarm _ _ _ _ =>
    intro p hp
    rw [MarketTwo.addFarm, List.length_append]
    exact (h p hp).trans (Nat.le_add_right _ _)
  | modifyFarm _ _ _ _ _ =>
    intro p hp
    exact (h p hp).trans_eq List.length_set.symm
  | claimFarm hp _ _ _ _ _ =>
    apply h.set
    rw [List.length_set]
    exact h _ (List.mem_of_getElem? hp)
  | openPosition =>
    intro p hp
    rcases List.mem_append.1 hp with hp | hp
    · exact h p hp
    · obtain rfl := List.mem_singleton.1 hp
      exact (List.length_map _).le
  | update _ | addEmission _ | removeEmission _ | accrue _ => exact h

/-- The invariant rule for runs: one case for each kind of event. -/
theorem throughout_of_event {I : LpWorld K → Prop} {ops : List LpOp}
    (hevent : ∀ w w', I w → LpEvent A w w' → I w') (h₀ : I w)
    (hadm : Machine.Admits step A w ops) : Machine.Throughout step I w ops :=
  Machine.throughout_of_step (fun _ _ _ hinv hA hs => step_induction hevent hinv hA hs) h₀ hadm

end LpWorld

end ExponentCore
