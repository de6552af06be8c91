import ExponentCore.Vault.Settings
import ExponentCore.Vault.Proof.Handlers

/-!
# Splitting a collected amount into the user's part and the fee

`calc_collect_interest` and `handle_collect_emission` compute the same split, one in `u128` and one
in `u64`. The first fails its purpose only for fees above 10000 basis points, the second also for
amounts whose product with the fee leaves the `u64` (`splits_interest_iff`, `splits_emission_iff`).
`modify_vault_setting` refuses fees above 10000 while `initialize_vault` and `add_emission` accept
them; `splitsFees_throughout` says for which runs all splits of an amount are right.
-/

set_option autoImplicit false

namespace ExponentCore

open ExponentAdmin (Admin)
open Machine

/-! ## One split -/

/-- The amount is split without loss, and the fee is the exact share rounded up. -/
def Splits (x : Outcome (UInt64 × UInt64)) (amount : UInt64) (feeBps : UInt16) : Prop :=
  ∃ user fee, x = .ok (user, fee) ∧ user.toNat + fee.toNat = amount.toNat ∧
    fee.toNat = ⌈(amount.toNat * feeBps.toNat : ℚ) / 10000⌉₊

/-- Fees that the interest split can take out of the amount. -/
def InterestFeeFits (amount : UInt64) (feeBps : UInt16) : Prop := amount = 0 ∨ feeBps ≤ 10000

/-- Fees that the emission split can take out of the amount. -/
def EmissionFeeFits (amount : UInt64) (feeBps : UInt16) : Prop :=
  amount.toNat * feeBps.toNat + 9999 < 2 ^ 64 ∧ InterestFeeFits amount feeBps

instance (amount : UInt64) (feeBps : UInt16) : Decidable (InterestFeeFits amount feeBps) :=
  inferInstanceAs (Decidable (_ ∨ _))

instance (amount : UInt64) (feeBps : UInt16) : Decidable (EmissionFeeFits amount feeBps) :=
  inferInstanceAs (Decidable (_ ∧ _))

/-- Rounding up is adding 9999 before the division. -/
theorem ceil_div_bps (n : Nat) : ⌈(n : ℚ) / 10000⌉₊ = (n + 9999) / 10000 := by
  apply le_antisymm
  · rw [Nat.ceil_le, div_le_iff₀ (by norm_num)]
    have h : n ≤ (n + 9999) / 10000 * 10000 := by omega
    exact_mod_cast h
  · have h := Nat.le_ceil ((n : ℚ) / 10000)
    rw [div_le_iff₀ (by norm_num)] at h
    have h' : n ≤ ⌈(n : ℚ) / 10000⌉₊ * 10000 := by exact_mod_cast h
    omega

section
variable {x y : Outcome (UInt64 × UInt64)} {amount : UInt64} {feeBps : UInt16} {r : UInt64 × UInt64}

theorem splits_iff : Splits x amount feeBps ↔ ∃ user fee, x = .ok (user, fee) ∧
    user.toNat + fee.toNat = amount.toNat ∧
    fee.toNat = (amount.toNat * feeBps.toNat + 9999) / 10000 := by
  rw [← ceil_div_bps, Nat.cast_mul]
  rfl

/-- An amount splits in one way only. -/
theorem Splits.unique (hx : Splits x amount feeBps) (hy : Splits y amount feeBps) : x = y := by
  obtain ⟨u, f, rfl, hsum, hfee⟩ := hx
  obtain ⟨u', f', rfl, hsum', hfee'⟩ := hy
  obtain rfl : f = f' := UInt64.toNat_inj.1 (hfee.trans hfee'.symm)
  obtain rfl : u = u' := UInt64.toNat_inj.1 (by omega)
  rfl

/-- The fee is no more than the amount. -/
theorem fee_le_iff :
    (amount.toNat * feeBps.toNat + 9999) / 10000 ≤ amount.toNat ↔
      InterestFeeFits amount feeBps := by
  rw [InterestFeeFits, UInt16.le_iff_toNat_le]
  have hb : (10000 : UInt16).toNat = 10000 := rfl
  rw [hb]
  constructor
  · intro h
    by_contra hne
    obtain ⟨ha, hgt⟩ := not_or.1 hne
    have hpos : amount.toNat ≠ 0 := fun h0 => ha (UInt64.toNat_inj.1 h0)
    have hmul : amount.toNat * 10001 ≤ amount.toNat * feeBps.toNat :=
      Nat.mul_le_mul_left _ (by omega)
    omega
  · rintro (rfl | hle)
    · simp
    · have hmul : amount.toNat * feeBps.toNat ≤ amount.toNat * 10000 := Nat.mul_le_mul_left _ hle
      omega

theorem Splits.fits (h : Splits x amount feeBps) : InterestFeeFits amount feeBps := by
  obtain ⟨user, fee, -, hsum, hfee⟩ := splits_iff.1 h
  exact fee_le_iff.1 (by omega)

/-- The parts of an amount, when the fee is no more than the amount. -/
theorem exists_parts (h : InterestFeeFits amount feeBps) :
    ∃ user fee : UInt64, user.toNat + fee.toNat = amount.toNat ∧
      fee.toNat = (amount.toNat * feeBps.toNat + 9999) / 10000 := by
  have hle := fee_le_iff.2 h
  have hamount := amount.toNat_lt
  have hfee := UInt64.toNat_ofNat_of_lt' (n := (amount.toNat * feeBps.toNat + 9999) / 10000)
    (hle.trans_lt hamount)
  have huser := UInt64.toNat_ofNat_of_lt'
    (n := amount.toNat - (amount.toNat * feeBps.toNat + 9999) / 10000)
    ((Nat.sub_le _ _).trans_lt hamount)
  refine ⟨UInt64.ofNat (amount.toNat - (amount.toNat * feeBps.toNat + 9999) / 10000),
    UInt64.ofNat ((amount.toNat * feeBps.toNat + 9999) / 10000), ?_, hfee⟩
  rw [huser, hfee]
  omega

/-- The interest split, done in `u128`, is right for every amount as long as the fee is. -/
theorem splits_interest_iff :
    Splits (calcCollectInterest amount feeBps) amount feeBps ↔ InterestFeeFits amount feeBps := by
  refine ⟨Splits.fits, fun h => splits_iff.2 ?_⟩
  obtain ⟨user, fee, hsum, hfee⟩ := exists_parts h
  have hcast : UInt64.ofNat ((amount.toNat * feeBps.toNat + 9999) / 10000) = fee := by
    rw [← hfee, UInt64.ofNat_toNat]
  refine ⟨user, fee, ?_, hsum, hfee⟩
  rw [calcCollectInterest, hcast, checkedSub_eq_some.2 hsum]
  rfl

/-- The emission split, done in `u64`, also needs the product to fit. -/
theorem handleCollectEmission_eq_ok :
    handleCollectEmission amount feeBps = .ok r ↔
      amount.toNat * feeBps.toNat + 9999 < 2 ^ 64 ∧
        r.2.toNat = (amount.toNat * feeBps.toNat + 9999) / 10000 ∧
        r.1.toNat + r.2.toNat = amount.toNat := by
  have hbps : feeBps.toUInt64.toNat = feeBps.toNat := rfl
  have h9999 : (9999 : UInt64).toNat = 9999 := rfl
  have h10000 : (10000 : UInt64).toNat = 10000 := rfl
  simp only [handleCollectEmission, bind_eq_ok, assertTrue_eq_ok, Except.ok.injEq, exists_const]
  constructor
  · rintro ⟨product, hproduct, rounded, hrounded, sum, hsum, rfl, rfl⟩
    rw [mulU64_eq_ok, hbps] at hproduct
    rw [addU64_eq_ok, hproduct, h9999] at hrounded
    rw [addU64_eq_ok] at hsum
    refine ⟨hrounded ▸ rounded.toNat_lt, ?_, hsum.symm⟩
    rw [UInt64.toNat_div, hrounded, h10000]
  · rintro ⟨hlt, hfee, hsum⟩
    obtain ⟨user, fee⟩ := r
    dsimp only at hfee hsum
    have hproduct := UInt64.toNat_ofNat_of_lt' (n := amount.toNat * feeBps.toNat) (by
      rw [UInt64.size]
      omega)
    have hrounded := UInt64.toNat_ofNat_of_lt' (n := amount.toNat * feeBps.toNat + 9999) hlt
    have hdiv : UInt64.ofNat (amount.toNat * feeBps.toNat + 9999) / 10000 = fee := by
      rw [← UInt64.toNat_inj, UInt64.toNat_div, hrounded, h10000, hfee]
    have hle : fee ≤ amount := UInt64.le_iff_toNat_le.2 (by omega)
    have huser : amount - fee = user := by
      rw [← UInt64.toNat_inj, UInt64.toNat_sub_of_le _ _ hle]
      omega
    refine ⟨UInt64.ofNat (amount.toNat * feeBps.toNat), mulU64_eq_ok.2 hproduct,
      UInt64.ofNat (amount.toNat * feeBps.toNat + 9999), addU64_eq_ok.2 ?_, amount, ?_, rfl, ?_⟩
    · rw [hrounded, hproduct, h9999]
    · rw [hdiv, if_pos hle, huser, addU64_eq_ok, hsum]
    · rw [hdiv, if_pos hle, huser]

theorem splits_emission_iff :
    Splits (handleCollectEmission amount feeBps) amount feeBps ↔ EmissionFeeFits amount feeBps := by
  constructor
  · intro h
    have hfits := h.fits
    obtain ⟨user, fee, hok, -⟩ := h
    exact ⟨(handleCollectEmission_eq_ok.1 hok).1, hfits⟩
  · rintro ⟨hlt, hfits⟩
    obtain ⟨user, fee, hsum, hfee⟩ := exists_parts hfits
    exact splits_iff.2 ⟨user, fee, handleCollectEmission_eq_ok.2 ⟨hlt, hfee, hsum⟩, hsum, hfee⟩

end

/-! ## The splits of a vault -/

/-- All splits of an amount that a vault can make: of interest, and of each reward. They are the
same where the fees are. -/
structure SplitsFees (v : Vault) (amount : UInt64) : Prop where
  interest : Splits (calcCollectInterest amount v.interestBpsFee) amount v.interestBpsFee
  emission : ∀ e ∈ v.emissions, Splits (handleCollectEmission amount e.feeBps) amount e.feeBps
  agree : ∀ e ∈ v.emissions, e.feeBps = v.interestBpsFee →
    calcCollectInterest amount v.interestBpsFee = handleCollectEmission amount e.feeBps

section
variable {v v' : Vault} {amount : UInt64} {op : VaultAdminOp}

theorem splitsFees_iff : SplitsFees v amount ↔
    InterestFeeFits amount v.interestBpsFee ∧
      ∀ e ∈ v.emissions, EmissionFeeFits amount e.feeBps := by
  constructor
  · intro h
    exact ⟨splits_interest_iff.1 h.interest, fun e he => splits_emission_iff.1 (h.emission e he)⟩
  · rintro ⟨hi, he⟩
    have hinterest := splits_interest_iff.2 hi
    have hemission := fun e hmem => splits_emission_iff.2 (he e hmem)
    refine ⟨hinterest, hemission, fun e hmem heq => ?_⟩
    exact hinterest.unique (heq ▸ hemission e hmem)

/-- The fee that an admin instruction sets fits the amount. -/
def VaultAdminOp.FeeFits (amount : UInt64) : VaultAdminOp → Prop
  | .addEmission _ _ _ _ _ _ feeBps => EmissionFeeFits amount feeBps
  | .modifyVaultSetting _ _ _ (.changeVaultBpsFee newFee) => InterestFeeFits amount newFee
  | .modifyVaultSetting _ _ _ (.changeEmissionBpsFee _ newFeeBps) =>
    EmissionFeeFits amount newFeeBps
  | .modifyVaultSetting .. => True

theorem asked_bind_eq_ok {α : Type} {x : Except ExponentAdmin.Fault Unit} {y : Outcome α} {a : α} :
    (asked x >>= fun _ => handled y) = .ok a ↔ x = .ok () ∧ y = .ok a := by
  cases x with
  | error e => exact ⟨(nomatch ·), (nomatch ·.1)⟩
  | ok u =>
    cases y with
    | error e => exact ⟨(nomatch ·), (nomatch ·.2)⟩
    | ok b =>
      simp [asked, handled, Except.mapError, bind, Except.bind]

/-- A change that brings in no new fee. -/
theorem SplitsFees.of_fees (h : SplitsFees v amount) (hi : v'.interestBpsFee = v.interestBpsFee)
    (he : v'.emissions ⊆ v.emissions) : SplitsFees v' amount := by
  obtain ⟨hinterest, hemission⟩ := splitsFees_iff.1 h
  exact splitsFees_iff.2 ⟨hi ▸ hinterest, fun e hmem => hemission e (he hmem)⟩

/-- An entry of the emissions is replaced. -/
theorem splitsFees_set {i : Nat} {e : EmissionInfo} (h : SplitsFees v amount)
    (hi : i < v.emissions.length) :
    SplitsFees { v with emissions := v.emissions.set i e } amount ↔
      EmissionFeeFits amount e.feeBps := by
  obtain ⟨hinterest, hemission⟩ := splitsFees_iff.1 h
  rw [splitsFees_iff]
  constructor
  · rintro ⟨-, he⟩
    exact he e (List.mem_set hi e)
  · intro he
    refine ⟨hinterest, fun e' hmem => ?_⟩
    rcases List.mem_or_eq_of_mem_set hmem with hmem | rfl
    · exact hemission e' hmem
    · exact he

theorem splitsFees_action {unixTimestamp : UInt32} {action : AdminAction} {adminState : Admin}
    {signer : Pubkey} (h : SplitsFees v amount) (hstep : action.apply v unixTimestamp = .ok v') :
    SplitsFees v' amount ↔
      (VaultAdminOp.modifyVaultSetting adminState signer unixTimestamp action).FeeFits amount := by
  obtain ⟨hinterest, hemission⟩ := splitsFees_iff.1 h
  cases action with
  | changeVaultBpsFee newFee =>
    simp only [AdminAction.apply, bind_eq_ok, assertTrue_eq_ok, exists_const, Except.ok.injEq]
      at hstep
    obtain ⟨-, rfl⟩ := hstep
    rw [splitsFees_iff]
    exact ⟨And.left, fun hf => ⟨hf, hemission⟩⟩
  | changeEmissionTreasuryTokenAccount index account =>
    simp only [AdminAction.apply, bind_eq_ok, getAt_eq_ok, setAt_eq_ok, Except.ok.injEq] at hstep
    obtain ⟨e, he, es, ⟨hlt, rfl⟩, rfl⟩ := hstep
    refine iff_of_true ((splitsFees_set h hlt).2 ?_) trivial
    exact hemission e (List.mem_of_getElem? he)
  | changeEmissionBpsFee index newFeeBps =>
    simp only [AdminAction.apply, bind_eq_ok, assertTrue_eq_ok, exists_const, getAt_eq_ok,
      setAt_eq_ok, Except.ok.injEq] at hstep
    obtain ⟨-, e, he, es, ⟨hlt, rfl⟩, rfl⟩ := hstep
    exact splitsFees_set h hlt
  | removeVaultEmission index =>
    obtain ⟨-, rfl⟩ := removeVaultEmission_eq_ok hstep
    refine iff_of_true (h.of_fees rfl ?_) trivial
    exact List.eraseIdx_subset
  | changeMinOperationSize isStrip newSize =>
    simp only [AdminAction.apply] at hstep
    split at hstep
    all_goals
      cases hstep
      exact iff_of_true (h.of_fees rfl (List.Subset.refl _)) trivial
  | setVaultStatus | changeVaultTreasuryTokenAccount | changeCpiAccounts | changeClaimLimits
  | changeMaxPySupply | changeAddressLookupTable =>
    cases hstep
    exact iff_of_true (h.of_fees rfl (List.Subset.refl _)) trivial

/-- After an admin instruction all splits are right iff the fee that it sets fits. -/
theorem splitsFees_step (h : SplitsFees v amount) (hstep : op.step v = .ok v') :
    SplitsFees v' amount ↔ op.FeeFits amount := by
  cases op with
  | addEmission adminState authority cpiAccounts syState token treasury feeBps =>
    obtain ⟨-, hadd⟩ := asked_bind_eq_ok.1 hstep
    obtain ⟨i, -, rfl⟩ := addEmission_eq_ok hadd
    obtain ⟨hinterest, hemission⟩ := splitsFees_iff.1 h
    rw [splitsFees_iff]
    constructor
    · rintro ⟨-, he⟩
      exact he _ (List.mem_append_right _ (List.mem_singleton.2 rfl))
    · intro hf
      refine ⟨hinterest, fun e hmem => ?_⟩
      rcases List.mem_append.1 hmem with hmem | hmem
      · exact hemission e hmem
      · rw [List.mem_singleton.1 hmem]
        exact hf
  | modifyVaultSetting adminState signer unixTimestamp action =>
    obtain ⟨-, hact⟩ := asked_bind_eq_ok.1 hstep
    exact splitsFees_action h hact

/-- A staged balance can be collected as a whole exactly when its fee fits. -/
theorem collectEmission_all_iff {position : YieldTokenPosition} {index : UInt16}
    {t : YieldTokenTracker} {e : EmissionInfo} {accounts : List CpiInterfaceContext}
    (ht : position.emissions[index.toNat]? = some t)
    (haccounts : v.cpiAccounts.claimEmission[index.toNat]? = some accounts)
    (he : v.emissions[index.toNat]? = some e) :
    (∃ r, collectEmission v position index .all = .ok r) ↔ EmissionFeeFits t.staged e.feeBps := by
  have hlt := (List.getElem?_eq_some_iff.1 ht).1
  simp only [collectEmission, Amount.toU64, bind_eq_ok, getAt_eq_ok, ht, haccounts, he,
    Option.some.injEq, exists_eq_left', Except.ok.injEq]
  constructor
  · rintro ⟨r, parts, hparts, -⟩
    obtain ⟨hfits, hfee, hsum⟩ := handleCollectEmission_eq_ok.1 hparts
    exact ⟨hfits, fee_le_iff.1 (by omega)⟩
  · intro hfits
    obtain ⟨user, fee, hok, -⟩ := splits_emission_iff.2 hfits
    have hstaged : checkedSub t.staged t.staged = some 0 :=
      checkedSub_eq_some.2 (Nat.zero_add t.staged.toNat)
    obtain ⟨position', hposition⟩ : ∃ p, position.collectEmissionAt index t.staged = .ok p := by
      simp only [YieldTokenPosition.collectEmissionAt, YieldTokenTracker.collect, bind_eq_ok,
        getAt_eq_ok, setAt_eq_ok, unwrap_eq_ok, ht, hstaged, Option.some.injEq, exists_eq_left',
        Except.ok.injEq, hlt, true_and, exists_eq']
    exact ⟨_, (user, fee), hok, position', hposition, rfl⟩

end

/-! ## Over runs -/

/-- **All splits of an amount are right throughout a run exactly when every fee that is set fits.**
A fee up to 10000 fits every amount where it is for interest, and for an emission those whose
product with it fits a `u64`. -/
theorem splitsFees_throughout (args : InitializeVaultArgs) (amount : UInt64)
    (ops : List VaultAdminOp) :
    Throughout VaultAdminOp.step (SplitsFees · amount) (VaultWorld.initializeVault args).vault ops ↔
      InterestFeeFits amount args.interestBpsFee ∧
        Admits VaultAdminOp.step (Accepted VaultAdminOp.step fun _ op _ => op.FeeFits amount)
          (VaultWorld.initializeVault args).vault ops := by
  have hinit : SplitsFees (VaultWorld.initializeVault args).vault amount ↔
      InterestFeeFits amount args.interestBpsFee := by
    rw [splitsFees_iff]
    exact and_iff_left fun e he => nomatch he
  by_cases hfits : InterestFeeFits amount args.interestBpsFee
  · rw [throughout_iff_accepted (fun v op v' h hstep => splitsFees_step h hstep) (hinit.2 hfits)]
    exact (and_iff_right hfits).symm
  · exact iff_of_false (fun h => hfits (hinit.1 h.first)) fun h => hfits h.1

/-- A reward added with a fee within the limit, and a balance that its split cannot handle. -/
theorem not_splitsFees_largeEmission :
    ¬ Throughout VaultAdminOp.step (SplitsFees · 2000000000000000)
      (VaultWorld.initializeVault ⟨0, 100, 100, {}, 1, 1, 1, 2⟩).vault
      [.addEmission ⟨1, none, { hotAdmin := ⟨[7]⟩ }⟩ 7 {} ⟨1, [0]⟩ 3 4 10000] := by
  intro h
  have hlast := (splitsFees_iff.1 h.last).2
  revert hlast
  decide +kernel

end ExponentCore
