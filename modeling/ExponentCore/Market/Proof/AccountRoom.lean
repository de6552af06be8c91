import ExponentCore.Market.Proof.AccountFrame

/-!
# When an instruction is written back

`room_iff` says of each instruction of users when the accounts that it declares have room for what
it leaves in them, by `Sound`, which every step keeps.
-/

set_option autoImplicit false

namespace ExponentCore

open Cached Machine

/-! ## Room -/

namespace AccountData

variable {N : Type} {h h' : AccountData N} {i : Instruction} {s : ProgramState N}

/-- What is kept of the accounts: every value fits its data, the vault's own position has room for a
tracker for every emission, and no LP position has a tracker beyond the list of farms. -/
structure Sound (h : AccountData N) : Prop where
  fits : (accountLayout N).Fits h
  own : YieldTokenPosition.sizeOf h.state.vaultWorld.vault.emissions.length
    ≤ h.dataLen .yieldPosition
  farms : h.state.lpWorld.FarmsListed

section
variable {op : VaultOp} {w : VaultWorld} {lp : LpWorld N}

/-- Users change neither the length of the vault's list nor the accounts of the SY program. -/
theorem size_vault_of_ok (hop : op.keepsList = true) (htimely : op.Timely h.state.vaultWorld)
    (hw : h.state.vaultWorld.step op = .ok w) :
    ProgramState.size { h.state with vaultWorld := w } .vault = h.state.size .vault := by
  have hslots := (VaultWorld.restaged_of_ok hop hw).slots
  simp only [Vault.finalIndexes, List.length_map] at hslots
  rw [ProgramState.size_vault, ProgramState.size_vault, hslots,
    VaultWorld.cpiAccounts_of_ok hop htimely hw]

/-- What a staging leaves in the account of a position. -/
theorem size_staged {k : Holder} (hop : op.keepsList = true)
    (hw : h.state.vaultWorld.step op = .ok w) (hk : k ∈ op.staged) :
    ∃ p, h.state.vaultWorld.position? k = some p ∧
      ProgramState.size { h.state with vaultWorld := w } k.account =
        YieldTokenPosition.sizeOf
          (max p.emissions.length h.state.vaultWorld.vault.emissions.length) := by
  have hr := VaultWorld.restaged_of_ok hop hw
  have hslots := hr.slots
  obtain ⟨p, p', hp, hp', hsettled⟩ := hr.staged k hk
  have hlen := hsettled.length
  simp only [Vault.finalIndexes, YieldTokenPosition.seenIndexes, List.length_map] at hslots hlen
  refine ⟨p, hp, ?_⟩
  rw [ProgramState.size_position, VaultWorld.seenIndexes, hp', Option.map_some, Option.elim_some,
    YieldTokenPosition.seenIndexes, List.length_map, hlen, hslots]

theorem Sound.size_position_le {k : Holder} {p : YieldTokenPosition} (hs : h.Sound)
    (hp : h.state.vaultWorld.position? k = some p) :
    YieldTokenPosition.sizeOf p.emissions.length ≤ h.dataLen k.account := by
  have hfits : h.state.size k.account ≤ h.dataLen k.account := hs.fits k.account
  rwa [ProgramState.size_position, VaultWorld.seenIndexes, hp, Option.map_some, Option.elim_some,
    YieldTokenPosition.seenIndexes, List.length_map] at hfits

/-- There is always room for the vault's own position. -/
theorem Sound.own_le (hs : h.Sound) (hop : op.keepsList = true)
    (hw : h.state.vaultWorld.step op = .ok w) (hk : .vault ∈ op.staged) :
    ProgramState.size { h.state with vaultWorld := w } .yieldPosition
      ≤ h.dataLen .yieldPosition := by
  obtain ⟨p, hp, hsize⟩ := size_staged hop hw hk
  refine hsize.trans_le (YieldTokenPosition.sizeOf_max_le.2 ⟨?_, hs.own⟩)
  exact hs.size_position_le hp

/-- A position that is resized for the list of emissions and stages. -/
theorem room_resized {user : Nat} (hop : op.keepsList = true)
    (hw : h.state.vaultWorld.step op = .ok w) (hk : .user user ∈ op.staged) :
    ProgramState.size { h.state with vaultWorld := w } (.userPosition user)
        ≤ YieldTokenPosition.sizeOf h.state.vaultWorld.vault.emissions.length ↔
      ∀ p ∈ h.state.vaultWorld.userPositions[user]?,
        p.emissions.length ≤ h.state.vaultWorld.vault.emissions.length := by
  obtain ⟨p, hp, hsize⟩ := size_staged hop hw hk
  have hp : h.state.vaultWorld.userPositions[user]? = some p := hp
  have hsize : ProgramState.size { h.state with vaultWorld := w } (.userPosition user) = _ := hsize
  rw [hsize, YieldTokenPosition.sizeOf_le, hp]
  simp

/-- A position that stages in the data that it has. -/
theorem Sound.room_kept {user : Nat} (hs : h.Sound) (hop : op.keepsList = true)
    (hw : h.state.vaultWorld.step op = .ok w) (hk : .user user ∈ op.staged) :
    ProgramState.size { h.state with vaultWorld := w } (.userPosition user)
        ≤ h.dataLen (.userPosition user) ↔
      YieldTokenPosition.sizeOf h.state.vaultWorld.vault.emissions.length
        ≤ h.dataLen (.userPosition user) := by
  obtain ⟨p, hp, hsize⟩ := size_staged hop hw hk
  have hsize : ProgramState.size { h.state with vaultWorld := w } (.userPosition user) = _ := hsize
  rw [hsize, YieldTokenPosition.sizeOf_max_le]
  exact ⟨fun hboth => hboth.2, fun hv => ⟨hs.size_position_le hp, hv⟩⟩

/-- **When a user's instruction on a vault is written back.** -/
theorem room_vault_iff (hs : h.Sound) (hi : (Instruction.vault op).isUser = true)
    (htimely : op.Timely h.state.vaultWorld) (hw : h.state.vaultWorld.step op = .ok w) :
    (accountLayout N).Room h (.vault op) { h.state with vaultWorld := w } ↔
      h.HasRoom (.vault op) := by
  have hvault (hop : op.keepsList = true) :
      ProgramState.size { h.state with vaultWorld := w } .vault ≤ h.dataLen .vault :=
    (size_vault_of_ok hop htimely hw).trans_le (hs.fits .vault)
  simp only [Layout.Room, accountLayout, Instruction.declared]
  cases op with
  | initializeYieldPosition owner key =>
    cases hw
    simp only [VaultOp.declared, List.forall_mem_singleton, Option.getD_some, HasRoom, iff_true]
    refine (ProgramState.size_position _ (.user _)).trans_le ?_
    rw [VaultWorld.seenIndexes, VaultWorld.position?, List.getElem?_concat_length]
    exact YieldTokenPosition.sizeOf_le.2 (Nat.zero_le _)
  | strip | merge =>
    simp only [VaultOp.declared, List.forall_mem_cons, List.not_mem_nil, false_implies,
      implies_true, and_true, Option.getD_none, HasRoom, iff_true]
    exact ⟨hvault rfl, hs.own_le rfl hw (List.mem_singleton.2 rfl)⟩
  | depositYt | withdrawYt | stageYield =>
    have hown := hs.own_le rfl hw List.mem_cons_self
    have huser := room_resized rfl hw (List.mem_cons_of_mem _ (List.mem_singleton.2 rfl))
    simp only [VaultOp.declared, List.forall_mem_cons, List.not_mem_nil, false_implies,
      implies_true, and_true, Option.getD_none, Option.getD_some, HasRoom]
    exact ⟨fun hroom => huser.1 hroom.2.1, fun hroom => ⟨hvault rfl, huser.2 hroom, hown⟩⟩
  | collectInterest =>
    have huser := hs.room_kept rfl hw (List.mem_singleton.2 rfl)
    simp only [VaultOp.declared, List.forall_mem_cons, List.not_mem_nil, false_implies,
      implies_true, and_true, Option.getD_none, HasRoom]
    exact ⟨fun hroom => huser.1 hroom.1, fun hroom => ⟨huser.2 hroom, hvault rfl⟩⟩
  | collectEmission user index amount =>
    simp only [VaultOp.declared, List.forall_mem_cons, List.not_mem_nil, false_implies,
      implies_true, and_true, Option.getD_none, HasRoom, iff_true]
    refine ⟨hvault rfl, ?_⟩
    have hsame := (VaultWorld.restaged_of_ok rfl hw).others (.user user) (List.not_mem_nil)
    have hfits := hs.fits (.userPosition user)
    refine (ProgramState.size_position _ (.user user)).trans_le ?_
    show (w.seenIndexes _).elim _ _ ≤ _
    rw [hsame]
    exact (ProgramState.size_position _ (.user user)).symm.trans_le hfits
  | collectTreasuryInterest | collectTreasuryEmission | addEmission | removeVaultEmission =>
    cases hi

end

section
variable {op : LpOp} {w : LpWorld N}

theorem size_lpPosition_set {j : Nat} {q : LpPosition} {w : LpWorld N} {v : VaultWorld}
    {ps : List LpPosition} (hpos : w.lpPositions = ps.set j q) (hj : j < ps.length) :
    (ProgramState.mk v w).size (.lpPosition j) =
      LpPosition.staticSizeOf q.emissions.length q.farms.length := by
  show (w.lpPositions[j]?.elim 0 _) = _
  rw [hpos, List.getElem?_set_self hj]
  exact q.discriminatorLen_add_borshLen

/-- A position that is resized for the lists of the market and stages. -/
theorem Sound.room_regrown (hs : h.Sound) {j : Nat} (hr : h.state.lpWorld.Regrown j w) :
    ProgramState.size { h.state with lpWorld := w } (.lpPosition j)
        ≤ LpPosition.staticSizeOf h.state.lpWorld.market.emissions.length
          h.state.lpWorld.market.lpFarm.farmEmissions.length ↔
      ∀ p ∈ h.state.lpWorld.lpPositions[j]?,
        p.emissions.length ≤ h.state.lpWorld.market.emissions.length := by
  obtain ⟨p, q, hp, hpos, he, hf⟩ := hr.position
  rw [size_lpPosition_set hpos (List.getElem?_eq_some_iff.1 hp).1, he, hf,
    LpPosition.staticSizeOf_max_le (hs.farms p (List.mem_of_getElem? hp)), hp]
  simp

/-- A payment is written back. -/
theorem Sound.room_paidOut (hs : h.Sound) {j : Nat} (hr : h.state.lpWorld.PaidOut j w) :
    ProgramState.size { h.state with lpWorld := w } (.lpPosition j)
      ≤ h.dataLen (.lpPosition j) := by
  obtain ⟨p, q, hp, hpos, he, hf⟩ := hr.position
  have hfits : h.state.size (.lpPosition j) ≤ h.dataLen (.lpPosition j) :=
    hs.fits (.lpPosition j)
  rw [ProgramState.size, hp, Option.elim_some, p.discriminatorLen_add_borshLen] at hfits
  rwa [size_lpPosition_set hpos (List.getElem?_eq_some_iff.1 hp).1, he, hf]

/-- A market of the same length is written back. -/
theorem Sound.room_market (hs : h.Sound)
    (hm : w.market.borshLen = h.state.lpWorld.market.borshLen) :
    ProgramState.size { h.state with lpWorld := w } .market ≤ h.dataLen .market := by
  have hfits := hs.fits .market
  refine Eq.trans_le ?_ hfits
  exact congrArg (discriminatorLen + ·) hm

theorem room_lp_iff (hs : h.Sound) (hi : (Instruction.lp op).isUser = true)
    (hw : h.state.lpWorld.step op = .ok w) :
    (accountLayout N).Room h (.lp op) { h.state with lpWorld := w } ↔ h.HasRoom (.lp op) := by
  simp only [Layout.Room, accountLayout, Instruction.declared]
  cases op with
  | initLpPosition owner =>
    cases hw
    simp only [LpOp.declared, List.forall_mem_singleton, Option.getD_some, HasRoom, iff_true]
    show Option.elim _ _ _ ≤ _
    rw [List.getElem?_concat_length, Option.elim_some, LpPosition.discriminatorLen_add_borshLen,
      LpPosition.newFromMarket, List.length_map, List.length_map]
  | depositLp now j a =>
    have hr := LpWorld.regrown_of_depositLp hw
    simp only [LpOp.declared, List.forall_mem_cons, List.not_mem_nil, false_implies,
      implies_true, and_true, Option.getD_none, Option.getD_some, HasRoom, hs.room_regrown hr,
      hs.room_market hr.market, true_and]
  | withdrawLp now j a =>
    have hr := LpWorld.regrown_of_withdrawLp hw
    simp only [LpOp.declared, List.forall_mem_cons, List.not_mem_nil, false_implies,
      implies_true, and_true, Option.getD_none, Option.getD_some, HasRoom, hs.room_regrown hr,
      hs.room_market hr.market, true_and]
  | marketCollectEmission j index =>
    have hr := LpWorld.paidOut_of_marketCollectEmission hw
    simp only [LpOp.declared, List.forall_mem_cons, List.not_mem_nil, false_implies,
      implies_true, and_true, Option.getD_none, HasRoom, iff_true]
    exact ⟨hs.room_market hr.market, hs.room_paidOut hr⟩
  | claimFarmEmissions j mint amount =>
    have hr := (LpWorld.paidOut_of_claimFarmEmissions hw).1
    simp only [LpOp.declared, List.forall_mem_singleton, Option.getD_none, HasRoom, iff_true]
    exact hs.room_paidOut hr
  | accrue cs =>
    simp only [LpOp.declared, List.not_mem_nil, false_implies, implies_true, HasRoom]
  | addMarketEmission | removeMarketEmission | addFarm | modifyFarm => cases hi

end

/-- The limits on claims have no part in the sizes. -/
def withClaimLimits (h : AccountData N) (l : ClaimLimits) : AccountData N :=
  { h with state := { h.state with vaultWorld := h.state.vaultWorld.withClaimLimits l } }

theorem Sound.withClaimLimits (hs : h.Sound) (l : ClaimLimits) : (h.withClaimLimits l).Sound where
  fits a := by
    cases a with
    | vault => exact hs.fits .vault
    | yieldPosition => exact hs.fits .yieldPosition
    | userPosition i => exact hs.fits (.userPosition i)
    | market => exact hs.fits .market
    | lpPosition i => exact hs.fits (.lpPosition i)
  own := hs.own
  farms := hs.farms

variable [Num N]

/-- **When a user's instruction is written back.** -/
theorem room_iff (hs : h.Sound) (hi : i.isUser = true) (hstep : h.state.step i = .ok s) :
    (accountLayout N).Room h i s ↔ h.HasRoom i := by
  cases i with
  | vault op =>
    simp only [ProgramState.step, bind_eq_ok, Except.ok.injEq] at hstep
    obtain ⟨w, hw, rfl⟩ := hstep
    obtain ⟨l, -, hw⟩ := VaultWorld.instruct_of_withinLimits hw
    obtain ⟨htimely, hw⟩ := VaultWorld.instruct_eq_ok hw
    have hroom := room_vault_iff (h := h.withClaimLimits l) (hs.withClaimLimits l) hi htimely hw
    cases op <;> exact hroom
  | lp op =>
    simp only [ProgramState.step, bind_eq_ok, Except.ok.injEq] at hstep
    obtain ⟨w, hw, rfl⟩ := hstep
    exact room_lp_iff hs hi hw
  | changeClaimLimits | changeVaultCpiAccounts | changeMarketCpiAccounts => cases hi
  | tradePt | depositLiquidity | withdrawLiquidity | edit =>
    obtain ⟨m, rfl, -, hm⟩ := ProgramState.booked_of_ok rfl hstep
    simp only [Layout.Room, accountLayout, Instruction.declared, List.forall_mem_singleton,
      Option.getD_none, HasRoom, iff_true]
    exact hs.room_market hm

/-! ## Runs -/

omit [Num N] in
/-- The data of the vault's own position grows with the list. -/
theorem resized_own : (accountLayout N).resized h i .yieldPosition =
    match i with
    | .vault (.addEmission ..) =>
      YieldTokenPosition.sizeOf (h.state.vaultWorld.vault.emissions.length + 1)
    | _ => h.dataLen .yieldPosition := by
  cases i with
  | vault op => cases op <;> rfl
  | lp op => cases op <;> rfl
  | changeClaimLimits | changeVaultCpiAccounts | changeMarketCpiAccounts | tradePt
  | depositLiquidity | withdrawLiquidity | edit => rfl

theorem Sound.own_step (hs : h.Sound) (hstep : h.state.step i = .ok s) :
    YieldTokenPosition.sizeOf s.vaultWorld.vault.emissions.length
      ≤ (accountLayout N).resized h i .yieldPosition := by
  rw [resized_own]
  cases i with
  | vault op =>
    simp only [ProgramState.step, bind_eq_ok, Except.ok.injEq] at hstep
    obtain ⟨w, hw, rfl⟩ := hstep
    obtain ⟨l, -, hw⟩ := VaultWorld.instruct_of_withinLimits hw
    have hw := (VaultWorld.instruct_eq_ok hw).2
    have hkept (hop : op.keepsList = true) : YieldTokenPosition.sizeOf w.vault.emissions.length
        ≤ h.dataLen .yieldPosition := by
      have hslots := (VaultWorld.restaged_of_ok hop hw).slots
      simp only [Vault.finalIndexes, List.length_map] at hslots
      rw [hslots]
      exact hs.own
    cases op with
    | initializeYieldPosition =>
      cases hw
      exact hs.own
    | addEmission =>
      obtain ⟨x, -, rfl⟩ := VaultWorld.step_addEmission hw
      rw [List.length_append, List.length_singleton]
      exact Nat.le_refl _
    | removeVaultEmission =>
      obtain ⟨-, rfl⟩ := VaultWorld.step_removeVaultEmission hw
      refine (YieldTokenPosition.sizeOf_le.2 ?_).trans hs.own
      exact (List.eraseIdx_sublist ..).length_le
    | _ => exact hkept rfl
  | lp op =>
    simp only [ProgramState.step, bind_eq_ok, Except.ok.injEq] at hstep
    obtain ⟨w, -, rfl⟩ := hstep
    exact hs.own
  | changeClaimLimits | changeVaultCpiAccounts | changeMarketCpiAccounts =>
    cases hstep
    exact hs.own
  | tradePt | depositLiquidity | withdrawLiquidity | edit =>
    obtain ⟨m, rfl, -⟩ := ProgramState.booked_of_ok rfl hstep
    exact hs.own

theorem Sound.farms_step (hs : h.Sound) (hstep : h.state.step i = .ok s) :
    s.lpWorld.FarmsListed := by
  cases i with
  | vault op =>
    simp only [ProgramState.step, bind_eq_ok, Except.ok.injEq] at hstep
    obtain ⟨w, -, rfl⟩ := hstep
    exact hs.farms
  | lp op =>
    simp only [ProgramState.step, bind_eq_ok, Except.ok.injEq] at hstep
    obtain ⟨w, hw, rfl⟩ := hstep
    exact LpWorld.step_induction (A := fun _ _ => True) (fun _ _ hf he => hf.event he) hs.farms
      trivial hw
  | changeClaimLimits | changeVaultCpiAccounts | changeMarketCpiAccounts =>
    cases hstep
    exact hs.farms
  | tradePt | depositLiquidity | withdrawLiquidity | edit =>
    obtain ⟨m, rfl, hm, -⟩ := ProgramState.booked_of_ok rfl hstep
    intro p hp
    show _ ≤ m.lpFarm.farmEmissions.length
    rw [hm]
    exact hs.farms p hp

/-- **One step.** -/
theorem Sound.step (hs : h.Sound) (hstep : AccountData.step h i = .ok h') : h'.Sound := by
  refine ⟨Layout.fits_step ProgramState.framed hs.fits hstep, ?_, ?_⟩
  · obtain ⟨s, hok, -, rfl⟩ := Layout.step_eq_ok.1 hstep
    exact hs.own_step hok
  · obtain ⟨s, hok, -, rfl⟩ := Layout.step_eq_ok.1 hstep
    exact hs.farms_step hok

omit [Num N] in
theorem sound_created (args : InitializeVaultArgs) (w : LpWorld N) (hw : w.Fresh) :
    (created args w).Sound where
  fits a := by
    cases a with
    | vault => exact (ProgramState.size_vault _).le
    | yieldPosition => exact (YieldTokenPosition.discriminatorLen_add_borshLen _).le
    | userPosition j => exact Nat.le_refl 0
    | market =>
      have hlen := w.market.discriminatorLen_add_borshLen
      rw [hw.emissions, hw.lpFarm] at hlen
      show discriminatorLen + w.market.borshLen ≤ MarketTwo.sizeOf w.market.cpiAccounts 0 0
      have hlen : _ = MarketTwo.sizeOf w.market.cpiAccounts 0 0 := hlen
      omega
    | lpPosition j =>
      show Option.elim w.lpPositions[j]? _ _ ≤ 0
      rw [hw.lpPositions]
      exact Nat.le_refl 0
  own := Nat.le_refl _
  farms p hp := by
    have hp : p ∈ w.lpPositions := hp
    rw [hw.lpPositions] at hp
    cases hp

end AccountData

end ExponentCore
