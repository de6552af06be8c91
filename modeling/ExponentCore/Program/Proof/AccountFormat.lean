import ExponentCore.Market.Proof.AccountData
import ExponentCore.Program.AccountFormat

/-!
# The accounts on bytes

The form of an account is as long as `ProgramState.size` says (`length_form`), instructions leave the
values of the accounts alone that they do not declare (`AccountKeys.part_of_not_declared`), and an
account has a form if its lists are short and its prices have one. So the machine on bytes is the one
on values with the lengths of their data:

* `loads_iff`: what data is read as, whatever follows the form.
* `bytes_run`: a run on bytes leaves the values that the run on values leaves.
-/

set_option autoImplicit false

namespace ExponentCore

open Borsh Machine

/-! ## Lengths -/

theorem sized_pubkey : pubkeyCodec.Sized fun _ => 32 :=
  Codec.sized_ofBytes fun _ => length_leBytes 32 _

theorem Number.sized : Number.codec.Sized fun _ => 32 :=
  Codec.sized_ofBytes fun _ => length_leBytes 32 _

theorem CpiInterfaceContext.sized : CpiInterfaceContext.codec.Sized CpiInterfaceContext.borshLen :=
  Codec.sized_ofBytes fun _ => rfl

theorem cpiContexts_length {cs : List CpiInterfaceContext} {bs : List UInt8}
    (h : cpiContextsBytes cs = some bs) : bs.length = vecLen CpiInterfaceContext.borshLen cs :=
  CpiInterfaceContext.sized.vec cs bs h

theorem CpiAccounts.sized : CpiAccounts.codec.Sized CpiAccounts.sizeOf := by
  intro c bs hbs
  simp only [CpiAccounts.codec, CpiAccounts.bytes, Option.bind_eq_bind, Option.bind_eq_some_iff,
    Option.some.injEq] at hbs
  obtain ⟨b₁, h₁, b₂, h₂, b₃, h₃, b₄, h₄, b₅, h₅, rfl⟩ := hbs
  have hclaim : b₄.length = vecLen (vecLen CpiInterfaceContext.borshLen) c.claimEmission :=
    CpiInterfaceContext.sized.vec.vec c.claimEmission b₄ h₄
  simp only [List.length_append, cpiContexts_length h₁, cpiContexts_length h₂,
    cpiContexts_length h₃, hclaim, cpiContexts_length h₅, CpiAccounts.sizeOf]
  omega

theorem ClaimLimits.sized : ClaimLimits.codec.Sized fun _ => 4 + 8 + 8 + 4 :=
  (Codec.sized_u32.pair <| Codec.sized_u64.pair <| Codec.sized_u64.pair Codec.sized_u32).iso _

theorem EmissionInfo.sized : EmissionInfo.codec.Sized fun _ => 32 + 32 + 32 + 32 + 32 + 2 + 8 :=
  (sized_pubkey.pair <| Number.sized.pair <| Number.sized.pair <| Number.sized.pair <|
    sized_pubkey.pair <| Codec.sized_u16.pair Codec.sized_u64).iso _

theorem sized_tracker {T : Type} (e : Number × UInt64 ≃ T) :
    (trackerCodec e).Sized fun _ => 32 + 8 := (Number.sized.pair Codec.sized_u64).iso e

theorem MarketEmission.sized : MarketEmission.codec.Sized fun _ => 32 + 32 + 8 :=
  (sized_pubkey.pair <| Number.sized.pair Codec.sized_u64).iso _

theorem FarmEmission.sized : FarmEmission.codec.Sized fun _ => 32 + 8 + 4 + 32 :=
  (sized_pubkey.pair <| Codec.sized_u64.pair <| Codec.sized_u32.pair Number.sized).iso _

theorem LpFarm.sized : LpFarm.codec.Sized
    fun f => 4 + vecLen (fun _ => 32 + 8 + 4 + 32) f.farmEmissions :=
  (Codec.sized_u32.pair FarmEmission.sized.vec).iso _

theorem LiquidityNetBalanceLimits.sized :
    LiquidityNetBalanceLimits.codec.Sized fun _ => 4 + 8 + 2 + 4 + 4 :=
  (Codec.sized_u32.pair <| Codec.sized_u64.pair <| Codec.sized_u16.pair <|
    Codec.sized_u32.pair Codec.sized_u32).iso _

section
variable {N : Type} (P : PriceFormat N)

theorem MarketFinancials.sized : (MarketFinancials.codec P).Sized fun _ => 8 + 8 + 8 + 8 + 8 + 8 :=
  (Codec.sized_u64.pair <| Codec.sized_u64.pair <| Codec.sized_u64.pair <| P.sized.pair <|
    P.sized.pair P.sized).iso _

omit P in
theorem Vault.sized : Vault.codec.Sized fun p => p.2.borshLen := by
  refine ((sized_pubkey.pair <| sized_pubkey.pair <| sized_pubkey.pair <| sized_pubkey.pair <|
    sized_pubkey.pair <| sized_pubkey.pair <| sized_pubkey.pair <| sized_pubkey.pair <|
    Codec.sized_u32.pair <| Codec.sized_u32.pair <| sized_pubkey.pair <| sized_pubkey.pair <|
    Codec.sized_u8.pair <| Number.sized.pair <| Number.sized.pair <| Number.sized.pair <|
    Codec.sized_u64.pair <| Codec.sized_u64.pair <| Codec.sized_u64.pair <|
    Codec.sized_u64.pair <| Codec.sized_u64.pair <| sized_pubkey.pair <| Codec.sized_u16.pair <|
    Codec.sized_u64.pair <| Codec.sized_u64.pair <| Codec.sized_u8.pair <|
    EmissionInfo.sized.vec.pair <| CpiAccounts.sized.pair <|
    ClaimLimits.sized.pair Codec.sized_u64).iso _).congr fun p => ?_
  simp only [Vault.borshLen, vecLen, Equiv.coe_fn_symm_mk]
  omega

omit P in
theorem YieldTokenPosition.sized : YieldTokenPosition.codec.Sized YieldTokenPosition.borshLen := by
  refine ((sized_pubkey.pair <| sized_pubkey.pair <| Codec.sized_u64.pair <|
    (sized_tracker _).pair (sized_tracker _).vec).iso _).congr fun p => ?_
  simp only [YieldTokenPosition.borshLen, vecLen, Equiv.coe_fn_symm_mk]
  omega

theorem MarketTwo.sized : (MarketTwo.codec P).Sized fun p => p.2.borshLen := by
  refine ((sized_pubkey.pair <| sized_pubkey.pair <| sized_pubkey.pair <| sized_pubkey.pair <|
    sized_pubkey.pair <| sized_pubkey.pair <| sized_pubkey.pair <| sized_pubkey.pair <|
    sized_pubkey.pair <| Codec.sized_u16.pair <| sized_pubkey.pair <| Codec.sized_u8.pair <|
    Codec.sized_u8.pair <| sized_pubkey.pair <| (MarketFinancials.sized P).pair <|
    MarketEmission.sized.vec.pair <| LpFarm.sized.pair <| Codec.sized_u64.pair <|
    Codec.sized_u64.pair <| CpiAccounts.sized.pair <| Codec.sized_bool.pair <|
    LiquidityNetBalanceLimits.sized.pair Codec.sized_u8).iso _).congr fun p => ?_
  simp only [MarketTwo.borshLen, vecLen, Equiv.coe_fn_symm_mk]
  omega

omit P in
theorem LpPosition.sized : LpPosition.codec.Sized fun p => p.2.borshLen := by
  refine ((sized_pubkey.pair <| sized_pubkey.pair <| Codec.sized_u64.pair <|
    (sized_tracker _).vec.pair (sized_tracker _).vec).iso _).congr fun p => ?_
  simp only [LpPosition.borshLen, vecLen, Equiv.coe_fn_symm_mk]
  omega

variable (T : Discriminators) {a : DataAccount}

/-- **A form is as long as the sizes say.** -/
theorem length_form (k : AccountKeys) (s : ProgramState N) {bs : List UInt8}
    (h : (accountStorage T P).form (k, s) a = some bs) : bs.length = s.size a := by
  cases a with
  | vault =>
    have hlen := (Vault.sized.tagged _) _ _ h
    rw [hlen, T.length_tag]
    rfl
  | yieldPosition =>
    have hlen := (YieldTokenPosition.sized.tagged _) _ _ h
    rw [hlen, T.length_tag]
    rfl
  | market =>
    have hlen := ((MarketTwo.sized P).tagged _) _ _ h
    rw [hlen, T.length_tag]
    rfl
  | userPosition i =>
    cases hp : s.vaultWorld.userPositions[i]? with
    | none =>
      have hpart : (accountStorage T P).part (k, s) (.userPosition i) = none := hp
      rw [Storage.form, hpart] at h
      rw [← Option.some.inj h, ProgramState.size, hp]
      rfl
    | some p =>
      have hpart : (accountStorage T P).part (k, s) (.userPosition i) = some p := hp
      rw [Storage.form, hpart] at h
      have hlen := (YieldTokenPosition.sized.tagged _) _ _ h
      rw [hlen, T.length_tag, ProgramState.size, hp]
      rfl
  | lpPosition i =>
    cases hp : s.lpWorld.lpPositions[i]? with
    | none =>
      have hpart : (accountStorage T P).part (k, s) (.lpPosition i) = none := by
        show Option.map _ _ = _
        rw [hp]
        rfl
      rw [Storage.form, hpart] at h
      rw [← Option.some.inj h, ProgramState.size, hp]
      rfl
    | some p =>
      have hpart : (accountStorage T P).part (k, s) (.lpPosition i)
          = some (k.marketAddress, p) := by
        show Option.map _ _ = _
        rw [hp]
        rfl
      rw [Storage.form, hpart] at h
      have hlen := (LpPosition.sized.tagged _) _ _ h
      rw [hlen, T.length_tag, ProgramState.size, hp]
      rfl

end

/-! ## What is not declared -/

namespace VaultWorld

variable {w w' : VaultWorld} {op : VaultOp}

theorem vault_of_not_declared (h : w.instructWithinLimits op = .ok w')
    (hv : .vault ∉ (op.declared w).map Prod.fst) : w'.vault = w.vault := by
  cases op with
  | initializeYieldPosition =>
    cases h
    rfl
  | strip | merge | depositYt | withdrawYt | stageYield | collectInterest | collectTreasuryInterest
  | collectEmission | collectTreasuryEmission | addEmission | removeVaultEmission =>
    exact absurd (by simp [VaultOp.declared]) hv

/-- Another user's position. -/
theorem position?_set_ne {v : Vault} {q u : YieldTokenPosition} {c : UInt32} {i j : Nat}
    (hj : j ≠ i) :
    position? ⟨v, q, w.userPositions.set i u, c⟩ (.user j) = w.position? (.user j) :=
  List.getElem?_set_ne hj.symm

theorem position?_of_not_declared {k : Holder} (h : w.step op = .ok w')
    (hk : k.account ∉ (op.declared w).map Prod.fst) : w'.position? k = w.position? k := by
  cases op with
  | initializeYieldPosition owner key =>
    cases h
    cases k with
    | vault => rfl
    | user i =>
      have hne : i ≠ w.userPositions.length := by simpa [VaultOp.declared, Holder.account] using hk
      exact ListSum.getElem?_concat_of_ne hne
  | strip | merge =>
    simp only [step, withOwnPosition, bind_eq_ok, Except.ok.injEq, Prod.exists] at h
    obtain ⟨v, p, x, -, rfl⟩ := h
    cases k with
    | vault => exact absurd (by simp [VaultOp.declared, Holder.account]) hk
    | user i => rfl
  | depositYt now syState user | withdrawYt now syState user | stageYield now syState user =>
    simp only [step, withUserPosition, bind_eq_ok, Except.ok.injEq, Prod.exists] at h
    obtain ⟨u, -, v, p, u', -, rfl⟩ := h
    cases k with
    | vault => exact absurd (by simp [VaultOp.declared, Holder.account]) hk
    | user i =>
      have hne : i ≠ user := by simpa [VaultOp.declared, Holder.account] using hk
      exact position?_set_ne hne
  | collectInterest now user =>
    simp only [step, bind_eq_ok, Except.ok.injEq, Prod.exists] at h
    obtain ⟨u, -, v, u', x, y, -, rfl⟩ := h
    cases k with
    | vault => rfl
    | user i =>
      have hne : i ≠ user := by simpa [VaultOp.declared, Holder.account] using hk
      exact position?_set_ne hne
  | collectEmission user =>
    simp only [step, bind_eq_ok, Except.ok.injEq, Prod.exists] at h
    obtain ⟨u, -, u', x, y, -, rfl⟩ := h
    cases k with
    | vault => rfl
    | user i =>
      have hne : i ≠ user := by simpa [VaultOp.declared, Holder.account] using hk
      exact position?_set_ne hne
  | collectTreasuryInterest | collectTreasuryEmission =>
    simp only [step, bind_eq_ok, Except.ok.injEq, Prod.exists] at h
    obtain ⟨v, p, -, rfl⟩ := h
    cases k with
    | vault => exact absurd (by simp [VaultOp.declared, Holder.account]) hk
    | user i => rfl
  | addEmission | removeVaultEmission =>
    simp only [step, bind_eq_ok, Except.ok.injEq] at h
    obtain ⟨v, -, rfl⟩ := h
    cases k <;> rfl

end VaultWorld

section
variable {N : Type} [Num N]

/-- **An instruction leaves the values alone that it does not declare.** -/
theorem AccountKeys.part_of_not_declared (k : AccountKeys) {s s' : ProgramState N} {i : Instruction}
    {a : DataAccount} (hs : s.step i = .ok s') (ha : a ∉ (i.declared s).map Prod.fst) :
    k.part s' a = k.part s a := by
  cases i with
  | vault op =>
    simp only [ProgramState.step, bind_eq_ok, Except.ok.injEq] at hs
    obtain ⟨w', hw, rfl⟩ := hs
    obtain ⟨l, -, hin⟩ := VaultWorld.instruct_of_withinLimits hw
    have hin := (VaultWorld.instruct_eq_ok hin).2
    have hposition (k : Holder) (hk : k.account ∉ (op.declared s.vaultWorld).map Prod.fst) :
        w'.position? k = s.vaultWorld.position? k := by
      rw [← VaultOp.declared_withClaimLimits s.vaultWorld l] at hk
      have hsame := VaultWorld.position?_of_not_declared hin hk
      exact hsame
    cases a with
    | vault => exact congrArg (fun v => some (k.vault, v)) (VaultWorld.vault_of_not_declared hw ha)
    | yieldPosition => exact hposition .vault ha
    | userPosition i => exact hposition (.user i) ha
    | market | lpPosition => rfl
  | lp op =>
    simp only [ProgramState.step, bind_eq_ok, Except.ok.injEq] at hs
    obtain ⟨w', hw, rfl⟩ := hs
    have hleaves := LpWorld.leavesUndeclared_of_ok hw
    cases a with
    | vault | yieldPosition | userPosition => rfl
    | market => exact congrArg (fun m => some (k.market, m)) (hleaves.market ha)
    | lpPosition j => exact congrArg (Option.map _) (hleaves.positions j ha)
  | changeClaimLimits | changeVaultCpiAccounts =>
    cases hs
    cases a with
    | vault => exact absurd (by simp [Instruction.declared]) ha
    | _ => rfl
  | changeMarketCpiAccounts =>
    cases hs
    cases a with
    | market => exact absurd (by simp [Instruction.declared]) ha
    | _ => rfl
  | tradePt | depositLiquidity | withdrawLiquidity | edit =>
    obtain ⟨m, rfl, -⟩ := ProgramState.booked_of_ok rfl hs
    cases a with
    | market => exact absurd (by simp [Instruction.declared]) ha
    | _ => rfl

theorem accountStorage_lawful (T : Discriminators) (P : PriceFormat N) :
    (accountStorage T P).Lawful ((accountLayout N).beside AccountKeys)
      (beside ProgramState.step) where
  frame p i p' a hs ha := by
    obtain ⟨s', hs', rfl⟩ := map_eq_ok.1 hs
    exact p.1.part_of_not_declared hs' ha
  size p _ _ h := length_form P T p.1 p.2 h

end

/-! ## Accounts that have a form -/

@[simp] theorem writes_pubkey (key : Pubkey) : pubkeyCodec.Writes key := Codec.writes_ofBytes key
@[simp] theorem Number.writes (n : Number) : Number.codec.Writes n := Codec.writes_ofBytes n

theorem CpiInterfaceContext.writes (c : CpiInterfaceContext) : CpiInterfaceContext.codec.Writes c :=
  Codec.writes_ofBytes c

@[simp] theorem ClaimLimits.writes (l : ClaimLimits) : ClaimLimits.codec.Writes l := by
  simp [ClaimLimits.codec]

@[simp] theorem EmissionInfo.writes (e : EmissionInfo) : EmissionInfo.codec.Writes e := by
  simp [EmissionInfo.codec]

@[simp] theorem YieldTokenTracker.writes (t : YieldTokenTracker) :
    YieldTokenTracker.codec.Writes t := by
  simp [YieldTokenTracker.codec, trackerCodec]

@[simp] theorem PersonalYieldTracker.writes (t : PersonalYieldTracker) :
    PersonalYieldTracker.codec.Writes t := by
  simp [PersonalYieldTracker.codec, trackerCodec]

@[simp] theorem MarketEmission.writes (e : MarketEmission) : MarketEmission.codec.Writes e := by
  simp [MarketEmission.codec]

@[simp] theorem FarmEmission.writes (e : FarmEmission) : FarmEmission.codec.Writes e := by
  simp [FarmEmission.codec]

@[simp] theorem LiquidityNetBalanceLimits.writes (l : LiquidityNetBalanceLimits) :
    LiquidityNetBalanceLimits.codec.Writes l := by
  simp [LiquidityNetBalanceLimits.codec]

/-- A vector in an account is no longer than the account. -/
theorem length_le_vecLen {α : Type} (size : α → Nat) (hsize : ∀ a, 0 < size a) (l : List α) :
    l.length ≤ vecLen size l := by
  have hsum : l.length ≤ (l.map size).sum := by
    induction l with
    | nil => exact Nat.zero_le _
    | cons a l ih =>
      rw [List.length_cons, List.map_cons, List.sum_cons]
      have ha := hsize a
      omega
  rw [vecLen]
  omega

theorem cpiContexts_writes {cs : List CpiInterfaceContext}
    (h : vecLen CpiInterfaceContext.borshLen cs < 2 ^ 32) :
    ∃ bs, cpiContextsBytes cs = some bs := by
  have hlen := length_le_vecLen CpiInterfaceContext.borshLen (fun _ => Nat.succ_pos 2) cs
  exact (Codec.writes_vec (c := CpiInterfaceContext.codec)).2
    ⟨hlen.trans_lt h, fun c _ => c.writes⟩

theorem CpiAccounts.writes {c : CpiAccounts} (h : c.sizeOf < 2 ^ 32) :
    CpiAccounts.codec.Writes c := by
  rw [sizeOf] at h
  obtain ⟨b₁, h₁⟩ := cpiContexts_writes
    (show vecLen CpiInterfaceContext.borshLen c.getSyState < 2 ^ 32 by omega)
  obtain ⟨b₂, h₂⟩ := cpiContexts_writes
    (show vecLen CpiInterfaceContext.borshLen c.depositSy < 2 ^ 32 by omega)
  obtain ⟨b₃, h₃⟩ := cpiContexts_writes
    (show vecLen CpiInterfaceContext.borshLen c.withdrawSy < 2 ^ 32 by omega)
  obtain ⟨b₅, h₅⟩ := cpiContexts_writes
    (show vecLen CpiInterfaceContext.borshLen c.getPositionState < 2 ^ 32 by omega)
  obtain ⟨b₄, h₄⟩ : ∃ bs, vecBytes cpiContextsBytes c.claimEmission = some bs := by
    have hlen := length_le_vecLen (vecLen CpiInterfaceContext.borshLen)
      (fun _ => Nat.lt_add_right _ (by decide)) c.claimEmission
    refine (Codec.writes_vec (c := CpiInterfaceContext.codec.vec)).2
      ⟨hlen.trans_lt (by omega), fun cs hcs => ?_⟩
    have hle : vecLen CpiInterfaceContext.borshLen cs
        ≤ vecLen (vecLen CpiInterfaceContext.borshLen) c.claimEmission :=
      (List.single_le_sum (fun _ _ => Nat.zero_le _) _ (List.mem_map_of_mem hcs)).trans
        (Nat.le_add_left _ _)
    exact cpiContexts_writes (by omega)
  refine ⟨b₁ ++ (b₂ ++ (b₃ ++ (b₄ ++ b₅))), ?_⟩
  show CpiAccounts.bytes c = _
  rw [bytes, h₁, h₂, h₃, h₄, h₅]
  rfl

theorem vecLen_const_lt {α : Type} {l : List α} {n m : Nat} (hn : 0 < n)
    (h : vecLen (fun _ => n) l < m) : l.length < m :=
  (length_le_vecLen _ (fun _ => hn) l).trans_lt h

theorem Vault.writes (k : VaultKeys) {v : Vault} (h : v.borshLen < 2 ^ 32) :
    Vault.codec.Writes (k, v) := by
  rw [borshLen] at h
  have hemissions : v.emissions.length < 2 ^ 32 :=
    vecLen_const_lt (n := 32 + 32 + 32 + 32 + 32 + 2 + 8) (by decide) (by omega)
  have hcpi : CpiAccounts.codec.Writes v.cpiAccounts := CpiAccounts.writes (by omega)
  simpa [codec, hcpi] using hemissions

theorem YieldTokenPosition.writes {p : YieldTokenPosition} (h : p.borshLen < 2 ^ 32) :
    YieldTokenPosition.codec.Writes p := by
  rw [borshLen] at h
  have hemissions : p.emissions.length < 2 ^ 32 :=
    vecLen_const_lt (n := 32 + 8) (by decide) (by omega)
  simpa [codec] using hemissions

/-- The prices of a market have a form. -/
def MarketTwo.Priced {N : Type} (P : PriceFormat N) (m : MarketTwo N) : Prop :=
  P.codec.Writes m.financials.lnFeeRateRoot ∧ P.codec.Writes m.financials.lastLnImpliedRate ∧
    P.codec.Writes m.financials.rateScalarRoot

theorem MarketTwo.writes {N : Type} {P : PriceFormat N} (k : MarketKeys) {m : MarketTwo N}
    (h : m.borshLen < 2 ^ 32) (hp : m.Priced P) : (MarketTwo.codec P).Writes (k, m) := by
  rw [borshLen] at h
  obtain ⟨hfee, hrate, hscalar⟩ := hp
  have hemissions : m.emissions.length < 2 ^ 32 :=
    vecLen_const_lt (n := 32 + 32 + 8) (by decide) (by omega)
  have hfarms : m.lpFarm.farmEmissions.length < 2 ^ 32 :=
    vecLen_const_lt (n := 32 + 8 + 4 + 32) (by decide) (by omega)
  have hcpi : CpiAccounts.codec.Writes m.cpiAccounts := CpiAccounts.writes (by omega)
  simpa [codec, MarketFinancials.codec, LpFarm.codec, hcpi, hfee, hrate, hscalar]
    using And.intro hemissions hfarms

theorem LpPosition.writes (market : Pubkey) {p : LpPosition} (h : p.borshLen < 2 ^ 32) :
    LpPosition.codec.Writes (market, p) := by
  rw [borshLen] at h
  have hemissions : p.emissions.length < 2 ^ 32 :=
    vecLen_const_lt (n := 32 + 8) (by decide) (by omega)
  have hfarms : p.farms.length < 2 ^ 32 :=
    vecLen_const_lt (n := 32 + 8) (by decide) (by omega)
  simpa [codec] using And.intro hemissions hfarms

/-! ## What has been loaded -/

theorem of_mapM_range'_eq_some {α : Type} {l : List α} {f : Nat → Option α} {n m : Nat}
    (h : (List.range' n m).mapM f = some l) :
    l.length = m ∧ ∀ i a, l[i]? = some a → f (n + i) = some a := by
  induction m generalizing n l with
  | zero =>
    obtain rfl := Option.some.inj h
    exact ⟨rfl, nofun⟩
  | succ m ih =>
    rw [List.range'_succ, List.mapM_cons] at h
    simp only [Option.bind_eq_bind, Option.bind_eq_some_iff, Option.pure_def,
      Option.some.injEq] at h
    obtain ⟨a, ha, as, has, rfl⟩ := h
    obtain ⟨hlen, hget⟩ := ih has
    refine ⟨congrArg Nat.succ hlen, fun i b hb => ?_⟩
    cases i with
    | zero => rwa [← Option.some.inj hb]
    | succ i =>
      rw [Nat.add_succ, ← Nat.succ_add]
      exact hget i b hb

theorem of_mapM_range_eq_some {α : Type} {l : List α} {f : Nat → Option α} {m : Nat}
    (h : (List.range m).mapM f = some l) :
    l.length = m ∧ ∀ i a, l[i]? = some a → f i = some a := by
  rw [List.range_eq_range'] at h
  obtain ⟨hlen, hget⟩ := of_mapM_range'_eq_some h
  exact ⟨hlen, fun i a ha => Nat.zero_add i ▸ hget i a ha⟩

theorem Elsewhere.ownPosition_eq_some {r : Elsewhere} {p : Option (Pubkey × LpPosition)}
    {q : LpPosition} : r.ownPosition p = some q ↔ p = some (r.marketAddress, q) := by
  unfold ownPosition
  simp only [Option.bind_eq_bind, Option.bind_eq_some_iff, Prod.exists]
  constructor
  · rintro ⟨market, position, rfl, h⟩
    split at h
    · rename_i hmarket
      rw [hmarket, Option.some.inj h]
    · cases h
  · rintro rfl
    exact ⟨_, _, rfl, if_pos rfl⟩

section
variable {N : Type} {r : Elsewhere} {k : AccountKeys} {s : ProgramState N}

/-- What is loaded is all there. -/
theorem Elsewhere.state_eq_some {vault : Option (VaultKeys × Vault)}
    {yieldPosition : Option YieldTokenPosition} {userPositions : Option (List YieldTokenPosition)}
    {market : Option (MarketKeys × MarketTwo N)} {lpPositions : Option (List LpPosition)}
    (h : r.state vault yieldPosition userPositions market lpPositions = some (k, s)) :
    vault = some (k.vault, s.vaultWorld.vault) ∧ yieldPosition = some s.vaultWorld.yieldPosition ∧
      userPositions = some s.vaultWorld.userPositions ∧
      market = some (k.market, s.lpWorld.market) ∧ lpPositions = some s.lpWorld.lpPositions ∧
      r = ⟨k.marketAddress, r.userPositions, r.lpPositions, s.vaultWorld.clock, s.lpWorld.clock,
        s.lpWorld.amountsClaimable, s.lpWorld.tokenFarm⟩ := by
  simp only [state, Option.bind_eq_bind, Option.bind_eq_some_iff, Prod.exists, Option.some.injEq,
    Prod.mk.injEq] at h
  obtain ⟨vk, v, rfl, y, rfl, us, rfl, mk, m, rfl, ls, rfl, rfl, rfl⟩ := h
  exact ⟨rfl, rfl, rfl, rfl, rfl, rfl⟩

theorem Elsewhere.of_assemble {p : (a : DataAccount) → Option (a.type.Holding N)}
    (h : r.assemble p = some (k, s)) :
    r = k.elsewhere s ∧ ∀ a v, k.part s a = some v → p a = some v := by
  obtain ⟨hv, hy, hus, hm, hls, hr⟩ := state_eq_some h
  obtain ⟨hulen, huser⟩ := of_mapM_range_eq_some hus
  obtain ⟨hllen, hlp⟩ := of_mapM_range_eq_some hls
  have hmarket : r.marketAddress = k.marketAddress := by rw [hr]
  constructor
  · rw [AccountKeys.elsewhere, hulen, hllen]
    exact hr
  · intro a x hx
    cases a with
    | vault =>
      obtain rfl := Option.some.inj hx
      exact hv
    | yieldPosition =>
      obtain rfl := Option.some.inj hx
      exact hy
    | userPosition i => exact huser i x hx
    | market =>
      obtain rfl := Option.some.inj hx
      exact hm
    | lpPosition i =>
      obtain ⟨q, hq, rfl⟩ := Option.map_eq_some_iff.1 hx
      have hown := ownPosition_eq_some.1 (hlp i q hq)
      rwa [hmarket] at hown

variable {T : Discriminators} {P : PriceFormat N} {d : AccountBytes}

/-- The bytes are those of what they are read as. -/
theorem AccountBytes.holds_of_load (h : d.load T P = some (k, s)) :
    (accountStorage T P).Holds d (Held.beside k ⟨s, fun a => (d.data a).length⟩) := by
  have hassemble : Elsewhere.assemble d.rest
      (fun a => (a.type.codec T P).load (d.data a)) = some (k, s) := h
  obtain ⟨hrest, hparts⟩ := Elsewhere.of_assemble hassemble
  exact ⟨hparts, fun _ => rfl, hrest⟩

/-- What is to be written has a form, where the data is short and the prices have one. -/
theorem exists_form {a : DataAccount} (hshort : s.size a < 2 ^ 32)
    (hprices : s.lpWorld.market.Priced P) : ∃ bs, (accountStorage T P).form (k, s) a = some bs := by
  cases a with
  | vault =>
    exact Codec.writes_tagged.2 (Vault.writes k.vault ((Nat.le_add_left _ _).trans_lt hshort))
  | yieldPosition =>
    exact Codec.writes_tagged.2
      (YieldTokenPosition.writes ((Nat.le_add_left _ _).trans_lt hshort))
  | market =>
    exact Codec.writes_tagged.2
      (MarketTwo.writes k.market ((Nat.le_add_left _ _).trans_lt hshort) hprices)
  | userPosition i =>
    cases hp : s.vaultWorld.userPositions[i]? with
    | none =>
      have hpart : (accountStorage T P).part (k, s) (.userPosition i) = none := hp
      exact ⟨[], by rw [Storage.form, hpart]⟩
    | some p =>
      have hpart : (accountStorage T P).part (k, s) (.userPosition i) = some p := hp
      rw [ProgramState.size, hp, Option.elim_some] at hshort
      rw [Storage.form, hpart]
      exact Codec.writes_tagged.2
        (YieldTokenPosition.writes ((Nat.le_add_left _ _).trans_lt hshort))
  | lpPosition i =>
    cases hp : s.lpWorld.lpPositions[i]? with
    | none =>
      have hpart : (accountStorage T P).part (k, s) (.lpPosition i) = none :=
        congrArg (Option.map _) hp
      exact ⟨[], by rw [Storage.form, hpart]⟩
    | some p =>
      have hpart : (accountStorage T P).part (k, s) (.lpPosition i)
          = some (k.marketAddress, p) := congrArg (Option.map _) hp
      rw [ProgramState.size, hp, Option.elim_some] at hshort
      rw [Storage.form, hpart]
      exact Codec.writes_tagged.2
        (LpPosition.writes k.marketAddress ((Nat.le_add_left _ _).trans_lt hshort))

end

/-! ## The format -/

/-- How long the fields of an account are. -/
def AccountType.borshLen {N : Type} : (t : AccountType) → t.Holding N → Nat
  | vault, p => p.2.borshLen
  | yieldTokenPosition, p => p.borshLen
  | marketTwo, p => p.2.borshLen
  | lpPosition, p => p.2.borshLen

theorem AccountType.sized_fields {N : Type} (P : PriceFormat N) (t : AccountType) :
    (t.fields P).Sized t.borshLen := by
  cases t with
  | vault => exact Vault.sized
  | yieldTokenPosition => exact YieldTokenPosition.sized
  | marketTwo => exact MarketTwo.sized P
  | lpPosition => exact LpPosition.sized

/-- **What the data of an account is read as**: the value whose form it begins with, after the
discriminator, whatever follows; and it is read as an account of one type only. -/
theorem account_loads_iff {N : Type} (T : Discriminators) (P : PriceFormat N) (t : AccountType)
    (data : List UInt8) :
    (∀ v, (t.codec T P).load data = some v ↔ ∃ bs rest, (t.fields P).write v = some bs ∧
      bs.length = t.borshLen v ∧ data = T.tag t ++ (bs ++ rest)) ∧
    ∀ t' v, t' ≠ t → (t.codec T P).load data = some v → (t'.codec T P).load data = none := by
  constructor
  · intro v
    rw [Codec.load_eq_some]
    constructor
    · rintro ⟨cs, hcs, rest, rfl⟩
      simp only [AccountType.codec, Codec.tagged, Option.bind_eq_bind, Option.bind_eq_some_iff,
        Option.some.injEq] at hcs
      obtain ⟨bs, hbs, rfl⟩ := hcs
      exact ⟨bs, rest, hbs, t.sized_fields P v bs hbs, List.append_assoc ..⟩
    · rintro ⟨bs, rest, hbs, -, rfl⟩
      refine ⟨T.tag t ++ bs, ?_, rest, List.append_assoc ..⟩
      simp only [AccountType.codec, Codec.tagged, hbs]
      rfl
  · intro t' v hne hload
    have htag : T.tag t ≠ T.tag t' := fun heq => hne (T.injective heq).symm
    exact Codec.load_tagged_ne ((T.length_tag t).trans (T.length_tag t').symm) htag hload

/-! ## Runs -/

section
variable {N : Type} [Num N] {T : Discriminators} {P : PriceFormat N} {k : AccountKeys}
  {h : AccountData N} {i : Instruction} {s : ProgramState N}

omit [Num N] in
/-- What has room in short data, and prices with a form, has a form. -/
theorem formed_of_short (hroom : (accountLayout N).Room h i s)
    (hshort : ∀ a, (accountLayout N).resized h i a < 2 ^ 32) (hprices : s.lpWorld.market.Priced P) :
    (accountStorage T P).Formed ((accountLayout N).beside AccountKeys) (h.beside k) i (k, s) := by
  intro x hx
  obtain ⟨y, hy, hxy, hlen⟩ := Layout.exists_resized (L := accountLayout N) (h := h) (i := i)
    (List.mem_map_of_mem hx)
  have hfits : s.size x.1 ≤ (accountLayout N).resized h i x.1 := by
    rw [hlen, ← hxy]
    exact hroom y hy
  exact exists_form (hfits.trans_lt (hshort x.1)) hprices

/-- **The machine on bytes is the one on values**: from any bytes that load, a run leaves bytes that
load to what the run on values leaves of the instructions that went through, with the keys as they
were. As long as prices have a form and no data reaches four gigabytes, these are all
instructions: the run on values is the same. -/
theorem bytes_run (T : Discriminators) (P : PriceFormat N) (fresh : Nat → UInt8) (d : AccountBytes)
    (k : AccountKeys) (s : ProgramState N) (hd : d.load T P = some (k, s))
    (is : List Instruction) :
    let h : AccountData N := ⟨s, fun a => (d.data a).length⟩
    let d' := run (AccountBytes.step T P fresh) d is
    (∃ js : List Instruction, js.Sublist is ∧
      d'.load T P = some (k, (run AccountData.step h js).state) ∧
      ∀ a, (d'.data a).length = (run AccountData.step h js).dataLen a) ∧
    (Admits AccountData.step (Accepted AccountData.step fun _ _ h' =>
        h'.state.lpWorld.market.Priced P ∧ ∀ a, h'.dataLen a < 2 ^ 32) h is →
      d'.load T P = some (k, (run AccountData.step h is).state) ∧
      ∀ a, (d'.data a).length = (run AccountData.step h is).dataLen a) := by
  intro h d'
  have hholds := AccountBytes.holds_of_load hd
  have hlawful := accountStorage_lawful T P
  constructor
  · obtain ⟨js, hsub, hrun⟩ := hholds.exists_run fresh is hlawful
    rw [run_beside] at hrun
    exact ⟨js, hsub, hrun.load, hrun.lengths⟩
  · intro hadm
    have hformed : Admits (((accountLayout N).beside AccountKeys).step (beside ProgramState.step))
        (Accepted (((accountLayout N).beside AccountKeys).step (beside ProgramState.step))
          fun z i z' => (accountStorage T P).Formed ((accountLayout N).beside AccountKeys) z i
            z'.state) (Held.beside k h) is := by
      refine admits_beside.2 (hadm.mono fun z i hz z' hstep => ?_)
      rw [step_beside] at hstep
      obtain ⟨z₁, hz₁, rfl⟩ := map_eq_ok.1 hstep
      obtain ⟨hprices, hshort⟩ := hz z₁ hz₁
      obtain ⟨s₁, -, hroom, rfl⟩ := Layout.step_eq_ok.1 hz₁
      exact formed_of_short hroom hshort hprices
    have hrun := hholds.run fresh hlawful hformed
    rw [run_beside] at hrun
    exact ⟨hrun.load, hrun.lengths⟩

/-- Accounts as they are created load. -/
theorem load_create (fresh : Nat → UInt8) (hfits : (accountLayout N).Fits h)
    (hshort : ∀ a, h.dataLen a < 2 ^ 32) (hprices : h.state.lpWorld.market.Priced P) :
    AccountBytes.load T P ((accountStorage T P).create fresh (h.beside k)) = some (k, h.state) := by
  have hform (a : DataAccount) : ∃ bs, (accountStorage T P).form (h.beside k).state a = some bs :=
    exists_form ((hfits a).trans_lt (hshort a)) hprices
  have hfits' : ((accountLayout N).beside AccountKeys).Fits (h.beside k) := hfits
  have hholds := Storage.holds_create fresh (accountStorage_lawful T P) hfits' hform
  exact hholds.load

end

/-! ## A new vault and a new market -/

/-- The first bytes of the hashes of `account:Vault` and so on. -/
def anchorDiscriminators : Discriminators where
  tag
    | .vault => [211, 8, 232, 43, 2, 152, 117, 119]
    | .yieldTokenPosition => [227, 92, 146, 49, 29, 85, 71, 94]
    | .marketTwo => [212, 4, 132, 126, 169, 121, 121, 20]
    | .lpPosition => [105, 241, 37, 200, 224, 2, 252, 90]
  length_tag t := by cases t <;> rfl
  injective t t' h := by
    cases t <;> cases t' <;> first | rfl | exact absurd h (by decide)

/-- Prices that are whole numbers, in eight bytes. -/
def wholeBytes : Exact ℚ → Option (List UInt8)
  | .num q =>
    if q.den = 1 ∧ 0 ≤ q.num ∧ q.num < 2 ^ 64 then some (u64Bytes (UInt64.ofNat q.num.toNat))
    else none
  | .nan => none

theorem wholeBytes_eq_some {a : Exact ℚ} {bs : List UInt8} :
    wholeBytes a = some bs ↔ ∃ n : UInt64, a = .num (n.toNat : ℚ) ∧ bs = u64Bytes n := by
  cases a with
  | nan => simp [wholeBytes]
  | num q =>
    simp only [wholeBytes, Option.ite_none_right_eq_some, Option.some.injEq, Exact.num.injEq]
    constructor
    · rintro ⟨⟨hden, hnonneg, hlt⟩, rfl⟩
      refine ⟨_, ?_, rfl⟩
      rw [UInt64.toNat_ofNat_of_lt' (by show q.num.toNat < 2 ^ 64; omega)]
      calc q = (q.num : ℚ) := ((Rat.den_eq_one_iff q).1 hden).symm
        _ = ((q.num.toNat : ℤ) : ℚ) := by rw [Int.toNat_of_nonneg hnonneg]
        _ = (q.num.toNat : ℚ) := Int.cast_natCast _
    · rintro ⟨n, rfl, rfl⟩
      have hn := n.toNat_lt
      refine ⟨⟨Rat.den_natCast .., by simp, ?_⟩, ?_⟩
      · rw [Rat.num_natCast]
        exact_mod_cast hn
      · rw [Rat.num_natCast, Int.toNat_natCast, UInt64.ofNat_toNat]

def wholePrices : PriceFormat (Exact ℚ) where
  codec :=
    { read := (fun n : UInt64 => .num (n.toNat : ℚ)) <$> u64
      write := wholeBytes
      formats := by
        intro input a rest
        simp only [Borsh.run_map, run_u64, wholeBytes_eq_some]
        constructor
        · rintro ⟨n, rfl, rfl⟩
          exact ⟨_, ⟨n, rfl, rfl⟩, rfl⟩
        · rintro ⟨_, ⟨n, rfl, rfl⟩, rfl⟩
          exact ⟨n, rfl, rfl⟩ }
  sized a bs hbs := by
    obtain ⟨n, -, rfl⟩ := wholeBytes_eq_some.1 hbs
    exact length_leBytes 8 _

/-- Keys of a vault and a market. -/
def sampleKeys : AccountKeys where
  vault := ⟨1, 2, 3, 4, 5, 6, 7, 8, 9, 10, 255, 11⟩
  market := ⟨8, 4, 2, 12, 13, 14, 15, 16, 17, 18, 254, 1, 1⟩
  marketAddress := 18

/-- A new vault and a new market are created, and `AccountData.listedFirst` runs on their bytes. -/
theorem bytes_run_listedFirst :
    let h := AccountData.created ⟨0, 1000, 0, {}, 0, 0, 0, 0⟩ AccountData.sampleMarket
    ∃ d : AccountBytes, d.load anchorDiscriminators wholePrices = some (sampleKeys, h.state) ∧
      ∃ js : List Instruction, js.Sublist AccountData.listedFirst ∧
        (run (AccountBytes.step anchorDiscriminators wholePrices fun _ => 0) d
            AccountData.listedFirst).load anchorDiscriminators wholePrices
          = some (sampleKeys,
            (run AccountData.step ⟨h.state, fun a => (d.data a).length⟩ js).state) := by
  intro h
  have hsound := AccountData.sound_created ⟨0, 1000, 0, {}, 0, 0, 0, 0⟩ AccountData.sampleMarket
    ⟨rfl, rfl, rfl, rfl⟩
  have hshort (a : DataAccount) : h.dataLen a < 2 ^ 32 := by
    cases a with
    | vault | yieldPosition | market => exact of_decide_eq_true rfl
    | userPosition | lpPosition => exact Nat.two_pow_pos 32
  have hone : wholePrices.codec.Writes (.num 1) :=
    ⟨_, wholeBytes_eq_some.2 ⟨1, congrArg Exact.num Nat.cast_one.symm, rfl⟩⟩
  have hload := load_create (T := anchorDiscriminators) (P := wholePrices) (k := sampleKeys)
    (fun _ => 0) hsound.fits hshort ⟨hone, hone, hone⟩
  obtain ⟨⟨js, hsub, hrun, -⟩, -⟩ := bytes_run anchorDiscriminators wholePrices (fun _ => 0) _ _ _
    hload AccountData.listedFirst
  exact ⟨_, hload, js, hsub, hrun⟩

end ExponentCore
