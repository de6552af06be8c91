import ExponentCore.Num.Proof.PreciseNumber
import ExponentCore.Program.Format
import ExponentCore.Program.Proof.SelfCpi

/-!
# What the dispatcher accepts

Each reader of a parameter accepts what its writer writes and nothing else. So does the reader of
each declared instruction (`declared_sound`, `declared_complete`), and with discriminators that do
not clash the dispatcher: `dispatch_iff`.
-/

set_option autoImplicit false

namespace ExponentCore

open Borsh DeclaredInstruction

/-! ## Parameters -/

section
variable {input rest : List UInt8}

theorem formats_f64 : Formats readF64 f64Bytes := by
  intro input bits rest
  rw [readF64, run_bind]
  constructor
  · rintro ⟨n, mid, h, h'⟩
    obtain rfl := run_u64.1 h
    split at h'
    · exact absurd h' run_fail
    · rename_i hnan
      obtain ⟨rfl, rfl⟩ := run_pure.1 h'
      exact ⟨_, if_neg hnan, rfl⟩
  · rintro ⟨bs, hbs, rfl⟩
    rw [f64Bytes] at hbs
    split at hbs
    · cases hbs
    · rename_i hnan
      obtain rfl := Option.some.inj hbs
      refine ⟨bits, rest, run_u64.2 rfl, ?_⟩
      rw [if_neg hnan]
      exact run_pure.2 ⟨rfl, rfl⟩

theorem run_number {a : Number} :
    readNumber.run input = some (a, rest) ↔ input = a.bytes ++ rest := by
  simp only [readNumber, run_bind, run_nat, run_ofOption, Number.ofRaw_eq_some]
  constructor
  · rintro ⟨n, mid, ⟨-, rfl⟩, rfl, rfl⟩
    rfl
  · rintro rfl
    exact ⟨a.raw, rest, ⟨a.isLt.trans_eq (by norm_num), rfl⟩, rfl, rfl⟩

theorem run_pubkey {key : Pubkey} :
    readPubkey.run input = some (key, rest) ↔ input = pubkeyBytes key ++ rest := by
  simp only [readPubkey, run_map, run_nat]
  constructor
  · rintro ⟨n, ⟨hn, rfl⟩, rfl⟩
    rw [pubkeyBytes, BitVec.toNat_ofNat, Nat.mod_eq_of_lt (hn.trans_eq (by norm_num))]
  · rintro rfl
    exact ⟨key.toNat, ⟨key.isLt.trans_eq (by norm_num), rfl⟩, BitVec.ofNat_toNat ..⟩

theorem formats_cpiInterfaceContext :
    Formats readCpiInterfaceContext fun c => some c.bytes := by
  rintro input ⟨altIndex, isSigner, isWritable⟩ rest
  simp only [run_iff_gets, readCpiInterfaceContext, gets_seq, gets_map, gets_u8, gets_bool]
  simp [CpiInterfaceContext.bytes, -Bool.exists_bool]

theorem formats_cpiContexts : Formats (vec readCpiInterfaceContext) cpiContextsBytes :=
  formats_cpiInterfaceContext.vec

theorem formats_cpiAccounts : Formats readCpiAccounts CpiAccounts.bytes := by
  rintro input ⟨getSyState, depositSy, withdrawSy, claimEmission, getPositionState⟩ rest
  simp only [run_iff_gets, readCpiAccounts, gets_seq, gets_map, formats_cpiContexts.gets,
    formats_cpiContexts.vec.gets, CpiAccounts.bytes, Option.bind_eq_bind,
    Option.bind_eq_some_iff, Option.some.injEq]
  constructor
  · rintro ⟨_, _, _, h₅, rfl, _, _, _, h₄, rfl, _, _, _, h₃, rfl, _, _, _, h₂, rfl, _, _, h₁, rfl,
      h⟩
    cases h
    exact ⟨_, ⟨_, h₁, _, h₂, _, h₃, _, h₄, _, h₅, rfl⟩, by simp only [List.append_assoc]⟩
  · rintro ⟨_, ⟨_, h₁, _, h₂, _, h₃, _, h₄, _, h₅, rfl⟩, rfl⟩
    exact ⟨_, _, _, h₅, rfl, _, _, _, h₄, rfl, _, _, _, h₃, rfl, _, _, _, h₂, rfl, _, _, h₁,
      by simp only [List.append_assoc], rfl⟩

@[simp] theorem gets_pubkey {q : Pubkey → Prop} :
    Gets readPubkey input rest q ↔ ∃ key, input = pubkeyBytes key ++ rest ∧ q key := by
  simp only [Gets, run_pubkey]

@[simp] theorem gets_number {q : Number → Prop} :
    Gets readNumber input rest q ↔ ∃ a, input = a.bytes ++ rest ∧ q a := by
  simp only [Gets, run_number]

theorem run_amount {amount : Amount} :
    readAmount.run input = some (amount, rest) ↔ input = amount.bytes ++ rest := by
  rw [readAmount, run_bind]
  constructor
  · rintro ⟨tag, mid, h, h'⟩
    obtain rfl := run_u8.1 h
    split at h'
    · obtain ⟨rfl, rfl⟩ := run_pure.1 h'
      rfl
    · obtain ⟨n, hn, rfl⟩ := run_map.1 h'
      rw [run_u64.1 hn]
      rfl
    · exact absurd h' run_fail
  · rintro rfl
    cases amount with
    | all => exact ⟨0, rest, run_u8.2 rfl, run_pure.2 ⟨rfl, rfl⟩⟩
    | some n => exact ⟨1, _, run_u8.2 rfl, run_map.2 ⟨n, run_u64.2 rfl, rfl⟩⟩

@[simp] theorem gets_amount {q : Amount → Prop} :
    Gets readAmount input rest q ↔ ∃ amount, input = amount.bytes ++ rest ∧ q amount := by
  simp only [Gets, run_amount]

theorem run_collectTreasuryEmissionKind {kind : CollectTreasuryEmissionKind} :
    readCollectTreasuryEmissionKind.run input = some (kind, rest) ↔
      input = kind.bytes ++ rest := by
  rw [readCollectTreasuryEmissionKind, run_bind]
  constructor
  · rintro ⟨tag, mid, h, h'⟩
    obtain rfl := run_u8.1 h
    split at h'
    · obtain ⟨rfl, rfl⟩ := run_pure.1 h'
      rfl
    · obtain ⟨rfl, rfl⟩ := run_pure.1 h'
      rfl
    · exact absurd h' run_fail
  · rintro rfl
    cases kind with
    | yieldPosition => exact ⟨0, rest, run_u8.2 rfl, run_pure.2 ⟨rfl, rfl⟩⟩
    | treasuryEmission => exact ⟨1, rest, run_u8.2 rfl, run_pure.2 ⟨rfl, rfl⟩⟩

@[simp] theorem gets_collectTreasuryEmissionKind {q : CollectTreasuryEmissionKind → Prop} :
    Gets readCollectTreasuryEmissionKind input rest q ↔
      ∃ kind, input = kind.bytes ++ rest ∧ q kind := by
  simp only [Gets, run_collectTreasuryEmissionKind]

theorem run_collectTreasuryInterestKind {kind : CollectTreasuryInterestKind} :
    readCollectTreasuryInterestKind.run input = some (kind, rest) ↔
      input = kind.bytes ++ rest := by
  rw [readCollectTreasuryInterestKind, run_bind]
  constructor
  · rintro ⟨tag, mid, h, h'⟩
    obtain rfl := run_u8.1 h
    split at h'
    · obtain ⟨rfl, rfl⟩ := run_pure.1 h'
      rfl
    · obtain ⟨rfl, rfl⟩ := run_pure.1 h'
      rfl
    · exact absurd h' run_fail
  · rintro rfl
    cases kind with
    | yieldPosition => exact ⟨0, rest, run_u8.2 rfl, run_pure.2 ⟨rfl, rfl⟩⟩
    | treasuryInterest => exact ⟨1, rest, run_u8.2 rfl, run_pure.2 ⟨rfl, rfl⟩⟩

@[simp] theorem gets_collectTreasuryInterestKind {q : CollectTreasuryInterestKind → Prop} :
    Gets readCollectTreasuryInterestKind input rest q ↔
      ∃ kind, input = kind.bytes ++ rest ∧ q kind := by
  simp only [Gets, run_collectTreasuryInterestKind]

theorem formats_adminAction : Formats readAdminAction AdminAction.bytes := by
  intro input action rest
  rw [readAdminAction, run_bind]
  constructor
  · rintro ⟨tag, mid, h, h'⟩
    obtain rfl := run_u8.1 h
    split at h'
    case h_12 => exact absurd h' run_fail
    all_goals
      revert h'
      simp only [run_iff_gets, gets_seq, gets_map, gets_u8, gets_u16, gets_u32, gets_u64,
        gets_bool, gets_pubkey, formats_cpiAccounts.gets, forall_exists_index, and_imp]
      intros
      subst_vars
      simp [AdminAction.bytes, *]
  · rintro ⟨_, h, rfl⟩
    cases action
    case changeCpiAccounts =>
      obtain ⟨bs, hbs, h⟩ := Option.bind_eq_some_iff.1 h
      obtain rfl := Option.some.inj h
      exact ⟨6, _, run_u8.2 rfl, run_map.2 ⟨_, (formats_cpiAccounts _ _ _).2 ⟨bs, hbs, rfl⟩, rfl⟩⟩
    all_goals
      obtain rfl := Option.some.inj h
      refine ⟨_, _, run_u8.2 rfl, ?_⟩
      rw [run_iff_gets]
      simp [-Bool.exists_bool]

theorem formats_marketAdminAction : Formats readMarketAdminAction MarketAdminAction.bytes := by
  intro input action rest
  rw [readMarketAdminAction, run_bind]
  constructor
  · rintro ⟨tag, mid, h, h'⟩
    obtain rfl := run_u8.1 h
    split at h'
    case h_10 => exact absurd h' run_fail
    all_goals
      revert h'
      simp only [run_iff_gets, gets_seq, gets_map, gets_u8, gets_u16, gets_u32, gets_u64,
        gets_pubkey, formats_f64.gets, formats_cpiAccounts.gets, forall_exists_index, and_imp]
      intros
      subst_vars
      simp [MarketAdminAction.bytes, *]
  · rintro ⟨_, h, rfl⟩
    cases action
    case changeLnFeeRateRoot =>
      obtain ⟨bs, hbs, h⟩ := Option.bind_eq_some_iff.1 h
      obtain rfl := Option.some.inj h
      exact ⟨3, _, run_u8.2 rfl, run_map.2 ⟨_, (formats_f64 _ _ _).2 ⟨bs, hbs, rfl⟩, rfl⟩⟩
    case changeRateScalarRoot =>
      obtain ⟨bs, hbs, h⟩ := Option.bind_eq_some_iff.1 h
      obtain rfl := Option.some.inj h
      exact ⟨4, _, run_u8.2 rfl, run_map.2 ⟨_, (formats_f64 _ _ _).2 ⟨bs, hbs, rfl⟩, rfl⟩⟩
    case changeCpiAccounts =>
      obtain ⟨bs, hbs, h⟩ := Option.bind_eq_some_iff.1 h
      obtain rfl := Option.some.inj h
      exact ⟨5, _, run_u8.2 rfl, run_map.2 ⟨_, (formats_cpiAccounts _ _ _).2 ⟨bs, hbs, rfl⟩, rfl⟩⟩
    all_goals
      obtain rfl := Option.some.inj h
      refine ⟨_, _, run_u8.2 rfl, ?_⟩
      rw [run_iff_gets]
      simp

end

/-! ## Instructions -/

/-- What a declared instruction reads is what is sent for it, after its discriminator. -/
theorem declared_sound {d : DeclaredInstruction} {i : CoreInstruction} {input rest : List UInt8}
    (hd : d ∈ declared) (h : d.params.run input = some (i, rest)) :
    ∃ bs, i.bytes = some (d.discriminator ++ bs) ∧ input = bs ++ rest := by
  revert h
  simp only [declared, List.mem_cons, List.not_mem_nil, or_false] at hd
  rcases hd with rfl | rfl | rfl | rfl | rfl | rfl | rfl | rfl | rfl | rfl | rfl | rfl | rfl | rfl |
    rfl | rfl | rfl | rfl | rfl | rfl | rfl | rfl | rfl | rfl | rfl | rfl | rfl | rfl | rfl | rfl |
    rfl | rfl | rfl | rfl | rfl | rfl | rfl | rfl | rfl | rfl | rfl | rfl
  all_goals
    simp only [run_iff_gets, gets_pure, gets_seq, gets_map, gets_u8, gets_u16, gets_u32, gets_u64,
      gets_i64, gets_number, gets_amount, gets_collectTreasuryEmissionKind,
      gets_collectTreasuryInterestKind, formats_f64.gets, formats_string.gets,
      formats_cpiAccounts.gets, formats_adminAction.gets, formats_marketAdminAction.gets,
      forall_exists_index, and_imp]
    intros
    subst_vars
    simp [CoreInstruction.bytes, *]

/-- The declared instructions are in the order of `CoreInstruction`. -/
theorem declared_complete {i : CoreInstruction} {bs : List UInt8} (h : i.bytes = some bs) :
    ∃ d, declared[i.ctorIdx]? = some d ∧
      ∃ body, bs = d.discriminator ++ body ∧ Reads d.params body i := by
  cases i
  all_goals
    simp only [CoreInstruction.bytes, Option.bind_eq_bind, Option.bind_eq_some_iff,
      Option.some.injEq] at h
  case initializeVault =>
    obtain ⟨_, h₁, _, h₂, _, h₃, _, h₄, rfl⟩ := h
    refine ⟨_, rfl, _, rfl, fun rest => ?_⟩
    rw [run_iff_gets]
    simp [formats_cpiAccounts.gets, formats_string.gets, h₁, h₂, h₃, h₄]
  case initMarketTwo =>
    obtain ⟨_, h₁, _, h₂, _, h₃, _, h₄, rfl⟩ := h
    refine ⟨_, rfl, _, rfl, fun rest => ?_⟩
    rw [run_iff_gets]
    simp [formats_cpiAccounts.gets, formats_f64.gets, h₁, h₂, h₃, h₄]
  case addLpTokensMetadata =>
    obtain ⟨_, h₁, _, h₂, _, h₃, rfl⟩ := h
    refine ⟨_, rfl, _, rfl, fun rest => ?_⟩
    rw [run_iff_gets]
    simp [formats_string.gets, h₁, h₂, h₃]
  case addEmission | addMarketEmission | modifyVaultSetting | modifyMarketSetting =>
    obtain ⟨_, h₁, rfl⟩ := h
    refine ⟨_, rfl, _, rfl, fun rest => ?_⟩
    rw [run_iff_gets]
    simp [formats_cpiAccounts.gets, formats_adminAction.gets, formats_marketAdminAction.gets, h₁]
  all_goals
    subst h
    refine ⟨_, rfl, _, rfl, fun rest => ?_⟩
    rw [run_iff_gets]
    simp

/-- **The dispatcher accepts what clients send and nothing else**, and finds the instruction that was
sent with its arguments. Bytes after it are left alone. -/
theorem dispatch_iff (data rest : List UInt8) (i : CoreInstruction) :
    dispatch data = .ok (i, rest) ↔ ∃ bs, i.bytes = some bs ∧ data = bs ++ rest := by
  constructor
  · intro h
    rw [dispatch] at h
    split at h
    · cases h
    · rename_i d hfind
      have hprefix : d.discriminator.isPrefixOf data = true := by simpa using List.find?_some hfind
      obtain ⟨body, rfl⟩ := List.isPrefixOf_iff_prefix.1 hprefix
      rw [List.drop_left] at h
      split at h
      · rename_i r hrun
        obtain rfl := Except.ok.inj h
        obtain ⟨bs, hbs, rfl⟩ := declared_sound (List.mem_of_find?_eq_some hfind) hrun
        exact ⟨_, hbs, (List.append_assoc ..).symm⟩
      · cases h
  · rintro ⟨bs, hbs, rfl⟩
    obtain ⟨d, hd, body, rfl, hread⟩ := declared_complete hbs
    rw [List.append_assoc, dispatch, find?_declared (List.mem_of_getElem? hd)]
    simp only [List.drop_left, hread rest]

end ExponentCore
