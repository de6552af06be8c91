import ExponentCore.Market.Proof.AccountCalls
import ExponentCore.Market.Proof.AccountRoom

/-!
# Which accounts are long enough

A vault, its own position and a market always fit: users do not change the lengths of their lists,
and whoever lists something resizes the accounts for it. The positions of users do not. Their
trackers are only ever added to, and

* `deposit_yt`, `withdraw_yt` and `stage_yield`, `market_deposit_lp` and `market_withdraw_lp` resize
  the position for the list as it is, so a position that has a tracker for an emission taken off
  since no longer fits;
* `collect_interest` stages without resizing, so a position is too short for an emission listed
  since.

From the frame rule and `room_iff`, `accounts_fit_iff` has the condition on runs.
-/

set_option autoImplicit false

namespace ExponentCore

open Cached Machine

/-! ## The accounts fit their data -/

namespace AccountData

section
variable {N : Type} [Num N]

/-- **Accounts fit**: every account is long enough throughout for what it holds, and what the
handler of a user's instruction leaves in the accounts that it writes fits them. -/
def AccountsFit (h : AccountData N) (is : List Instruction) : Prop :=
  Throughout AccountData.step (accountLayout N).Fits h is ∧
    Admits AccountData.step (fun h i => i.isUser = true → h.WritesBack i) h is

/-- If the handler succeeds, there is room for the trackers. -/
def RunsInRoom (h : AccountData N) (i : Instruction) : Prop :=
  Accepted ProgramState.step (fun _ _ _ => h.HasRoom i) h.state i

instance (h : AccountData N) (i : Instruction) : Decidable (h.RunsInRoom i) :=
  inferInstanceAs (Decidable (Accepted ProgramState.step (fun _ _ _ => h.HasRoom i) h.state i))

instance (h : AccountData N) (i : Instruction) : Decidable (h.WritesBack i) :=
  inferInstanceAs (Decidable (Accepted ProgramState.step
    (fun _ i s => (accountLayout N).Room h i s) h.state i))

variable {h : AccountData N} {i : Instruction}

omit [Num N] in
theorem hasRoom_of_admin (hi : i.isUser = false) : h.HasRoom i := by
  cases i with
  | vault op => cases op <;> trivial
  | lp op => cases op <;> trivial
  | changeClaimLimits | changeVaultCpiAccounts | changeMarketCpiAccounts | tradePt
  | depositLiquidity | withdrawLiquidity | edit => trivial

theorem writesBack_iff (hs : h.Sound) :
    (i.isUser = true → h.WritesBack i) ↔ h.RunsInRoom i := by
  cases hi : i.isUser with
  | true =>
    constructor
    · intro hback s hstep
      exact (room_iff hs hi hstep).1 (hback rfl s hstep)
    · intro hroom _ s hstep
      exact (room_iff hs hi hstep).2 (hroom s hstep)
  | false =>
    constructor
    · intro _ s _
      exact hasRoom_of_admin hi
    · intro _ huser
      cases huser

/-- **When accounts fit their data**: from a new vault and a new market on, exactly if there is room
for the trackers at every instruction whose handler succeeds. The transactions of users are such
instructions, one after the other. -/
theorem accounts_fit_iff (args : InitializeVaultArgs) (w : LpWorld N) (hw : w.Fresh) :
    (∀ is : List Instruction, AccountsFit (created args w) is ↔
      Admits AccountData.step RunsInRoom (created args w) is) ∧
    ∀ (b b' : Bank N) (op : BankOp), b.step op = .ok b' → ∃ is : List Instruction,
      is.foldlM ProgramState.step b.programState = .ok b'.programState ∧
        ∀ i ∈ is, i.isUser = true ∨ op.direct = some i := by
  have hsound := sound_created args w hw
  have hstep (h : AccountData N) (i : Instruction) (h' : AccountData N) (hs : h.Sound)
      (hok : AccountData.step h i = .ok h') : h'.Sound := hs.step hok
  refine ⟨fun is => ?_, fun b b' op h => Bank.instructions_of_step h⟩
  have hcongr : Admits AccountData.step (fun h i => i.isUser = true → h.WritesBack i)
      (created args w) is ↔ Admits AccountData.step RunsInRoom (created args w) is :=
    admits_congr_of_inv hstep (fun _ _ hs => writesBack_iff hs) hsound
  constructor
  · rintro ⟨-, hback⟩
    exact hcongr.1 hback
  · intro hroom
    refine ⟨?_, hcongr.2 hroom⟩
    exact (throughout_of_step (fun h i h' hs _ => hstep h i h' hs) hsound admits_true).mono
      fun _ hs => hs.fits

end

/-- A new market, with prices that the lengths do not depend on. -/
def sampleMarket : LpWorld (Exact ℚ) where
  market :=
    { feeTreasurySyBps := 0, statusFlags := 0b00111111, maxLpSupply := 0xffffffffffffffff
      financials := ⟨1000, 100, 100, .num 1, .num 1, .num 1⟩, cpiAccounts := {}
      liquidityNetBalanceLimits := ⟨0, 0, 10000, 0xffffffff, 0⟩ }
  lpPositions := []
  amountsClaimable := []
  tokenFarm := fun _ => 0
  clock := 0

/-- The vault and the market list their emissions before anybody opens a position. -/
def listedFirst : List Instruction :=
  [.vault (.addEmission {} ⟨1, [0]⟩ 0 0 0), .lp (.addMarketEmission {} 7),
    .vault (.initializeYieldPosition 1 0), .lp (.initLpPosition 1), .vault (.strip 1 ⟨1, [1]⟩ 100),
    .lp (.depositLp 10 0 100), .vault (.depositYt 2 ⟨1, [1]⟩ 0 100),
    .vault (.collectInterest 2 0 .all)]

theorem accounts_fit_iff_listedFirst :
    AccountsFit (created ⟨0, 1000, 0, {}, 0, 0, 0, 0⟩ sampleMarket) listedFirst ∧
      ∃ b p, sampleBank = .ok b ∧ sampleWrapper.run b = .ok p ∧ ∃ is : List Instruction,
        is.foldlM ProgramState.step b.programState = .ok p.1.programState ∧
          ∀ i ∈ is, i.isUser = true ∨ (BankOp.wrapper sampleWrapper).direct = some i := by
  obtain ⟨hiff, hbank⟩ :=
    accounts_fit_iff ⟨0, 1000, 0, {}, 0, 0, 0, 0⟩ sampleMarket ⟨rfl, rfl, rfl, rfl⟩
  constructor
  · exact (hiff listedFirst).2 (by decide +kernel)
  · obtain ⟨b, hb, -, p, hrun, -⟩ := sampleWrapper_run
    refine ⟨b, p, hb, hrun, hbank b p.1 (.wrapper sampleWrapper) ?_⟩
    show (sampleWrapper.run b >>= _) = _
    rw [hrun]
    rfl

/-- A position is opened while the vault lists no emissions, and then it lists one. -/
def lateEmission : List Instruction :=
  [.vault (.strip 1 ⟨1, []⟩ 100), .vault (.initializeYieldPosition 1 0),
    .vault (.addEmission {} ⟨1, [1]⟩ 0 0 0)]

/-- A position has a tracker for the only emission of the vault, which is then taken off. -/
def removedEmission : List Instruction :=
  [.vault (.addEmission {} ⟨1, [0]⟩ 0 0 0), .vault (.initializeYieldPosition 1 0),
    .vault (.strip 1 ⟨1, [1]⟩ 100), .vault (.depositYt 2 ⟨1, [1]⟩ 0 100),
    .vault (.removeVaultEmission 0)]

/-- Neither can the holder of the first position collect interest, for whose tracker the data has no
room, nor that of the second withdraw YT, whose data is resized to less than the position. -/
theorem not_accounts_fit_lateEmission :
    let h := created ⟨0, 1000, 0, {}, 0, 0, 0, 0⟩ sampleMarket
    let late := run AccountData.step h lateEmission
    let removed := run AccountData.step h removedEmission
    ¬ AccountsFit h (lateEmission ++ [.vault (.collectInterest 3 0 .all)]) ∧
    ¬ AccountsFit h (removedEmission ++ [.vault (.withdrawYt 3 ⟨1, []⟩ 0 100)]) ∧
    (∃ s, late.state.step (.vault (.collectInterest 3 0 .all)) = .ok s ∧
      late.dataLen (.userPosition 0) < s.size (.userPosition 0)) ∧
    ∃ s, removed.state.step (.vault (.withdrawYt 3 ⟨1, []⟩ 0 100)) = .ok s ∧
      YieldTokenPosition.sizeOf removed.state.vaultWorld.vault.emissions.length
        < s.size (.userPosition 0) := by
  refine ⟨fun h => ?_, fun h => ?_, by decide +kernel, by decide +kernel⟩
  · have hback := (admits_append.1 h.2).2.1 rfl
    exact absurd hback (by decide +kernel)
  · have hback := (admits_append.1 h.2).2.1 rfl
    exact absurd hback (by decide +kernel)

end AccountData

end ExponentCore
