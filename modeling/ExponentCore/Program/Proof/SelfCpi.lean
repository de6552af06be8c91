import ExponentCore.Program.Instructions

/-!
# The instructions that the program sends to itself

`declared_noClash`: no data starts with the discriminators of two declared instructions, so that
`dispatch_of_declared` finds the instruction whose discriminator begins the data, and its parameters
are read from the rest. With it `doCpi_dispatch` follows each encoder of `self_cpi.rs` to the
instruction that receives its data: the one meant, with the same arguments, and no byte left over.

`Call.receive_data` and `FlashSwap.receive_data` carry this to the calls of handlers: an instruction
called through its data runs as called with its arguments, which is how `Call.act` and
`FlashSwap.act` have it.
-/

set_option autoImplicit false

namespace ExponentCore

open Borsh

/-! ## Discriminators -/

namespace DeclaredInstruction

/-- Some data selects both instructions. -/
def Clash (d d' : DeclaredInstruction) : Prop :=
  ∃ data, d.discriminator <+: data ∧ d'.discriminator <+: data

theorem clash_iff {d d' : DeclaredInstruction} :
    Clash d d' ↔ d.discriminator <+: d'.discriminator ∨ d'.discriminator <+: d.discriminator := by
  constructor
  · rintro ⟨data, h, h'⟩
    exact List.prefix_or_prefix_of_prefix h h'
  · rintro (h | h)
    · exact ⟨_, h, List.prefix_rfl⟩
    · exact ⟨_, List.prefix_rfl, h⟩

theorem Clash.symm {d d' : DeclaredInstruction} (h : Clash d d') : Clash d' d := by
  obtain ⟨data, hd, hd'⟩ := h
  exact ⟨data, hd', hd⟩

instance : Std.Symm fun d d' => ¬ Clash d d' := ⟨fun _ _ h hc => h hc.symm⟩

end DeclaredInstruction

open DeclaredInstruction

theorem declared_noClash : declared.Pairwise fun d d' => ¬ Clash d d' := by
  have h : (declared.map discriminator).Pairwise fun p p' => ¬ (p <+: p' ∨ p' <+: p) := by
    decide
  rw [List.pairwise_map] at h
  exact h.imp fun h hc => h (clash_iff.1 hc)

/-- Data that begins with the discriminator of a declared instruction is its own. -/
theorem find?_declared {d : DeclaredInstruction} {body : List UInt8} (hd : d ∈ declared) :
    declared.find? (fun d' => d'.discriminator.isPrefixOf (d.discriminator ++ body)) = some d := by
  cases hf : declared.find? fun d' => d'.discriminator.isPrefixOf (d.discriminator ++ body) with
  | none =>
    have := List.find?_eq_none.1 hf d hd
    exact absurd (List.isPrefixOf_iff_prefix.2 (List.prefix_append _ _)) this
  | some d' =>
    by_contra hne
    have hprefix := List.find?_some hf
    have hclash : Clash d d' :=
      ⟨_, List.prefix_append _ _, List.isPrefixOf_iff_prefix.1 hprefix⟩
    refine declared_noClash.forall hd (List.mem_of_find?_eq_some hf) ?_ hclash
    rintro rfl
    exact hne rfl

/-- The data of a declared instruction is dispatched to it. -/
theorem dispatch_of_declared {d : DeclaredInstruction} {body : List UInt8} {i : CoreInstruction}
    (hd : d ∈ declared) (h : Reads d.params body i) :
    dispatch (d.discriminator ++ body) = .ok (i, []) := by
  have hread := h []
  rw [List.append_nil] at hread
  rw [dispatch, find?_declared hd]
  simp only [List.drop_left, hread]

/-! ## Encoders -/

theorem reads_amount (amount : Amount) : Reads readAmount amount.bytes amount := by
  cases amount with
  | all => exact (reads_u8 0).bind (Reads.pure _)
  | some requestedAmount => exact (reads_u8 1).bind ((reads_u64 requestedAmount).map Amount.some)

section
variable (a b c : UInt64)

theorem dispatch_doCpiDepositYt : dispatch (doCpiDepositYt a) = .ok (.depositYt a, []) :=
  dispatch_of_declared (List.mem_of_getElem? (i := 5) rfl) ((reads_u64 a).map _)

theorem dispatch_doCpiWithdrawYt : dispatch (doCpiWithdrawYt a) = .ok (.withdrawYt a, []) :=
  dispatch_of_declared (List.mem_of_getElem? (i := 6) rfl) ((reads_u64 a).map _)

theorem dispatch_doCpiDepositLiquidity :
    dispatch (doCpiDepositLiquidity a b c) = .ok (.marketTwoDepositLiquidity a b c, []) :=
  dispatch_of_declared (List.mem_of_getElem? (i := 9) rfl)
    ((((reads_u64 a).map _).seq (reads_u64 b)).seq (reads_u64 c))

theorem dispatch_doCpiDepositLp : dispatch (doCpiDepositLp a) = .ok (.marketDepositLp a, []) :=
  dispatch_of_declared (List.mem_of_getElem? (i := 12) rfl) ((reads_u64 a).map _)

theorem dispatch_doCpiStrip : dispatch (doCpiStrip a) = .ok (.strip a, []) :=
  dispatch_of_declared (List.mem_of_getElem? (i := 2) rfl) ((reads_u64 a).map _)

theorem dispatch_doCpiMerge : dispatch (doCpiMerge a) = .ok (.merge a, []) :=
  dispatch_of_declared (List.mem_of_getElem? (i := 3) rfl) ((reads_u64 a).map _)

theorem dispatch_doCpiTradePt (n m : Int64) :
    dispatch (doCpiTradePt n m) = .ok (.tradePt n m, []) :=
  dispatch_of_declared (List.mem_of_getElem? (i := 15) rfl)
    (((reads_i64 n).map _).seq (reads_i64 m))

theorem dispatch_doCpiCollectInterest (amount : Amount) :
    dispatch (doCpiCollectInterest amount) = .ok (.collectInterest amount, []) :=
  dispatch_of_declared (List.mem_of_getElem? (i := 4) rfl) ((reads_amount amount).map _)

theorem dispatch_doCpiBuyYt : dispatch (doCpiBuyYt a b) = .ok (.buyYt a b, []) :=
  dispatch_of_declared (List.mem_of_getElem? (i := 17) rfl)
    (((reads_u64 a).map _).seq (reads_u64 b))

theorem dispatch_doCpiSellYt : dispatch (doCpiSellYt a b) = .ok (.sellYt a b, []) :=
  dispatch_of_declared (List.mem_of_getElem? (i := 16) rfl)
    (((reads_u64 a).map _).seq (reads_u64 b))

theorem dispatch_doCpiWithdrawLp : dispatch (doCpiWithdrawLp a) = .ok (.marketWithdrawLp a, []) :=
  dispatch_of_declared (List.mem_of_getElem? (i := 13) rfl) ((reads_u64 a).map _)

theorem dispatch_doCpiWithdrawLiquidity :
    dispatch (doCpiWithdrawLiquidity a b c) = .ok (.marketTwoWithdrawLiquidity a b c, []) :=
  dispatch_of_declared (List.mem_of_getElem? (i := 10) rfl)
    ((((reads_u64 a).map _).seq (reads_u64 b)).seq (reads_u64 c))

end

/-- **Self-CPI.** The data of each encoder is dispatched to the instruction it is meant for, which
reads the same arguments and leaves nothing; and no two instructions clash. -/
theorem doCpi_dispatch :
    (∀ amountYt, dispatch (doCpiDepositYt amountYt) = .ok (.depositYt amountYt, [])) ∧
    (∀ amountYt, dispatch (doCpiWithdrawYt amountYt) = .ok (.withdrawYt amountYt, [])) ∧
    (∀ ptIntent syIntent minLpOut, dispatch (doCpiDepositLiquidity ptIntent syIntent minLpOut) =
      .ok (.marketTwoDepositLiquidity ptIntent syIntent minLpOut, [])) ∧
    (∀ amountLp, dispatch (doCpiDepositLp amountLp) = .ok (.marketDepositLp amountLp, [])) ∧
    (∀ amountSy, dispatch (doCpiStrip amountSy) = .ok (.strip amountSy, [])) ∧
    (∀ amountPy, dispatch (doCpiMerge amountPy) = .ok (.merge amountPy, [])) ∧
    (∀ netTraderPt syConstraint, dispatch (doCpiTradePt netTraderPt syConstraint) =
      .ok (.tradePt netTraderPt syConstraint, [])) ∧
    (∀ amount, dispatch (doCpiCollectInterest amount) = .ok (.collectInterest amount, [])) ∧
    (∀ maxSyIn ytOut, dispatch (doCpiBuyYt maxSyIn ytOut) = .ok (.buyYt maxSyIn ytOut, [])) ∧
    (∀ ytIn minSyOut, dispatch (doCpiSellYt ytIn minSyOut) = .ok (.sellYt ytIn minSyOut, [])) ∧
    (∀ amount, dispatch (doCpiWithdrawLp amount) = .ok (.marketWithdrawLp amount, [])) ∧
    (∀ lpIn minPtOut minSyOut, dispatch (doCpiWithdrawLiquidity lpIn minPtOut minSyOut) =
      .ok (.marketTwoWithdrawLiquidity lpIn minPtOut minSyOut, [])) ∧
    declared.Pairwise fun d d' => ¬ Clash d d' :=
  ⟨dispatch_doCpiDepositYt, dispatch_doCpiWithdrawYt, dispatch_doCpiDepositLiquidity,
    dispatch_doCpiDepositLp, dispatch_doCpiStrip, dispatch_doCpiMerge, dispatch_doCpiTradePt,
    dispatch_doCpiCollectInterest, dispatch_doCpiBuyYt, dispatch_doCpiSellYt,
    dispatch_doCpiWithdrawLp, dispatch_doCpiWithdrawLiquidity, declared_noClash⟩

/-! ## Calls -/

/-- A call of this program's reaches the instruction meant with the arguments it was made with. -/
theorem Call.receive_data {c : Call} {bytes : List UInt8} (hc : c.I64Args)
    (h : c.data = some bytes) : ∃ i, dispatch bytes = .ok (i, []) ∧ c.receive i = some c := by
  cases c with
  | strip =>
    obtain rfl := Option.some.inj h
    exact ⟨_, dispatch_doCpiStrip _, rfl⟩
  | merge =>
    obtain rfl := Option.some.inj h
    exact ⟨_, dispatch_doCpiMerge _, rfl⟩
  | depositYt =>
    obtain rfl := Option.some.inj h
    exact ⟨_, dispatch_doCpiDepositYt _, rfl⟩
  | collectInterest =>
    obtain rfl := Option.some.inj h
    exact ⟨_, dispatch_doCpiCollectInterest _, rfl⟩
  | depositLp =>
    obtain rfl := Option.some.inj h
    exact ⟨_, dispatch_doCpiDepositLp _, rfl⟩
  | withdrawLp =>
    obtain rfl := Option.some.inj h
    exact ⟨_, dispatch_doCpiWithdrawLp _, rfl⟩
  | tradePt user now syExchangeRate netTraderPt syConstraint =>
    obtain rfl := Option.some.inj h
    obtain ⟨⟨hpt, hpt'⟩, hsy, hsy'⟩ := hc
    refine ⟨_, dispatch_doCpiTradePt _ _, ?_⟩
    rw [receive, Int64.toInt_ofInt_of_le hpt hpt', Int64.toInt_ofInt_of_le hsy hsy']
  | depositLiquidity =>
    obtain rfl := Option.some.inj h
    exact ⟨_, dispatch_doCpiDepositLiquidity _ _ _, rfl⟩
  | withdrawLiquidity =>
    obtain rfl := Option.some.inj h
    exact ⟨_, dispatch_doCpiWithdrawLiquidity _ _ _, rfl⟩
  | mintSy | redeemSy | depositSy | withdrawSy | sendSy | receiveSy | sendPt | receivePt =>
    exact nomatch h

theorem FlashSwap.receive_data (x : FlashSwap) :
    ∃ i, dispatch x.data = .ok (i, []) ∧ x.receive i = some x := by
  cases x with
  | buyYt i syIn ytOut => exact ⟨_, dispatch_doCpiBuyYt syIn ytOut, rfl⟩
  | sellYt i ytIn minSyOut => exact ⟨_, dispatch_doCpiSellYt ytIn minSyOut, rfl⟩

end ExponentCore
