import Mathlib

/-!
# Reading and writing borsh

Integers in little endian (`leBytes`, `ofLe`), and readers, which take a value off the front of a
list of bytes or fail. `Reads r bs a` says that `r` takes exactly `bs` off whatever list begins with
them, and gets `a`: `Reads.bind`, `Reads.map` and `Reads.seq` put readers together, and `reads_nat`,
`reads_u8`, `reads_u64` and `reads_i64` read the integers back.

Writers return the bytes of a value, or nothing for one that has no borsh form. `Formats r w` says
that `r` accepts what `w` writes and nothing else, and there is one such lemma for each of borsh's
types. `gets_map` and `gets_seq` take a reader of several fields apart.
-/

set_option autoImplicit false

namespace Borsh

/-! ## Little endian -/

/-- The lowest bytes of a number, the lowest first. -/
def leBytes : Nat → Nat → List UInt8
  | 0, _ => []
  | width + 1, n => UInt8.ofNat n :: leBytes width (n / 256)

def ofLe : List UInt8 → Nat
  | [] => 0
  | b :: bs => b.toNat + 256 * ofLe bs

theorem length_leBytes (width n : Nat) : (leBytes width n).length = width := by
  induction width generalizing n with
  | zero => rfl
  | succ width ih => rw [leBytes, List.length_cons, ih]

theorem ofLe_leBytes (width n : Nat) : ofLe (leBytes width n) = n % 256 ^ width := by
  induction width generalizing n with
  | zero => rw [leBytes, ofLe, pow_zero, Nat.mod_one]
  | succ width ih =>
    have hbyte : (UInt8.ofNat n).toNat = n % 256 := UInt8.toNat_ofNat'
    rw [leBytes, ofLe, ih, hbyte, pow_succ', Nat.mod_mul]

/-- `u64::to_le_bytes` -/
def u64Bytes (n : UInt64) : List UInt8 := leBytes 8 n.toNat

/-- `i64::to_le_bytes`, in two's complement -/
def i64Bytes (n : Int64) : List UInt8 := u64Bytes n.toUInt64

/-! ## Readers -/

/-- Takes a value off the front of a list of bytes. -/
abbrev Reader (α : Type) := StateT (List UInt8) Option α

section
variable {α β : Type}

def fail : Reader α := fun _ => none

def ofOption : Option α → Reader α
  | some a => pure a
  | none => fail

def take (count : Nat) : Reader (List UInt8) := fun input =>
  if count ≤ input.length then some (input.take count, input.drop count) else none

/-- An unsigned integer of `width` bytes. -/
def nat (width : Nat) : Reader Nat := ofLe <$> take width

def u8 : Reader UInt8 := UInt8.ofNat <$> nat 1
def u16 : Reader UInt16 := UInt16.ofNat <$> nat 2
def u32 : Reader UInt32 := UInt32.ofNat <$> nat 4
def u64 : Reader UInt64 := UInt64.ofNat <$> nat 8
def i64 : Reader Int64 := UInt64.toInt64 <$> u64

/-- One byte, zero or one. -/
def bool : Reader Bool := do
  match ← u8 with
  | 0 => return false
  | 1 => return true
  | _ => fail

def times (r : Reader α) : Nat → Reader (List α)
  | 0 => return []
  | n + 1 => do
    let a ← r
    let as ← times r n
    return a :: as

/-- A `u32` length, then the elements. -/
def vec (r : Reader α) : Reader (List α) := do
  let length ← u32
  times r length.toNat

def string : Reader String := do
  let length ← u32
  let bytes ← take length.toNat
  ofOption (String.fromUTF8? ⟨bytes.toArray⟩)

end

/-! ## What readers read -/

/-- The reader takes `bs` off the front and gets `a`. -/
def Reads {α : Type} (r : Reader α) (bs : List UInt8) (a : α) : Prop :=
  ∀ rest, r.run (bs ++ rest) = some (a, rest)

section
variable {α β : Type} {r : Reader α} {f : α → Reader β} {bs cs : List UInt8} {a : α} {b : β}

theorem Reads.pure (a : α) : Reads (Pure.pure a : Reader α) [] a := fun _ => rfl

theorem Reads.bind (h : Reads r bs a) (h' : Reads (f a) cs b) : Reads (r >>= f) (bs ++ cs) b := by
  intro rest
  rw [StateT.run_bind, List.append_assoc, h]
  exact h' rest

theorem Reads.map (h : Reads r bs a) (g : α → β) : Reads (g <$> r) bs (g a) := by
  intro rest
  rw [StateT.run_map, h]
  rfl

/-- The arguments of a function, one after the other. -/
theorem Reads.seq {rf : Reader (α → β)} {g : α → β} (hf : Reads rf bs g) (h : Reads r cs a) :
    Reads (rf <*> r) (bs ++ cs) (g a) := hf.bind (h.map g)

theorem reads_take (bs : List UInt8) : Reads (take bs.length) bs bs := by
  intro rest
  show (if bs.length ≤ (bs ++ rest).length then _ else _) = _
  rw [if_pos (by rw [List.length_append]; exact Nat.le_add_right _ _), List.take_left,
    List.drop_left]

theorem reads_nat {width n : Nat} (hn : n < 256 ^ width) :
    Reads (nat width) (leBytes width n) n := by
  have h := (reads_take (leBytes width n)).map ofLe
  rwa [length_leBytes, ofLe_leBytes, Nat.mod_eq_of_lt hn] at h

theorem reads_u8 (n : UInt8) : Reads u8 [n] n := by
  have hn : n.toNat < 256 ^ 1 := n.toNat_lt
  have h := (reads_nat hn).map UInt8.ofNat
  rwa [leBytes, leBytes, UInt8.ofNat_toNat] at h

theorem reads_u64 (n : UInt64) : Reads u64 (u64Bytes n) n := by
  have hn : n.toNat < 256 ^ 8 := n.toNat_lt
  have h := (reads_nat hn).map UInt64.ofNat
  rwa [UInt64.ofNat_toNat] at h

theorem reads_i64 (n : Int64) : Reads i64 (i64Bytes n) n := by
  have h := (reads_u64 n.toUInt64).map UInt64.toInt64
  rwa [Int64.toInt64_toUInt64] at h

end

/-! ## Writers -/

def u16Bytes (n : UInt16) : List UInt8 := leBytes 2 n.toNat
def u32Bytes (n : UInt32) : List UInt8 := leBytes 4 n.toNat
def boolBytes (b : Bool) : List UInt8 := [if b then 1 else 0]

/-- A `u32` length, then the elements; a length that does not fit is an error. -/
def lengthBytes (length : Nat) : Option (List UInt8) :=
  if length < 2 ^ 32 then some (leBytes 4 length) else none

def timesBytes {α : Type} (w : α → Option (List UInt8)) : List α → Option (List UInt8)
  | [] => some []
  | a :: as => do
    let bs ← w a
    let cs ← timesBytes w as
    some (bs ++ cs)

def vecBytes {α : Type} (w : α → Option (List UInt8)) (l : List α) : Option (List UInt8) := do
  let length ← lengthBytes l.length
  let bs ← timesBytes w l
  some (length ++ bs)

def stringBytes (s : String) : Option (List UInt8) := do
  let bytes := s.toByteArray.data.toList
  let length ← lengthBytes bytes.length
  some (length ++ bytes)

/-! ## Formats -/

/-- The reader takes off the front exactly what is written for what it gets. -/
def Formats {α : Type} (r : Reader α) (w : α → Option (List UInt8)) : Prop :=
  ∀ input a rest, r.run input = some (a, rest) ↔ ∃ bs, w a = some bs ∧ input = bs ++ rest

section
variable {α β : Type} {r : Reader α} {rf : Reader (α → β)} {f : α → Reader β} {g : α → β}
  {w : α → Option (List UInt8)} {input rest bs : List UInt8} {a : α} {b : β}

theorem Formats.reads (h : Formats r w) (hw : w a = some bs) : Reads r bs a :=
  fun _ => (h _ _ _).2 ⟨bs, hw, rfl⟩

theorem leBytes_ofLe (bs : List UInt8) : leBytes bs.length (ofLe bs) = bs := by
  induction bs with
  | nil => rfl
  | cons b bs ih =>
    have hb := b.toNat_lt
    have hdiv : (b.toNat + 256 * ofLe bs) / 256 = ofLe bs := by omega
    have hmod : UInt8.ofNat (b.toNat + 256 * ofLe bs) = b := by
      apply UInt8.toNat_inj.1
      rw [UInt8.toNat_ofNat']
      omega
    rw [List.length_cons, leBytes, ofLe, hdiv, hmod, ih]

theorem ofLe_lt (bs : List UInt8) : ofLe bs < 256 ^ bs.length := by
  induction bs with
  | nil => exact Nat.one_pos
  | cons b bs ih =>
    have hb := b.toNat_lt
    rw [ofLe, List.length_cons, pow_succ]
    omega

theorem run_pure {a' : α} :
    (pure a' : Reader α).run input = some (a, rest) ↔ a' = a ∧ input = rest := by
  rw [StateT.run_pure]
  simp

theorem run_fail : (fail : Reader α).run input ≠ some (a, rest) := nofun

theorem run_bind :
    (r >>= f).run input = some (b, rest) ↔
      ∃ a mid, r.run input = some (a, mid) ∧ (f a).run mid = some (b, rest) := by
  rw [StateT.run_bind]
  simp [Option.bind_eq_some_iff]

theorem run_map :
    (g <$> r).run input = some (b, rest) ↔ ∃ a, r.run input = some (a, rest) ∧ g a = b := by
  rw [StateT.run_map]
  simp

theorem run_ofOption {o : Option α} :
    (ofOption o).run input = some (a, rest) ↔ o = some a ∧ input = rest := by
  cases o with
  | none => simp [ofOption, run_fail]
  | some a' => simp [ofOption]

theorem run_take {n : Nat} :
    (take n).run input = some (bs, rest) ↔ bs.length = n ∧ input = bs ++ rest := by
  show (if n ≤ input.length then some (input.take n, input.drop n) else none) = _ ↔ _
  split
  · rename_i h
    rw [Option.some.injEq, Prod.mk.injEq]
    constructor
    · rintro ⟨rfl, rfl⟩
      exact ⟨List.length_take_of_le h, (List.take_append_drop n input).symm⟩
    · rintro ⟨rfl, rfl⟩
      exact ⟨List.take_left, List.drop_left⟩
  · rename_i h
    constructor
    · nofun
    · rintro ⟨rfl, rfl⟩
      rw [List.length_append] at h
      omega

theorem run_nat {width n : Nat} :
    (nat width).run input = some (n, rest) ↔ n < 256 ^ width ∧ input = leBytes width n ++ rest := by
  rw [nat, run_map]
  constructor
  · rintro ⟨bs, h, rfl⟩
    obtain ⟨rfl, rfl⟩ := run_take.1 h
    exact ⟨ofLe_lt bs, by rw [leBytes_ofLe]⟩
  · rintro ⟨hn, rfl⟩
    refine ⟨_, run_take.2 ⟨length_leBytes width n, rfl⟩, ?_⟩
    rw [ofLe_leBytes, Nat.mod_eq_of_lt hn]

theorem run_u8 {n : UInt8} : u8.run input = some (n, rest) ↔ input = n :: rest := by
  rw [u8, run_map]
  constructor
  · rintro ⟨k, h, rfl⟩
    obtain ⟨-, rfl⟩ := run_nat.1 h
    rfl
  · rintro rfl
    refine ⟨n.toNat, run_nat.2 ⟨n.toNat_lt, ?_⟩, UInt8.ofNat_toNat⟩
    rw [leBytes, leBytes, UInt8.ofNat_toNat]
    rfl

theorem run_u16 {n : UInt16} : u16.run input = some (n, rest) ↔ input = u16Bytes n ++ rest := by
  rw [u16, run_map]
  constructor
  · rintro ⟨k, h, rfl⟩
    obtain ⟨hk, rfl⟩ := run_nat.1 h
    rw [u16Bytes, UInt16.toNat_ofNat_of_lt' hk]
  · rintro rfl
    exact ⟨n.toNat, run_nat.2 ⟨n.toNat_lt, rfl⟩, UInt16.ofNat_toNat⟩

theorem run_u32 {n : UInt32} : u32.run input = some (n, rest) ↔ input = u32Bytes n ++ rest := by
  rw [u32, run_map]
  constructor
  · rintro ⟨k, h, rfl⟩
    obtain ⟨hk, rfl⟩ := run_nat.1 h
    rw [u32Bytes, UInt32.toNat_ofNat_of_lt' hk]
  · rintro rfl
    exact ⟨n.toNat, run_nat.2 ⟨n.toNat_lt, rfl⟩, UInt32.ofNat_toNat⟩

theorem run_u64 {n : UInt64} : u64.run input = some (n, rest) ↔ input = u64Bytes n ++ rest := by
  rw [u64, run_map]
  constructor
  · rintro ⟨k, h, rfl⟩
    obtain ⟨hk, rfl⟩ := run_nat.1 h
    rw [u64Bytes, UInt64.toNat_ofNat_of_lt' hk]
  · rintro rfl
    exact ⟨n.toNat, run_nat.2 ⟨n.toNat_lt, rfl⟩, UInt64.ofNat_toNat⟩

theorem run_i64 {n : Int64} : i64.run input = some (n, rest) ↔ input = i64Bytes n ++ rest := by
  rw [i64, run_map]
  constructor
  · rintro ⟨k, h, rfl⟩
    rw [run_u64.1 h, i64Bytes, UInt64.toUInt64_toInt64]
  · rintro rfl
    exact ⟨n.toUInt64, run_u64.2 rfl, Int64.toInt64_toUInt64 n⟩

theorem run_bool {x : Bool} : bool.run input = some (x, rest) ↔ input = boolBytes x ++ rest := by
  rw [bool, run_bind]
  constructor
  · rintro ⟨n, mid, h, h'⟩
    obtain rfl := run_u8.1 h
    split at h'
    · obtain ⟨rfl, rfl⟩ := run_pure.1 h'
      rfl
    · obtain ⟨rfl, rfl⟩ := run_pure.1 h'
      rfl
    · exact absurd h' run_fail
  · rintro rfl
    cases x with
    | false => exact ⟨0, rest, run_u8.2 rfl, run_pure.2 ⟨rfl, rfl⟩⟩
    | true => exact ⟨1, rest, run_u8.2 rfl, run_pure.2 ⟨rfl, rfl⟩⟩

theorem run_times (h : Formats r w) {n : Nat} {l : List α} :
    (times r n).run input = some (l, rest) ↔
      l.length = n ∧ ∃ bs, timesBytes w l = some bs ∧ input = bs ++ rest := by
  induction n generalizing input rest l with
  | zero =>
    rw [times, run_pure]
    constructor
    · rintro ⟨rfl, rfl⟩
      exact ⟨rfl, [], rfl, rfl⟩
    · rintro ⟨hl, bs, hbs, rfl⟩
      obtain rfl := List.length_eq_zero_iff.1 hl
      obtain rfl := Option.some.inj hbs
      exact ⟨rfl, rfl⟩
  | succ n ih =>
    simp only [times, run_bind, run_pure, ih, h _ _ _]
    constructor
    · rintro ⟨a, mid, ⟨bs, hbs, rfl⟩, as, mid', ⟨rfl, cs, hcs, rfl⟩, rfl, rfl⟩
      refine ⟨rfl, bs ++ cs, ?_, (List.append_assoc ..).symm⟩
      rw [timesBytes, hbs, hcs]
      rfl
    · rintro ⟨hl, bs, hbs, rfl⟩
      cases l with
      | nil => cases hl
      | cons a as =>
        simp only [timesBytes, Option.bind_eq_bind, Option.bind_eq_some_iff,
          Option.some.injEq] at hbs
        obtain ⟨bs, ha, cs, has, rfl⟩ := hbs
        exact ⟨a, cs ++ rest, ⟨bs, ha, List.append_assoc ..⟩, as, rest,
          ⟨Nat.succ.inj hl, cs, has, rfl⟩, rfl, rfl⟩

theorem lengthBytes_eq_some {n : Nat} :
    lengthBytes n = some bs ↔ n < 2 ^ 32 ∧ bs = u32Bytes (UInt32.ofNat n) := by
  rw [lengthBytes]
  split
  · rename_i h
    rw [Option.some.injEq, u32Bytes, UInt32.toNat_ofNat_of_lt' h]
    exact ⟨fun hbs => ⟨h, hbs.symm⟩, fun hbs => hbs.2.symm⟩
  · rename_i h
    exact ⟨nofun, fun hbs => absurd hbs.1 h⟩

theorem lengthBytes_toNat (n : UInt32) : lengthBytes n.toNat = some (u32Bytes n) :=
  lengthBytes_eq_some.2 ⟨n.toNat_lt, by rw [UInt32.ofNat_toNat]⟩

theorem Formats.vec (h : Formats r w) : Formats (vec r) (vecBytes w) := by
  intro input l rest
  simp only [Borsh.vec, run_bind, run_u32, run_times h, vecBytes, Option.bind_eq_bind,
    Option.bind_eq_some_iff, Option.some.injEq]
  constructor
  · rintro ⟨n, mid, rfl, hl, bs, hbs, rfl⟩
    refine ⟨_, ⟨_, hl ▸ lengthBytes_toNat n, bs, hbs, rfl⟩, (List.append_assoc ..).symm⟩
  · rintro ⟨_, ⟨_, hlen, bs, hbs, rfl⟩, rfl⟩
    obtain ⟨hl, rfl⟩ := lengthBytes_eq_some.1 hlen
    exact ⟨_, bs ++ rest, List.append_assoc .., (UInt32.toNat_ofNat_of_lt' hl).symm, bs, hbs, rfl⟩

theorem fromUTF8_eq_some {s : String} :
    String.fromUTF8? ⟨bs.toArray⟩ = some s ↔ bs = s.toByteArray.data.toList := by
  rw [String.fromUTF8?]
  split
  · rename_i h
    rw [Option.some.injEq, ← String.toByteArray_inj, String.fromUTF8]
    constructor
    · intro hs
      rw [← hs]
    · rintro rfl
      rfl
  · rename_i h
    refine ⟨nofun, ?_⟩
    rintro rfl
    exact absurd s.isValidUTF8 h

theorem formats_string : Formats string stringBytes := by
  intro input s rest
  simp only [string, run_bind, run_u32, run_take, run_ofOption, fromUTF8_eq_some, stringBytes,
    Option.bind_eq_bind, Option.bind_eq_some_iff, Option.some.injEq]
  constructor
  · rintro ⟨n, _, rfl, bs, _, ⟨hn, rfl⟩, rfl, rfl⟩
    exact ⟨_, ⟨_, hn ▸ lengthBytes_toNat n, rfl⟩, (List.append_assoc ..).symm⟩
  · rintro ⟨_, ⟨_, hlen, rfl⟩, rfl⟩
    obtain ⟨hl, rfl⟩ := lengthBytes_eq_some.1 hlen
    exact ⟨_, _, List.append_assoc .., _, rest,
      ⟨(UInt32.toNat_ofNat_of_lt' hl).symm, rfl⟩, rfl, rfl⟩

/-! ## Several fields -/

/-- The reader leaves `rest` and gets a value with the property. -/
def Gets (r : Reader α) (input rest : List UInt8) (p : α → Prop) : Prop :=
  ∃ a, r.run input = some (a, rest) ∧ p a

theorem run_iff_gets : r.run input = some (a, rest) ↔ Gets r input rest fun a' => a' = a := by
  simp [Gets]

variable {p : β → Prop} {q : α → Prop}

@[simp] theorem gets_fail : ¬ Gets fail input rest p := nofun

@[simp] theorem gets_pure {b : β} : Gets (pure b) input rest p ↔ input = rest ∧ p b := by
  simp only [Gets, run_pure]
  constructor
  · rintro ⟨_, ⟨rfl, rfl⟩, h⟩
    exact ⟨rfl, h⟩
  · rintro ⟨rfl, h⟩
    exact ⟨_, ⟨rfl, rfl⟩, h⟩

@[simp] theorem gets_map : Gets (g <$> r) input rest p ↔ Gets r input rest fun a => p (g a) := by
  simp only [Gets, run_map]
  constructor
  · rintro ⟨_, ⟨a, h, rfl⟩, hp⟩
    exact ⟨a, h, hp⟩
  · rintro ⟨a, h, hp⟩
    exact ⟨_, ⟨a, h, rfl⟩, hp⟩

/-- The last field comes first. -/
@[simp] theorem gets_seq :
    Gets (rf <*> r) input rest p ↔
      ∃ mid, Gets r mid rest fun a => Gets rf input mid fun g => p (g a) := by
  rw [Gets, StateT.run_seq]
  simp only [Gets, Option.bind_eq_bind, Option.bind_eq_some_iff, Option.map_eq_map,
    Option.map_eq_some_iff, Prod.mk.injEq]
  constructor
  · rintro ⟨_, ⟨⟨g, mid⟩, hf, ⟨a, _⟩, h, rfl, rfl⟩, hp⟩
    exact ⟨mid, a, h, g, hf, hp⟩
  · rintro ⟨mid, a, h, g, hf, hp⟩
    exact ⟨_, ⟨(g, mid), hf, (a, rest), h, rfl, rfl⟩, hp⟩

theorem Formats.gets (h : Formats r w) :
    Gets r input rest q ↔ ∃ a bs, w a = some bs ∧ input = bs ++ rest ∧ q a := by
  simp only [Gets, h _ _ _]
  constructor
  · rintro ⟨a, ⟨bs, hw, hbs⟩, hq⟩
    exact ⟨a, bs, hw, hbs, hq⟩
  · rintro ⟨a, bs, hw, hbs, hq⟩
    exact ⟨a, ⟨bs, hw, hbs⟩, hq⟩

@[simp] theorem gets_u8 {q : UInt8 → Prop} : Gets u8 input rest q ↔ ∃ n, input = n :: rest ∧ q n := by
  simp only [Gets, run_u8]

@[simp] theorem gets_u16 {q : UInt16 → Prop} :
    Gets u16 input rest q ↔ ∃ n, input = u16Bytes n ++ rest ∧ q n := by
  simp only [Gets, run_u16]

@[simp] theorem gets_u32 {q : UInt32 → Prop} :
    Gets u32 input rest q ↔ ∃ n, input = u32Bytes n ++ rest ∧ q n := by
  simp only [Gets, run_u32]

@[simp] theorem gets_u64 {q : UInt64 → Prop} :
    Gets u64 input rest q ↔ ∃ n, input = u64Bytes n ++ rest ∧ q n := by
  simp only [Gets, run_u64]

@[simp] theorem gets_i64 {q : Int64 → Prop} :
    Gets i64 input rest q ↔ ∃ n, input = i64Bytes n ++ rest ∧ q n := by
  simp only [Gets, run_i64]

@[simp] theorem gets_bool {q : Bool → Prop} :
    Gets bool input rest q ↔ ∃ x, input = boolBytes x ++ rest ∧ q x := by
  simp only [Gets, run_bool]

end

end Borsh
