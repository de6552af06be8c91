import ExponentCore.Lib.Codec
import ExponentCore.Lib.Layout

/-!
# Machines that work on bytes

A `Storage` says which value each account holds and in what format. The machine with it loads the
state from the bytes, takes a step, and writes the accounts that the input declares back over the
front of their data, once that has its new length; accounts that are not declared keep their bytes,
whatever the step made of their values.

`Holds` relates bytes to the `Held` state of the machine with lengths alone. Where inputs leave the
values alone that they do not declare (`Lawful`), the machine on bytes is that machine: a step of one
is a step of the other (`step_eq_ok`, `Holds.accepted`), and so is a run (`Holds.run`, and
`Holds.exists_run` where a value may have no form).
-/

set_option autoImplicit false

namespace Machine

open Borsh

/-- How the parts of a state are kept in accounts. What other accounts keep is `rest`. -/
structure Storage (σ A : Type) (V : A → Type) (R : Type) where
  codec : (a : A) → Codec (V a)
  /-- what an account holds, if there is one -/
  part : σ → (a : A) → Option (V a)
  rest : σ → R
  /-- the state that has been loaded -/
  assemble : R → ((a : A) → Option (V a)) → Option σ
  assemble_eq_some : ∀ s p, (∀ a v, part s a = some v → p a = some v) →
    assemble (rest s) p = some s

/-- The data of the accounts. -/
structure Stored (A R : Type) where
  data : A → List UInt8
  rest : R

/-- Why an input fails on bytes. -/
inductive StoreFailure (ε : Type)
  | unreadable
  | step (e : ε)
  | unwritable

namespace Storage

section
variable {σ ι A ε R : Type} {V : A → Type} (S : Storage σ A V R) (L : Layout σ ι A)

def load (d : Stored A R) : Option σ :=
  S.assemble d.rest fun a => (S.codec a).load (d.data a)

/-- What is written to an account. -/
def form (s : σ) (a : A) : Option (List UInt8) :=
  match S.part s a with
  | some v => (S.codec a).write v
  | none => some []

/-- What a step leaves in the accounts that it writes has a form that fits. -/
def Storable (h : Held σ A) (i : ι) (s : σ) : Prop :=
  ∀ d ∈ L.declared h.state i, ∃ bs ∈ S.form s d.1, bs.length ≤ d.2.getD (h.dataLen d.1)

instance (h : Held σ A) (i : ι) (s : σ) : Decidable (S.Storable L h i s) := List.decidableBAll _ _

/-- What a step leaves in the accounts that it writes has a form. -/
def Formed (h : Held σ A) (i : ι) (s : σ) : Prop :=
  ∀ d ∈ L.declared h.state i, ∃ bs, S.form s d.1 = some bs

variable [DecidableEq A] (fresh : Nat → UInt8)

/-- The accounts that are declared, resized and written. -/
def stored (d : Stored A R) (h : Held σ A) (i : ι) (s : σ) : Stored A R where
  data a :=
    if a ∈ (L.declared h.state i).map Prod.fst then
      overwrite ((S.form s a).getD []) (resize fresh (L.resized h i a) (d.data a))
    else d.data a
  rest := S.rest s

/-- One input. -/
def step (step : σ → ι → Except ε σ) (d : Stored A R) (i : ι) :
    Except (StoreFailure ε) (Stored A R) :=
  match S.load d with
  | none => .error .unreadable
  | some s =>
    let h : Held σ A := ⟨s, fun a => (d.data a).length⟩
    match step s i with
    | .error e => .error (.step e)
    | .ok s' => if S.Storable L h i s' then .ok (S.stored L fresh d h i s') else .error .unwritable

end

/-! ## The machine with lengths alone -/

section
variable {σ ι A ε R : Type} {V : A → Type}

/-- The bytes are those of a state whose data has given lengths. -/
structure Holds (S : Storage σ A V R) (d : Stored A R) (h : Held σ A) : Prop where
  parts : ∀ a v, S.part h.state a = some v → (S.codec a).load (d.data a) = some v
  lengths : ∀ a, (d.data a).length = h.dataLen a
  rest : d.rest = S.rest h.state

/-- Inputs leave the values alone that they do not declare, and the lengths of the layout are those
of the formats. -/
structure Lawful (S : Storage σ A V R) (L : Layout σ ι A) (step : σ → ι → Except ε σ) : Prop where
  frame : ∀ s i s' a, step s i = .ok s' → a ∉ (L.declared s i).map Prod.fst →
    S.part s' a = S.part s a
  size : ∀ s a bs, S.form s a = some bs → bs.length = L.size s a

variable {S : Storage σ A V R} {L : Layout σ ι A} {step : σ → ι → Except ε σ}
  {d d' : Stored A R} {h h' : Held σ A} {i : ι} {is : List ι} {s : σ}

theorem Holds.load (hd : S.Holds d h) : S.load d = some h.state := by
  rw [Storage.load, hd.rest]
  exact S.assemble_eq_some _ _ hd.parts

/-- There is room for a form, if there is one. -/
theorem Lawful.storable_iff (hS : S.Lawful L step) :
    S.Storable L h i s ↔ L.Room h i s ∧ S.Formed L h i s := by
  constructor
  · intro hs
    refine ⟨fun d hd => ?_, fun d hd => ?_⟩
    · obtain ⟨bs, hbs, hlen⟩ := hs d hd
      rwa [← hS.size s d.1 bs hbs]
    · obtain ⟨bs, hbs, -⟩ := hs d hd
      exact ⟨bs, hbs⟩
  · rintro ⟨hroom, hform⟩ d hd
    obtain ⟨bs, hbs⟩ := hform d hd
    refine ⟨bs, hbs, ?_⟩
    rw [hS.size s d.1 bs hbs]
    exact hroom d hd

/-- The accounts of a state as they are created. -/
def create (S : Storage σ A V R) (fresh : Nat → UInt8) (h : Held σ A) :
    Stored A R where
  data a := overwrite ((S.form h.state a).getD []) (resize fresh (h.dataLen a) [])
  rest := S.rest h.state

theorem holds_create (fresh : Nat → UInt8) (hS : S.Lawful L step) (hfits : L.Fits h)
    (hform : ∀ a, ∃ bs, S.form h.state a = some bs) : S.Holds (S.create fresh h) h := by
  refine ⟨fun a v hv => ?_, fun a => ?_, rfl⟩
  · obtain ⟨bs, hbs⟩ := hform a
    have hwrite : (S.codec a).write v = some bs := by rw [← hbs, form, hv]
    show (S.codec a).load (overwrite ((S.form h.state a).getD []) _) = _
    rw [hbs]
    exact Codec.load_overwrite hwrite
  · obtain ⟨bs, hbs⟩ := hform a
    have hlen : bs.length ≤ h.dataLen a := by
      rw [hS.size _ _ _ hbs]
      exact hfits a
    show (overwrite ((S.form h.state a).getD []) _).length = _
    rw [hbs, Option.getD_some, length_overwrite (by rwa [length_resize]), length_resize]

variable [DecidableEq A] {fresh : Nat → UInt8}

theorem step_eq_ok (hS : S.Lawful L step) (hd : S.Holds d h) :
    S.step L fresh step d i = .ok d' ↔ ∃ s, step h.state i = .ok s ∧ L.Room h i s ∧
      S.Formed L h i s ∧ d' = S.stored L fresh d h i s := by
  have hheld : (⟨h.state, fun a => (d.data a).length⟩ : Held σ A) = h := by
    rw [funext hd.lengths]
  unfold Storage.step
  rw [hd.load]
  simp only [hheld]
  cases step h.state i with
  | error e => simp
  | ok s =>
    by_cases hs : S.Storable L h i s
    · obtain ⟨hroom, hform⟩ := hS.storable_iff.1 hs
      simp [hs, hroom, hform, eq_comm]
    · have hnot : L.Room h i s → ¬ S.Formed L h i s :=
        fun hroom hform => hs (hS.storable_iff.2 ⟨hroom, hform⟩)
      simp only [hs, ↓reduceIte, reduceCtorEq, Except.ok.injEq, false_iff, not_exists, not_and]
      rintro _ rfl hroom hform
      exact absurd hform (hnot hroom)

/-- The bytes that a step leaves are those of the state that it leaves. -/
theorem Holds.stored (hS : S.Lawful L step) (hd : S.Holds d h) (hs : step h.state i = .ok s)
    (hroom : L.Room h i s) (hform : S.Formed L h i s) :
    S.Holds (S.stored L fresh d h i s) ⟨s, L.resized h i⟩ := by
  refine ⟨fun a v hv => ?_, fun a => ?_, rfl⟩
  · by_cases ha : a ∈ (L.declared h.state i).map Prod.fst
    · obtain ⟨x, hx, rfl⟩ := List.mem_map.1 ha
      obtain ⟨bs, hbs⟩ := hform x hx
      have hwrite : (S.codec x.1).write v = some bs := by
        rw [← hbs, form, hv]
      show (S.codec x.1).load (if _ then _ else _) = _
      rw [if_pos ha, hbs]
      exact Codec.load_overwrite hwrite
    · show (S.codec a).load (if _ then _ else _) = _
      rw [if_neg ha]
      rw [hS.frame _ _ _ _ hs ha] at hv
      exact hd.parts a v hv
  · by_cases ha : a ∈ (L.declared h.state i).map Prod.fst
    · show (if _ then _ else _ : List UInt8).length = _
      rw [if_pos ha]
      obtain ⟨x, hx, rfl, hlen⟩ := Layout.exists_resized ha
      obtain ⟨bs, hbs⟩ := hform x hx
      have hfits : bs.length ≤ L.resized h i x.1 := by
        rw [hS.size _ _ _ hbs, hlen]
        exact hroom x hx
      rw [hbs, Option.getD_some, length_overwrite (by rwa [length_resize]), length_resize]
    · show (if _ then _ else _ : List UInt8).length = L.resized h i a
      rw [if_neg ha, hd.lengths, Layout.resized_of_notMem ha]

/-- **A step on bytes is a step of the machine with lengths**, of which it leaves the bytes. -/
theorem Holds.accepted (hS : S.Lawful L step) (hd : S.Holds d h)
    (hstep : S.step L fresh step d i = .ok d') :
    ∃ h', L.step step h i = .ok h' ∧ S.Formed L h i h'.state ∧ S.Holds d' h' := by
  obtain ⟨s, hs, hroom, hform, rfl⟩ := (step_eq_ok hS hd).1 hstep
  exact ⟨_, Layout.step_eq_ok.2 ⟨s, hs, hroom, rfl⟩, hform, hd.stored hS hs hroom hform⟩

/-- The other way round, where what is written has a form. -/
theorem Holds.of_formed (fresh : Nat → UInt8) (hS : S.Lawful L step) (hd : S.Holds d h)
    (hstep : L.step step h i = .ok h') (hform : S.Formed L h i h'.state) :
    ∃ d', S.step L fresh step d i = .ok d' ∧ S.Holds d' h' := by
  obtain ⟨s, hs, hroom, rfl⟩ := Layout.step_eq_ok.1 hstep
  exact ⟨_, (step_eq_ok hS hd).2 ⟨s, hs, hroom, hform, rfl⟩, hd.stored hS hs hroom hform⟩

/-- A run on bytes is a run on values, of the inputs that have been accepted. -/
theorem Holds.exists_run (fresh : Nat → UInt8) (is : List ι) (hS : S.Lawful L step)
    (hd : S.Holds d h) :
    ∃ js, js.Sublist is ∧
      S.Holds (Machine.run (S.step L fresh step) d is) (Machine.run (L.step step) h js) := by
  induction is generalizing d h with
  | nil => exact ⟨[], List.Sublist.refl _, hd⟩
  | cons i is ih =>
    rcases next_cases (S.step L fresh step) d i with ⟨d', hstep, hn⟩ | ⟨-, hn⟩
    · obtain ⟨h', hh', -, hd'⟩ := hd.accepted hS hstep
      obtain ⟨js, hsub, hrun⟩ := ih hd'
      refine ⟨i :: js, hsub.cons_cons i, ?_⟩
      rw [run, hn, run, next_of_ok hh']
      exact hrun
    · obtain ⟨js, hsub, hrun⟩ := ih hd
      refine ⟨js, hsub.cons i, ?_⟩
      rw [run, hn]
      exact hrun

/-- Where everything that is written has a form, it is the same run. -/
theorem Holds.run (fresh : Nat → UInt8) (hS : S.Lawful L step) (hd : S.Holds d h)
    (hform : Admits (L.step step)
      (Accepted (L.step step) fun h i h' => S.Formed L h i h'.state) h is) :
    S.Holds (Machine.run (S.step L fresh step) d is) (Machine.run (L.step step) h is) := by
  induction is generalizing d h with
  | nil => exact hd
  | cons i is ih =>
    rcases next_cases (L.step step) h i with ⟨h', hstep, hn⟩ | ⟨⟨e, herr⟩, hn⟩
    · obtain ⟨d', hd', hholds⟩ := hd.of_formed fresh hS hstep (hform.1 h' hstep)
      rw [Machine.run, Machine.run, next_of_ok hd', hn]
      exact ih hholds (hn ▸ hform.2)
    · have hfail : next (S.step L fresh step) d i = d := by
        rcases next_cases (S.step L fresh step) d i with ⟨d', hstep, -⟩ | ⟨-, hn⟩
        · obtain ⟨h', hh', -⟩ := hd.accepted hS hstep
          rw [herr] at hh'
          cases hh'
        · exact hn
      rw [Machine.run, Machine.run, hfail, hn]
      exact ih hd (hn ▸ hform.2)

end

end Storage

/-! ## Something beside the state -/

section
variable {σ ι A ε κ : Type}

/-- A machine with something beside its state that no input changes. -/
def beside (step : σ → ι → Except ε σ) (p : κ × σ) (i : ι) : Except ε (κ × σ) :=
  (step p.2 i).map fun s => (p.1, s)

def Layout.beside (κ : Type) (L : Layout σ ι A) : Layout (κ × σ) ι A where
  size p := L.size p.2
  declared p := L.declared p.2

def Held.beside (k : κ) (h : Held σ A) : Held (κ × σ) A := ⟨(k, h.state), h.dataLen⟩

variable {L : Layout σ ι A} {step : σ → ι → Except ε σ} [BEq A] {k : κ} {h : Held σ A} {i : ι}

theorem step_beside : (L.beside κ).step (beside step) (h.beside k) i
    = (L.step step h i).map (Held.beside k) := by
  have hmap : Machine.beside step (h.beside k).state i = (step h.state i).map fun s => (k, s) := rfl
  unfold Layout.step
  rw [hmap]
  cases step h.state i with
  | error e => rfl
  | ok s =>
    show (if L.Room h i s then _ else _) = Except.map _ (if L.Room h i s then _ else _)
    split
    · rfl
    · rfl

theorem next_beside : next ((L.beside κ).step (beside step)) (h.beside k) i
    = (next (L.step step) h i).beside k := by
  unfold next
  rw [step_beside]
  cases L.step step h i <;> rfl

theorem run_beside {is : List ι} : run ((L.beside κ).step (beside step)) (h.beside k) is
    = (run (L.step step) h is).beside k := by
  induction is generalizing h with
  | nil => rfl
  | cons i is ih => rw [run, run, next_beside, ih]

theorem admits_beside {P : Held (κ × σ) A → ι → Prop} {is : List ι} :
    Admits ((L.beside κ).step (beside step)) P (h.beside k) is ↔
      Admits (L.step step) (fun h i => P (h.beside k) i) h is := by
  induction is generalizing h with
  | nil => exact Iff.rfl
  | cons i is ih => rw [Admits, Admits, next_beside, ih]

end

end Machine
