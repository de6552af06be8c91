import Mathlib

/-!
# Handlers that work on copies

A program keeps its data in the accounts of a store. A handler loads some of them when it starts: it
reads and edits copies, while the instructions it calls work on the store. `reload` takes a fresh
copy, `exit` stores the copy, and when the handler ends every copy of an account that the program
owns is stored. `Handler.run` is that semantics; `Handler.live` is the one without copies.

An automaton that reads the operations of a handler as it goes is checked by `Handler.wp`. `Sync` is
the automaton that knows which copies are stale: what it accepts does with copies what it does
without (`live_of_run`), so the store at the end is the initial one with the called instructions and
the edits applied in order (`replay_of_run`). Any other automaton over calls and edits is followed
by the log of a run (`follow_of_run`), one without a memory says which events the log has
(`events_of_run`), and what each of them keeps is kept by the run (`kept_of_run`).
-/

set_option autoImplicit false

namespace Cached

/-- The accounts of a store `σ`, the instructions that handlers call, and the edits that they make.
An instruction that does not use an account neither reads nor writes it. -/
structure Program (σ ε : Type) where
  Account : Type
  decEq : DecidableEq Account
  Content : Account → Type
  get : (a : Account) → σ → Content a
  set : (a : Account) → Content a → σ → σ
  get_set : ∀ (a : Account) (x : Content a) (s : σ), get a (set a x s) = x
  set_get : ∀ (a : Account) (s : σ), set a (get a s) s = s
  set_set : ∀ (a : Account) (x y : Content a) (s : σ), set a x (set a y s) = set a x s
  get_set_of_ne : ∀ (a b : Account) (x : Content b) (s : σ), a ≠ b → get a (set b x s) = get a s
  /-- a copy of the account is stored when a handler ends -/
  owned : Account → Bool
  Call : Type
  Ret : Call → Type
  act : (c : Call) → σ → Except ε (σ × Ret c)
  uses : Call → Account → Bool
  act_set : ∀ (c : Call) (a : Account) (x : Content a) (s : σ), uses c a = false →
    act c (set a x s) = act c s >>= fun p => .ok (set a x p.1, p.2)
  Edit : Type
  target : Edit → Account
  edit : (e : Edit) → Content (target e) → Content (target e)

section
variable {σ ε : Type} (P : Program σ ε)

instance : DecidableEq P.Account := P.decEq

inductive Op
  | call (c : P.Call)
  | read (a : P.Account)
  | edit (e : P.Edit)
  | reload (a : P.Account)
  | exit (a : P.Account)

/-- What an operation gives the handler. -/
def Op.Res {P : Program σ ε} : Op P → Type
  | .call c => P.Ret c
  | .read a => P.Content a
  | .edit _ | .reload _ | .exit _ => Unit

inductive Handler (α : Type)
  | done (a : α)
  | fail (e : ε)
  | step (o : Op P) (k : o.Res → Handler α)

/-- What a handler does to the store. -/
inductive Event
  | called (c : P.Call)
  | edited (e : P.Edit)

end

namespace Handler

variable {σ ε α β : Type} {P : Program σ ε}

/-! ## Writing handlers -/

def bind : Handler P α → (α → Handler P β) → Handler P β
  | done a, f => f a
  | fail e, _ => fail e
  | step o k, f => step o fun r => (k r).bind f

instance : Monad (Handler P) where
  pure := done
  bind := bind

/-- A computation that looks at no account. -/
def lift : Except ε α → Handler P α
  | .ok a => done a
  | .error e => fail e

instance : MonadLift (Except ε) (Handler P) := ⟨lift⟩

def op (o : Op P) : Handler P o.Res := step o done

def call (c : P.Call) : Handler P (P.Ret c) := op (.call c)
def read (a : P.Account) : Handler P (P.Content a) := op (.read a)
def edit (e : P.Edit) : Handler P Unit := op (.edit e)
def reload (a : P.Account) : Handler P Unit := op (.reload a)
def exit (a : P.Account) : Handler P Unit := op (.exit a)

/-! ## Semantics -/

/-- Runs a handler, given what an operation does to a state. -/
def interp {τ : Type} (f : (o : Op P) → τ → Except ε (τ × o.Res)) :
    Handler P α → τ → Except ε (τ × α)
  | done a, t => .ok (t, a)
  | fail e, _ => .error e
  | step o k, t =>
    match f o t with
    | .ok (t, r) => interp f (k r) t
    | .error e => .error e

end Handler

/-- The store, the copies and what was done so far. -/
structure Frame {σ ε : Type} (P : Program σ ε) where
  store : σ
  copy : (a : P.Account) → P.Content a
  log : List (Event P)

namespace Frame

variable {σ ε : Type} {P : Program σ ε}

def step : (o : Op P) → Frame P → Except ε (Frame P × o.Res)
  | .call c, f =>
    match P.act c f.store with
    | .ok (store, r) => .ok ({ f with store, log := f.log ++ [.called c] }, r)
    | .error e => .error e
  | .read a, f => .ok (f, f.copy a)
  | .edit e, f =>
    .ok ({ f with
      copy := Function.update f.copy (P.target e) (P.edit e (f.copy (P.target e)))
      log := f.log ++ [.edited e] }, ())
  | .reload a, f => .ok ({ f with copy := Function.update f.copy a (P.get a f.store) }, ())
  | .exit a, f => .ok ({ f with store := P.set a (f.copy a) f.store }, ())

/-- Stores the copies of the owned accounts. -/
def writeBack (f : Frame P) (loaded : List P.Account) : σ :=
  loaded.foldl (fun s a => if P.owned a = true then P.set a (f.copy a) s else s) f.store

end Frame

/-- The store and what was done so far. -/
structure Live {σ ε : Type} (P : Program σ ε) where
  store : σ
  log : List (Event P)

namespace Live

variable {σ ε : Type} {P : Program σ ε}

def step : (o : Op P) → Live P → Except ε (Live P × o.Res)
  | .call c, l =>
    match P.act c l.store with
    | .ok (store, r) => .ok ({ store, log := l.log ++ [.called c] }, r)
    | .error e => .error e
  | .read a, l => .ok (l, P.get a l.store)
  | .edit e, l =>
    .ok ({ store := P.set (P.target e) (P.edit e (P.get (P.target e) l.store)) l.store
           log := l.log ++ [.edited e] }, ())
  | .reload _, l | .exit _, l => .ok (l, ())

end Live

/-- One event on the store. -/
def Event.apply {σ ε : Type} {P : Program σ ε} : Event P → σ → Except ε σ
  | .called c, s =>
    match P.act c s with
    | .ok (s, _) => .ok s
    | .error e => .error e
  | .edited e, s => .ok (P.set (P.target e) (P.edit e (P.get (P.target e) s)) s)

/-- The events of a log on the store, in order. -/
def replay {σ ε : Type} {P : Program σ ε} : List (Event P) → σ → Except ε σ
  | [], s => .ok s
  | e :: es, s =>
    match e.apply s with
    | .ok s => replay es s
    | .error e => .error e

/-- Where an automaton is after a log, if it accepts the log. -/
def follow {σ ε S : Type} {P : Program σ ε} (δ : S → Event P → Option S) :
    S → List (Event P) → Option S
  | s, [] => some s
  | s, e :: es => (δ s e).bind fun s => follow δ s es

namespace Handler

variable {σ ε α β : Type} {P : Program σ ε}

/-- A handler that loads the given accounts. Returns the store, the result and the log. -/
def run (loaded : List P.Account) (h : Handler P α) (s : σ) :
    Except ε (σ × α × List (Event P)) :=
  match h.interp Frame.step ⟨s, fun a => P.get a s, []⟩ with
  | .ok (f, a) => .ok (f.writeBack loaded, a, f.log)
  | .error e => .error e

/-- The same without copies. -/
def live (h : Handler P α) (s : σ) : Except ε (σ × α × List (Event P)) :=
  match h.interp Live.step ⟨s, []⟩ with
  | .ok (l, a) => .ok (l.store, a, l.log)
  | .error e => .error e

/-! ## Checking an automaton -/

/-- The automaton accepts every run of the handler, and `Q` holds where a run ends. -/
def wp {S : Type} (δ : S → Op P → Option S) : S → Handler P α → (α → S → Prop) → Prop
  | s, done a, Q => Q a s
  | _, fail _, _ => True
  | s, step o k, Q => ∃ s', δ s o = some s' ∧ ∀ r, wp δ s' (k r) Q

section
variable {S : Type} {δ : S → Op P → Option S} {s : S} {Q : β → S → Prop}

@[simp] theorem wp_pure {b : β} : wp δ s (pure b) Q ↔ Q b s := Iff.rfl

theorem wp_bind {h : Handler P α} {f : α → Handler P β} :
    wp δ s (h >>= f) Q ↔ wp δ s h fun a s' => wp δ s' (f a) Q := by
  induction h generalizing s with
  | done a => rfl
  | fail e => rfl
  | step o k ih =>
    refine exists_congr fun s' => and_congr_right fun _ => forall_congr' fun r => ?_
    exact ih r

theorem wp_op {o : Op P} {Q : o.Res → S → Prop} :
    wp δ s (op o) Q ↔ ∃ s', δ s o = some s' ∧ ∀ r, Q r s' := Iff.rfl

theorem forall_res {Q : Unit → Prop} : (∀ u, Q u) ↔ Q () :=
  ⟨fun h => h (), fun h _ => h⟩

theorem wp_liftM {x : Except ε β} :
    wp δ s (liftM x : Handler P β) Q ↔ ∀ r, x = .ok r → Q r s := by
  show wp δ s (lift x) Q ↔ _
  cases x with
  | ok a => simp [lift, wp]
  | error e => simp [lift, wp]

end

/-- Two semantics whose states stay related while an automaton accepts the operations. -/
theorem interp_sim {S τ υ : Type} {δ : S → Op P → Option S} {R : S → τ → υ → Prop}
    {f : (o : Op P) → τ → Except ε (τ × o.Res)} {g : (o : Op P) → υ → Except ε (υ × o.Res)}
    (hop : ∀ s s' o t u t' r, δ s o = some s' → R s t u → f o t = .ok (t', r) →
      ∃ u', g o u = .ok (u', r) ∧ R s' t' u')
    {h : Handler P α} {s : S} {Q : α → S → Prop} (hwp : wp δ s h Q) {t t' : τ} {u : υ} {a : α}
    (hR : R s t u) (hf : interp f h t = .ok (t', a)) :
    ∃ u' s', interp g h u = .ok (u', a) ∧ R s' t' u' ∧ Q a s' := by
  induction h generalizing s t u with
  | done b =>
    cases hf
    exact ⟨u, s, rfl, hR, hwp⟩
  | fail e => cases hf
  | step o k ih =>
    obtain ⟨s₁, hδ, hk⟩ := hwp
    simp only [interp] at hf ⊢
    cases hstep : f o t with
    | error e =>
      rw [hstep] at hf
      cases hf
    | ok p =>
      obtain ⟨t₁, r⟩ := p
      rw [hstep] at hf
      obtain ⟨u₁, hg, hR₁⟩ := hop s s₁ o t u t₁ r hδ hR hstep
      rw [hg]
      exact ih r (hk r) hR₁ hf

end Handler

/-! ## No lost update -/

/-- Which copies differ from the store, and the one that was edited and not yet stored. -/
structure Sync {σ ε : Type} (P : Program σ ε) where
  stale : P.Account → Bool
  pending : Option P.Account

namespace Sync

variable {σ ε : Type} {P : Program σ ε}

/-- Copies of other accounts are not to be used. -/
def init (loaded : List P.Account) : Sync P := ⟨fun a => !decide (a ∈ loaded), none⟩

/-- A call makes the copies of the accounts that it uses stale, and must not use an account that has
been edited; a stale copy is neither read, edited nor stored; one account is edited at a time. -/
def step (y : Sync P) : Op P → Option (Sync P)
  | .call c =>
    if ∃ a ∈ y.pending, P.uses c a = true then none
    else some { y with stale := fun a => y.stale a || P.uses c a }
  | .read a => if y.stale a = true then none else some y
  | .edit e =>
    if y.stale (P.target e) = true ∨ ∃ a ∈ y.pending, a ≠ P.target e then none
    else some { y with pending := some (P.target e) }
  | .reload a =>
    if a ∈ y.pending then none
    else some { y with stale := Function.update y.stale a false }
  | .exit a =>
    if y.stale a = true then none
    else some { y with pending := if a ∈ y.pending then none else y.pending }

/-- The copies that are stored at the end are up to date, and the edited one is among them. -/
@[mk_iff]
structure Settled (loaded : List P.Account) (y : Sync P) : Prop where
  fresh : ∀ a ∈ loaded, P.owned a = true → y.stale a = false
  pending : ∀ a ∈ y.pending, a ∈ loaded ∧ P.owned a = true

section
variable {y : Sync P} {a : P.Account} {c : P.Call} {e : P.Edit}

open Handler

theorem wp_call {Q : P.Ret c → Sync P → Prop} :
    wp step y (call c) Q ↔ (∀ a ∈ y.pending, P.uses c a = false) ∧
      ∀ r, Q r { y with stale := fun a => y.stale a || P.uses c a } := by
  refine (wp_op (o := .call c)).trans ?_
  simp only [step, Option.ite_none_left_eq_some, not_exists, not_and, Bool.not_eq_true,
    Option.some.injEq, and_assoc, exists_and_left, exists_eq_left']
  rfl

theorem wp_read {Q : P.Content a → Sync P → Prop} :
    wp step y (read a) Q ↔ y.stale a = false ∧ ∀ x, Q x y := by
  refine (wp_op (o := .read a)).trans ?_
  simp only [step, Option.ite_none_left_eq_some, Bool.not_eq_true, Option.some.injEq, and_assoc,
    exists_and_left, exists_eq_left']
  rfl

theorem wp_edit {Q : Unit → Sync P → Prop} :
    wp step y (edit e) Q ↔ (y.stale (P.target e) = false ∧ ∀ a ∈ y.pending, a = P.target e) ∧
      Q () { y with pending := some (P.target e) } := by
  refine (wp_op (o := .edit e)).trans ?_
  simp only [step, Option.ite_none_left_eq_some, not_or, not_exists, not_and, not_not,
    Bool.not_eq_true, Option.some.injEq, and_assoc, exists_and_left, exists_eq_left']
  exact and_congr_right fun _ => and_congr_right fun _ => forall_res

theorem wp_reload {Q : Unit → Sync P → Prop} :
    wp step y (reload a) Q ↔
      a ∉ y.pending ∧ Q () { y with stale := Function.update y.stale a false } := by
  refine (wp_op (o := .reload a)).trans ?_
  simp only [step, Option.ite_none_left_eq_some, Option.some.injEq, and_assoc, exists_and_left,
    exists_eq_left']
  exact and_congr_right fun _ => forall_res

theorem wp_exit {Q : Unit → Sync P → Prop} :
    wp step y (exit a) Q ↔ y.stale a = false ∧
      Q () { y with pending := if a ∈ y.pending then none else y.pending } := by
  refine (wp_op (o := .exit a)).trans ?_
  simp only [step, Option.ite_none_left_eq_some, Bool.not_eq_true, Option.some.injEq, and_assoc,
    exists_and_left, exists_eq_left']
  exact and_congr_right fun _ => forall_res

end

/-- The store that a frame stands for: its own, with the edited account put in. -/
def target (y : Sync P) (f : Frame P) : σ :=
  match y.pending with
  | none => f.store
  | some a => P.set a (f.copy a) f.store

/-- A frame with copies and a run without. -/
structure Rel (y : Sync P) (f : Frame P) (l : Live P) : Prop where
  log : f.log = l.log
  store : y.target f = l.store
  copy : ∀ a, y.stale a = false → f.copy a = P.get a l.store

end Sync

namespace Program

variable {σ ε : Type} (P : Program σ ε) {c : P.Call} {a : P.Account} {s s' : σ} {r : P.Ret c}

theorem act_set_ok {x : P.Content a} (hu : P.uses c a = false) (h : P.act c s = .ok (s', r)) :
    P.act c (P.set a x s) = .ok (P.set a x s', r) := by
  rw [P.act_set c a x s hu, h]
  rfl

theorem get_act (hu : P.uses c a = false) (h : P.act c s = .ok (s', r)) :
    P.get a s' = P.get a s := by
  have hset := P.act_set_ok (x := P.get a s) hu h
  rw [P.set_get, h, Except.ok.injEq, Prod.mk.injEq] at hset
  rw [hset.1, P.get_set]

end Program

namespace Sync.Rel

variable {σ ε : Type} {P : Program σ ε} {y y' : Sync P} {f f' : Frame P} {l : Live P}

theorem store_of_not_pending (h : y.Rel f l) (hp : y.pending = none) : f.store = l.store := by
  have := h.store
  rwa [target, hp] at this

theorem get_store (h : y.Rel f l) {a : P.Account} (ha : a ∉ y.pending) :
    P.get a f.store = P.get a l.store := by
  have hstore := h.store
  unfold target at hstore
  split at hstore
  · rw [hstore]
  · rename_i b hb
    have hne : a ≠ b := fun heq => ha (by rw [hb, heq]; rfl)
    rw [← hstore, P.get_set_of_ne a b _ _ hne]

/-- A call does the same to both stores. -/
theorem call {c : P.Call} {s : σ} {r : P.Ret c} (h : y.Rel f l)
    (hδ : y.step (.call c) = some y') (hact : P.act c f.store = .ok (s, r)) :
    ∃ s', P.act c l.store = .ok (s', r) ∧
      y'.Rel { f with store := s, log := f.log ++ [.called c] } ⟨s', l.log ++ [.called c]⟩ := by
  simp only [step, Option.ite_none_left_eq_some, Option.some.injEq] at hδ
  obtain ⟨hunused, rfl⟩ := hδ
  obtain ⟨s', hs', htarget⟩ : ∃ s', P.act c l.store = .ok (s', r) ∧
      y.target { f with store := s } = s' := by
    have hstore := h.store
    unfold target at hstore ⊢
    split at hstore
    · rw [← hstore]
      exact ⟨s, hact, rfl⟩
    · rename_i a hp
      have hua : P.uses c a = false := by
        rw [← Bool.not_eq_true]
        exact fun hu => hunused ⟨a, hp, hu⟩
      rw [← hstore]
      exact ⟨_, P.act_set_ok hua hact, rfl⟩
  refine ⟨s', hs', by rw [h.log], htarget, ?_⟩
  intro a ha
  rw [Bool.or_eq_false_iff] at ha
  rw [h.copy a ha.1, P.get_act ha.2 hs']

theorem edit {e : P.Edit} (h : y.Rel f l) (hδ : y.step (.edit e) = some y') :
    y'.Rel
      { f with
        copy := Function.update f.copy (P.target e) (P.edit e (f.copy (P.target e)))
        log := f.log ++ [.edited e] }
      ⟨P.set (P.target e) (P.edit e (P.get (P.target e) l.store)) l.store,
        l.log ++ [.edited e]⟩ := by
  simp only [step, Option.ite_none_left_eq_some, not_or, not_exists, not_and, not_not,
    Option.some.injEq, Bool.not_eq_true] at hδ
  obtain ⟨⟨hfresh, hother⟩, rfl⟩ := hδ
  refine ⟨by rw [h.log], ?_, ?_⟩
  · have hstore := h.store
    have hcopy := h.copy _ hfresh
    unfold target at hstore ⊢
    simp only [Function.update_self, hcopy]
    split at hstore
    · rw [hstore]
    · rename_i a hp
      obtain rfl := hother a hp
      rw [← hstore, P.set_set]
  · intro a ha
    by_cases heq : a = P.target e
    · subst heq
      simp only [Function.update_self, P.get_set, h.copy _ hfresh]
    · simp only [Function.update_of_ne heq, P.get_set_of_ne _ _ _ _ heq]
      exact h.copy a ha

theorem reload {a : P.Account} (h : y.Rel f l) (hδ : y.step (.reload a) = some y') :
    y'.Rel { f with copy := Function.update f.copy a (P.get a f.store) } l := by
  simp only [step, Option.ite_none_left_eq_some, Option.some.injEq] at hδ
  obtain ⟨hp, rfl⟩ := hδ
  refine ⟨h.log, ?_, ?_⟩
  · have hstore := h.store
    unfold target at hstore ⊢
    split at hstore
    · rename_i hnone
      simp only [hnone, hstore]
    · rename_i b hb
      have hne : b ≠ a := fun heq => hp (by rw [hb, heq]; rfl)
      simp only [hb, Function.update_of_ne hne, hstore]
  · intro b hb
    by_cases heq : b = a
    · subst heq
      simp only [Function.update_self, h.get_store hp]
    · simp only [Function.update_of_ne heq] at hb ⊢
      exact h.copy b hb

theorem exit {a : P.Account} (h : y.Rel f l) (hδ : y.step (.exit a) = some y') :
    y'.Rel { f with store := P.set a (f.copy a) f.store } l := by
  simp only [step, Option.ite_none_left_eq_some, Option.some.injEq, Bool.not_eq_true] at hδ
  obtain ⟨hfresh, rfl⟩ := hδ
  refine ⟨h.log, ?_, h.copy⟩
  have hstore := h.store
  by_cases hp : a ∈ y.pending
  · rw [Option.mem_def] at hp
    simp only [target, hp, Option.mem_def, if_true] at hstore ⊢
    exact hstore
  · have hsame : P.set a (f.copy a) f.store = f.store := by
      rw [h.copy a hfresh, ← h.get_store hp, P.set_get]
    simp only [target, hp, if_false, hsame] at hstore ⊢
    exact hstore

theorem step {o : Op P} {r : o.Res} (h : y.Rel f l) (hδ : y.step o = some y')
    (hf : Frame.step o f = .ok (f', r)) :
    ∃ l', Live.step o l = .ok (l', r) ∧ y'.Rel f' l' := by
  cases o with
  | call c =>
    simp only [Frame.step] at hf
    split at hf
    · rename_i s r' hact
      cases hf
      obtain ⟨s', hs', hrel⟩ := h.call hδ hact
      refine ⟨_, ?_, hrel⟩
      simp only [Live.step, hs']
    · cases hf
  | read a =>
    cases hf
    simp only [Sync.step, Option.ite_none_left_eq_some, Option.some.injEq, Bool.not_eq_true] at hδ
    obtain ⟨hfresh, rfl⟩ := hδ
    refine ⟨l, ?_, h⟩
    rw [Live.step, h.copy a hfresh]
  | edit e =>
    cases hf
    exact ⟨_, rfl, h.edit hδ⟩
  | reload a =>
    cases hf
    exact ⟨l, rfl, h.reload hδ⟩
  | exit a =>
    cases hf
    exact ⟨l, rfl, h.exit hδ⟩

/-- Storing the copies at the end is a sequence of exits. -/
theorem writeBack {loaded : List P.Account} (h : y.Rel f l) (hy : y.Settled loaded) :
    f.writeBack loaded = l.store := by
  induction loaded generalizing y f with
  | nil =>
    have hp : y.pending = none := by
      cases hpend : y.pending with
      | none => rfl
      | some a => exact absurd (hy.pending a hpend).1 List.not_mem_nil
    exact h.store_of_not_pending hp
  | cons a loaded ih =>
    by_cases ho : P.owned a = true
    · have hfresh := hy.fresh a List.mem_cons_self ho
      obtain ⟨y', hy'⟩ : ∃ y', y.step (.exit a) = some y' := by
        simp only [Sync.step, hfresh, Bool.false_eq_true, if_false]
        exact ⟨_, rfl⟩
      have hrel := h.exit hy'
      simp only [Sync.step, hfresh, Bool.false_eq_true, if_false, Option.some.injEq] at hy'
      subst hy'
      have hnext := ih hrel ⟨fun b hb => hy.fresh b (List.mem_cons_of_mem a hb), ?_⟩
      · simpa only [Frame.writeBack, List.foldl_cons, ho, if_true] using hnext
      · intro b hb
        dsimp only at hb
        split at hb
        · cases hb
        · rename_i hne
          obtain ⟨hmem, hown⟩ := hy.pending b hb
          refine ⟨(List.mem_cons.1 hmem).resolve_left ?_, hown⟩
          rintro rfl
          exact hne hb
    · have hnext := ih h ⟨fun b hb => hy.fresh b (List.mem_cons_of_mem a hb), ?_⟩
      · rw [Frame.writeBack, List.foldl_cons, if_neg ho]
        exact hnext
      · intro b hb
        obtain ⟨hmem, hown⟩ := hy.pending b hb
        refine ⟨(List.mem_cons.1 hmem).resolve_left ?_, hown⟩
        rintro rfl
        exact ho hown

end Sync.Rel

namespace Handler

variable {σ ε α : Type} {P : Program σ ε} {loaded : List P.Account} {h : Handler P α} {s s' : σ}
  {a : α} {log : List (Event P)}

/-- The handler never uses a stale copy, and leaves none behind. -/
def Synced (loaded : List P.Account) (h : Handler P α) : Prop :=
  h.wp Sync.step (Sync.init loaded) fun _ y => y.Settled loaded

/-- What a handler does with copies it does without. -/
theorem live_of_run (hsync : h.Synced loaded) (hrun : h.run loaded s = .ok (s', a, log)) :
    h.live s = .ok (s', a, log) := by
  unfold run at hrun
  split at hrun
  · rename_i f b hf
    simp only [Except.ok.injEq, Prod.mk.injEq] at hrun
    obtain ⟨rfl, rfl, rfl⟩ := hrun
    obtain ⟨l, y, hl, hrel, hy⟩ := interp_sim (R := Sync.Rel)
      (fun y y' o f l f' r hδ hR hf => hR.step hδ hf) hsync
      (u := ⟨s, []⟩) ⟨rfl, rfl, fun _ _ => rfl⟩ hf
    simp only [live, hl, hrel.writeBack hy, hrel.log]
  · cases hrun

end Handler

/-! ## What a run returns -/

namespace Handler

variable {σ ε α β : Type} {P : Program σ ε}

theorem interp_step {τ : Type} {f : (o : Op P) → τ → Except ε (τ × o.Res)} {o : Op P}
    {k : o.Res → Handler P α} {t : τ} :
    (step o k).interp f t = f o t >>= fun p => (k p.2).interp f p.1 := by
  simp only [interp]
  cases f o t <;> rfl

theorem interp_bind {τ : Type} {f : (o : Op P) → τ → Except ε (τ × o.Res)} {h : Handler P α}
    {g : α → Handler P β} {t : τ} :
    (h >>= g).interp f t = h.interp f t >>= fun p => (g p.2).interp f p.1 := by
  induction h generalizing t with
  | done a => rfl
  | fail e => rfl
  | step o k ih =>
    rw [interp_step]
    refine (interp_step (k := fun r => k r >>= g)).trans ?_
    cases f o t with
    | error e => rfl
    | ok p => exact ih p.2

/-- Where the handler ends without copies, if it does, `Q` holds. -/
def Ensures (l : Live P) (h : Handler P α) (Q : α → Live P → Prop) : Prop :=
  ∀ l' a, h.interp Live.step l = .ok (l', a) → Q a l'

section
variable {l : Live P} {Q : β → Live P → Prop} {a : P.Account} {c : P.Call} {e : P.Edit}

@[simp] theorem ensures_pure {b : β} : Ensures l (pure b) Q ↔ Q b l := by
  constructor
  · intro h
    exact h l b rfl
  · intro h l' b' hok
    cases hok
    exact h

theorem ensures_bind {h : Handler P α} {g : α → Handler P β} :
    Ensures l (h >>= g) Q ↔ Ensures l h fun a l => Ensures l (g a) Q := by
  unfold Ensures
  rw [interp_bind]
  cases h.interp Live.step l with
  | error e => exact ⟨fun _ _ _ hok => (nomatch hok), fun _ _ _ hok => (nomatch hok)⟩
  | ok p =>
    constructor
    · intro hQ l₁ a hok l' b hg
      cases hok
      exact hQ l' b hg
    · intro hQ l' b hg
      exact hQ p.1 p.2 rfl l' b hg

theorem ensures_liftM {x : Except ε β} :
    Ensures l (liftM x : Handler P β) Q ↔ ∀ b, x = .ok b → Q b l := by
  show Ensures l (lift x) Q ↔ _
  cases x with
  | ok b =>
    refine ensures_pure.trans ⟨fun h b' hok => ?_, fun h => h b rfl⟩
    cases hok
    exact h
  | error e => exact ⟨fun _ _ hok => (nomatch hok), fun _ _ _ hok => (nomatch hok)⟩

/-- An operation ends where its step does. -/
theorem ensures_op {o : Op P} {Q : o.Res → Live P → Prop} :
    Ensures l (op o) Q ↔ ∀ l' r, Live.step o l = .ok (l', r) → Q r l' := by
  unfold Ensures op
  rw [interp_step]
  cases Live.step o l with
  | error e => exact ⟨fun _ _ _ hok => (nomatch hok), fun _ _ _ hok => (nomatch hok)⟩
  | ok p => exact Iff.rfl

theorem ensures_call {Q : P.Ret c → Live P → Prop} :
    Ensures l (call c) Q ↔
      ∀ s r, P.act c l.store = .ok (s, r) → Q r ⟨s, l.log ++ [.called c]⟩ := by
  refine (ensures_op (o := .call c)).trans ?_
  simp only [Live.step]
  cases P.act c l.store with
  | error e => exact ⟨fun _ _ _ hok => (nomatch hok), fun _ _ _ hok => (nomatch hok)⟩
  | ok p =>
    constructor
    · intro h s r hok
      cases hok
      exact h _ _ rfl
    · intro h l' r hok
      cases hok
      exact h _ _ rfl

theorem ensures_of_ok {o : Op P} {Q : o.Res → Live P → Prop} {l' : Live P} {r : o.Res}
    (h : Live.step o l = .ok (l', r)) : Ensures l (op o) Q ↔ Q r l' := by
  refine ensures_op.trans ⟨fun hQ => hQ l' r h, fun hQ l'' r' hok => ?_⟩
  rw [h] at hok
  cases hok
  exact hQ

theorem ensures_read {Q : P.Content a → Live P → Prop} :
    Ensures l (read a) Q ↔ Q (P.get a l.store) l := ensures_of_ok rfl

theorem ensures_edit {Q : Unit → Live P → Prop} :
    Ensures l (edit e) Q ↔
      Q () ⟨P.set (P.target e) (P.edit e (P.get (P.target e) l.store)) l.store,
        l.log ++ [.edited e]⟩ :=
  ensures_of_ok (o := .edit e) rfl

theorem ensures_reload {Q : Unit → Live P → Prop} : Ensures l (reload a) Q ↔ Q () l :=
  ensures_of_ok (o := .reload a) rfl

theorem ensures_exit {Q : Unit → Live P → Prop} : Ensures l (exit a) Q ↔ Q () l :=
  ensures_of_ok (o := .exit a) rfl

end

variable {loaded : List P.Account} {h : Handler P α} {s s' : σ} {a : α} {log : List (Event P)}
  {Q : α → Live P → Prop}

/-- What a handler ensures without copies holds where a run ends. -/
theorem ensures_of_run (hsync : h.Synced loaded) (hQ : Ensures ⟨s, []⟩ h Q)
    (hrun : h.run loaded s = .ok (s', a, log)) : Q a ⟨s', log⟩ := by
  have hlive := live_of_run hsync hrun
  unfold live at hlive
  split at hlive
  · rename_i l b hl
    cases hlive
    exact hQ l a hl
  · cases hlive

end Handler

/-! ## What the log says -/

section
variable {σ ε S : Type} {P : Program σ ε} {es : List (Event P)} {e : Event P}

theorem replay_concat {s s' s'' : σ} (h : replay es s = .ok s') (he : e.apply s' = .ok s'') :
    replay (es ++ [e]) s = .ok s'' := by
  induction es generalizing s with
  | nil =>
    cases h
    simp only [List.nil_append, replay, he]
  | cons d es ih =>
    simp only [List.cons_append, replay] at h ⊢
    cases hd : d.apply s with
    | error x =>
      rw [hd] at h
      cases h
    | ok s₁ =>
      rw [hd] at h
      exact ih h

theorem follow_concat {δ : S → Event P → Option S} {q q' q'' : S}
    (h : follow δ q es = some q') (he : δ q' e = some q'') :
    follow δ q (es ++ [e]) = some q'' := by
  induction es generalizing q with
  | nil =>
    cases h
    simp only [List.nil_append, follow, he, Option.bind_some]
  | cons d es ih =>
    simp only [List.cons_append, follow] at h ⊢
    cases hd : δ q d with
    | none =>
      rw [hd] at h
      cases h
    | some q₁ =>
      rw [hd] at h
      exact ih h

/-- An automaton over events reads the calls and the edits of a handler. -/
def onEvents (δ : S → Event P → Option S) (q : S) : Op P → Option S
  | .call c => δ q (.called c)
  | .edit e => δ q (.edited e)
  | .read _ | .reload _ | .exit _ => some q

end

namespace Handler

variable {σ ε S : Type} {P : Program σ ε} {a : P.Account} {c : P.Call} {e : P.Edit}
  {δ : S → Event P → Option S} {q : S}

theorem wp_onEvents_call {Q : P.Ret c → S → Prop} :
    wp (onEvents δ) q (call c) Q ↔ ∃ q', δ q (.called c) = some q' ∧ ∀ r, Q r q' := Iff.rfl

theorem wp_onEvents_edit {Q : Unit → S → Prop} :
    wp (onEvents δ) q (edit e) Q ↔ ∃ q', δ q (.edited e) = some q' ∧ Q () q' :=
  (wp_op (o := .edit e)).trans (exists_congr fun _ => and_congr_right fun _ => forall_res)

theorem wp_onEvents_read {Q : P.Content a → S → Prop} :
    wp (onEvents δ) q (read a) Q ↔ ∀ x, Q x q := by
  refine (wp_op (o := .read a)).trans ?_
  simp only [onEvents, Option.some.injEq, exists_eq_left']
  rfl

theorem wp_onEvents_reload {Q : Unit → S → Prop} :
    wp (onEvents δ) q (reload a) Q ↔ Q () q := by
  refine (wp_op (o := .reload a)).trans ?_
  simp only [onEvents, Option.some.injEq, exists_eq_left']
  exact forall_res

theorem wp_onEvents_exit {Q : Unit → S → Prop} :
    wp (onEvents δ) q (exit a) Q ↔ Q () q := by
  refine (wp_op (o := .exit a)).trans ?_
  simp only [onEvents, Option.some.injEq, exists_eq_left']
  exact forall_res

end Handler

namespace Live

variable {σ ε S : Type} {P : Program σ ε} {l l' : Live P} {o : Op P} {r : o.Res} {s₀ : σ}

theorem replay_step (hl : replay l.log s₀ = .ok l.store) (h : step o l = .ok (l', r)) :
    replay l'.log s₀ = .ok l'.store := by
  cases o with
  | call c =>
    simp only [step] at h
    split at h
    · rename_i s r' hact
      cases h
      refine replay_concat hl ?_
      simp only [Event.apply, hact]
    · cases h
  | edit e =>
    cases h
    exact replay_concat hl rfl
  | read a | reload a | exit a =>
    cases h
    exact hl

theorem follow_step {δ : S → Event P → Option S} {q₀ q q' : S}
    (hl : follow δ q₀ l.log = some q) (hδ : onEvents δ q o = some q')
    (h : step o l = .ok (l', r)) : follow δ q₀ l'.log = some q' := by
  cases o with
  | call c =>
    simp only [step] at h
    split at h
    · cases h
      exact follow_concat hl hδ
    · cases h
  | edit e =>
    cases h
    exact follow_concat hl hδ
  | read a | reload a | exit a =>
    cases h
    cases hδ
    exact hl

end Live

namespace Handler

variable {σ ε α S : Type} {P : Program σ ε} {h : Handler P α} {s s' : σ} {a : α}
  {log : List (Event P)}

theorem live_invariant {δ : S → Op P → Option S} {I : S → Live P → Prop} {q : S} {Q : α → S → Prop}
    (hstep : ∀ q q' o l l' r, δ q o = some q' → I q l → Live.step o l = .ok (l', r) → I q' l')
    (hwp : h.wp δ q Q) (h₀ : I q ⟨s, []⟩) (hlive : h.live s = .ok (s', a, log)) :
    ∃ q', I q' ⟨s', log⟩ ∧ Q a q' := by
  unfold live at hlive
  split at hlive
  · rename_i l b hl
    cases hlive
    obtain ⟨_, q', -, ⟨-, hI⟩, hQ⟩ := interp_sim (R := fun q l u => l = u ∧ I q l)
      (fun q q' o l u l' r hδ hI hf =>
        ⟨l', hI.1 ▸ hf, rfl, hstep q q' o l l' r hδ hI.2 hf⟩) hwp ⟨rfl, h₀⟩ hl
    exact ⟨q', hI, hQ⟩
  · cases hlive

variable {loaded : List P.Account}

/-- **No lost update**: the store at the end is the initial one with the called instructions and the
edits applied in order. -/
theorem replay_of_run (hsync : h.Synced loaded) (hrun : h.run loaded s = .ok (s', a, log)) :
    replay log s = .ok s' := by
  obtain ⟨_, hreplay, -⟩ := live_invariant (I := fun _ l => replay l.log s = .ok l.store)
    (fun _ _ _ _ _ _ _ hl hstep => Live.replay_step hl hstep) hsync rfl
    (live_of_run hsync hrun)
  exact hreplay

/-- An automaton that accepts the handler accepts its log. -/
theorem follow_of_run {δ : S → Event P → Option S} {q : S} {Q : α → S → Prop}
    (hsync : h.Synced loaded) (hwp : h.wp (onEvents δ) q Q)
    (hrun : h.run loaded s = .ok (s', a, log)) : ∃ q', follow δ q log = some q' ∧ Q a q' :=
  live_invariant (I := fun q' l => follow δ q l.log = some q')
    (fun _ _ _ _ _ _ hδ hl hstep => Live.follow_step hl hδ hstep) hwp rfl
    (live_of_run hsync hrun)

/-- An invariant of the calls and the edits that a log has made. -/
theorem replay_invariant {I : σ → Prop} {log : List (Event P)}
    (hstep : ∀ e ∈ log, ∀ s s', I s → e.apply s = .ok s' → I s') (h₀ : I s)
    (h : replay log s = .ok s') : I s' := by
  induction log generalizing s with
  | nil =>
    cases h
    exact h₀
  | cons e es ih =>
    simp only [replay] at h
    split at h
    · rename_i s₁ he
      refine ih (fun e he => hstep e (List.mem_cons_of_mem _ he)) ?_ h
      exact hstep e List.mem_cons_self s s₁ h₀ he
    · cases h

end Handler

section
variable {σ ε S : Type} {P : Program σ ε} {δ : S → Event P → Option S} {R : S → σ → Prop}

/-- Where the automaton is along a log that is replayed says something of the store. -/
theorem replay_follow {q q' : S} {s s' : σ} {log : List (Event P)}
    (hstep : ∀ q q' e s s', δ q e = some q' → R q s → e.apply s = .ok s' → R q' s')
    (hR : R q s) (hf : follow δ q log = some q') (hr : replay log s = .ok s') :
    R q' s' ∧ ∀ i e, log[i]? = some e →
      ∃ q₁ q₂ s₁, δ q₁ e = some q₂ ∧ replay (log.take i) s = .ok s₁ ∧ R q₁ s₁ := by
  induction log generalizing q s with
  | nil =>
    cases hf
    cases hr
    exact ⟨hR, fun i e he => by simp at he⟩
  | cons d log ih =>
    simp only [follow, Option.bind_eq_some_iff] at hf
    obtain ⟨q₁, hq₁, hf⟩ := hf
    simp only [replay] at hr
    split at hr
    · rename_i s₁ hs₁
      obtain ⟨hlast, hmid⟩ := ih (hstep q q₁ d s s₁ hq₁ hR hs₁) hf hr
      refine ⟨hlast, fun i e he => ?_⟩
      cases i with
      | zero =>
        obtain rfl := Option.some.inj he
        exact ⟨q, q₁, s, hq₁, rfl, hR⟩
      | succ i =>
        simp only [List.take_succ_cons, replay, hs₁]
        exact hmid i e he
    · cases hr

end

namespace Handler

variable {σ ε α : Type} {P : Program σ ε} {loaded : List P.Account} {h : Handler P α} {s s' : σ}
  {a : α} {log : List (Event P)}

/-- An automaton without a memory, which accepts some events and no others. -/
def onlyEvents (p : Event P → Prop) [DecidablePred p] (_ : Unit) (e : Event P) : Option Unit :=
  if p e then some () else none

theorem onlyEvents_eq_some {p : Event P → Prop} [DecidablePred p] {u v : Unit} {e : Event P} :
    onlyEvents p u e = some v ↔ p e := by
  simp only [onlyEvents, Option.ite_none_right_eq_some, and_true]

theorem forall_of_follow {p : Event P → Prop} [DecidablePred p] {u v : Unit}
    (h : follow (onlyEvents p) u log = some v) : ∀ e ∈ log, p e := by
  induction log generalizing u with
  | nil => simp
  | cons e log ih =>
    simp only [follow, Option.bind_eq_some_iff] at h
    obtain ⟨u', he, h⟩ := h
    exact List.forall_mem_cons.2 ⟨onlyEvents_eq_some.1 he, ih h⟩

/-- The log of a handler that is confined to some events has no others. -/
theorem events_of_run {p : Event P → Prop} [DecidablePred p] (hsync : h.Synced loaded)
    (honly : wp (onEvents (onlyEvents p)) () h fun _ _ => True)
    (hrun : h.run loaded s = .ok (s', a, log)) : ∀ e ∈ log, p e := by
  obtain ⟨u, hfollow, -⟩ := follow_of_run hsync honly hrun
  exact forall_of_follow hfollow

/-- What each event of a run keeps, the run keeps. -/
theorem kept_of_run {R : σ → σ → Prop} (hrefl : ∀ s, R s s)
    (htrans : ∀ s s' s'', R s s' → R s' s'' → R s s'')
    (hevent : ∀ e ∈ log, ∀ s s', e.apply s = .ok s' → R s s') (hsync : h.Synced loaded)
    (hrun : h.run loaded s = .ok (s', a, log)) : R s s' :=
  replay_invariant (I := R s)
    (fun e he s₁ s₂ hR happly => htrans s s₁ s₂ hR (hevent e he s₁ s₂ happly)) (hrefl s)
    (replay_of_run hsync hrun)

end Handler

end Cached
