import ExponentCore.Admin.Account

/-!
# What removing an administrator does

Adding an administrator appends its key even when it is listed, and removing one takes out the first
entry only, while the account always shrinks by one entry.

* `removals_revoke_iff`: in every run, the removals revoke, and change nothing else, exactly when
  each names a key that is listed once at most. `removals_revoke_of_fresh`: this is so when no key
  is added that is listed already.
* `recordsHandover_iff`: in every run, there is always room for one more invitation exactly when
  each removal names a listed key or finds the room of an entry to spare.
-/

set_option autoImplicit false

namespace ExponentAdmin

open ExponentCore (Pubkey)
open Machine

/-! ## The lists -/

section
variable {d : PrincipleDetails} {ps : Principles} {key key' : Pubkey} {p q : Principle}

theorem isAdmin_eq_ok : d.isAdmin key = .ok () ↔ key ∈ d.administrators := by
  unfold PrincipleDetails.isAdmin
  split <;> simp_all

/-- Removing at the first position is `List.erase`. -/
theorem administrators_removeFirst :
    (d.removeFirst key).administrators = d.administrators.erase key := by
  unfold PrincipleDetails.removeFirst
  rw [List.erase_eq_eraseP', List.eraseP_eq_eraseIdx]
  split
  · rename_i i hi
    rw [hi]
  · rename_i hi
    rw [hi]

theorem details_add :
    (ps.add key p).details q = if q = p then (ps.details p).push key else ps.details q := by
  cases p <;> cases q <;> rfl

theorem details_remove :
    (ps.remove key p).details q =
      if q = p then (ps.details p).removeFirst key else ps.details q := by
  cases p <;> cases q <;> rfl

/-- Removing takes away one occurrence of the key under the principle. -/
theorem count_remove :
    ((ps.remove key p).details q).administrators.count key' =
      (ps.details q).administrators.count key' - if q = p ∧ key' = key then 1 else 0 := by
  rw [details_remove]
  by_cases hq : q = p
  · subst hq
    rw [if_pos rfl, administrators_removeFirst, List.count_erase]
    simp only [true_and, beq_iff_eq, @eq_comm _ key]
  · rw [if_neg hq, if_neg fun h => hq h.1, Nat.sub_zero]

theorem count_add :
    ((ps.add key p).details q).administrators.count key' =
      (ps.details q).administrators.count key' + if q = p ∧ key' = key then 1 else 0 := by
  rw [details_add]
  by_cases hq : q = p
  · subst hq
    rw [if_pos rfl, PrincipleDetails.push, List.count_append, List.count_singleton]
    simp only [true_and, beq_iff_eq, @eq_comm _ key]
  · rw [if_neg hq, if_neg fun h => hq h.1, Nat.add_zero]

end

/-! ## What a step does -/

section
variable {c c' : AdminAccount} {n : Nat} {f : Admin → Except Fault Admin} {a a' : Admin}
  {uberAdmin key : Pubkey} {p : Principle}

theorem withData_eq_ok :
    c.withData n f = .ok c' ↔
      f c.admin = .ok c'.admin ∧ c'.admin.borshLen ≤ n ∧ c'.dataLen = n := by
  unfold AdminAccount.withData
  cases h : f c.admin with
  | error e => simp [bind, Except.bind]
  | ok a =>
    obtain ⟨a', n'⟩ := c'
    simp only [bind, Except.bind, Except.ok.injEq]
    split
    · rename_i hle
      simp only [Except.ok.injEq, AdminAccount.mk.injEq]
      constructor
      · rintro ⟨rfl, rfl⟩
        exact ⟨rfl, hle, rfl⟩
      · rintro ⟨rfl, -, rfl⟩
        exact ⟨rfl, rfl⟩
    · rename_i hle
      refine ⟨(nomatch ·), ?_⟩
      rintro ⟨rfl, h, -⟩
      exact absurd h hle

theorem isUberAdmin_bind_eq_ok {x : Except Fault Admin} :
    (a.isUberAdmin key >>= fun _ => x) = .ok a' ↔ a.uberAdmin = key ∧ x = .ok a' := by
  unfold Admin.isUberAdmin
  split <;> simp_all [bind, Except.bind]

theorem step_invite_eq_ok {proposed : Pubkey} :
    c.step (.inviteAdmin uberAdmin proposed) = .ok c' ↔
      (c.admin.uberAdmin = uberAdmin ∧
        c'.admin = { c.admin with proposedUberAdmin := some proposed }) ∧
        c'.admin.borshLen ≤ c.dataLen ∧ c'.dataLen = c.dataLen := by
  simp only [AdminAccount.step, withData_eq_ok, Admin.inviteAdmin, isUberAdmin_bind_eq_ok,
    Except.ok.injEq, @eq_comm _ _ c'.admin]

theorem step_accept_eq_ok :
    c.step (.acceptInvitation key) = .ok c' ↔
      (c.admin.proposedUberAdmin = some key ∧
        c'.admin = { c.admin with uberAdmin := key, proposedUberAdmin := none }) ∧
        c'.admin.borshLen ≤ c.dataLen ∧ c'.dataLen = c.dataLen := by
  simp only [AdminAccount.step, withData_eq_ok, Admin.acceptInvitation]
  refine and_congr_left fun _ => ?_
  split
  · rename_i h
    simp [h, eq_comm]
  · rename_i h
    simp [h]

theorem step_add_eq_ok :
    c.step (.addPrincipleAdmin uberAdmin key p) = .ok c' ↔
      (c.admin.uberAdmin = uberAdmin ∧
        c'.admin = { c.admin with principles := c.admin.principles.add key p }) ∧
        c'.admin.borshLen ≤ c.dataLen + 32 ∧ c'.dataLen = c.dataLen + 32 := by
  simp only [AdminAccount.step, withData_eq_ok, Admin.addPrincipleAdmin, isUberAdmin_bind_eq_ok,
    Except.ok.injEq, @eq_comm _ _ c'.admin]

/-- A successful removal, on the value and on the length of the data. -/
theorem step_remove_eq_ok :
    c.step (.removePrincipleAdmin uberAdmin key p) = .ok c' ↔
      c.admin.uberAdmin = uberAdmin ∧
        c'.admin = { c.admin with principles := c.admin.principles.remove key p } ∧
        c'.admin.borshLen ≤ c'.dataLen ∧ c'.dataLen + 32 = c.dataLen := by
  simp only [AdminAccount.step, AdminAccount.shrunk]
  split
  · rename_i h
    have hdata : (.ok (c.dataLen - 32) >>= fun n =>
        c.withData n (·.removePrincipleAdmin uberAdmin key p)) =
      c.withData (c.dataLen - 32) (·.removePrincipleAdmin uberAdmin key p) := rfl
    rw [hdata]
    simp only [withData_eq_ok, Admin.removePrincipleAdmin, isUberAdmin_bind_eq_ok,
      Except.ok.injEq, @eq_comm _ _ c'.admin]
    constructor
    · rintro ⟨⟨hu, ha⟩, hb, hn⟩
      exact ⟨hu, ha, by omega, by omega⟩
    · rintro ⟨hu, ha, hb, hn⟩
      exact ⟨⟨hu, ha⟩, by omega, by omega⟩
  · rename_i h
    refine ⟨(nomatch ·), ?_⟩
    rintro ⟨-, -, -, hn⟩
    omega

end

/-! ## Revoking -/

/-- What a removal of `key` under `p` is for: the key is no administrator of the principle any more,
and nothing else changes. -/
structure Revoked (p : Principle) (key : Pubkey) (a a' : Admin) : Prop where
  notAdmin : (a'.principles.details p).isAdmin key ≠ .ok ()
  others : ∀ q key', (q, key') ≠ (p, key) →
    ((a'.principles.details q).isAdmin key' = .ok () ↔
      (a.principles.details q).isAdmin key' = .ok ())
  uberAdmin : a'.uberAdmin = a.uberAdmin
  proposedUberAdmin : a'.proposedUberAdmin = a.proposedUberAdmin

namespace AdminOp

/-- A removal, seen from the states before and after it, revokes. -/
def Revokes (c : AdminAccount) (op : AdminOp) (c' : AdminAccount) : Prop :=
  ∀ uberAdmin key p, op = .removePrincipleAdmin uberAdmin key p → Revoked p key c.admin c'.admin

/-- How often a key is listed under a principle. -/
def listedTimes (c : AdminAccount) (p : Principle) (key : Pubkey) : Nat :=
  (c.admin.principles.details p).administrators.count key

/-- A removal is of a key that is listed once at most. -/
def RemovesOnce (c : AdminAccount) : AdminOp → Prop
  | .removePrincipleAdmin _ key p => listedTimes c p key ≤ 1
  | _ => True

instance (c : AdminAccount) : ∀ op : AdminOp, Decidable (op.RemovesOnce c)
  | .removePrincipleAdmin .. => inferInstanceAs (Decidable (_ ≤ 1))
  | .inviteAdmin .. | .acceptInvitation .. | .addPrincipleAdmin .. | .reallocAdmin .. =>
    instDecidableTrue

/-- An addition is of a key that is not listed under the principle. -/
def AddsFresh (c : AdminAccount) : AdminOp → Prop
  | .addPrincipleAdmin _ key p => listedTimes c p key = 0
  | _ => True

end AdminOp

section
variable {c c' : AdminAccount} {uberAdmin key : Pubkey} {p : Principle} {op : AdminOp}

theorem isAdmin_iff_count {d : PrincipleDetails} :
    d.isAdmin key = .ok () ↔ 0 < d.administrators.count key :=
  isAdmin_eq_ok.trans List.count_pos_iff.symm

/-- A removal revokes iff the key was listed once at most; nothing else changes in any case. -/
theorem revoked_iff (h : c.step (.removePrincipleAdmin uberAdmin key p) = .ok c') :
    Revoked p key c.admin c'.admin ↔ AdminOp.listedTimes c p key ≤ 1 := by
  obtain ⟨-, ha, -, -⟩ := step_remove_eq_ok.1 h
  have hcount : ∀ q key', ((c'.admin.principles.details q).administrators.count key') =
      AdminOp.listedTimes c q key' - if q = p ∧ key' = key then 1 else 0 := by
    intro q key'
    rw [ha]
    exact count_remove
  constructor
  · intro hr
    have hgone := mt isAdmin_iff_count.2 hr.notAdmin
    rw [hcount, if_pos ⟨rfl, rfl⟩] at hgone
    omega
  · intro hle
    refine ⟨?_, ?_, by rw [ha], by rw [ha]⟩
    · rw [Ne, isAdmin_iff_count, hcount, if_pos ⟨rfl, rfl⟩]
      omega
    · intro q key' hne
      rw [isAdmin_iff_count, isAdmin_iff_count, hcount,
        if_neg fun h => hne (by rw [h.1, h.2]), Nat.sub_zero]
      rfl

theorem revokes_iff (h : c.step op = .ok c') : op.Revokes c c' ↔ op.RemovesOnce c := by
  cases op with
  | removePrincipleAdmin uberAdmin key p =>
    rw [AdminOp.RemovesOnce, ← revoked_iff h]
    constructor
    · exact fun hr => hr _ _ _ rfl
    · intro hr _ _ _ heq
      cases heq
      exact hr
  | inviteAdmin | acceptInvitation | addPrincipleAdmin | reallocAdmin =>
    exact ⟨fun _ => trivial, fun _ _ _ _ heq => by cases heq⟩

/-- **A removal revokes exactly when the key is listed once at most**, in every run. -/
theorem removals_revoke_iff (programId : Pubkey) (ops : List AdminOp) :
    Admits AdminAccount.step (Accepted AdminAccount.step fun c op c' => op.Revokes c c')
        (.initializeAdmin programId) ops ↔
      Admits AdminAccount.step (Accepted AdminAccount.step fun c op _ => op.RemovesOnce c)
        (.initializeAdmin programId) ops :=
  admits_accepted_congr fun _ _ _ => revokes_iff

/-- A key that was added twice is still an administrator after its removal. -/
theorem not_removals_revoke_addedTwice :
    ¬ Admits AdminAccount.step (Accepted AdminAccount.step fun c op c' => op.Revokes c c')
      (.initializeAdmin 1)
      [.addPrincipleAdmin 1 7 .hotAdmin, .addPrincipleAdmin 1 7 .hotAdmin,
        .removePrincipleAdmin 1 7 .hotAdmin] := by
  rw [admits_accepted_congr fun _ _ _ => revokes_iff]
  decide +kernel

/-- An instruction that adds no listed key keeps every key listed once at most. -/
theorem listedTimes_le_one_step (h : c.step op = .ok c') (hfresh : op.AddsFresh c)
    (hc : ∀ p key, AdminOp.listedTimes c p key ≤ 1) (p : Principle) (key : Pubkey) :
    AdminOp.listedTimes c' p key ≤ 1 := by
  have hkept : c'.admin.principles = c.admin.principles → AdminOp.listedTimes c' p key ≤ 1 := by
    intro heq
    rw [AdminOp.listedTimes, heq]
    exact hc p key
  cases op with
  | inviteAdmin uberAdmin proposed =>
    obtain ⟨⟨-, ha⟩, -⟩ := step_invite_eq_ok.1 h
    exact hkept (by rw [ha])
  | acceptInvitation newUberAdmin =>
    obtain ⟨⟨-, ha⟩, -⟩ := step_accept_eq_ok.1 h
    exact hkept (by rw [ha])
  | addPrincipleAdmin uberAdmin newAdmin q =>
    obtain ⟨⟨-, ha⟩, -⟩ := step_add_eq_ok.1 h
    have hcp := hc p key
    rw [AdminOp.listedTimes, ha, count_add]
    split
    · rename_i heq
      obtain ⟨rfl, rfl⟩ := heq
      exact (Nat.add_le_add_right (Nat.le_of_eq hfresh) 1).trans (Nat.le_of_eq (Nat.zero_add 1))
    · exact hcp
  | removePrincipleAdmin uberAdmin adminToRemove q =>
    obtain ⟨-, ha, -, -⟩ := step_remove_eq_ok.1 h
    rw [AdminOp.listedTimes, ha, count_remove]
    exact (Nat.sub_le _ _).trans (hc p key)
  | reallocAdmin additionalBytes =>
    cases h
    exact hkept rfl

/-- If no key is added that is listed already, every removal revokes. -/
theorem removals_revoke_of_fresh {programId : Pubkey} {ops : List AdminOp}
    (h : Admits AdminAccount.step (Accepted AdminAccount.step fun c op _ => op.AddsFresh c)
      (.initializeAdmin programId) ops) :
    Admits AdminAccount.step (Accepted AdminAccount.step fun c op c' => op.Revokes c c')
      (.initializeAdmin programId) ops := by
  rw [admits_accepted_congr fun _ _ _ => revokes_iff]
  have hinit : ∀ p key, AdminOp.listedTimes (.initializeAdmin programId) p key ≤ 1 := by
    intro p key
    cases p <;> exact Nat.zero_le 1
  refine (h.with_invariant (I := fun c => ∀ p key, AdminOp.listedTimes c p key ≤ 1) ?_ hinit).mono
    fun c op hop => ?_
  · intro c op c' hc hfresh hs
    exact listedTimes_le_one_step hs (hfresh c' hs) hc
  · intro c' _
    cases op with
    | removePrincipleAdmin uberAdmin key p => exact hop.1 p key
    | inviteAdmin | acceptInvitation | addPrincipleAdmin | reallocAdmin => trivial

end

/-! ## The room for an invitation -/

namespace Admin

variable (a : Admin)

/-- The longest borsh form of a value with these lists: with somebody invited. -/
def fullSize : Nat := sizeOfStatic + 32 * a.listed

theorem borshLen_eq : a.borshLen = 64 + optionSize a.proposedUberAdmin + 32 * a.listed := by
  simp only [borshLen, vecSize, listed]
  omega

theorem fullSize_eq : a.fullSize = 97 + 32 * a.listed := rfl

theorem listed_invited (o : Option Pubkey) : { a with proposedUberAdmin := o }.listed = a.listed :=
  rfl

end Admin

section
variable (a : Admin) (key : Pubkey) (p : Principle)

theorem listed_add :
    ({ a with principles := a.principles.add key p } : Admin).listed = a.listed + 1 := by
  cases p <;> simp only [Admin.listed, Principles.add, PrincipleDetails.push, List.length_append,
    List.length_singleton] <;> omega

theorem length_removeFirst (d : PrincipleDetails) (key : Pubkey) :
    (d.removeFirst key).administrators.length + (if key ∈ d.administrators then 1 else 0) =
      d.administrators.length := by
  rw [administrators_removeFirst, List.length_erase]
  split
  · rename_i hmem
    have := List.length_pos_of_mem hmem
    omega
  · rfl

theorem listed_remove :
    ({ a with principles := a.principles.remove key p } : Admin).listed
        + (if key ∈ (a.principles.details p).administrators then 1 else 0) = a.listed := by
  have h := length_removeFirst (a.principles.details p) key
  cases p <;> simp only [Admin.listed, Principles.remove, Principles.details] at h ⊢ <;> omega

end

/-- The uber admin can record a handover: there is room for it, and inviting anybody succeeds. -/
structure RecordsHandover (c : AdminAccount) : Prop where
  room : Admin.sizeOfStatic + 32 * c.admin.listed ≤ c.dataLen
  invite : ∀ proposed, ∃ c', c.step (.inviteAdmin c.admin.uberAdmin proposed) = .ok c'

/-- A removal is of a listed key, or the account has the room of an entry to spare. -/
def AdminOp.ShrinksCovered (c : AdminAccount) : AdminOp → Prop
  | .removePrincipleAdmin _ key p =>
    key ∈ (c.admin.principles.details p).administrators ∨ c.admin.fullSize + 32 ≤ c.dataLen
  | _ => True

instance (c : AdminAccount) : ∀ op : AdminOp, Decidable (op.ShrinksCovered c)
  | .removePrincipleAdmin .. => inferInstanceAs (Decidable (_ ∨ _ ≤ _))
  | .inviteAdmin .. | .acceptInvitation .. | .addPrincipleAdmin .. | .reallocAdmin .. =>
    instDecidableTrue

section
variable {c c' : AdminAccount} {op : AdminOp}

/-- An invitation fails only for lack of room. -/
theorem recordsHandover_iff_room : RecordsHandover c ↔ c.admin.fullSize ≤ c.dataLen := by
  refine ⟨fun h => h.room, fun h => ⟨h, ?_⟩⟩
  intro proposed
  refine ⟨⟨{ c.admin with proposedUberAdmin := some proposed }, c.dataLen⟩, ?_⟩
  refine step_invite_eq_ok.2 ⟨⟨rfl, rfl⟩, ?_, rfl⟩
  rw [Admin.borshLen_eq, Admin.listed_invited]
  rw [Admin.fullSize_eq] at h
  simp only [Admin.optionSize]
  omega

theorem recordsHandover_step (hc : RecordsHandover c) (h : c.step op = .ok c') :
    RecordsHandover c' ↔ op.ShrinksCovered c := by
  rw [recordsHandover_iff_room, Admin.fullSize_eq] at hc ⊢
  cases op with
  | inviteAdmin uberAdmin proposed =>
    obtain ⟨⟨-, ha⟩, -, hn⟩ := step_invite_eq_ok.1 h
    rw [ha, hn]
    exact iff_of_true hc trivial
  | acceptInvitation newUberAdmin =>
    obtain ⟨⟨-, ha⟩, -, hn⟩ := step_accept_eq_ok.1 h
    rw [ha, hn]
    exact iff_of_true hc trivial
  | addPrincipleAdmin uberAdmin newAdmin p =>
    obtain ⟨⟨-, ha⟩, -, hn⟩ := step_add_eq_ok.1 h
    rw [ha, hn, listed_add]
    refine iff_of_true ?_ trivial
    omega
  | removePrincipleAdmin uberAdmin key p =>
    obtain ⟨-, ha, -, hn⟩ := step_remove_eq_ok.1 h
    have hl := listed_remove c.admin key p
    rw [← ha] at hl
    rw [AdminOp.ShrinksCovered, Admin.fullSize_eq]
    split at hl
    · rename_i hmem
      refine iff_of_true ?_ (.inl hmem)
      omega
    · rename_i hmem
      simp only [hmem, false_or]
      omega
  | reallocAdmin additionalBytes =>
    cases h
    refine iff_of_true ?_ trivial
    dsimp only
    omega

/-- **There is always room to record a handover exactly when every removal is covered.** -/
theorem recordsHandover_iff (programId : Pubkey) (ops : List AdminOp) :
    Throughout AdminAccount.step RecordsHandover (.initializeAdmin programId) ops ↔
      Admits AdminAccount.step (Accepted AdminAccount.step fun c op _ => op.ShrinksCovered c)
        (.initializeAdmin programId) ops :=
  throughout_iff_accepted (fun _ _ _ hc h => recordsHandover_step hc h)
    (recordsHandover_iff_room.2 (Nat.le_refl 97))

/-- Removing a key that is not listed takes the room that an invitation needs. -/
theorem not_recordsHandover_removeUnlisted :
    ¬ Throughout AdminAccount.step RecordsHandover (.initializeAdmin 1)
      [.removePrincipleAdmin 1 7 .hotAdmin] := by
  intro h
  have hlast := recordsHandover_iff_room.1 h.last
  revert hlast
  decide +kernel

end

end ExponentAdmin
