import Mathlib.Logic.Relation
import Mathlib.Logic.Function.Basic
import Mathlib.Order.WellFounded
import Mathlib.Data.Finite.Defs
import Mathlib.Data.Fintype.Card

/-!
# Locking — exclusive lock tables and the waits-for relation

A lock table maps each resource to its holder, if any.  `Agrees` ties the table to what the holders
themselves record.  The second half is about who waits for whom: a waits-for relation that follows
one strict order of the resources has no cycle, and an acyclic one on a finite type has, in every
nonempty set, somebody who waits for nobody in that set.
-/

namespace Locking

variable {κ ι : Type*}

/-- Who holds each resource. -/
abbrev LockTable (κ ι : Type*) := κ → Option ι

namespace LockTable

/-- Nobody holds anything. -/
def empty : LockTable κ ι := fun _ => none

def acquire [DecidableEq κ] (t : LockTable κ ι) (k : κ) (c : ι) : LockTable κ ι :=
  Function.update t k (some c)

/-- Everything `c` holds is free again, as at the end of its transaction. -/
def releaseAll [DecidableEq ι] (t : LockTable κ ι) (c : ι) : LockTable κ ι :=
  fun k => if t k = some c then none else t k

@[simp] theorem empty_apply (k : κ) : (empty : LockTable κ ι) k = none := rfl

theorem acquire_eq_some_iff [DecidableEq κ] {t : LockTable κ ι} {k k' : κ} {c d : ι} :
    t.acquire k c k' = some d ↔ (k' = k ∧ c = d) ∨ (k' ≠ k ∧ t k' = some d) := by
  unfold acquire
  by_cases h : k' = k
  · subst h
    simp
  · simp [h]

theorem releaseAll_eq_some_iff [DecidableEq ι] {t : LockTable κ ι} {k : κ} {c d : ι} :
    t.releaseAll c k = some d ↔ t k = some d ∧ d ≠ c := by
  unfold releaseAll
  split
  · rename_i h
    simp only [h, Option.some.injEq, reduceCtorEq, false_iff, not_and, not_not]
    exact fun hcd => hcd.symm
  · rename_i h
    constructor
    · intro hd
      exact ⟨hd, fun hdc => h (hdc ▸ hd)⟩
    · exact fun hd => hd.1

theorem releaseAll_eq_none_of [DecidableEq ι] {t : LockTable κ ι} {k : κ} {c : ι}
    (h : t k = none ∨ t k = some c) : t.releaseAll c k = none := by
  unfold releaseAll
  rcases h with h | h <;> simp [h]

/-- Releasing what is not held changes nothing. -/
theorem releaseAll_eq_self [DecidableEq ι] {t : LockTable κ ι} {c : ι} (h : ∀ k, t k ≠ some c) :
    t.releaseAll c = t := by
  funext k
  unfold releaseAll
  rw [if_neg (h k)]

theorem releaseAll_ne [DecidableEq ι] (t : LockTable κ ι) (c : ι) (k : κ) :
    t.releaseAll c k ≠ some c := by
  rw [ne_eq, releaseAll_eq_some_iff]
  exact fun h => h.2 rfl

-- What is the same up to `c`'s locks is the same for every other holder.
theorem eq_some_iff_of_releaseAll_eq [DecidableEq ι] {t t' : LockTable κ ι} {c d : ι}
    (h : t'.releaseAll c = t.releaseAll c) (hd : d ≠ c) (k : κ) :
    t' k = some d ↔ t k = some d := by
  have hk := congrFun h k
  have hafter : t'.releaseAll c k = some d ↔ t' k = some d := by
    rw [releaseAll_eq_some_iff, and_iff_left hd]
  have hbefore : t.releaseAll c k = some d ↔ t k = some d := by
    rw [releaseAll_eq_some_iff, and_iff_left hd]
  rw [← hafter, ← hbefore, hk]

@[simp] theorem releaseAll_empty [DecidableEq ι] (c : ι) :
    (empty : LockTable κ ι).releaseAll c = empty := rfl

@[simp] theorem releaseAll_releaseAll [DecidableEq ι] (t : LockTable κ ι) (c : ι) :
    (t.releaseAll c).releaseAll c = t.releaseAll c :=
  releaseAll_eq_self (releaseAll_ne t c)

/-- Taking a free resource and then releasing everything is releasing everything. -/
theorem releaseAll_acquire [DecidableEq κ] [DecidableEq ι] {t : LockTable κ ι} {k : κ} {c : ι}
    (h : t k = none) : (t.acquire k c).releaseAll c = t.releaseAll c := by
  funext k'
  by_cases hk : k' = k
  · subst hk
    rw [releaseAll_eq_none_of (.inl h), releaseAll_eq_none_of]
    exact .inr (by simp [acquire])
  · unfold releaseAll acquire
    rw [Function.update_of_ne hk]

-- What two holders do to the table does not depend on the order.
theorem releaseAll_comm [DecidableEq ι] (t : LockTable κ ι) (c d : ι) :
    (t.releaseAll c).releaseAll d = (t.releaseAll d).releaseAll c := by
  funext k
  unfold releaseAll
  by_cases hc : t k = some c
  · simp [hc]
  · simp [hc]

theorem acquire_releaseAll [DecidableEq κ] [DecidableEq ι] (t : LockTable κ ι) (k : κ) {c d : ι}
    (h : d ≠ c) : (t.acquire k d).releaseAll c = (t.releaseAll c).acquire k d := by
  funext k'
  unfold releaseAll acquire
  by_cases hk : k' = k
  · subst hk
    simp [h]
  · simp [hk]

/-- The table records exactly what the holders say they hold. -/
def Agrees (t : LockTable κ ι) (held : ι → κ → Prop) : Prop :=
  ∀ k c, t k = some c ↔ held c k

theorem agrees_empty {held : ι → κ → Prop} (h : ∀ c k, ¬ held c k) :
    Agrees (empty : LockTable κ ι) held := by
  intro k c
  simp [h c k]

theorem Agrees.holder_unique {t : LockTable κ ι} {held : ι → κ → Prop} (h : Agrees t held)
    {k : κ} {c d : ι} (hc : held c k) (hd : held d k) : c = d := by
  have hck := (h k c).mpr hc
  have hdk := (h k d).mpr hd
  rw [hck] at hdk
  exact Option.some.inj hdk

theorem Agrees.not_held_of_none {t : LockTable κ ι} {held : ι → κ → Prop} (h : Agrees t held)
    {k : κ} (hk : t k = none) (c : ι) : ¬ held c k := by
  intro hc
  rw [(h k c).mpr hc] at hk
  cases hk

/-- The table stays in agreement when nobody's holdings change. -/
theorem Agrees.congr {t : LockTable κ ι} {held held' : ι → κ → Prop} (h : Agrees t held)
    (heq : ∀ c k, held' c k ↔ held c k) : Agrees t held' := by
  intro k c
  rw [h k c, heq c k]

theorem Agrees.acquire [DecidableEq κ] {t : LockTable κ ι} {held held' : ι → κ → Prop}
    (h : Agrees t held)
    {k : κ} {c : ι} (hfree : t k = none)
    (hself : ∀ k', held' c k' ↔ k' = k ∨ held c k')
    (hother : ∀ d, d ≠ c → ∀ k', held' d k' ↔ held d k') : Agrees (t.acquire k c) held' := by
  intro k' d
  rw [acquire_eq_some_iff, h k' d]
  by_cases hd : d = c
  · subst hd
    rw [hself k']
    constructor
    · rintro (⟨hk, -⟩ | ⟨-, hh⟩)
      · exact Or.inl hk
      · exact Or.inr hh
    · rintro (hk | hh)
      · exact Or.inl ⟨hk, rfl⟩
      · refine Or.inr ⟨?_, hh⟩
        -- the lock was free, so nobody else held it
        rintro rfl
        exact h.not_held_of_none hfree d hh
  · rw [hother d hd k']
    constructor
    · rintro (⟨-, hcd⟩ | ⟨-, hh⟩)
      · exact absurd hcd.symm hd
      · exact hh
    · intro hh
      refine Or.inr ⟨?_, hh⟩
      rintro rfl
      exact h.not_held_of_none hfree d hh

theorem Agrees.releaseAll [DecidableEq ι] {t : LockTable κ ι} {held held' : ι → κ → Prop}
    (h : Agrees t held)
    {c : ι} (hself : ∀ k, ¬ held' c k)
    (hother : ∀ d, d ≠ c → ∀ k, held' d k ↔ held d k) : Agrees (t.releaseAll c) held' := by
  intro k d
  rw [releaseAll_eq_some_iff, h k d]
  by_cases hd : d = c
  · subst hd
    simp [hself k]
  · rw [hother d hd k]
    simp [hd]

end LockTable

/-! ## Waits-for relations -/

section WaitsFor

variable {W : ι → ι → Prop}

/-- Nobody waits, directly or through others, for themselves. -/
def Acyclic (W : ι → ι → Prop) : Prop := ∀ c, ¬ Relation.TransGen W c c

/-- A waiter wants one resource.  When everybody who is waited for and waits in turn wants a
resource that comes later in one strict order, there is no cycle. -/
theorem acyclic_of_ordered {κ : Type*} (r : κ → κ → Prop) (hirr : ∀ k, ¬ r k k)
    (htrans : ∀ a b c, r a b → r b c → r a c) (want : ι → κ)
    (h : ∀ c d e, W c d → W d e → r (want c) (want d)) : Acyclic W := by
  have later : ∀ c d, Relation.TransGen W c d → ∀ e, W d e → r (want c) (want d) := by
    intro c d hcd
    induction hcd with
    | single hw => exact fun e hde => h _ _ e hw hde
    | tail _ hw ih => exact fun e hde => htrans _ _ _ (ih _ hw) (h _ _ e hw hde)
  intro c hc
  obtain ⟨e, hce, -⟩ := Relation.TransGen.head'_iff.mp hc
  exact hirr _ (later c c hc e hce)

/-- On a finite type an acyclic relation leaves, in every nonempty set, somebody who waits for
nobody in the set. -/
theorem Acyclic.exists_not_waiting [Finite ι] (h : Acyclic W) {S : ι → Prop} (hS : ∃ c, S c) :
    ∃ c, S c ∧ ∀ d, S d → ¬ W c d := by
  let R : ι → ι → Prop := fun a b => Relation.TransGen W b a
  have : IsTrans ι R := ⟨fun a b c hab hbc => hbc.trans hab⟩
  have : Std.Irrefl R := ⟨h⟩
  have hwf : WellFounded R := Finite.wellFounded_of_trans_of_irrefl R
  obtain ⟨c, hc, hmin⟩ := hwf.has_min {c | S c} hS
  exact ⟨c, hc, fun d hd hw => hmin d hd (.single hw)⟩

end WaitsFor

end Locking
