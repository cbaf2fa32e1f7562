import Mathlib.Data.List.Sort
import Mathlib.Data.List.Dedup
import Mathlib.Data.List.Perm.Basic

/-!
# Query — joined rows, ordered pages and rows grouped into objects

A table is a list of rows whose order means nothing, so what a query answers may depend on its rows
up to permutation only.  A `Scan` is the order in which the database happens to visit them.
-/

namespace Query

variable {α β κ ρ : Type}

/-! ## LEFT JOIN -/

/-- One row of the left table with the rows that match it, or with NULLs when none does. -/
def matched (a : α) : List β → List (α × Option β)
  | [] => [(a, none)]
  | b :: bs => (b :: bs).map fun b => (a, some b)

def leftJoin (on : α → β → Bool) (as : List α) (bs : List β) : List (α × Option β) :=
  as.flatMap fun a => matched a (bs.filter (on a))

theorem fst_of_mem_matched {a : α} {bs : List β} {r : α × Option β} (h : r ∈ matched a bs) :
    r.1 = a := by
  cases bs with
  | nil => rw [List.mem_singleton.mp h]
  | cons b bs =>
    obtain ⟨b', -, rfl⟩ := List.mem_map.mp h
    rfl

theorem matched_perm (a : α) {bs bs' : List β} (h : bs.Perm bs') :
    (matched a bs).Perm (matched a bs') := by
  cases bs with
  | nil => rw [h.nil_eq]
  | cons b bs =>
    cases bs' with
    | nil => cases h.eq_nil
    | cons b' bs' => exact h.map fun b => (a, some b)

theorem filterMap_matched (a : α) (bs : List β) : (matched a bs).filterMap (·.2) = bs := by
  cases bs with
  | nil => rfl
  | cons b bs => simp [matched, List.filterMap_map]

theorem matched_ne_nil (a : α) (bs : List β) : matched a bs ≠ [] := by
  cases bs <;> simp [matched]

/-- A condition on the left row alone may be tested before the join. -/
theorem leftJoin_filter (on : α → β → Bool) (as : List α) (bs : List β) (p : α → Bool) :
    (leftJoin on as bs).filter (fun r => p r.1) = leftJoin on (as.filter p) bs := by
  have hmatched : ∀ a bs, (matched a bs : List (α × Option β)).filter (fun r => p r.1) =
      if p a then matched a bs else [] := by
    intro a bs
    split
    · rename_i hp
      refine List.filter_eq_self.mpr fun r hr => ?_
      rwa [fst_of_mem_matched hr]
    · rename_i hp
      refine List.filter_eq_nil_iff.mpr fun r hr => ?_
      rwa [fst_of_mem_matched hr]
  unfold leftJoin
  induction as with
  | nil => rfl
  | cons a as ih =>
    rw [List.flatMap_cons, List.filter_append, hmatched, ih, List.filter_cons]
    split
    · rw [List.flatMap_cons]
    · rw [List.nil_append]

theorem leftJoin_perm {on : α → β → Bool} {as as' : List α} {bs bs' : List β} (h : as.Perm as')
    (hb : ∀ a ∈ as, (bs.filter (on a)).Perm (bs'.filter (on a))) :
    (leftJoin on as bs).Perm (leftJoin on as' bs') :=
  h.flatMap fun a ha => matched_perm a (hb a ha)

/-! ## SELECT DISTINCT with a complete ORDER BY, LIMIT and OFFSET -/

section Distinct

variable [DecidableEq κ] (r : κ → κ → Prop) [DecidableRel r]

def distinctSorted (ks : List κ) : List κ := ks.dedup.insertionSort r

/-- A complete order leaves nothing to the database. -/
theorem distinctSorted_perm [Std.Antisymm r] [Std.Total r] [IsTrans κ r] {ks ks' : List κ}
    (h : ks.Perm ks') : distinctSorted r ks = distinctSorted r ks' := by
  have hperm : (distinctSorted r ks).Perm (distinctSorted r ks') :=
    (List.perm_insertionSort r _).trans (h.dedup.trans (List.perm_insertionSort r _).symm)
  exact hperm.eq_of_pairwise' (List.pairwise_insertionSort r _) (List.pairwise_insertionSort r _)

theorem distinctSorted_const {k : κ} {ks : List κ} (hne : ks ≠ []) (h : ∀ x ∈ ks, x = k) :
    distinctSorted r ks = [k] := by
  have hdedup : ks.dedup = [k] := by
    have hnodup := List.nodup_dedup ks
    have hmem : ∀ x ∈ ks.dedup, x = k := fun x hx => h x (List.mem_dedup.mp hx)
    have hnil : ks.dedup ≠ [] := by simpa using hne
    match hks : ks.dedup with
    | [] => exact absurd hks hnil
    | [x] => rw [hmem x (by simp [hks])]
    | x :: y :: _ =>
      have hx := hmem x (by simp [hks])
      have hy := hmem y (by simp [hks])
      rw [hks, hx, hy] at hnodup
      simp at hnodup
  rw [distinctSorted, hdedup, List.insertionSort_cons, List.insertionSort_nil,
    List.orderedInsert_nil]
end Distinct

/-- OFFSET and LIMIT, where a missing limit is none. -/
def slice (offset : Nat) (limit : Option Nat) (ks : List κ) : List κ :=
  match limit with
  | some n => (ks.drop offset).take n
  | none => ks.drop offset

/-- `LIMIT 1` takes the first key in the order `r`. -/
theorem slice_one_distinctSorted [DecidableEq κ] {r : κ → κ → Prop} [DecidableRel r] [Std.Total r]
    [IsTrans κ r] {ks : List κ} (hne : ks ≠ []) :
    ∃ k ∈ ks, slice 0 (some 1) (distinctSorted r ks) = [k] ∧ ∀ x ∈ ks, r k x := by
  have hmem : ∀ x, x ∈ distinctSorted r ks ↔ x ∈ ks := fun x => by
    rw [distinctSorted, List.mem_insertionSort, List.mem_dedup]
  have hsorted : (distinctSorted r ks).Pairwise r := List.pairwise_insertionSort r _
  cases hks : distinctSorted r ks with
  | nil =>
    obtain ⟨x, hx⟩ := List.exists_mem_of_ne_nil ks hne
    have hnone := (hmem x).mpr hx
    rw [hks] at hnone
    cases hnone
  | cons k rest =>
    rw [hks, List.pairwise_cons] at hsorted
    refine ⟨k, (hmem k).mp (by rw [hks]; exact List.mem_cons_self), rfl, fun x hx => ?_⟩
    have hlisted := (hmem x).mpr hx
    rw [hks] at hlisted
    obtain rfl | hrest := List.mem_cons.mp hlisted
    · exact (Std.Total.total (r := r) x x).elim id id
    · exact hsorted.1 x hrest

/-! ## The order the database chooses -/

structure Scan (ρ : Type) where
  order : List ρ → List ρ
  perm : ∀ rows, (order rows).Perm rows

/-- The scan that visits `rows` as `chosen`, and all other rows in the order of the table. -/
def Scan.yielding [DecidableEq ρ] {chosen rows : List ρ} (h : chosen.Perm rows) : Scan ρ where
  order l := if l = rows then chosen else l
  perm l := by
    split
    · rename_i heq
      rw [heq]
      exact h
    · exact .refl l

@[simp] theorem Scan.yielding_order [DecidableEq ρ] {chosen rows : List ρ}
    (h : chosen.Perm rows) : (Scan.yielding h).order rows = chosen :=
  if_pos rfl

/-- Whatever order one database visits its rows in, another one may visit the same rows in. -/
def Scan.follow [DecidableEq ρ] (scan : Scan ρ) {rows rows' : List ρ} (h : rows.Perm rows') :
    Scan ρ :=
  .yielding ((scan.perm rows).trans h)

@[simp] theorem Scan.follow_order [DecidableEq ρ] (scan : Scan ρ) {rows rows' : List ρ}
    (h : rows.Perm rows') : (scan.follow h).order rows' = scan.order rows :=
  yielding_order _

/-! ## Rows grouped into objects -/

/-- The rows of each key together, keys in the order of their first rows. -/
def group [DecidableEq κ] (key : ρ → κ) (rows : List ρ) : List (List ρ) :=
  (rows.map key).eraseDups.map fun k => rows.filter (key · = k)

theorem eraseDups_const [DecidableEq κ] {k : κ} {ks : List κ} (hne : ks ≠ []) (h : ∀ x ∈ ks, x = k) :
    ks.eraseDups = [k] := by
  cases ks with
  | nil => cases hne rfl
  | cons x ks =>
    have hx : x = k := h x List.mem_cons_self
    subst hx
    have hrest : ks.filter (fun b => !b == x) = [] := by
      refine List.filter_eq_nil_iff.mpr fun y hy => ?_
      simpa using h y (List.mem_cons_of_mem _ hy)
    rw [List.eraseDups_cons, hrest, List.eraseDups_nil]

theorem group_const [DecidableEq κ] {key : ρ → κ} {k : κ} {rows : List ρ} (hne : rows ≠ [])
    (h : ∀ r ∈ rows, key r = k) : group key rows = [rows] := by
  have hkeys : (rows.map key).eraseDups = [k] := by
    refine eraseDups_const (by simpa using hne) fun x hx => ?_
    obtain ⟨r, hr, rfl⟩ := List.mem_map.mp hx
    exact h r hr
  have hall : rows.filter (key · = k) = rows := by
    rw [List.filter_eq_self]
    simpa using h
  rw [group, hkeys, List.map_singleton, hall]

end Query
