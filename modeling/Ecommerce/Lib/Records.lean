import Ecommerce.Lib.Sql

/-!
# Records — tables whose rows stand for records

A table may be written as a list of records with one row for each.  What a constraint asks of the rows
is then a statement about the records: keys that differ, and references that are met.
-/

namespace Sql

variable {υ α β κ : Type} [DecidableEq υ] {f : α → Row υ} {columns : List String} {as : List α}

omit [DecidableEq υ] in
theorem noNulls_records (hnull : ∀ a ∈ as, .null ∉ project (f a) columns) :
    NoNulls columns (as.map f) := by
  intro values hvalues
  rw [List.map_map] at hvalues
  obtain ⟨a, ha, rfl⟩ := List.mem_map.mp hvalues
  exact hnull a ha

/-- `key` tells the records apart as the columns do. -/
theorem distinct_records_iff (key : α → κ) (hnull : ∀ a ∈ as, .null ∉ project (f a) columns)
    (hkey : ∀ a b, project (f a) columns = project (f b) columns ↔ key a = key b) :
    Distinct columns (as.map f) ↔ (as.map key).Nodup := by
  have hall : ((as.map f).map (project · columns)).filter (.null ∉ ·) =
      (as.map f).map (project · columns) := by
    rw [List.filter_eq_self]
    intro values hvalues
    exact decide_eq_true (noNulls_records hnull values hvalues)
  unfold Distinct
  rw [hall, List.map_map, List.Nodup, List.Nodup, List.pairwise_map, List.pairwise_map]
  exact List.Pairwise.iff fun a b => not_congr (hkey a b)

theorem unique_records_iff (key : α → κ) (hnull : ∀ a ∈ as, .null ∉ project (f a) columns)
    (hkey : ∀ a b, project (f a) columns = project (f b) columns ↔ key a = key b)
    (name : String) (contents : Contents υ) :
    (Constraint.unique name columns).Holds contents (as.map f) ↔ (as.map key).Nodup :=
  distinct_records_iff key hnull hkey

theorem primaryKey_records_iff (key : α → κ) (hnull : ∀ a ∈ as, .null ∉ project (f a) columns)
    (hkey : ∀ a b, project (f a) columns = project (f b) columns ↔ key a = key b)
    (name : String) (contents : Contents υ) :
    (Constraint.primaryKey name columns).Holds contents (as.map f) ↔ (as.map key).Nodup :=
  (and_iff_left (noNulls_records hnull)).trans (distinct_records_iff key hnull hkey)

/-- Every record refers to one of the other table. -/
theorem foreignKey_records_iff {contents : Contents υ} {table : String} {refColumns : List String}
    {bs : List β} {f' : β → Row υ} (htable : contents table = bs.map f')
    (hnull : ∀ a ∈ as, .null ∉ project (f a) columns) (name : String)
    (onDelete onUpdate : Action) :
    (Constraint.foreignKey name columns table refColumns onDelete onUpdate).Holds contents
        (as.map f) ↔
      ∀ a ∈ as, ∃ b ∈ bs, project (f' b) refColumns = project (f a) columns := by
  show (∀ r ∈ as.map f, .null ∈ project r columns ∨
    ∃ r' ∈ contents table, project r' refColumns = project r columns) ↔ _
  rw [List.forall_mem_map, htable]
  refine forall₂_congr fun a ha => (or_iff_right (hnull a ha)).trans ?_
  simp only [List.mem_map, exists_exists_and_eq_and]

end Sql
