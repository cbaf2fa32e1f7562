import Mathlib.Algebra.Group.Int.Defs
import Mathlib.Data.List.Forall2
import Mathlib.Data.List.Nodup
import Mathlib.Logic.Function.Basic

/-!
# Sql — schemas, the contents they admit, and the statements that alter them

A schema declares enumerations, tables with their constraints, and indexes; the contents of a table
are rows of named cells.  A statement is refused by the catalog, whatever the contents, or by the
rows it finds; otherwise it alters the schema and may rewrite rows.
-/

namespace Sql

/-! ## Schemas -/

inductive DataType where
  | uuid
  | integer
  | numeric
  | text
  | varchar (limit : Option Nat)
  | timestamptz
  | enum (name : String)
deriving DecidableEq

inductive Default where
  | now
  | uuidGenerateV4
  | literal (text : String)
deriving DecidableEq

structure Column where
  name : String
  type : DataType
  notNull : Bool
  default : Option Default
deriving DecidableEq

/-- What a foreign key does when a referenced row goes or changes. -/
inductive Action where
  | noAction
  | restrict
  | cascade
deriving DecidableEq

inductive Constraint where
  | primaryKey (name : String) (columns : List String)
  | unique (name : String) (columns : List String)
  | foreignKey (name : String) (columns : List String) (refTable : String)
      (refColumns : List String) (onDelete onUpdate : Action)
deriving DecidableEq

structure Table where
  name : String
  columns : List Column
  constraints : List Constraint
deriving DecidableEq

/-- The columns of an index, each with `true` for DESC. -/
structure Index where
  name : String
  table : String
  columns : List (String × Bool)
deriving DecidableEq

structure Schema where
  types : List (String × List String)
  tables : List Table
  indexes : List Index
deriving DecidableEq

def Schema.empty : Schema := { types := [], tables := [], indexes := [] }

def Constraint.name : Constraint → String
  | .primaryKey name _ => name
  | .unique name _ => name
  | .foreignKey name _ _ _ _ _ => name

def Constraint.columns : Constraint → List String
  | .primaryKey _ columns => columns
  | .unique _ columns => columns
  | .foreignKey _ columns _ _ _ _ => columns

/-- The constraint is kept by an index of its own name. -/
def Constraint.isIndexed : Constraint → Bool
  | .foreignKey _ _ _ _ _ _ => false
  | _ => true

/-- The table a foreign key refers to, and the columns. -/
def Constraint.target? : Constraint → Option (String × List String)
  | .foreignKey _ _ refTable refColumns _ _ => some (refTable, refColumns)
  | _ => none

/-- The constraint of `owner` depends on the column of the table. -/
def Constraint.involves (k : Constraint) (owner table column : String) : Bool :=
  (owner = table && column ∈ k.columns) ||
    k.target?.any fun target => target.1 = table && column ∈ target.2

def Table.columnNames (t : Table) : List String := t.columns.map (·.name)

/-- The names tables and indexes share. -/
def Schema.relations (s : Schema) : List String :=
  s.tables.map (·.name) ++ s.indexes.map (·.name) ++
    s.tables.flatMap fun t => (t.constraints.filter (·.isIndexed)).map (·.name)

/-! ## Contents -/

/-- A value of a cell; `υ` is the type of the uuids. -/
inductive Value (υ : Type) where
  | null
  | uuid (u : υ)
  | int (n : Int)
  | numeric (digits : String)
  | text (s : String)
  | timestamp (t : Int)
  | label (s : String)
deriving DecidableEq

abbrev Row (υ : Type) := List (String × Value υ)

abbrev Contents (υ : Type) := String → List (Row υ)

variable {υ : Type}

def get (r : Row υ) (column : String) : Value υ := (r.lookup column).getD .null

def project (r : Row υ) (columns : List String) : List (Value υ) := columns.map (get r)

/-! ## Rows that agree in some columns -/

/-- The rows correspond one to one, each with the values it had in the columns. -/
def SameOn (columns : List String) (rows rows' : List (Row υ)) : Prop :=
  List.Forall₂ (fun r r' => ∀ c ∈ columns, get r' c = get r c) rows rows'

theorem SameOn.refl (columns : List String) (rows : List (Row υ)) : SameOn columns rows rows :=
  List.forall₂_same.mpr fun _ _ _ _ => rfl

theorem SameOn.trans {columns : List String} {rows₁ rows₂ rows₃ : List (Row υ)}
    (h : SameOn columns rows₁ rows₂) (h' : SameOn columns rows₂ rows₃) :
    SameOn columns rows₁ rows₃ := by
  unfold SameOn at *
  induction h generalizing rows₃ with
  | nil => rwa [List.forall₂_nil_left_iff] at h' ⊢
  | cons hr hrest ih =>
    obtain ⟨r₃, rest₃, hr', hrest', rfl⟩ := List.forall₂_cons_left_iff.mp h'
    exact .cons (fun c hc => (hr' c hc).trans (hr c hc)) (ih hrest')

theorem SameOn.mono {columns columns' : List String} {rows rows' : List (Row υ)}
    (h : SameOn columns rows rows') (hsub : columns' ⊆ columns) : SameOn columns' rows rows' :=
  List.Forall₂.imp (fun _ _ hr c hc => hr c (hsub hc)) h

/-- Changing each row in other columns only. -/
theorem sameOn_map {columns : List String} {rows : List (Row υ)} {f : Row υ → Row υ}
    (h : ∀ r ∈ rows, ∀ c ∈ columns, get (f r) c = get r c) : SameOn columns rows (rows.map f) := by
  unfold SameOn
  rw [List.forall₂_map_right_iff, List.forall₂_same]
  exact h

theorem project_congr {columns : List String} {r r' : Row υ}
    (h : ∀ c ∈ columns, get r' c = get r c) : project r' columns = project r columns :=
  List.map_congr_left h

theorem SameOn.map_project {columns : List String} {rows rows' : List (Row υ)}
    (h : SameOn columns rows rows') :
    rows'.map (project · columns) = rows.map (project · columns) := by
  unfold SameOn at h
  induction h with
  | nil => rfl
  | cons hr hrest ih => rw [List.map_cons, List.map_cons, ih, project_congr hr]

theorem SameOn.mem_project {columns : List String} {rows rows' : List (Row υ)}
    (h : SameOn columns rows rows') {values : List (Value υ)} :
    (∃ r ∈ rows', project r columns = values) ↔ ∃ r ∈ rows, project r columns = values := by
  rw [← List.mem_map, ← List.mem_map, h.map_project]

/-! ## What a schema demands -/

variable [DecidableEq υ]

/-- A value other than NULL is of the type. -/
def hasType (types : List (String × List String)) : DataType → Value υ → Bool
  | .uuid, .uuid _ => true
  | .integer, .int n => -2 ^ 31 ≤ n ∧ n < 2 ^ 31
  | .numeric, .numeric _ => true
  | .text, .text _ => true
  | .varchar limit, .text s => limit.all (s.length ≤ ·)
  | .timestamptz, .timestamp _ => true
  | .enum name, .label l => (types.lookup name).any (l ∈ ·)
  | _, _ => false

def Column.fits (types : List (String × List String)) (c : Column) (v : Value υ) : Prop :=
  if v = .null then c.notNull = false else hasType types c.type v = true

/-- The cells of a row stand in the order of the columns. -/
def RowFits (types : List (String × List String)) (columns : List Column) (r : Row υ) : Prop :=
  List.Forall₂ (fun c cell => cell.1 = c.name ∧ c.fits types cell.2) columns r

/-- No two rows agree in the columns; rows with a NULL among them do not count. -/
def Distinct (columns : List String) (rows : List (Row υ)) : Prop :=
  ((rows.map (project · columns)).filter (.null ∉ ·)).Nodup

def NoNulls (columns : List String) (rows : List (Row υ)) : Prop :=
  ∀ values ∈ rows.map (project · columns), .null ∉ values

/-- The constraint holds of the rows of its table. -/
def Constraint.Holds (contents : Contents υ) (rows : List (Row υ)) : Constraint → Prop
  | .primaryKey _ columns => Distinct columns rows ∧ NoNulls columns rows
  | .unique _ columns => Distinct columns rows
  | .foreignKey _ columns refTable refColumns _ _ =>
    ∀ r ∈ rows, .null ∈ project r columns ∨
      ∃ r' ∈ contents refTable, project r' refColumns = project r columns

instance (columns : List String) (rows : List (Row υ)) : Decidable (Distinct columns rows) :=
  inferInstanceAs (Decidable (List.Nodup _))

instance (columns : List String) (rows : List (Row υ)) : Decidable (NoNulls columns rows) :=
  inferInstanceAs (Decidable (∀ values ∈ rows.map (project · columns), .null ∉ values))

instance (contents : Contents υ) (rows : List (Row υ)) (k : Constraint) :
    Decidable (k.Holds contents rows) :=
  match k with
  | .primaryKey _ columns =>
    inferInstanceAs (Decidable (Distinct columns rows ∧ NoNulls columns rows))
  | .unique _ columns => inferInstanceAs (Decidable (Distinct columns rows))
  | .foreignKey _ columns refTable refColumns _ _ => inferInstanceAs (Decidable
      (∀ r ∈ rows, .null ∈ project r columns ∨
        ∃ r' ∈ contents refTable, project r' refColumns = project r columns))

/-- The contents satisfy everything the schema declares. -/
structure Admits (s : Schema) (contents : Contents υ) : Prop where
  fits : ∀ t ∈ s.tables, ∀ r ∈ contents t.name, RowFits s.types t.columns r
  constraints : ∀ t ∈ s.tables, ∀ k ∈ t.constraints, k.Holds contents (contents t.name)
  others : ∀ name, name ∉ s.tables.map (·.name) → contents name = []

theorem Distinct.congr {columns : List String} {rows rows' : List (Row υ)}
    (h : SameOn columns rows rows') (hd : Distinct columns rows) : Distinct columns rows' := by
  unfold Distinct
  rwa [h.map_project]

/-- A constraint survives where no column it involves has changed. -/
theorem Constraint.Holds.congr {contents contents' : Contents υ} {rows rows' : List (Row υ)}
    {k : Constraint} (hown : SameOn k.columns rows rows')
    (href : ∀ table columns, k.target? = some (table, columns) →
      SameOn columns (contents table) (contents' table))
    (h : k.Holds contents rows) : k.Holds contents' rows' := by
  cases k with
  | primaryKey name columns =>
    have hsame : SameOn columns rows rows' := hown
    refine ⟨h.1.congr hsame, ?_⟩
    unfold NoNulls
    rw [hsame.map_project]
    exact h.2
  | unique name columns => exact Distinct.congr hown h
  | foreignKey name columns table refColumns onDelete onUpdate =>
    intro r' hr'
    obtain ⟨r, hr, heq⟩ := hown.mem_project.mp ⟨r', hr', rfl⟩
    rw [← show project r columns = project r' columns from heq]
    refine (h r hr).imp_right fun hex => ?_
    exact (href table refColumns rfl).mem_project.mpr hex

end Sql
