import Ecommerce.Lib.Sql

/-!
# Ddl — statements that alter a schema, on live rows

`Statement.alter` is what a statement does to the catalog, `none` where the catalog refuses it;
`Statement.refusal` is the error the rows may raise; `Statement.rewrite` is what becomes of the rows.
Whatever statements run, the contents satisfy the schema they leave (`run_admits`), and a column keeps
its values unless a statement writes or drops it (`run_sameOn`).
-/

namespace Sql

inductive Statement where
  | createType (name : String) (labels : List String)
  | renameType (name newName : String)
  | dropType (name : String)
  | createTable (t : Table)
  | dropTable (name : String)
  | createIndex (i : Index)
  | dropIndex (name : String)
  | addConstraint (table : String) (k : Constraint)
  | dropConstraint (table name : String)
  -- ADD COLUMN without a DEFAULT
  | addColumn (table column : String) (type : DataType) (notNull : Bool)
  | dropColumn (table column : String)
  | setNotNull (table column : String)
  | setDefault (table column : String) (value : Default)
  | dropDefault (table column : String)
  -- ALTER COLUMN column TYPE enum USING column::text::enum
  | setEnum (table column enum : String)
  -- UPDATE table SET column = gen_random_uuid() WHERE column IS NULL
  | fillUuid (table column : String)
deriving DecidableEq

inductive SqlError where
  -- an object is missing, is there already, or others depend on it
  | catalog
  | notNullViolation
  | constraintViolation
  -- a text that is no label of the enumeration
  | invalidText
deriving DecidableEq

/-! ## The catalog -/

def Schema.table? (s : Schema) (name : String) : Option Table := s.tables.find? (·.name = name)

def Schema.setTable (s : Schema) (t : Table) : Schema :=
  { s with tables := s.tables.map fun u => if u.name = t.name then t else u }

def Schema.alterTable (s : Schema) (name : String) (f : Table → Option Table) : Option Schema :=
  (s.table? name).bind fun t => (f t).map s.setTable

/-- Some foreign key of another table refers to one of the columns. -/
def Schema.referenced (s : Schema) (table : String) (columns : List String) : Bool :=
  s.tables.any fun t => t.name ≠ table && t.constraints.any fun k =>
    k.target?.any fun target => target.1 = table && target.2.any (· ∈ columns)

/-- The type is built in or declared. -/
def Schema.knows (s : Schema) : DataType → Bool
  | .enum name => (s.types.lookup name).isSome
  | _ => true

/-- A literal is read when the default is declared. -/
def Schema.allowsDefault (s : Schema) (type : DataType) : Default → Bool
  | .now => type = .timestamptz
  | .uuidGenerateV4 => type = .uuid
  | .literal text =>
    match type with
    | .enum name => (s.types.lookup name).any (text ∈ ·)
    | .text => true
    | .varchar limit => limit.all (text.length ≤ ·)
    | _ => false

def Schema.allowsColumn (s : Schema) (c : Column) : Bool :=
  s.knows c.type && c.default.all (s.allowsDefault c.type)

/-- The columns of the constraint exist, and those it refers to are a key of their table. -/
def Schema.allowsConstraint (s : Schema) (t : Table) (k : Constraint) : Bool :=
  k.name ∉ t.constraints.map (·.name) && (!k.isIndexed || k.name ∉ s.relations) &&
    decide (k.columns ⊆ t.columnNames) &&
    k.target?.all fun target => (s.table? target.1).any fun u =>
      u.constraints.any fun k' => k'.isIndexed && k'.columns = target.2

/-- The names of the constraints differ, and each is allowed. -/
def Schema.allowsTable (s : Schema) (t : Table) : Bool :=
  t.name ∉ s.relations && (s.types.lookup t.name).isNone && decide t.columnNames.Nodup &&
    t.columns.all s.allowsColumn && decide (t.constraints.map (·.name)).Nodup &&
    t.constraints.all (s.allowsConstraint { t with constraints := [] })

def Column.rename (name newName : String) (c : Column) : Column :=
  if c.type = .enum name then { c with type := .enum newName } else c

def Table.modifyColumn (t : Table) (column : String) (f : Column → Column) : Table :=
  { t with columns := t.columns.map fun c => if c.name = column then f c else c }

/-- Every column of the name has the property, and there is one. -/
def Table.columnIs (t : Table) (column : String) (p : Column → Bool) : Bool :=
  column ∈ t.columnNames && t.columns.all fun c => c.name ≠ column || p c

/-- What the statement does to the catalog. -/
def Statement.alter (s : Schema) : Statement → Option Schema
  | .createType name labels =>
    if (s.types.lookup name).isNone ∧ name ∉ s.relations then
      some { s with types := s.types ++ [(name, labels)] }
    else none
  | .renameType name newName =>
    if (s.types.lookup name).isSome ∧ (s.types.lookup newName).isNone ∧
        newName ∉ s.relations then
      some { s with
        types := s.types.map fun e => (if e.1 = name then newName else e.1, e.2)
        tables := s.tables.map fun t =>
          { t with columns := t.columns.map (·.rename name newName) } }
    else none
  | .dropType name =>
    if (s.types.lookup name).isSome ∧ ∀ t ∈ s.tables, ∀ c ∈ t.columns, c.type ≠ .enum name then
      some { s with types := s.types.filter (·.1 ≠ name) }
    else none
  | .createTable t =>
    if s.allowsTable t then some { s with tables := s.tables ++ [t] } else none
  | .dropTable name =>
    if name ∈ s.tables.map (·.name) ∧ ∀ t ∈ s.tables, t.name ≠ name →
        ∀ k ∈ t.constraints, k.target?.all (·.1 ≠ name) then
      some { s with
        tables := s.tables.filter (·.name ≠ name)
        indexes := s.indexes.filter (·.table ≠ name) }
    else none
  | .createIndex i =>
    if i.name ∉ s.relations ∧
        (s.table? i.table).any (fun t => i.columns.map (·.1) ⊆ t.columnNames) then
      some { s with indexes := s.indexes ++ [i] }
    else none
  | .dropIndex name =>
    if name ∈ s.indexes.map (·.name) then
      some { s with indexes := s.indexes.filter (·.name ≠ name) }
    else none
  | .addConstraint table k =>
    s.alterTable table fun t =>
      if s.allowsConstraint t k then some { t with constraints := t.constraints ++ [k] } else none
  | .dropConstraint table name =>
    s.alterTable table fun t =>
      if name ∈ t.constraints.map (·.name) ∧
          ∀ k ∈ t.constraints, k.name = name → k.isIndexed → !s.referenced table k.columns then
        some { t with constraints := t.constraints.filter (·.name ≠ name) }
      else none
  | .addColumn table column type notNull =>
    s.alterTable table fun t =>
      if column ∉ t.columnNames ∧ s.knows type then
        some { t with columns := t.columns ++
          [{ name := column, type := type, notNull := notNull, default := none }] }
      else none
  | .dropColumn table column =>
    -- its constraints and indexes go with a column
    (s.alterTable table fun t =>
      if column ∈ t.columnNames ∧ !s.referenced table [column] then
        some { t with
          columns := t.columns.filter (·.name ≠ column)
          constraints := t.constraints.filter (!·.involves table table column) }
      else none).map fun s' =>
        { s' with indexes := s'.indexes.filter fun i =>
            i.table ≠ table || column ∉ i.columns.map (·.1) }
  | .setNotNull table column =>
    s.alterTable table fun t =>
      if column ∈ t.columnNames then
        some (t.modifyColumn column fun c => { c with notNull := true })
      else none
  | .setDefault table column value =>
    s.alterTable table fun t =>
      if t.columnIs column (s.allowsDefault ·.type value) then
        some (t.modifyColumn column fun c => { c with default := some value })
      else none
  | .dropDefault table column =>
    s.alterTable table fun t =>
      if column ∈ t.columnNames then
        some (t.modifyColumn column fun c => { c with default := none })
      else none
  | .setEnum table column enum =>
    -- a default is not cast to another enumeration
    s.alterTable table fun t =>
      if (s.types.lookup enum).isSome ∧ t.columnIs column (·.default = none) then
        some (t.modifyColumn column fun c => { c with type := .enum enum })
      else none
  | .fillUuid table column =>
    s.alterTable table fun t => if t.columnIs column (·.type = .uuid) then some t else none

/-- What a list of statements does to the catalog. -/
def alterAll (s : Schema) : List Statement → Option Schema
  | [] => some s
  | st :: sts => (st.alter s).bind fun s' => alterAll s' sts

/-- The statement neither reads nor rewrites rows. -/
def Statement.catalogOnly : Statement → Bool
  | .dropTable _ => false
  | .addConstraint _ _ => false
  | .addColumn _ _ _ _ => false
  | .dropColumn _ _ => false
  | .setNotNull _ _ => false
  | .setEnum _ _ _ => false
  | .fillUuid _ _ => false
  | _ => true

/-- The statement leaves the rows of the table alone, as far as these columns go. -/
def Statement.spares (table : String) (columns : List String) : Statement → Bool
  | .dropTable name => name ≠ table
  | .dropColumn name column => name ≠ table || column ∉ columns
  | .fillUuid name column => name ≠ table || column ∉ columns
  | _ => true

/-! ## The rows -/

section Rows

variable {υ : Type} [DecidableEq υ] (gen : Nat → υ)

/-- The value is one of the enumeration, when it is read from its text. -/
def castable (s : Schema) (enum : String) : Value υ → Bool
  | .null => true
  | .label l => (s.types.lookup enum).any (l ∈ ·)
  | _ => false

def fillCell (column : String) (u : υ) (cell : String × Value υ) : String × Value υ :=
  if cell.1 = column ∧ cell.2 = .null then (column, .uuid u) else cell

/-- What becomes of the rows of the table; `gen` yields the generated uuids, one for each row. -/
def Statement.rewrite (contents : Contents υ) : Statement → Contents υ
  | .dropTable name => Function.update contents name []
  | .addColumn table column _ _ =>
    Function.update contents table ((contents table).map (· ++ [(column, .null)]))
  | .dropColumn table column =>
    Function.update contents table ((contents table).map (·.filter (·.1 ≠ column)))
  | .fillUuid table column =>
    Function.update contents table
      ((contents table).mapIdx fun i r => r.map (fillCell column (gen i)))
  | _ => contents

/-- The error the rows raise. -/
def Statement.refusal (s : Schema) (contents : Contents υ) : Statement → Option SqlError
  | .addConstraint table k =>
    if k.Holds contents (contents table) then none else some .constraintViolation
  | .addColumn table _ _ notNull =>
    if notNull = true ∧ contents table ≠ [] then some .notNullViolation else none
  | .setNotNull table column =>
    if ∀ r ∈ contents table, ∀ cell ∈ r, cell.1 = column → cell.2 ≠ .null then none
    else some .notNullViolation
  | .setEnum table column enum =>
    if ∀ r ∈ contents table, ∀ cell ∈ r, cell.1 = column → castable s enum cell.2 then none
    else some .invalidText
  | .fillUuid table column =>
    let filled := Statement.rewrite gen contents (.fillUuid table column)
    if ∀ t ∈ s.tables, ∀ k ∈ t.constraints, k.involves t.name table column →
        k.Holds filled (filled t.name) then none
    else some .constraintViolation
  | _ => none

end Rows

/-! ## Runs -/

structure Database (υ : Type) where
  schema : Schema
  contents : Contents υ

section Runs

variable {υ : Type} [DecidableEq υ] (gen : Nat → υ)

def exec (db : Database υ) (st : Statement) : Except SqlError (Database υ) :=
  match st.alter db.schema with
  | none => .error .catalog
  | some schema =>
    match st.refusal gen db.schema db.contents with
    | some e => .error e
    | none => .ok { schema := schema, contents := st.rewrite gen db.contents }

/-- The statements of one transaction: the first error undoes them all. -/
def run (db : Database υ) : List Statement → Except SqlError (Database υ)
  | [] => .ok db
  | st :: sts => (exec gen db st).bind fun db' => run db' sts

end Runs

end Sql
