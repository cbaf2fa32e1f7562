import Ecommerce.Lib.Ddl

/-!
# DdlLaws — what every run of statements preserves

Each statement leaves contents that satisfy the altered schema (`exec_admits`), and so does every run
(`run_admits`).  The values of a column survive every run whose statements spare it (`run_sameOn`).
-/

namespace Sql

variable {υ : Type}

/-! ## Cells -/

theorem get_cons (cell : String × Value υ) (r : Row υ) (column : String) :
    get (cell :: r) column = if column = cell.1 then cell.2 else get r column := by
  unfold get
  rw [List.lookup_cons]
  by_cases h : column = cell.1
  · simp [h]
  · simp [h, beq_false_of_ne h]

/-- A new column of NULLs changes no value: a column the row does not have reads as NULL. -/
theorem get_append_null (r : Row υ) (column column' : String) :
    get (r ++ [(column, .null)]) column' = get r column' := by
  induction r with
  | nil =>
    rw [List.nil_append, get_cons]
    split <;> rfl
  | cons cell r ih => rw [List.cons_append, get_cons, get_cons, ih]

theorem get_filter_of_ne {column column' : String} (h : column' ≠ column) (r : Row υ) :
    get (r.filter (·.1 ≠ column)) column' = get r column' := by
  induction r with
  | nil => rfl
  | cons cell r ih =>
    by_cases hcell : cell.1 = column
    · rw [List.filter_cons_of_neg (by simpa using hcell), ih, get_cons, if_neg (hcell ▸ h)]
    · rw [List.filter_cons_of_pos (by simpa using hcell), get_cons, get_cons, ih]

variable [DecidableEq υ]

@[simp] theorem fillCell_name (column : String) (u : υ) (cell : String × Value υ) :
    (fillCell column u cell).1 = cell.1 := by
  unfold fillCell
  split
  · rename_i h
    exact h.1.symm
  · rfl

theorem fillCell_of_ne {column : String} (u : υ) {cell : String × Value υ} (h : cell.1 ≠ column) :
    fillCell column u cell = cell :=
  if_neg fun hfill => h hfill.1

theorem get_fillCell_of_ne {column column' : String} (h : column' ≠ column) (u : υ) (r : Row υ) :
    get (r.map (fillCell column u)) column' = get r column' := by
  induction r with
  | nil => rfl
  | cons cell r ih =>
    rw [List.map_cons, get_cons, get_cons, ih, fillCell_name]
    split
    · rename_i hcell
      rw [fillCell_of_ne u (hcell ▸ h)]
    · rfl

/-! ## Rows -/

theorem RowFits.names {types : List (String × List String)} {columns : List Column} {r : Row υ}
    (h : RowFits types columns r) : r.map (·.1) = columns.map (·.name) := by
  unfold RowFits at h
  induction h with
  | nil => rfl
  | cons hcell hrest ih => rw [List.map_cons, List.map_cons, ih, hcell.1]

/-- Columns may change as long as each still has the name and fits the cell below it. -/
theorem RowFits.map_columns {types types' : List (String × List String)} {columns : List Column}
    {r : Row υ} {g : Column → Column} (h : RowFits types columns r)
    (hg : ∀ c ∈ columns, ∀ cell ∈ r, cell.1 = c.name → c.fits types cell.2 →
      (g c).name = c.name ∧ (g c).fits types' cell.2) :
    RowFits types' (columns.map g) r := by
  unfold RowFits at *
  induction h with
  | nil => exact .nil
  | cons hcell hrest ih =>
    obtain ⟨hname, hfits⟩ := hg _ List.mem_cons_self _ List.mem_cons_self hcell.1 hcell.2
    refine .cons ⟨hcell.1.trans hname.symm, hfits⟩ (ih fun c hc cell hmem => ?_)
    exact hg c (List.mem_cons_of_mem _ hc) cell (List.mem_cons_of_mem _ hmem)

theorem RowFits.of_mem {types : List (String × List String)} {columns : List Column} {r : Row υ}
    (h : RowFits types columns r) {cell : String × Value υ} (hcell : cell ∈ r) :
    ∃ c ∈ columns, cell.1 = c.name ∧ c.fits types cell.2 := by
  unfold RowFits at h
  induction h with
  | nil => cases hcell
  | @cons c cell' columns r hhead hrest ih =>
    rcases List.mem_cons.mp hcell with rfl | hmem
    · exact ⟨c, List.mem_cons_self, hhead⟩
    · obtain ⟨c', hc', hfits⟩ := ih hmem
      exact ⟨c', List.mem_cons_of_mem _ hc', hfits⟩

theorem RowFits.append_null {types : List (String × List String)} {columns : List Column}
    {r : Row υ} (h : RowFits types columns r) {c : Column} (hc : c.notNull = false) :
    RowFits types (columns ++ [c]) (r ++ [(c.name, .null)]) := by
  have hfits : c.fits types (.null : Value υ) := by
    unfold Column.fits
    rwa [if_pos rfl]
  exact List.rel_append h (.cons ⟨rfl, hfits⟩ .nil)

theorem RowFits.filter {types : List (String × List String)} {columns : List Column} {r : Row υ}
    (h : RowFits types columns r) (column : String) :
    RowFits types (columns.filter (·.name ≠ column)) (r.filter (·.1 ≠ column)) := by
  unfold RowFits at *
  induction h with
  | nil => exact .nil
  | @cons c cell columns r hcell hrest ih =>
    by_cases hname : c.name = column
    · rw [List.filter_cons_of_neg (by simpa using hname),
        List.filter_cons_of_neg (by simpa [hcell.1] using hname)]
      exact ih
    · rw [List.filter_cons_of_pos (by simpa using hname),
        List.filter_cons_of_pos (by simpa [hcell.1] using hname)]
      exact .cons hcell ih

/-- A generated uuid fits a `uuid` column. -/
theorem RowFits.fill {types : List (String × List String)} {columns : List Column} {r : Row υ}
    (h : RowFits types columns r) {column : String} (u : υ)
    (huuid : ∀ c ∈ columns, c.name = column → c.type = .uuid) :
    RowFits types columns (r.map (fillCell column u)) := by
  unfold RowFits at *
  rw [List.forall₂_map_right_iff]
  induction h with
  | nil => exact .nil
  | @cons c cell columns r hcell hrest ih =>
    refine .cons ⟨(fillCell_name _ _ _).trans hcell.1, ?_⟩
      (ih fun c' hc' => huuid c' (List.mem_cons_of_mem _ hc'))
    unfold fillCell
    split
    · rename_i hfill
      have htype : c.type = .uuid := huuid c List.mem_cons_self (hcell.1 ▸ hfill.1)
      unfold Column.fits
      rw [if_neg (by simp), htype]
      rfl
    · exact hcell.2

/-! ## Tables -/

theorem alterTable_some {s s' : Schema} {name : String} {f : Table → Option Table}
    (h : s.alterTable name f = some s') :
    ∃ t ∈ s.tables, t.name = name ∧ ∃ t', f t = some t' ∧ s' = s.setTable t' := by
  obtain ⟨t, ht, hmap⟩ := Option.bind_eq_some_iff.mp h
  obtain ⟨t', hf, rfl⟩ := Option.map_eq_some_iff.mp hmap
  exact ⟨t, List.mem_of_find?_eq_some ht, by simpa using List.find?_some ht, t', hf, rfl⟩

theorem mem_setTable {s : Schema} {t u : Table} (h : u ∈ (s.setTable t).tables) :
    u = t ∨ u ∈ s.tables ∧ u.name ≠ t.name := by
  obtain ⟨v, hv, rfl⟩ := List.mem_map.mp h
  split
  · exact .inl rfl
  · rename_i hne
    exact .inr ⟨hv, hne⟩

theorem setTable_names (s : Schema) (t : Table) :
    (s.setTable t).tables.map (·.name) = s.tables.map (·.name) := by
  unfold Schema.setTable
  rw [List.map_map]
  refine List.map_congr_left fun u _ => ?_
  by_cases hu : u.name = t.name
  · simp [hu]
  · simp [hu]

/-- One table is altered, and no rows but its own are rewritten. -/
theorem Admits.setTable {s : Schema} {contents contents' : Contents υ} (h : Admits s contents)
    {t t' : Table} (ht : t ∈ s.tables) (hname : t'.name = t.name)
    (hrest : ∀ n, n ≠ t.name → contents' n = contents n)
    (hfits : ∀ r ∈ contents' t.name, RowFits s.types t'.columns r)
    (hown : ∀ k ∈ t'.constraints, k.Holds contents' (contents' t.name))
    (hothers : ∀ u ∈ s.tables, u.name ≠ t.name → ∀ k ∈ u.constraints,
      k.Holds contents' (contents' u.name)) :
    Admits (s.setTable t') contents' where
  fits := by
    intro u hu r hr
    rcases mem_setTable hu with rfl | ⟨hmem, hne⟩
    · exact hfits r (hname ▸ hr)
    · rw [hrest u.name (hname ▸ hne)] at hr
      exact h.fits u hmem r hr
  constraints := by
    intro u hu k hk
    rcases mem_setTable hu with rfl | ⟨hmem, hne⟩
    · exact hname ▸ hown k hk
    · exact hothers u hmem (hname ▸ hne) k hk
  others := by
    intro n hn
    -- no table comes or goes
    rw [setTable_names] at hn
    rw [hrest n fun heq => hn (heq ▸ List.mem_map_of_mem ht)]
    exact h.others n hn

/-- Columns of one table change in place. -/
theorem Admits.modifyColumn {s : Schema} {contents : Contents υ} (h : Admits s contents)
    {t : Table} (ht : t ∈ s.tables) {column : String} {f : Column → Column}
    (hname : ∀ c, (f c).name = c.name)
    (hf : ∀ c ∈ t.columns, ∀ r ∈ contents t.name, ∀ cell ∈ r, cell.1 = column →
      c.fits s.types cell.2 → (f c).fits s.types cell.2) :
    Admits (s.setTable (t.modifyColumn column f)) contents := by
  refine h.setTable ht rfl (fun _ _ => rfl) (fun r hr => ?_) (h.constraints t ht)
    fun u hu _ => h.constraints u hu
  refine (h.fits t ht r hr).map_columns fun c hc cell hcell heq hfits => ?_
  split
  · rename_i hcolumn
    exact ⟨hname c, hf c hc r hr cell hcell (heq.trans hcolumn) hfits⟩
  · exact ⟨rfl, hfits⟩

/-- Indexes restrict no contents. -/
theorem Admits.indexes {s : Schema} {contents : Contents υ} (h : Admits s contents)
    (indexes : List Index) : Admits { s with indexes := indexes } contents :=
  ⟨h.fits, h.constraints, h.others⟩

/-- The types change, and with them at most the types of the columns. -/
theorem Admits.types {s : Schema} {contents : Contents υ} (h : Admits s contents)
    (types : List (String × List String)) (g : Column → Column)
    (hg : ∀ c, (g c).name = c.name ∧ (g c).notNull = c.notNull)
    (ht : ∀ t ∈ s.tables, ∀ c ∈ t.columns, ∀ v : Value υ, hasType s.types c.type v = true →
      hasType types (g c).type v = true) :
    Admits { s with
      types := types
      tables := s.tables.map fun t => { t with columns := t.columns.map g } } contents where
  fits := by
    intro u hu r hr
    obtain ⟨t, htmem, rfl⟩ := List.mem_map.mp hu
    refine (h.fits t htmem r hr).map_columns fun c hc cell _ _ hfits => ⟨(hg c).1, ?_⟩
    unfold Column.fits at *
    -- NOT NULL stays, so only the types of the values are in question
    split
    · rename_i hnull
      rw [if_pos hnull] at hfits
      rw [(hg c).2, hfits]
    · rename_i hnull
      rw [if_neg hnull] at hfits
      exact ht t htmem c hc _ hfits
  constraints := by
    intro u hu k hk
    obtain ⟨t, htmem, rfl⟩ := List.mem_map.mp hu
    exact h.constraints t htmem k hk
  others := by
    intro n hn
    refine h.others n ?_
    simpa using hn

/-! ## Types -/

omit [DecidableEq υ] in
/-- Another type may only lose its values with its enumeration. -/
theorem hasType_mono {types types' : List (String × List String)} {type : DataType}
    (h : ∀ name labels, type = .enum name → types.lookup name = some labels →
      types'.lookup name = some labels) {v : Value υ} (hv : hasType types type v = true) :
    hasType types' type v = true := by
  cases type with
  | enum name =>
    cases v with
    | label l =>
      obtain ⟨labels, hlookup, hmem⟩ := Option.any_eq_true _ _ |>.mp hv
      exact Option.any_eq_true _ _ |>.mpr ⟨labels, h name labels rfl hlookup, hmem⟩
    | _ => cases hv
  | _ => cases v <;> exact hv

theorem lookup_filter_of_ne {types : List (String × List String)} {name name' : String}
    (h : name' ≠ name) : (types.filter (·.1 ≠ name)).lookup name' = types.lookup name' := by
  induction types with
  | nil => rfl
  | cons e types ih =>
    by_cases he : e.1 = name
    · rw [List.filter_cons_of_neg (by simpa using he), ih, List.lookup_cons,
        beq_false_of_ne (he ▸ h)]
    · rw [List.filter_cons_of_pos (by simpa using he), List.lookup_cons, List.lookup_cons, ih]

/-- An enumeration is found under its new name, and every other one under its own. -/
theorem lookup_rename {types : List (String × List String)} {name newName name' : String}
    (hnew : types.lookup newName = none) (hne : name' ≠ newName) :
    (types.map fun e => (if e.1 = name then newName else e.1, e.2)).lookup
      (if name' = name then newName else name') = types.lookup name' := by
  induction types with
  | nil => rfl
  | cons e types ih =>
    obtain ⟨n, labels⟩ := e
    rw [List.lookup_cons] at hnew
    by_cases hn : newName = n
    · simp [hn] at hnew
    · rw [beq_false_of_ne hn] at hnew
      rw [List.map_cons, List.lookup_cons, List.lookup_cons, ih hnew]
      -- the renamed keys agree exactly when the old ones do, as nobody has the new name
      have hkeys : ((if name' = name then newName else name') ==
          (if n = name then newName else n)) = (name' == n) := by
        by_cases h' : name' = name
        · subst h'
          by_cases hn' : n = name'
          · simp [hn']
          · simp [hn', Ne.symm hn', hn]
        · by_cases hn' : n = name
          · subst hn'
            simp [h', hne]
          · simp [h', hn']
      rw [hkeys]

@[simp] theorem rename_name (name newName : String) (c : Column) :
    (c.rename name newName).name = c.name := by
  unfold Column.rename
  split <;> rfl

@[simp] theorem rename_notNull (name newName : String) (c : Column) :
    (c.rename name newName).notNull = c.notNull := by
  unfold Column.rename
  split <;> rfl

/-! ## What one statement leaves -/

section Statements

variable {s s' : Schema} {contents : Contents υ}

theorem Admits.createType (h : Admits s contents) {name : String} {labels : List String}
    (ha : (Statement.createType name labels).alter s = some s') : Admits s' contents := by
  simp only [Statement.alter, Option.ite_none_right_eq_some, Option.some.injEq] at ha
  obtain ⟨-, rfl⟩ := ha
  have htypes := h.types (s.types ++ [(name, labels)]) id (fun _ => ⟨rfl, rfl⟩)
    fun t _ c _ v hv => hasType_mono (fun n ls _ hlookup => by
      rw [List.lookup_append, hlookup, Option.some_or]) hv
  simpa using htypes

theorem Admits.renameType (h : Admits s contents) {name newName : String}
    (ha : (Statement.renameType name newName).alter s = some s') : Admits s' contents := by
  simp only [Statement.alter, Option.ite_none_right_eq_some, Option.some.injEq] at ha
  obtain ⟨⟨-, hnew, -⟩, rfl⟩ := ha
  refine h.types _ _ (fun c => ⟨rename_name _ _ c, rename_notNull _ _ c⟩) fun t _ c _ v hv => ?_
  have hnone : s.types.lookup newName = none := by simpa using hnew
  cases htype : c.type with
  | enum n =>
    -- the column follows its enumeration
    have hrename : (c.rename name newName).type = .enum (if n = name then newName else n) := by
      unfold Column.rename
      rw [htype]
      by_cases hn : n = name
      · simp [hn]
      · simp [hn, htype]
    rw [htype] at hv
    rw [hrename]
    cases v with
    | label l =>
      -- no column can have the new name yet
      have hne : n ≠ newName := by
        rintro rfl
        simp [hasType, hnone] at hv
      simpa [hasType, lookup_rename hnone hne] using hv
    | _ => cases hv
  | _ =>
    have hsame : c.rename name newName = c := if_neg (by simp [htype])
    rw [hsame, htype]
    rw [htype] at hv
    cases v <;> exact hv

theorem Admits.dropType (h : Admits s contents) {name : String}
    (ha : (Statement.dropType name).alter s = some s') : Admits s' contents := by
  simp only [Statement.alter, Option.ite_none_right_eq_some, Option.some.injEq] at ha
  obtain ⟨⟨-, hunused⟩, rfl⟩ := ha
  have htypes := h.types (s.types.filter (·.1 ≠ name)) id (fun _ => ⟨rfl, rfl⟩)
    fun t ht c hc v hv => hasType_mono (fun n ls htype hlookup => by
      have hne : n ≠ name := fun heq => hunused t ht c hc (heq ▸ htype)
      rw [lookup_filter_of_ne hne, hlookup]) hv
  simpa using htypes

/-- A table without rows satisfies every constraint. -/
theorem Constraint.holds_nil (k : Constraint) (contents : Contents υ) : k.Holds contents [] := by
  cases k with
  | primaryKey name columns => exact ⟨List.nodup_nil, by simp [NoNulls]⟩
  | unique name columns => exact List.nodup_nil
  | foreignKey name columns refTable refColumns onDelete onUpdate => exact fun r hr => by cases hr

theorem Admits.createTable (h : Admits s contents) {t : Table}
    (ha : (Statement.createTable t).alter s = some s') : Admits s' contents := by
  simp only [Statement.alter, Option.ite_none_right_eq_some, Option.some.injEq] at ha
  obtain ⟨hallow, rfl⟩ := ha
  have hnew : t.name ∉ s.tables.map (·.name) := by
    intro hmem
    simp only [Schema.allowsTable, Bool.and_eq_true, decide_eq_true_eq] at hallow
    exact hallow.1.1.1.1.1 (List.mem_append_left _ (List.mem_append_left _ hmem))
  -- a table that is not there has no rows
  have hempty : contents t.name = [] := h.others t.name hnew
  refine ⟨fun u hu r hr => ?_, fun u hu k hk => ?_, fun n hn => ?_⟩
  · rcases List.mem_append.mp hu with hu | hu
    · exact h.fits u hu r hr
    · rw [List.mem_singleton.mp hu, hempty] at hr
      cases hr
  · rcases List.mem_append.mp hu with hu | hu
    · exact h.constraints u hu k hk
    · rw [List.mem_singleton.mp hu, hempty]
      exact k.holds_nil contents
  · refine h.others n fun hmem => hn ?_
    rw [List.map_append]
    exact List.mem_append_left _ hmem

theorem Admits.dropTable (h : Admits s contents) (gen : Nat → υ) {name : String}
    (ha : (Statement.dropTable name).alter s = some s') :
    Admits s' ((Statement.dropTable name).rewrite gen contents) := by
  simp only [Statement.alter, Option.ite_none_right_eq_some, Option.some.injEq] at ha
  obtain ⟨⟨-, hfree⟩, rfl⟩ := ha
  have hrows : ∀ n, n ≠ name → (Statement.dropTable name).rewrite gen contents n = contents n :=
    fun n hn => Function.update_of_ne hn _ _
  refine ⟨fun u hu r hr => ?_, fun u hu k hk => ?_, fun n hn => ?_⟩
  · obtain ⟨hu, hne⟩ := List.mem_filter.mp hu
    rw [hrows u.name (by simpa using hne)] at hr
    exact h.fits u hu r hr
  · obtain ⟨hu, hne⟩ := List.mem_filter.mp hu
    have hname : u.name ≠ name := by simpa using hne
    rw [hrows u.name hname]
    refine (h.constraints u hu k hk).congr (.refl _ _) fun table columns htarget => ?_
    -- a constraint of another table refers to a table that stays
    have htable : table ≠ name := by
      have hall := hfree u hu hname k hk
      rw [htarget] at hall
      simpa using hall
    rw [hrows table htable]
    exact .refl _ _
  · by_cases hname : n = name
    · rw [hname]
      exact Function.update_self ..
    · rw [hrows n hname]
      refine h.others n fun hmem => hn ?_
      obtain ⟨u, hu, rfl⟩ := List.mem_map.mp hmem
      exact List.mem_map_of_mem (List.mem_filter.mpr ⟨hu, by simpa using hname⟩)

/-- The constraint that is added holds already. -/
theorem Admits.addConstraint (h : Admits s contents) {table : String} {k : Constraint}
    (ha : (Statement.addConstraint table k).alter s = some s')
    (hk : k.Holds contents (contents table)) : Admits s' contents := by
  obtain ⟨t, ht, rfl, t', hf, rfl⟩ := alterTable_some ha
  simp only [Option.ite_none_right_eq_some, Option.some.injEq] at hf
  obtain ⟨-, rfl⟩ := hf
  refine h.setTable ht rfl (fun _ _ => rfl) (h.fits t ht) (fun k' hk' => ?_)
    fun u hu _ => h.constraints u hu
  rcases List.mem_append.mp hk' with hk' | hk'
  · exact h.constraints t ht k' hk'
  · rw [List.mem_singleton.mp hk']
    exact hk

theorem Admits.dropConstraint (h : Admits s contents) {table name : String}
    (ha : (Statement.dropConstraint table name).alter s = some s') : Admits s' contents := by
  obtain ⟨t, ht, rfl, t', hf, rfl⟩ := alterTable_some ha
  simp only [Option.ite_none_right_eq_some, Option.some.injEq] at hf
  obtain ⟨-, rfl⟩ := hf
  exact h.setTable ht rfl (fun _ _ => rfl) (h.fits t ht)
    (fun k hk => h.constraints t ht k (List.mem_filter.mp hk).1) fun u hu _ => h.constraints u hu

theorem rewrite_addColumn_self (gen : Nat → υ) (contents : Contents υ) (table column : String)
    (type : DataType) (notNull : Bool) :
    (Statement.addColumn table column type notNull).rewrite gen contents table =
      (contents table).map (· ++ [(column, .null)]) :=
  Function.update_self ..

theorem rewrite_fillUuid_self (gen : Nat → υ) (contents : Contents υ) (table column : String) :
    (Statement.fillUuid table column).rewrite gen contents table =
      (contents table).mapIdx fun i r => r.map (fillCell column (gen i)) :=
  Function.update_self ..

theorem rewrite_dropColumn_self (gen : Nat → υ) (contents : Contents υ) (table column : String) :
    (Statement.dropColumn table column).rewrite gen contents table =
      (contents table).map (·.filter (·.1 ≠ column)) :=
  Function.update_self ..

/-- Every value is as it was before a column is added. -/
theorem addColumn_sameOn (gen : Nat → υ) (contents : Contents υ) (table column : String)
    (type : DataType) (notNull : Bool) (columns : List String) (n : String) :
    SameOn columns (contents n)
      ((Statement.addColumn table column type notNull).rewrite gen contents n) := by
  by_cases hn : n = table
  · subst hn
    rw [rewrite_addColumn_self]
    exact sameOn_map fun r _ c _ => get_append_null r column c
  · rw [show (Statement.addColumn table column type notNull).rewrite gen contents n =
      contents n from Function.update_of_ne hn _ _]
    exact .refl _ _

theorem Admits.addColumn (h : Admits s contents) (gen : Nat → υ) {table column : String}
    {type : DataType} {notNull : Bool}
    (ha : (Statement.addColumn table column type notNull).alter s = some s')
    (hrows : notNull = true → contents table = []) :
    Admits s' ((Statement.addColumn table column type notNull).rewrite gen contents) := by
  obtain ⟨t, ht, rfl, t', hf, rfl⟩ := alterTable_some ha
  simp only [Option.ite_none_right_eq_some, Option.some.injEq] at hf
  obtain ⟨-, rfl⟩ := hf
  have hsame := addColumn_sameOn gen contents t.name column type notNull
  refine h.setTable ht rfl (fun n hn => Function.update_of_ne hn _ _) (fun r hr => ?_)
    (fun k hk => ?_) fun u hu _ k hk => ?_
  · rw [rewrite_addColumn_self] at hr
    obtain ⟨r, hmem, rfl⟩ := List.mem_map.mp hr
    cases notNull with
    | true =>
      rw [hrows rfl] at hmem
      cases hmem
    | false =>
      let c : Column := { name := column, type := type, notNull := false, default := none }
      have hnull : c.notNull = false := rfl
      exact (h.fits t ht r hmem).append_null hnull
  · exact (h.constraints t ht k hk).congr (hsame _ _) fun table columns _ => hsame _ _
  · exact (h.constraints u hu k hk).congr (hsame _ _) fun table columns _ => hsame _ _

theorem fillUuid_sameOn (gen : Nat → υ) (contents : Contents υ) {table column : String}
    {columns : List String} {n : String} (hspared : n = table → column ∉ columns) :
    SameOn columns (contents n)
      ((Statement.fillUuid table column).rewrite gen contents n) := by
  by_cases hn : n = table
  · subst hn
    unfold SameOn
    rw [rewrite_fillUuid_self, List.forall₂_iff_get]
    refine ⟨by simp, fun i hi hi' c hc => ?_⟩
    have hne : c ≠ column := fun heq => hspared rfl (heq ▸ hc)
    simp only [List.get_eq_getElem, List.getElem_mapIdx]
    exact get_fillCell_of_ne hne _ _
  · rw [show (Statement.fillUuid table column).rewrite gen contents n = contents n from
      Function.update_of_ne hn _ _]
    exact .refl _ _

/-- A constraint that does not depend on the filled column still holds. -/
theorem Constraint.Holds.fillUuid {gen : Nat → υ} {owner table column : String} {k : Constraint}
    (h : k.Holds contents (contents owner)) (hfree : k.involves owner table column = false) :
    k.Holds ((Statement.fillUuid table column).rewrite gen contents)
      ((Statement.fillUuid table column).rewrite gen contents owner) := by
  simp only [Constraint.involves, Bool.or_eq_false_iff] at hfree
  obtain ⟨hown, htarget⟩ := hfree
  refine h.congr (fillUuid_sameOn gen contents fun heq => ?_) fun name columns hk =>
    fillUuid_sameOn gen contents fun heq => ?_
  · simpa [heq] using hown
  · simpa [hk, heq] using htarget

theorem Admits.fillUuid (h : Admits s contents) {gen : Nat → υ} {table column : String}
    (ha : (Statement.fillUuid table column).alter s = some s')
    (hk : ∀ t ∈ s.tables, ∀ k ∈ t.constraints, k.involves t.name table column = true →
      k.Holds ((Statement.fillUuid table column).rewrite gen contents)
        ((Statement.fillUuid table column).rewrite gen contents t.name)) :
    Admits s' ((Statement.fillUuid table column).rewrite gen contents) := by
  obtain ⟨t, ht, rfl, t', hf, rfl⟩ := alterTable_some ha
  simp only [Option.ite_none_right_eq_some, Option.some.injEq] at hf
  obtain ⟨huuid, rfl⟩ := hf
  have hholds : ∀ u ∈ s.tables, ∀ k ∈ u.constraints,
      k.Holds ((Statement.fillUuid t.name column).rewrite gen contents)
        ((Statement.fillUuid t.name column).rewrite gen contents u.name) := by
    intro u hu k hmem
    cases hinv : k.involves u.name t.name column with
    | true => exact hk u hu k hmem hinv
    | false => exact (h.constraints u hu k hmem).fillUuid hinv
  refine h.setTable ht rfl (fun n hn => Function.update_of_ne hn _ _) (fun r hr => ?_)
    (hholds t ht) fun u hu _ => hholds u hu
  rw [rewrite_fillUuid_self] at hr
  obtain ⟨i, hi, rfl⟩ := List.mem_mapIdx.mp hr
  refine (h.fits t ht _ (List.getElem_mem hi)).fill _ fun c hc hname => ?_
  simp only [Table.columnIs, Bool.and_eq_true, List.all_eq_true] at huuid
  simpa [hname] using huuid.2 c hc

theorem dropColumn_sameOn (gen : Nat → υ) (contents : Contents υ) {table column : String}
    {columns : List String} {n : String} (hspared : n = table → column ∉ columns) :
    SameOn columns (contents n)
      ((Statement.dropColumn table column).rewrite gen contents n) := by
  by_cases hn : n = table
  · subst hn
    rw [rewrite_dropColumn_self]
    refine sameOn_map fun r _ c hc => get_filter_of_ne ?_ r
    rintro rfl
    exact hspared rfl hc
  · rw [show (Statement.dropColumn table column).rewrite gen contents n = contents n from
      Function.update_of_ne hn _ _]
    exact .refl _ _

theorem Admits.dropColumn (h : Admits s contents) (gen : Nat → υ) {table column : String}
    (ha : (Statement.dropColumn table column).alter s = some s') :
    Admits s' ((Statement.dropColumn table column).rewrite gen contents) := by
  obtain ⟨s₁, hs₁, rfl⟩ := Option.map_eq_some_iff.mp ha
  obtain ⟨t, ht, rfl, t', hf, rfl⟩ := alterTable_some hs₁
  simp only [Option.ite_none_right_eq_some, Option.some.injEq] at hf
  obtain ⟨⟨-, hfree⟩, rfl⟩ := hf
  refine Admits.indexes ?_ _
  refine h.setTable ht rfl (fun n hn => Function.update_of_ne hn _ _) (fun r hr => ?_)
    (fun k hk => ?_) fun u hu hne k hk => ?_
  · rw [rewrite_dropColumn_self] at hr
    obtain ⟨r, hmem, rfl⟩ := List.mem_map.mp hr
    exact (h.fits t ht r hmem).filter column
  · -- a constraint of the table that stays does not involve the column
    obtain ⟨hk, hinv⟩ := List.mem_filter.mp hk
    simp only [Constraint.involves, Bool.not_eq_true', Bool.or_eq_false_iff] at hinv
    refine (h.constraints t ht k hk).congr (dropColumn_sameOn gen contents fun _ => ?_)
      fun name columns htarget => dropColumn_sameOn gen contents fun heq => ?_
    · simpa using hinv.1
    · simpa [htarget, heq] using hinv.2
  · -- nor does a constraint of another table, which would have to refer to it
    refine (h.constraints u hu k hk).congr
      (dropColumn_sameOn gen contents fun heq => absurd heq hne)
      fun name columns htarget => dropColumn_sameOn gen contents fun heq => ?_
    simp only [Schema.referenced, Bool.not_eq_true', List.any_eq_false, Bool.and_eq_true,
      decide_eq_true_eq, not_and, List.mem_singleton] at hfree
    have hnot := hfree u hu hne
    intro hmem
    refine hnot ?_
    rw [List.any_eq_true]
    refine ⟨k, hk, ?_⟩
    rw [htarget]
    simp [heq, hmem]

theorem Admits.setNotNull (h : Admits s contents) {table column : String}
    (ha : (Statement.setNotNull table column).alter s = some s')
    (hrows : ∀ r ∈ contents table, ∀ cell ∈ r, cell.1 = column → cell.2 ≠ .null) :
    Admits s' contents := by
  obtain ⟨t, ht, rfl, t', hf, rfl⟩ := alterTable_some ha
  simp only [Option.ite_none_right_eq_some, Option.some.injEq] at hf
  obtain ⟨-, rfl⟩ := hf
  refine h.modifyColumn ht (fun _ => rfl) fun c _ r hr cell hcell hname hfits => ?_
  have hnull := hrows r hr cell hcell hname
  unfold Column.fits at *
  rwa [if_neg hnull] at hfits ⊢

theorem Admits.setDefault (h : Admits s contents) {table column : String} {value : Default}
    (ha : (Statement.setDefault table column value).alter s = some s') : Admits s' contents := by
  obtain ⟨t, ht, rfl, t', hf, rfl⟩ := alterTable_some ha
  simp only [Option.ite_none_right_eq_some, Option.some.injEq] at hf
  obtain ⟨-, rfl⟩ := hf
  exact h.modifyColumn ht (fun _ => rfl) fun _ _ _ _ _ _ _ hfits => hfits

theorem Admits.dropDefault (h : Admits s contents) {table column : String}
    (ha : (Statement.dropDefault table column).alter s = some s') : Admits s' contents := by
  obtain ⟨t, ht, rfl, t', hf, rfl⟩ := alterTable_some ha
  simp only [Option.ite_none_right_eq_some, Option.some.injEq] at hf
  obtain ⟨-, rfl⟩ := hf
  exact h.modifyColumn ht (fun _ => rfl) fun _ _ _ _ _ _ _ hfits => hfits

/-- The text of every value is a label of the new enumeration. -/
theorem Admits.setEnum (h : Admits s contents) {table column enum : String}
    (ha : (Statement.setEnum table column enum).alter s = some s')
    (hrows : ∀ r ∈ contents table, ∀ cell ∈ r, cell.1 = column →
      castable s enum cell.2 = true) : Admits s' contents := by
  obtain ⟨t, ht, rfl, t', hf, rfl⟩ := alterTable_some ha
  simp only [Option.ite_none_right_eq_some, Option.some.injEq] at hf
  obtain ⟨-, rfl⟩ := hf
  refine h.modifyColumn ht (fun _ => rfl) fun c _ r hr cell hcell hname hfits => ?_
  have hcast := hrows r hr cell hcell hname
  unfold Column.fits at *
  split
  · rename_i hnull
    rwa [if_pos hnull] at hfits
  · rename_i hnull
    cases hv : cell.2 with
    | null => exact absurd hv hnull
    | label l => rwa [hv] at hcast
    | _ =>
      rw [hv] at hcast
      cases hcast

end Statements

/-! ## Runs -/

section Runs

variable {gen : Nat → υ} {db db' : Database υ} {st : Statement} {sts : List Statement}

theorem exec_ok (h : exec gen db st = .ok db') : ∃ schema, st.alter db.schema = some schema ∧
    st.refusal gen db.schema db.contents = none ∧
      db' = { schema := schema, contents := st.rewrite gen db.contents } := by
  unfold exec at h
  split at h
  · cases h
  · rename_i schema halter
    split at h
    · cases h
    · rename_i hrefusal
      exact ⟨schema, halter, hrefusal, (Except.ok.inj h).symm⟩

theorem run_cons_ok (h : run gen db (st :: sts) = .ok db') :
    ∃ db₁, exec gen db st = .ok db₁ ∧ run gen db₁ sts = .ok db' := by
  unfold run at h
  cases hexec : exec gen db st with
  | error e =>
    rw [hexec] at h
    cases h
  | ok db₁ =>
    rw [hexec] at h
    exact ⟨db₁, rfl, h⟩

/-- A statement that is not refused leaves contents that satisfy its schema. -/
theorem exec_admits (h : Admits db.schema db.contents) (hx : exec gen db st = .ok db') :
    Admits db'.schema db'.contents := by
  obtain ⟨schema, ha, hrefusal, rfl⟩ := exec_ok hx
  cases st with
  | createType name labels => exact h.createType ha
  | renameType name newName => exact h.renameType ha
  | dropType name => exact h.dropType ha
  | createTable t => exact h.createTable ha
  | dropTable name => exact h.dropTable gen ha
  -- the next two change the indexes alone
  | createIndex i =>
    simp only [Statement.alter, Option.ite_none_right_eq_some, Option.some.injEq] at ha
    obtain ⟨-, rfl⟩ := ha
    exact h.indexes _
  | dropIndex name =>
    simp only [Statement.alter, Option.ite_none_right_eq_some, Option.some.injEq] at ha
    obtain ⟨-, rfl⟩ := ha
    exact h.indexes _
  -- from here on the rows may refuse, and what they have passed is what the new schema asks
  | addConstraint table k =>
    simp only [Statement.refusal, ite_eq_left_iff, reduceCtorEq, imp_false, not_not] at hrefusal
    exact h.addConstraint ha hrefusal
  | dropConstraint table name => exact h.dropConstraint ha
  | addColumn table column type notNull =>
    refine h.addColumn gen ha fun hnull => ?_
    simpa [Statement.refusal, hnull] using hrefusal
  | dropColumn table column => exact h.dropColumn gen ha
  | setNotNull table column =>
    simp only [Statement.refusal, ite_eq_left_iff, reduceCtorEq, imp_false, not_not] at hrefusal
    exact h.setNotNull ha hrefusal
  | setDefault table column value => exact h.setDefault ha
  | dropDefault table column => exact h.dropDefault ha
  | setEnum table column enum =>
    simp only [Statement.refusal, ite_eq_left_iff, reduceCtorEq, imp_false, not_not] at hrefusal
    exact h.setEnum ha hrefusal
  | fillUuid table column =>
    simp only [Statement.refusal, ite_eq_left_iff, reduceCtorEq, imp_false, not_not] at hrefusal
    exact h.fillUuid ha hrefusal

theorem run_admits (h : Admits db.schema db.contents) (hr : run gen db sts = .ok db') :
    Admits db'.schema db'.contents := by
  induction sts generalizing db with
  | nil => rwa [← Except.ok.inj hr]
  | cons st sts ih =>
    obtain ⟨db₁, hexec, hrest⟩ := run_cons_ok hr
    exact ih (exec_admits h hexec) hrest

/-- A statement that spares some columns of a table leaves their values as they were. -/
theorem exec_sameOn (hx : exec gen db st = .ok db') {table : String} {columns : List String}
    (h : st.spares table columns = true) :
    SameOn columns (db.contents table) (db'.contents table) := by
  obtain ⟨schema, -, -, rfl⟩ := exec_ok hx
  cases st with
  | dropTable name =>
    have hne : table ≠ name := fun heq => by simp [Statement.spares, heq] at h
    show SameOn columns (db.contents table) (Function.update db.contents name [] table)
    rw [Function.update_of_ne hne]
    exact .refl _ _
  | addColumn name column type notNull =>
    exact addColumn_sameOn gen _ name column type notNull columns table
  | dropColumn name column =>
    refine dropColumn_sameOn gen _ fun heq => ?_
    simpa [Statement.spares, heq] using h
  | fillUuid name column =>
    refine fillUuid_sameOn gen _ fun heq => ?_
    simpa [Statement.spares, heq] using h
  | _ => exact .refl _ _

theorem run_sameOn (hr : run gen db sts = .ok db') {table : String} {columns : List String}
    (h : ∀ st ∈ sts, st.spares table columns = true) :
    SameOn columns (db.contents table) (db'.contents table) := by
  induction sts generalizing db with
  | nil =>
    rw [← Except.ok.inj hr]
    exact .refl _ _
  | cons st sts ih =>
    obtain ⟨db₁, hexec, hrest⟩ := run_cons_ok hr
    exact (exec_sameOn hexec (h st List.mem_cons_self)).trans
      (ih hrest fun st' hst' => h st' (List.mem_cons_of_mem _ hst'))

/-! ## When a run succeeds -/

theorem run_append (sts' : List Statement) :
    run gen db (sts ++ sts') = (run gen db sts).bind fun db' => run gen db' sts' := by
  induction sts generalizing db with
  | nil => rfl
  | cons st sts ih =>
    rw [List.cons_append, run, run]
    cases exec gen db st with
    | error e => rfl
    | ok db₁ => exact ih

theorem alterAll_append (s : Schema) (sts' : List Statement) :
    alterAll s (sts ++ sts') = (alterAll s sts).bind fun s' => alterAll s' sts' := by
  induction sts generalizing s with
  | nil => rfl
  | cons st sts ih =>
    rw [List.cons_append, alterAll, alterAll, Option.bind_assoc]
    exact Option.bind_congr fun s' _ => ih s'

/-- The schema a run leaves is a matter of the catalog. -/
theorem run_schema (hr : run gen db sts = .ok db') : alterAll db.schema sts = some db'.schema := by
  induction sts generalizing db with
  | nil => rw [← Except.ok.inj hr, alterAll]
  | cons st sts ih =>
    obtain ⟨db₁, hexec, hrest⟩ := run_cons_ok hr
    obtain ⟨schema, ha, -, rfl⟩ := exec_ok hexec
    rw [alterAll, ha]
    exact ih hrest

theorem exec_of_alter {schema : Schema} (ha : st.alter db.schema = some schema)
    (hrefusal : st.refusal gen db.schema db.contents = none) :
    exec gen db st = .ok { schema := schema, contents := st.rewrite gen db.contents } := by
  simp only [exec, ha, hrefusal]

/-- Statements that do not touch the rows succeed as soon as the catalog allows them. -/
theorem run_catalogOnly {s s' : Schema} {contents : Contents υ}
    (h : ∀ st ∈ sts, st.catalogOnly = true) (ha : alterAll s sts = some s') :
    run gen { schema := s, contents := contents } sts =
      .ok { schema := s', contents := contents } := by
  induction sts generalizing s with
  | nil => rw [run, Option.some.inj ha]
  | cons st sts ih =>
    obtain ⟨s₁, hs₁, hrest⟩ := Option.bind_eq_some_iff.mp ha
    have hst := h st List.mem_cons_self
    have hexec : exec gen { schema := s, contents := contents } st =
        .ok { schema := s₁, contents := contents } := by
      cases st with
      | dropTable _ | addConstraint _ _ | addColumn _ _ _ _ | dropColumn _ _ | setNotNull _ _
      | setEnum _ _ _ | fillUuid _ _ => cases hst
      | _ => exact exec_of_alter hs₁ rfl
    rw [run, hexec]
    exact ih (fun st' hst' => h st' (List.mem_cons_of_mem _ hst')) hrest

theorem rewrite_empty (gen : Nat → υ) (st : Statement) :
    st.rewrite gen (fun _ => [] : Contents υ) = fun _ => [] := by
  cases st <;> simp [Statement.rewrite]

theorem refusal_empty (gen : Nat → υ) (s : Schema) (st : Statement) :
    st.refusal gen s (fun _ => [] : Contents υ) = none := by
  cases st with
  | addConstraint table k => exact if_pos (k.holds_nil _)
  | fillUuid table column =>
    simp only [Statement.refusal, rewrite_empty]
    exact if_pos fun t _ k _ _ => k.holds_nil _
  | _ => simp [Statement.refusal]

/-- On a database without rows a run succeeds as soon as the catalog allows it. -/
theorem run_empty {s s' : Schema} {contents : Contents υ} (h : ∀ n, contents n = [])
    (ha : alterAll s sts = some s') :
    run gen { schema := s, contents := contents } sts =
      .ok { schema := s', contents := contents } := by
  have hcontents : contents = fun _ => [] := funext h
  subst hcontents
  induction sts generalizing s with
  | nil => rw [run, Option.some.inj ha]
  | cons st sts ih =>
    obtain ⟨s₁, hs₁, hrest⟩ := Option.bind_eq_some_iff.mp ha
    have hexec : exec gen { schema := s, contents := fun _ => [] } st =
        .ok { schema := s₁, contents := st.rewrite gen fun _ => [] } :=
      exec_of_alter hs₁ (refusal_empty gen s st)
    rw [run, hexec, rewrite_empty]
    exact ih hrest

/-- A column may become another enumeration that has all the labels of its own. -/
theorem setEnum_not_refused {s : Schema} {contents : Contents υ} (h : Admits s contents)
    (gen : Nat → υ) {table column enum old : String} {labels labels' : List String}
    (hcolumn : ∀ t ∈ s.tables, t.name = table → ∀ c ∈ t.columns, c.name = column →
      c.type = .enum old)
    (hold : s.types.lookup old = some labels) (hnew : s.types.lookup enum = some labels')
    (hsub : labels ⊆ labels') :
    (Statement.setEnum table column enum).refusal gen s contents = none := by
  refine if_pos fun r hr cell hcell hname => ?_
  -- a row is there, so its table is
  have htable : table ∈ s.tables.map (·.name) := by
    by_contra hnot
    rw [h.others table hnot] at hr
    cases hr
  obtain ⟨t, ht, rfl⟩ := List.mem_map.mp htable
  -- the cell is of the old enumeration, or null
  obtain ⟨c, hc, hcname, hfits⟩ := (h.fits t ht r hr).of_mem hcell
  have htype := hcolumn t ht rfl c hc (hcname.symm.trans hname)
  unfold Column.fits at hfits
  split at hfits
  · rename_i hnull
    rw [hnull]
    rfl
  · rw [htype] at hfits
    cases hv : cell.2 with
    | label l =>
      rw [hv] at hfits
      simp only [hasType, hold, Option.any_some, decide_eq_true_eq] at hfits
      simp only [castable, hnew, Option.any_some, decide_eq_true_eq]
      exact hsub hfits
    | null => rfl
    | _ =>
      rw [hv] at hfits
      cases hfits

end Runs

/-! ## A new column of generated uuids -/

section Generated

variable {column : String}

theorem fillCell_ne_null (u : υ) {cell : String × Value υ}
    (h : (fillCell column u cell).1 = column) : (fillCell column u cell).2 ≠ .null := by
  unfold fillCell at *
  split at h
  · rename_i hfill
    simp [hfill]
  · rename_i hnot
    rw [if_neg hnot]
    exact fun hnull => hnot ⟨h, hnull⟩

/-- In a row that did not have the column. -/
theorem get_generated {r : Row υ} (h : column ∉ r.map (·.1)) (u : υ) :
    get ((r ++ [(column, Value.null)]).map (fillCell column u)) column = .uuid u := by
  induction r with
  | nil => simp [fillCell, get_cons]
  | cons cell r ih =>
    rw [List.map_cons, List.mem_cons, not_or] at h
    rw [List.cons_append, List.map_cons, get_cons, fillCell_name, if_neg h.1]
    exact ih h.2

/-- Rows whose uuids differ are distinct in every list of columns with the uuid among them. -/
theorem distinct_of_generated (gen : Nat → υ) {columns : List String} {rows : List (Row υ)}
    (hmem : column ∈ columns) (hget : ∀ i (hi : i < rows.length),
      get rows[i] column = .uuid (gen i))
    (hgen : ∀ i j, i < rows.length → j < rows.length → gen i = gen j → i = j) :
    Distinct columns rows := by
  refine List.Nodup.filter _ ?_
  rw [List.Nodup, List.pairwise_map, List.pairwise_iff_getElem]
  intro i j hi hj hlt heq
  -- rows that agree on the columns agree on their uuids
  have hcell : get rows[i] column = get rows[j] column := List.map_inj_left.mp heq column hmem
  rw [hget i hi, hget j hj, Value.uuid.injEq] at hcell
  have hij := hgen i j hi hj hcell
  omega

/-- A nullable column can always be added. -/
theorem exec_addColumn {gen : Nat → υ} {s s' : Schema} {contents : Contents υ} {table : String}
    {type : DataType} (ha : (Statement.addColumn table column type false).alter s = some s') :
    exec gen { schema := s, contents := contents } (.addColumn table column type false) =
      .ok { schema := s',
            contents := (Statement.addColumn table column type false).rewrite gen contents } := by
  refine exec_of_alter ha ?_
  simp [Statement.refusal]

/-- A new column is filled without regard to the constraints that are there. -/
theorem exec_fillUuid_new {gen : Nat → υ} {s s₁ s' : Schema} {contents : Contents υ}
    {table : String} {type : DataType}
    (hfree : ∀ t ∈ s.tables, ∀ k ∈ t.constraints, k.involves t.name table column = false)
    (hadd : (Statement.addColumn table column type false).alter s = some s₁)
    (ha : (Statement.fillUuid table column).alter s₁ = some s') :
    exec gen { schema := s₁, contents := contents } (.fillUuid table column) =
      .ok { schema := s',
            contents := (Statement.fillUuid table column).rewrite gen contents } := by
  refine exec_of_alter ha (if_pos fun u hu k hk hinv => ?_)
  obtain ⟨t, ht, htable, t', hf, rfl⟩ := alterTable_some hadd
  simp only [Option.ite_none_right_eq_some, Option.some.injEq] at hf
  obtain ⟨-, rfl⟩ := hf
  -- the constraints are the ones from before the column
  rcases mem_setTable hu with rfl | ⟨hmem, -⟩
  · rw [hfree t ht k hk] at hinv
    cases hinv
  · rw [hfree u hmem k hk] at hinv
    cases hinv

/-- The safe way to a NOT NULL column with a unique constraint: add it as nullable, generate its
values, and only then demand them. -/
theorem run_generatedKey {gen : Nat → υ} {s s' : Schema} {contents : Contents υ}
    (h : Admits s contents) {table name : String} {columns : List String}
    (hnew : ∀ t ∈ s.tables, t.name = table → column ∉ t.columnNames)
    (hfree : ∀ t ∈ s.tables, ∀ k ∈ t.constraints, k.involves t.name table column = false)
    (hmem : column ∈ columns)
    (hgen : ∀ i j, i < (contents table).length → j < (contents table).length →
      gen i = gen j → i = j)
    (ha : alterAll s [.addColumn table column .uuid false, .fillUuid table column,
      .setNotNull table column, .addConstraint table (.unique name columns)] = some s') :
    ∃ db', run gen { schema := s, contents := contents }
      [.addColumn table column .uuid false, .fillUuid table column,
        .setNotNull table column, .addConstraint table (.unique name columns)] = .ok db' := by
  obtain ⟨s₁, hs₁, ha⟩ := Option.bind_eq_some_iff.mp ha
  obtain ⟨s₂, hs₂, ha⟩ := Option.bind_eq_some_iff.mp ha
  obtain ⟨s₃, hs₃, ha⟩ := Option.bind_eq_some_iff.mp ha
  obtain ⟨s₄, hs₄, -⟩ := Option.bind_eq_some_iff.mp ha
  obtain ⟨t, ht, htable, -⟩ := alterTable_some hs₁
  -- the rows after the second statement, and after the third and fourth
  let added := (Statement.addColumn table column .uuid false).rewrite gen contents
  let filled := (Statement.fillUuid table column).rewrite gen added
  have hfilled : filled table = ((contents table).map (· ++ [(column, .null)])).mapIdx
      fun i r => r.map (fillCell column (gen i)) := by
    rw [← rewrite_addColumn_self gen contents table column .uuid false]
    exact rewrite_fillUuid_self gen added table column
  -- every cell of the column has been filled
  have hset : exec gen { schema := s₂, contents := filled } (.setNotNull table column) =
      .ok { schema := s₃, contents := filled } := by
    refine exec_of_alter hs₃ (if_pos fun r hr cell hcell hname => ?_)
    rw [show { schema := s₂, contents := filled : Database υ }.contents table = _ from hfilled] at hr
    obtain ⟨i, hi, rfl⟩ := List.mem_mapIdx.mp hr
    obtain ⟨cell, -, rfl⟩ := List.mem_map.mp hcell
    exact fillCell_ne_null _ hname
  -- and with a different uuid in each row
  have hdistinct : Distinct columns (filled table) := by
    rw [hfilled]
    refine distinct_of_generated gen hmem (fun i hi => ?_) fun i j hi hj => ?_
    · have hlen : i < (contents table).length := by simpa using hi
      have hrow : (contents table)[i] ∈ contents t.name := by
        rw [htable]
        exact List.getElem_mem hlen
      have hnames := (h.fits t ht _ hrow).names
      simp only [List.getElem_mapIdx, List.getElem_map]
      refine get_generated ?_ (gen i)
      rw [hnames]
      exact hnew t ht htable
    · exact hgen i j (by simpa using hi) (by simpa using hj)
  have hunique : exec gen { schema := s₃, contents := filled }
      (.addConstraint table (.unique name columns)) = .ok { schema := s₄, contents := filled } :=
    exec_of_alter hs₄ (if_pos hdistinct)
  refine ⟨{ schema := s₄, contents := filled }, ?_⟩
  rw [run, exec_addColumn hs₁]
  show run gen { schema := s₁, contents := added } _ = _
  rw [run, exec_fillUuid_new hfree hs₁ hs₂]
  show run gen { schema := s₂, contents := filled } _ = _
  rw [run, hset]
  show run gen { schema := s₃, contents := filled } _ = _
  rw [run, hunique]
  rfl

end Generated

end Sql
