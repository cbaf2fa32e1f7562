import Ecommerce.Lib.DdlLaws

/-!
# DdlReverse — runs of statements that take back what others did

A row is determined by the columns of its table and their values (`RowFits.ext`).  So two runs that
spare the columns of a schema and lead back to it restore the contents too (`run_reverts`), whatever
the statements between them did to the rows.
-/

namespace Sql

variable {υ : Type}

/-! ## Rows from their values -/

-- The first cell of the name is the only one.
theorem get_of_mem {r : Row υ} (hnodup : (r.map (·.1)).Nodup) {cell : String × Value υ}
    (hcell : cell ∈ r) : get r cell.1 = cell.2 := by
  induction r with
  | nil => cases hcell
  | cons first r ih =>
    rw [List.map_cons, List.nodup_cons] at hnodup
    rw [get_cons]
    rcases List.mem_cons.mp hcell with rfl | hmem
    · exact if_pos rfl
    · have hne : cell.1 ≠ first.1 := fun heq => hnodup.1 (heq ▸ List.mem_map_of_mem hmem)
      rw [if_neg hne]
      exact ih hnodup.2 hmem

theorem row_ext {r r' : Row υ} (hnames : r'.map (·.1) = r.map (·.1)) (hnodup : (r.map (·.1)).Nodup)
    (hget : ∀ c ∈ r.map (·.1), get r' c = get r c) : r' = r := by
  induction r generalizing r' with
  | nil => exact List.map_eq_nil_iff.mp hnames
  | cons cell r ih =>
    obtain ⟨cell', rest, rfl, hname, hrest⟩ := List.map_eq_cons_iff.mp hnames
    rw [List.map_cons, List.nodup_cons] at hnodup
    have hvalue : cell'.2 = cell.2 := by
      have hfirst := hget cell.1 (by simp)
      rwa [get_cons, get_cons, if_pos hname.symm, if_pos rfl] at hfirst
    have htail : rest = r := by
      refine ih hrest hnodup.2 fun c hc => ?_
      have hne : c ≠ cell.1 := fun heq => hnodup.1 (heq ▸ hc)
      have hrow := hget c (List.mem_cons_of_mem _ hc)
      rwa [get_cons, get_cons, if_neg (hname ▸ hne), if_neg hne] at hrow
    rw [htail, Prod.ext hname hvalue]

variable [DecidableEq υ]

/-- Two rows of one table with the same values are one row. -/
theorem RowFits.ext {types types' : List (String × List String)} {columns : List Column}
    {r r' : Row υ} (h : RowFits types columns r) (h' : RowFits types' columns r')
    (hnodup : (columns.map (·.name)).Nodup)
    (hget : ∀ c ∈ columns.map (·.name), get r' c = get r c) : r' = r := by
  have hnames := h.names
  refine row_ext (h'.names.trans hnames.symm) (hnames ▸ hnodup) fun c hc => ?_
  rw [hnames] at hc
  exact hget c hc

/-- A cell is read under the name of its column. -/
theorem RowFits.get_cell {types : List (String × List String)} {columns : List Column} {r : Row υ}
    (h : RowFits types columns r) (hnodup : (columns.map (·.name)).Nodup)
    {cell : String × Value υ} (hcell : cell ∈ r) : get r cell.1 = cell.2 :=
  get_of_mem (h.names ▸ hnodup) hcell

theorem RowFits.cell_of_column {types : List (String × List String)} {columns : List Column}
    {r : Row υ} (h : RowFits types columns r) {c : Column} (hc : c ∈ columns) :
    ∃ cell ∈ r, cell.1 = c.name ∧ c.fits types cell.2 := by
  unfold RowFits at h
  induction h with
  | nil => cases hc
  | cons hcell hrest ih =>
    rcases List.mem_cons.mp hc with rfl | hmem
    · exact ⟨_, List.mem_cons_self, hcell⟩
    · obtain ⟨cell, hin, hfits⟩ := ih hmem
      exact ⟨cell, List.mem_cons_of_mem _ hin, hfits⟩

/-- What stands in a NOT NULL column of an enumeration. -/
theorem Admits.get_enum {s : Schema} {contents : Contents υ} (h : Admits s contents) {t : Table}
    (ht : t ∈ s.tables) (hnodup : t.columnNames.Nodup) {c : Column} (hc : c ∈ t.columns)
    {name : String} (htype : c.type = .enum name) (hnull : c.notNull = true) {labels : List String}
    (hlabels : s.types.lookup name = some labels) {r : Row υ} (hr : r ∈ contents t.name) :
    ∃ l ∈ labels, get r c.name = .label l := by
  have hrow := h.fits t ht r hr
  obtain ⟨cell, hcell, hname, hfits⟩ := hrow.cell_of_column hc
  rw [← hname, hrow.get_cell hnodup hcell]
  unfold Column.fits at hfits
  split at hfits
  · rw [hnull] at hfits
    cases hfits
  · rw [htype] at hfits
    cases hv : cell.2 with
    | label l =>
      rw [hv] at hfits
      simp only [hasType, hlabels, Option.any_some, decide_eq_true_eq] at hfits
      exact ⟨l, hfits, rfl⟩
    | _ =>
      rw [hv] at hfits
      cases hfits

/-- A NOT NULL column of an enumeration can be cast to another one if and only if every label in it
is one of the other's. -/
theorem setEnum_refusal_iff {s s' : Schema} {contents : Contents υ} (h : Admits s contents)
    (gen : Nat → υ) {t : Table} (ht : t ∈ s.tables) (hnodup : t.columnNames.Nodup) {c : Column}
    (hc : c ∈ t.columns) {name : String} (htype : c.type = .enum name) (hnull : c.notNull = true)
    {labels : List String} (hlabels : s.types.lookup name = some labels) {enum : String}
    {labels' : List String} (hlabels' : s'.types.lookup enum = some labels') :
    (Statement.setEnum t.name c.name enum).refusal gen s' contents = none ↔
      ∀ r ∈ contents t.name, ∀ l, get r c.name = .label l → l ∈ labels' := by
  simp only [Statement.refusal, ite_eq_left_iff, reduceCtorEq, imp_false, not_not]
  refine forall₂_congr fun r hr => ?_
  have hrow := h.fits t ht r hr
  constructor
  · intro hcast l hl
    obtain ⟨cell, hcell, hname, -⟩ := hrow.cell_of_column hc
    have hvalue : cell.2 = .label l := by
      rw [← hrow.get_cell hnodup hcell, hname, hl]
    have hthis := hcast cell hcell hname
    rw [hvalue] at hthis
    simpa [castable, hlabels'] using hthis
  · intro hall cell hcell hname
    -- a value of the old type is one of its labels, as the column is NOT NULL
    obtain ⟨l, -, hl⟩ := h.get_enum ht hnodup hc htype hnull hlabels hr
    have hvalue : cell.2 = .label l := by
      rw [← hrow.get_cell hnodup hcell, hname, hl]
    rw [hvalue]
    simpa [castable, hlabels'] using hall l hl

-- Contents that one schema admits are the same once they agree in all its columns.
theorem Admits.contents_eq {s : Schema} {contents contents' : Contents υ} (h : Admits s contents)
    (h' : Admits s contents') (hnodup : ∀ t ∈ s.tables, t.columnNames.Nodup)
    (hsame : ∀ t ∈ s.tables, SameOn t.columnNames (contents t.name) (contents' t.name)) :
    contents' = contents := by
  funext name
  by_cases hname : name ∈ s.tables.map (·.name)
  · obtain ⟨t, ht, rfl⟩ := List.mem_map.mp hname
    obtain ⟨hlen, hrows⟩ := List.forall₂_iff_get.mp (hsame t ht)
    refine List.ext_getElem hlen.symm fun i hi' hi => ?_
    exact (h.fits t ht _ (List.getElem_mem hi)).ext (h'.fits t ht _ (List.getElem_mem hi'))
      (hnodup t ht) (hrows i hi hi')
  · rw [h.others name hname, h'.others name hname]

/-! ## Runs the rows cannot stop -/

/-- No row can make the statement fail. -/
def Statement.unrefusable : Statement → Bool
  | .addConstraint _ _ => false
  | .addColumn _ _ _ notNull => !notNull
  | .setNotNull _ _ => false
  | .setEnum _ _ _ => false
  | .fillUuid _ _ => false
  | _ => true

section Runs

variable {gen : Nat → υ} {db db' db'' : Database υ} {sts sts' : List Statement}

theorem refusal_of_unrefusable {st : Statement} (h : st.unrefusable = true) (s : Schema)
    (contents : Contents υ) : st.refusal gen s contents = none := by
  cases st with
  | addColumn table column type notNull =>
    have hnull : notNull = false := by simpa [Statement.unrefusable] using h
    simp [Statement.refusal, hnull]
  | addConstraint _ _ | setNotNull _ _ | setEnum _ _ _ | fillUuid _ _ => cases h
  | _ => rfl

/-- Such statements succeed as soon as the catalog allows them. -/
theorem run_unrefused (gen : Nat → υ) (db : Database υ) {s : Schema}
    (h : ∀ st ∈ sts, st.unrefusable = true)
    (ha : alterAll db.schema sts = some s) :
    ∃ contents, run gen db sts = .ok { schema := s, contents := contents } := by
  induction sts generalizing db with
  | nil =>
    rw [alterAll, Option.some.injEq] at ha
    exact ⟨db.contents, by rw [run, ← ha]⟩
  | cons st sts ih =>
    obtain ⟨s₁, hs₁, hrest⟩ := Option.bind_eq_some_iff.mp ha
    have hrefusal : st.refusal gen db.schema db.contents = none :=
      refusal_of_unrefusable (h st List.mem_cons_self) db.schema db.contents
    rw [run, exec_of_alter hs₁ hrefusal]
    exact ih _ (fun st' hst' => h st' (List.mem_cons_of_mem _ hst')) hrest

-- One statement in the middle decides.
theorem run_middle (gen : Nat → υ) (db : Database υ) {s s₁ s₂ : Schema} {st : Statement}
    (hbefore : ∀ st' ∈ sts, st'.catalogOnly = true)
    (hafter : ∀ st' ∈ sts', st'.unrefusable = true) (hs₁ : alterAll db.schema sts = some s₁)
    (hs₂ : st.alter s₁ = some s₂) (hs : alterAll s₂ sts' = some s) :
    (∃ db', run gen db (sts ++ st :: sts') = .ok db') ↔ st.refusal gen s₁ db.contents = none := by
  -- the statements before touch the catalog alone, those after cannot be refused
  have hprefix : run gen db sts = .ok { schema := s₁, contents := db.contents } :=
    run_catalogOnly hbefore hs₁
  have hsplit : run gen db (sts ++ st :: sts') =
      run gen { schema := s₁, contents := db.contents } (st :: sts') := by
    rw [run_append, hprefix]
    rfl
  rw [hsplit]
  constructor
  · rintro ⟨db', hrun⟩
    obtain ⟨db₁, hexec, -⟩ := run_cons_ok hrun
    obtain ⟨-, -, hrefusal, -⟩ := exec_ok hexec
    exact hrefusal
  · intro hrefusal
    rw [run, exec_of_alter hs₂ hrefusal]
    obtain ⟨contents, hrun⟩ :=
      run_unrefused gen { schema := s₂, contents := st.rewrite gen db.contents } hafter hs
    exact ⟨_, hrun⟩

/-- A run that leads back to the schema and spares its columns, after one that spared them too,
gives the database back. -/
theorem run_reverts (h : Admits db.schema db.contents)
    (hnodup : ∀ t ∈ db.schema.tables, t.columnNames.Nodup) (hup : run gen db sts = .ok db')
    (hdown : run gen db' sts' = .ok db'') (hschema : db''.schema = db.schema)
    (hspared : ∀ t ∈ db.schema.tables, ∀ st ∈ sts, st.spares t.name t.columnNames = true)
    (hspared' : ∀ t ∈ db.schema.tables, ∀ st ∈ sts', st.spares t.name t.columnNames = true) :
    db'' = db := by
  have hadmits : Admits db.schema db''.contents := hschema ▸ run_admits (run_admits h hup) hdown
  have hcontents : db''.contents = db.contents :=
    h.contents_eq hadmits hnodup fun t ht =>
      (run_sameOn hup (hspared t ht)).trans (run_sameOn hdown (hspared' t ht))
  cases db''
  cases db
  cases hschema
  cases hcontents
  rfl

end Runs

end Sql
