import Ecommerce.Common.Uuid
import Ecommerce.Database.Migrations
import Ecommerce.Lib.DdlReverse

/-!
# MigrationRuns — migrations on live data, forward and back

`schemaAt i` is the schema the first `i` migrations leave.  Once the `up` of a migration runs through,
the laws of the statements give the rest: the constraints it declares hold, and all rows keep their
values.  Whether it runs through may depend on the rows.

`down` is written by hand as statements of its own.  That it restores the schema is a matter of the
catalog; that it keeps the rows, and that it undoes an `up`, follows from the laws of the statements.
Only one `down` depends on the rows it finds: it casts statuses to an enumeration that had no label
for a processed order.
-/

namespace Ecommerce

open Sql Migrations

def schemaAt (i : Nat) : Schema :=
  (alterAll .empty ((migrations.take i).flatMap (·.up))).getD .empty

/-- On these contents the migration succeeds, leaves what the schema after it admits, and keeps every
row with the values of the columns it had. -/
def UpWorks (gen : Nat → UUID) (i : Fin migrations.length) (contents : Contents UUID) : Prop :=
  ∃ db', run gen { schema := schemaAt i, contents := contents } migrations[i].up = .ok db' ∧
    db'.schema = schemaAt (i + 1) ∧ Admits db'.schema db'.contents ∧
    ∀ t ∈ (schemaAt i).tables, SameOn t.columnNames (contents t.name) (db'.contents t.name)

/-- Everything but the success of a run is a law of the statements. -/
theorem works_iff_run {gen : Nat → UUID} {contents : Contents UUID} {s s' : Schema}
    {sts : List Statement} {tables : List Table} (h : Admits s contents)
    (halter : alterAll s sts = some s')
    (hspares : ∀ t ∈ tables, ∀ st ∈ sts, st.spares t.name t.columnNames = true) :
    (∃ db', run gen { schema := s, contents := contents } sts = .ok db' ∧
      db'.schema = s' ∧ Admits db'.schema db'.contents ∧
      ∀ t ∈ tables, SameOn t.columnNames (contents t.name) (db'.contents t.name)) ↔
    ∃ db', run gen { schema := s, contents := contents } sts = .ok db' := by
  constructor
  · rintro ⟨db', hrun, -⟩
    exact ⟨db', hrun⟩
  · rintro ⟨db', hrun⟩
    have hschema : some s' = some db'.schema := halter.symm.trans (run_schema hrun)
    exact ⟨db', hrun, (Option.some.inj hschema).symm, run_admits h hrun,
      fun t ht => run_sameOn hrun (hspares t ht)⟩

/-! ## What the catalogs say of an `up` -/

-- The two facts about a migration that are found by evaluation.
theorem up_evaluated : ∀ i : Fin migrations.length,
    alterAll (schemaAt i) migrations[i].up = some (schemaAt (i + 1)) ∧
      ∀ t ∈ (schemaAt i).tables, ∀ st ∈ migrations[i].up,
        st.spares t.name t.columnNames = true := by
  decide +kernel

theorem alterAll_up (i : Fin migrations.length) :
    alterAll (schemaAt i) migrations[i].up = some (schemaAt (i + 1)) :=
  (up_evaluated i).1

/-- No migration writes or drops a column that was there before it. -/
theorem up_spares (i : Fin migrations.length) : ∀ t ∈ (schemaAt i).tables,
    ∀ st ∈ migrations[i].up, st.spares t.name t.columnNames = true :=
  (up_evaluated i).2

/-- The key is new to `orders`, and no constraint depends on a column of this name. -/
theorem idempotencyKey_new : (∀ t ∈ (schemaAt 1).tables, t.name = "orders" →
      "idempotency_key" ∉ t.columnNames) ∧
    ∀ t ∈ (schemaAt 1).tables, ∀ k ∈ t.constraints,
      k.involves t.name "orders" "idempotency_key" = false := by
  decide +kernel

/-- When the statuses are cast, they are of the enumeration renamed before. -/
abbrev StatusIsOld (s : Schema) : Prop :=
  (∀ t ∈ s.tables, t.name = "orders" → ∀ c ∈ t.columns, c.name = "status" →
    c.type = .enum "orders_status_enum_old") ∧
  s.types.lookup "orders_status_enum_old" = some ["created", "canceled", "paid"] ∧
  s.types.lookup "orders_status_enum" = some ["created", "canceled", "processed", "paid"]

theorem status_old : ∀ s, alterAll (schemaAt 3) (addOrderProcessingFields.up.take 5) = some s →
    StatusIsOld s := by
  have hall : (alterAll (schemaAt 3) (addOrderProcessingFields.up.take 5)).all
      (decide <| StatusIsOld ·) = true := by
    decide +kernel
  intro s hs
  rw [hs] at hall
  simpa using hall

/-! ## Forward -/

section Up

variable {gen : Nat → UUID} {contents : Contents UUID}

/-- All that can go wrong is that a statement is refused. -/
theorem upWorks_iff_run {i : Fin migrations.length} (h : Admits (schemaAt i) contents) :
    UpWorks gen i contents ↔
      ∃ db', run gen { schema := schemaAt i, contents := contents } migrations[i].up = .ok db' :=
  works_iff_run h (alterAll_up i) (up_spares i)

theorem init_runs (h : Admits (schemaAt 0) contents) :
    ∃ db', run gen { schema := schemaAt 0, contents := contents } init.up = .ok db' :=
  ⟨_, run_empty (fun n => h.others n (by simp [schemaAt, alterAll, Schema.empty]))
    (alterAll_up ⟨0, by decide⟩)⟩

/-- The keys of the orders are generated, and what is generated differs. -/
theorem addIdempotencyKey_runs (h : Admits (schemaAt 1) contents)
    (hgen : ∀ i j, i < (contents "orders").length → j < (contents "orders").length →
      gen i = gen j → i = j) :
    ∃ db', run gen { schema := schemaAt 1, contents := contents } addIdempotencyKey.up =
      .ok db' :=
  run_generatedKey h idempotencyKey_new.1 idempotencyKey_new.2 (by decide) hgen
    (alterAll_up ⟨1, by decide⟩)

theorem addIndexForListingOrders_runs :
    ∃ db', run gen { schema := schemaAt 2, contents := contents } addIndexForListingOrders.up =
      .ok db' :=
  ⟨_, run_catalogOnly (by decide) (alterAll_up ⟨2, by decide⟩)⟩

/-- Every status there may be is a label of the new enumeration. -/
theorem addOrderProcessingFields_runs (h : Admits (schemaAt 3) contents) :
    ∃ db', run gen { schema := schemaAt 3, contents := contents } addOrderProcessingFields.up =
      .ok db' := by
  -- the new column first, then the cast of the statuses between changes of the catalog alone
  let before : List Statement := [.dropIndex "IX_orders_user_id_status_created_at",
    .renameType "orders_status_enum" "orders_status_enum_old",
    .createType "orders_status_enum" ["created", "canceled", "processed", "paid"],
    .dropDefault "orders" "status"]
  let after : List Statement := [.setDefault "orders" "status" (.literal "created"),
    .dropType "orders_status_enum_old", .createIndex ordersListingIndex]
  let add : Statement := .addColumn "orders" "processed_at" .timestamptz false
  let cast : Statement := .setEnum "orders" "status" "orders_status_enum"
  have hup : addOrderProcessingFields.up = (add :: before) ++ cast :: after := rfl
  have halter : alterAll (schemaAt 3) ((add :: before) ++ cast :: after) = some (schemaAt 4) :=
    alterAll_up ⟨3, by decide⟩
  rw [alterAll_append] at halter
  obtain ⟨s₂, hs₂, halter⟩ := Option.bind_eq_some_iff.mp halter
  obtain ⟨s₁, hs₁, hbefore⟩ := Option.bind_eq_some_iff.mp hs₂
  obtain ⟨s₃, hs₃, hafter⟩ := Option.bind_eq_some_iff.mp halter
  have hprefix : run gen { schema := schemaAt 3, contents := contents } (add :: before) =
      .ok { schema := s₂, contents := add.rewrite gen contents } := by
    rw [run, exec_addColumn hs₁]
    exact run_catalogOnly (by decide) hbefore
  -- each old label is a label of the new enumeration
  obtain ⟨hcolumn, hold, hnew⟩ := status_old s₂ hs₂
  have hcast : exec gen { schema := s₂, contents := add.rewrite gen contents } cast =
      .ok { schema := s₃, contents := add.rewrite gen contents } :=
    exec_of_alter hs₃ (setEnum_not_refused (run_admits h hprefix) gen hcolumn hold hnew (by decide))
  refine ⟨{ schema := schemaAt 4, contents := add.rewrite gen contents }, ?_⟩
  rw [hup, run_append, hprefix]
  show run gen { schema := s₂, contents := add.rewrite gen contents } (cast :: after) = _
  rw [run, hcast]
  exact run_catalogOnly (by decide) hafter

theorem addProcessedMessagesTable_runs :
    ∃ db', run gen { schema := schemaAt 4, contents := contents } addProcessedMessagesTable.up =
      .ok db' :=
  ⟨_, run_catalogOnly (by decide) (alterAll_up ⟨4, by decide⟩)⟩

/-- The password is NOT NULL and has no default, so no user may be there. -/
theorem addUserPassword_runs_iff :
    (∃ db', run gen { schema := schemaAt 5, contents := contents } addUserPassword.up =
      .ok db') ↔ contents "users" = [] := by
  have halter : alterAll (schemaAt 5) addUserPassword.up = some (schemaAt 6) :=
    alterAll_up ⟨5, by decide⟩
  obtain ⟨s₁, hs₁, -⟩ := Option.bind_eq_some_iff.mp halter
  constructor
  · rintro ⟨db', hrun⟩
    obtain ⟨db₁, hexec, -⟩ := run_cons_ok hrun
    obtain ⟨schema, -, hrefusal, -⟩ := exec_ok hexec
    simpa [Statement.refusal] using hrefusal
  · intro hempty
    have hexec : exec gen { schema := schemaAt 5, contents := contents }
        (.addColumn "users" "password" (.varchar (some 100)) true) =
        .ok { schema := s₁, contents := (Statement.addColumn "users" "password"
          (.varchar (some 100)) true).rewrite gen contents } :=
      exec_of_alter hs₁ (by simp [Statement.refusal, hempty])
    exact ⟨_, by rw [addUserPassword, run, hexec]; rfl⟩

end Up

/-- Every migration works on every database its schema admits, except for the last one: it works on
a database without users and on no other. -/
theorem up_works_iff (gen : Nat → UUID) (i : Fin migrations.length) {contents : Contents UUID}
    (h : Admits (schemaAt i) contents)
    (hgen : ∀ j k, j < (contents "orders").length → k < (contents "orders").length →
      gen j = gen k → j = k) :
    UpWorks gen i contents ↔ (migrations[i] = addUserPassword → contents "users" = []) := by
  rw [upWorks_iff_run h]
  match i with
  | ⟨0, _⟩ =>
    exact iff_of_true (init_runs h) fun hm => absurd hm (show init ≠ addUserPassword by decide)
  | ⟨1, _⟩ =>
    exact iff_of_true (addIdempotencyKey_runs h hgen)
      fun hm => absurd hm (show addIdempotencyKey ≠ addUserPassword by decide)
  | ⟨2, _⟩ =>
    exact iff_of_true addIndexForListingOrders_runs
      fun hm => absurd hm (show addIndexForListingOrders ≠ addUserPassword by decide)
  | ⟨3, _⟩ =>
    exact iff_of_true (addOrderProcessingFields_runs h)
      fun hm => absurd hm (show addOrderProcessingFields ≠ addUserPassword by decide)
  | ⟨4, _⟩ =>
    exact iff_of_true addProcessedMessagesTable_runs
      fun hm => absurd hm (show addProcessedMessagesTable ≠ addUserPassword by decide)
  | ⟨5, _⟩ => exact addUserPassword_runs_iff.trans ⟨fun hempty _ => hempty, fun himp => himp rfl⟩

/-! ## A shop that has opened -/

def firstUser : Row UUID :=
  [("id", .uuid (.ofNat 1)), ("email", .text "first@example.com"), ("role", .label "user"),
    ("created_at", .timestamp 0), ("updated_at", .timestamp 0)]

/-- The user has placed two orders. -/
def openedShop : Contents UUID := fun name =>
  if name = "users" then [firstUser]
  else if name = "orders" then
    [2, 3].map fun n => [("id", .uuid (.ofNat n)), ("user_id", .uuid (.ofNat 1)),
      ("status", .label "created"), ("created_at", .timestamp 0), ("updated_at", .timestamp 0)]
  else []

theorem openedShop_admitted : Admits (schemaAt 1) openedShop where
  fits := by
    unfold RowFits Column.fits
    decide +kernel
  constraints := by decide +kernel
  others := by
    have hnames : (schemaAt 1).tables.map (·.name) =
        ["users", "products", "orders", "order_items"] := by
      decide +kernel
    intro name hname
    rw [hnames] at hname
    simp only [List.mem_cons, not_or] at hname
    simp [openedShop, hname.1, hname.2.2.1]

/-- The idempotency keys are added to the orders of the opened shop. -/
theorem up_works_iff_opened : UpWorks .ofNat ⟨1, by decide⟩ openedShop := by
  have hgen : ∀ j < 2, ∀ k < 2, UUID.ofNat j = UUID.ofNat k → j = k := by decide
  exact (up_works_iff .ofNat ⟨1, by decide⟩ openedShop_admitted
    fun j k hj hk => hgen j hj k hk).mpr fun hm =>
      absurd hm (show addIdempotencyKey ≠ addUserPassword by decide)

/-- A user has signed up, and nothing else has happened. -/
def signedUp : Contents UUID := fun name => if name = "users" then [firstUser] else []

/-- One user is enough to stop the last migration. -/
theorem addUserPassword_refused :
    Admits (schemaAt 5) signedUp ∧
    run .ofNat { schema := schemaAt 5, contents := signedUp } addUserPassword.up =
      .error .notNullViolation ∧
    ¬ UpWorks .ofNat ⟨5, by decide⟩ signedUp := by
  have hadmits : Admits (schemaAt 5) signedUp := {
    fits := by
      unfold RowFits Column.fits
      decide +kernel
    constraints := by decide +kernel
    others := by
      have husers : "users" ∈ (schemaAt 5).tables.map (·.name) := by decide +kernel
      intro name hname
      refine if_neg ?_
      rintro rfl
      exact hname husers }
  have hrun : run .ofNat { schema := schemaAt 5, contents := signedUp } addUserPassword.up =
      .error .notNullViolation := by
    rfl
  refine ⟨hadmits, hrun, ?_⟩
  rintro ⟨db', hok, -⟩
  cases hok.symm.trans hrun

/-! ## Taking migrations back -/

/-- On these contents the `down` of the migration succeeds, restores the schema before it, and keeps
every row of the tables that remain with the values of the columns that remain. -/
def DownWorks (gen : Nat → UUID) (i : Fin migrations.length) (contents : Contents UUID) : Prop :=
  ∃ db', run gen { schema := schemaAt (i + 1), contents := contents } migrations[i].down = .ok db' ∧
    db'.schema = schemaAt i ∧ Admits db'.schema db'.contents ∧
    ∀ t ∈ (schemaAt i).tables, SameOn t.columnNames (contents t.name) (db'.contents t.name)

/-- No order has been processed. -/
def NoneProcessed (contents : Contents UUID) : Prop :=
  ∀ r ∈ contents "orders", get r "status" ≠ .label "processed"

/-! ## What the catalogs say of a `down` -/

-- What evaluation finds of a migration and the catalogs around it.
theorem down_evaluated : ∀ i : Fin migrations.length,
    alterAll (schemaAt (i + 1)) migrations[i].down = some (schemaAt i) ∧
    (∀ t ∈ (schemaAt i).tables, t.columnNames.Nodup ∧
      ∀ st ∈ migrations[i].down, st.spares t.name t.columnNames = true) ∧
    (migrations[i] ≠ addOrderProcessingFields → ∀ st ∈ migrations[i].down,
      st.unrefusable = true) ∧
    (migrations[i] = addOrderProcessingFields → i = ⟨3, by decide⟩) := by
  decide +kernel

theorem alterAll_down (i : Fin migrations.length) :
    alterAll (schemaAt (i + 1)) migrations[i].down = some (schemaAt i) :=
  (down_evaluated i).1

-- No `down` drops a column or a table that was there before the migration.
theorem down_spares (i : Fin migrations.length) : ∀ t ∈ (schemaAt i).tables,
    ∀ st ∈ migrations[i].down, st.spares t.name t.columnNames = true :=
  fun t ht => ((down_evaluated i).2.1 t ht).2

theorem columnNames_nodup (i : Fin migrations.length) : ∀ t ∈ (schemaAt i).tables,
    t.columnNames.Nodup :=
  fun t ht => ((down_evaluated i).2.1 t ht).1

theorem down_unrefusable (i : Fin migrations.length)
    (hm : migrations[i] ≠ addOrderProcessingFields) :
    ∀ st ∈ migrations[i].down, st.unrefusable = true :=
  (down_evaluated i).2.2.1 hm

theorem addOrderProcessingFields_index (i : Fin migrations.length)
    (hm : migrations[i] = addOrderProcessingFields) : i = ⟨3, by decide⟩ :=
  (down_evaluated i).2.2.2 hm

/-- The table `orders` and its column `status`, an enumeration of these labels. -/
def StatusColumn (s : Schema) (labels : List String) : Prop :=
  ∃ t ∈ s.tables, t.name = "orders" ∧ t.columnNames.Nodup ∧ ∃ c ∈ t.columns, c.name = "status" ∧
    c.type = .enum "orders_status_enum" ∧ c.notNull = true ∧
    s.types.lookup "orders_status_enum" = some labels

instance (s : Schema) (labels : List String) : Decidable (StatusColumn s labels) :=
  inferInstanceAs (Decidable (∃ t ∈ s.tables, t.name = "orders" ∧ t.columnNames.Nodup ∧
    ∃ c ∈ t.columns, c.name = "status" ∧ c.type = .enum "orders_status_enum" ∧ c.notNull = true ∧
      s.types.lookup "orders_status_enum" = some labels))

theorem status_evaluated : StatusColumn (schemaAt 3) ["created", "canceled", "paid"] ∧
    StatusColumn (schemaAt 4) ["created", "canceled", "processed", "paid"] := by
  decide +kernel

/-! ## Back -/

section Down

variable {gen : Nat → UUID} {contents : Contents UUID}

theorem downWorks_iff_run {i : Fin migrations.length} (h : Admits (schemaAt (i + 1)) contents) :
    DownWorks gen i contents ↔ ∃ db',
      run gen { schema := schemaAt (i + 1), contents := contents } migrations[i].down = .ok db' :=
  works_iff_run h (alterAll_down i) (down_spares i)

theorem StatusColumn.get_status {s : Schema} {labels : List String} (hs : StatusColumn s labels)
    (h : Admits s contents) {r : Row UUID} (hr : r ∈ contents "orders") :
    ∃ l ∈ labels, get r "status" = .label l := by
  obtain ⟨t, ht, htable, hnodup, c, hc, hcolumn, htype, hnull, hlabels⟩ := hs
  rw [← hcolumn]
  exact h.get_enum ht hnodup hc htype hnull hlabels (htable ▸ hr)

/-- The statuses can be cast back unless one of them is the new label. -/
theorem cast_back_iff (h : Admits (schemaAt 4) contents) {s : Schema}
    (hs : s.types.lookup "orders_status_enum_old" = some ["created", "canceled", "paid"]) :
    (Statement.setEnum "orders" "status" "orders_status_enum_old").refusal gen s contents = none ↔
      NoneProcessed contents := by
  obtain ⟨t, ht, htable, hnodup, c, hc, hcolumn, htype, hnull, hlabels⟩ := status_evaluated.2
  have hiff : (Statement.setEnum t.name c.name "orders_status_enum_old").refusal gen s contents =
      none ↔ ∀ r ∈ contents t.name, ∀ l, get r c.name = .label l →
        l ∈ ["created", "canceled", "paid"] :=
    setEnum_refusal_iff h gen ht hnodup hc htype hnull hlabels hs
  rw [htable, hcolumn] at hiff
  rw [hiff]
  refine forall₂_congr fun r hr => ?_
  -- each status is one of the four labels of the catalog before the cast
  obtain ⟨l, hmem, hl⟩ := status_evaluated.2.get_status h hr
  rw [hl]
  constructor
  · intro hold heq
    cases heq
    exact absurd (hold "processed" rfl) (by decide)
  · intro hne l' heq
    cases heq
    have hprocessed : l ≠ "processed" := fun hl' => hne (by rw [hl'])
    simp only [List.mem_cons, List.not_mem_nil, or_false] at hmem ⊢
    tauto

theorem addOrderProcessingFields_down_iff (h : Admits (schemaAt 4) contents) :
    (∃ db', run gen { schema := schemaAt 4, contents := contents } addOrderProcessingFields.down =
      .ok db') ↔ NoneProcessed contents := by
  -- only the cast in the middle can be refused
  let before : List Statement := [.dropIndex "IX_orders_user_id_status_created_at",
    .createType "orders_status_enum_old" ["created", "canceled", "paid"],
    .dropDefault "orders" "status"]
  let after : List Statement := [.setDefault "orders" "status" (.literal "created"),
    .dropType "orders_status_enum", .renameType "orders_status_enum_old" "orders_status_enum",
    .createIndex ordersListingIndex, .dropColumn "orders" "processed_at"]
  let cast : Statement := .setEnum "orders" "status" "orders_status_enum_old"
  have hdown : addOrderProcessingFields.down = before ++ cast :: after := rfl
  have halter : alterAll (schemaAt 4) (before ++ cast :: after) = some (schemaAt 3) :=
    alterAll_down ⟨3, by decide⟩
  rw [alterAll_append] at halter
  obtain ⟨s₁, hs₁, halter⟩ := Option.bind_eq_some_iff.mp halter
  obtain ⟨s₂, hs₂, hafter⟩ := Option.bind_eq_some_iff.mp halter
  have hold : s₁.types.lookup "orders_status_enum_old" = some ["created", "canceled", "paid"] := by
    have hall : (alterAll (schemaAt 4) before).all (decide <| ·.types.lookup
        "orders_status_enum_old" = some ["created", "canceled", "paid"]) = true := by
      decide +kernel
    rw [hs₁] at hall
    simpa using hall
  rw [hdown, ← cast_back_iff h hold]
  exact run_middle gen { schema := schemaAt 4, contents := contents } (by decide) (by decide)
    hs₁ hs₂ hafter

theorem down_runs_iff (i : Fin migrations.length) (h : Admits (schemaAt (i + 1)) contents) :
    (∃ db', run gen { schema := schemaAt (i + 1), contents := contents } migrations[i].down =
      .ok db') ↔ (migrations[i] = addOrderProcessingFields → NoneProcessed contents) := by
  by_cases hm : migrations[i] = addOrderProcessingFields
  · obtain rfl := addOrderProcessingFields_index i hm
    exact (addOrderProcessingFields_down_iff h).trans ⟨fun hnone _ => hnone, fun himp => himp rfl⟩
  · refine iff_of_true ?_ fun heq => absurd heq hm
    obtain ⟨contents', hrun⟩ := run_unrefused gen
      { schema := schemaAt (i + 1), contents := contents } (down_unrefusable i hm)
      (alterAll_down i)
    exact ⟨_, hrun⟩

/-- Right after an `up` no order has a status the schema before it does not know. -/
theorem noneProcessed_after_up {db' : Database UUID} (h : Admits (schemaAt 3) contents)
    (hup : run gen { schema := schemaAt 3, contents := contents } addOrderProcessingFields.up =
      .ok db') : NoneProcessed db'.contents := by
  obtain ⟨t, ht, htable, -, c, hc, hcolumn, -⟩ := status_evaluated.1
  have hsame := run_sameOn hup (up_spares ⟨3, by decide⟩ t ht)
  rw [htable] at hsame
  obtain ⟨hlen, hrows⟩ := List.forall₂_iff_get.mp hsame
  intro r' hr' heq
  obtain ⟨j, hj, rfl⟩ := List.mem_iff_getElem.mp hr'
  have hj' : j < (contents "orders").length := by
    rw [show (contents "orders").length = _ from hlen]
    exact hj
  -- the `up` has kept the status of every order, by position
  have hget := hrows j hj' hj c.name (List.mem_map_of_mem hc)
  rw [hcolumn] at hget
  obtain ⟨l, hl, hlabel⟩ := status_evaluated.1.get_status h (List.getElem_mem hj')
  have hprocessed : l = "processed" := by
    have hlabels : (Value.label "processed" : Value UUID) = .label l :=
      heq.symm.trans (hget.trans hlabel)
    exact (Value.label.inj hlabels).symm
  rw [hprocessed] at hl
  revert hl
  decide

end Down

/-- A migration can be taken back on every contents its schema admits, except for the one that adds
the status `processed`, which can if and only if no order has it; and a `down` right after an `up`
gives the state before it back. -/
theorem down_works_iff (gen : Nat → UUID) (i : Fin migrations.length)
    {contents before : Contents UUID} (h : Admits (schemaAt (i + 1)) contents)
    (hbefore : Admits (schemaAt i) before) :
    (DownWorks gen i contents ↔
      (migrations[i] = addOrderProcessingFields → NoneProcessed contents)) ∧
    ∀ db', run gen { schema := schemaAt i, contents := before } migrations[i].up = .ok db' →
      run gen db' migrations[i].down = .ok { schema := schemaAt i, contents := before } := by
  refine ⟨(downWorks_iff_run h).trans (down_runs_iff i h), fun db' hup => ?_⟩
  have hschema : db'.schema = schemaAt (i + 1) := by
    have halter := (run_schema hup).symm.trans (alterAll_up i)
    exact Option.some.inj halter
  have hadmits : Admits (schemaAt (i + 1)) db'.contents := hschema ▸ run_admits hbefore hup
  have hnone : migrations[i] = addOrderProcessingFields → NoneProcessed db'.contents := by
    intro hm
    obtain rfl := addOrderProcessingFields_index i hm
    exact noneProcessed_after_up hbefore hup
  -- no order is `processed` right after the `up`, so the `down` runs
  have hruns : ∃ db'', run gen { schema := schemaAt (i + 1), contents := db'.contents }
      migrations[i].down = .ok db'' := (down_runs_iff i hadmits).mpr hnone
  obtain ⟨db'', hdown⟩ := hruns
  have hdb : db' = { schema := schemaAt (i + 1), contents := db'.contents } := by
    rw [← hschema]
  rw [← hdb] at hdown
  -- the catalog is the one before, and so are the rows
  have hback : db''.schema = schemaAt i := by
    have halter := run_schema hdown
    rw [hschema, alterAll_down i] at halter
    exact (Option.some.inj halter).symm
  rw [hdown, run_reverts hbefore (columnNames_nodup i) hup hdown hback (up_spares i) (down_spares i)]

/-! ## One order -/

/-- The first user has placed an order, which has this status and these further cells. -/
def placedOrder (status : String) (rest : Row UUID) : Contents UUID := fun name =>
  if name = "users" then [firstUser]
  else if name = "orders" then
    [[("id", .uuid (.ofNat 2)), ("user_id", .uuid (.ofNat 1)), ("status", .label status),
      ("created_at", .timestamp 0), ("updated_at", .timestamp 0),
      ("idempotency_key", .uuid (.ofNat 3))] ++ rest]
  else []

-- The rows of a closed schema are checked by evaluation; no other table has any.
theorem placedOrder_admitted {s : Schema} {status : String} {rest : Row UUID}
    (hnames : "users" ∈ s.tables.map (·.name) ∧ "orders" ∈ s.tables.map (·.name))
    (hfits : ∀ t ∈ s.tables, ∀ r ∈ placedOrder status rest t.name, RowFits s.types t.columns r)
    (hholds : ∀ t ∈ s.tables, ∀ k ∈ t.constraints,
      k.Holds (placedOrder status rest) (placedOrder status rest t.name)) :
    Admits s (placedOrder status rest) where
  fits := hfits
  constraints := hholds
  others := by
    intro name hname
    have husers : name ≠ "users" := fun heq => hname (heq ▸ hnames.1)
    have horders : name ≠ "orders" := fun heq => hname (heq ▸ hnames.2)
    simp [placedOrder, husers, horders]

/-- The order has been placed before the migration or since, and nobody has processed it. -/
theorem down_works_iff_placed :
    DownWorks .ofNat ⟨3, by decide⟩ (placedOrder "created" [("processed_at", .null)]) ∧
    ∀ db', run .ofNat { schema := schemaAt 3, contents := placedOrder "created" [] }
        addOrderProcessingFields.up = .ok db' →
      run .ofNat db' addOrderProcessingFields.down =
        .ok { schema := schemaAt 3, contents := placedOrder "created" [] } := by
  have hafter : Admits (schemaAt 4) (placedOrder "created" [("processed_at", .null)]) := by
    refine placedOrder_admitted (by decide +kernel) ?_ (by decide +kernel)
    unfold RowFits Column.fits
    decide +kernel
  have hbefore : Admits (schemaAt 3) (placedOrder "created" []) := by
    refine placedOrder_admitted (by decide +kernel) ?_ (by decide +kernel)
    unfold RowFits Column.fits
    decide +kernel
  obtain ⟨hiff, hback⟩ := down_works_iff .ofNat ⟨3, by decide⟩ hafter hbefore
  refine ⟨hiff.mpr fun _ => ?_, hback⟩
  unfold NoneProcessed
  decide

/-- One processed order is enough to stop the `down` of the fourth migration. -/
theorem addOrderProcessingFields_down_refused :
    Admits (schemaAt 4) (placedOrder "processed" [("processed_at", .timestamp 1)]) ∧
    run .ofNat { schema := schemaAt 4,
                 contents := placedOrder "processed" [("processed_at", .timestamp 1)] }
      addOrderProcessingFields.down = .error .invalidText ∧
    ¬ DownWorks .ofNat ⟨3, by decide⟩
      (placedOrder "processed" [("processed_at", .timestamp 1)]) := by
  have hadmits : Admits (schemaAt 4)
      (placedOrder "processed" [("processed_at", .timestamp 1)]) := by
    refine placedOrder_admitted (by decide +kernel) ?_ (by decide +kernel)
    unfold RowFits Column.fits
    decide +kernel
  have hrun : run .ofNat { schema := schemaAt 4,
                           contents := placedOrder "processed" [("processed_at", .timestamp 1)] }
      addOrderProcessingFields.down = .error .invalidText := by
    rfl
  refine ⟨hadmits, hrun, ?_⟩
  rintro ⟨db', hok, -⟩
  cases hok.symm.trans hrun

end Ecommerce
