import Ecommerce.Database.MigrationRuns
import Ecommerce.Lib.Transition

/-!
# Deployment — a database that is migrated, used and reverted

`npm run db:migrate` runs every migration that is not in the table `migrations` yet, in one
transaction; `npm run db:revert` takes the last one back.  Between the commands the application writes
what the schema admits.  However the three alternate, the schema is the one of the migrations
applied, and the commands alone lose nothing of what the oldest schema on the way could hold.
-/

namespace Ecommerce

open Sql Migrations Transition

/-- The database, and how many migrations it has rows of in its table `migrations`. -/
structure Deployment where
  applied : Nat
  db : Database UUID

namespace Deployment

def initial : Deployment := { applied := 0, db := { schema := .empty, contents := fun _ => [] } }

/-- What the migrations that are not applied yet run. -/
def pending (applied : Nat) : List Statement := (migrations.drop applied).flatMap (·.up)

def migrate (gen : Nat → UUID) (d : Deployment) : Except SqlError Deployment :=
  (run gen d.db (pending d.applied)).map fun db => { applied := migrations.length, db := db }

def revert (gen : Nat → UUID) (d : Deployment) : Except SqlError Deployment :=
  match (migrations.take d.applied).getLast? with
  | some m => (run gen d.db m.down).map fun db => { applied := d.applied - 1, db := db }
  -- nothing to revert
  | none => .ok d

inductive Label where
  | migrate
  | revert
  | write
deriving DecidableEq

/-- As many generated uuids as there are orders differ. -/
def Generates (gen : Nat → UUID) (contents : Contents UUID) : Prop :=
  ∀ j k, j < (contents "orders").length → k < (contents "orders").length → gen j = gen k → j = k

-- A command that fails is rolled back.
inductive Step : Deployment → Label → Deployment → Prop
  | migrate {d : Deployment} (gen : Nat → UUID) (hgen : Generates gen d.db.contents) :
      Step d .migrate ((d.migrate gen).toOption.getD d)
  | revert {d : Deployment} (gen : Nat → UUID) : Step d .revert ((d.revert gen).toOption.getD d)
  | write {d : Deployment} (contents : Contents UUID) (h : Admits d.db.schema contents) :
      Step d .write { d with db := { d.db with contents := contents } }

def system : System Deployment Label where
  init d := d = .initial
  step := Step

/-- The schema is that of the migrations applied, and it admits the contents. -/
structure Inv (d : Deployment) : Prop where
  applied : d.applied ≤ migrations.length
  schema : d.db.schema = schemaAt d.applied
  admits : Admits d.db.schema d.db.contents

variable {gen : Nat → UUID} {contents : Contents UUID} {d d' : Deployment} {l : Label}
  {ok : Deployment → Label → Prop}

/-! ## The pending migrations -/

theorem pending_length : pending migrations.length = [] := by
  rw [pending, List.drop_length, List.flatMap_nil]

theorem pending_succ (i : Fin migrations.length) :
    pending i = (migrations.get i).up ++ pending (i + 1) := by
  rw [pending, List.drop_eq_getElem_cons i.isLt, List.flatMap_cons]
  rfl

/-- Only the last migration looks at the users. -/
theorem up_runs_iff (i : Fin migrations.length) (h : Admits (schemaAt i) contents)
    (hgen : Generates gen contents) :
    (∃ db', run gen { schema := schemaAt i, contents := contents } (migrations.get i).up = .ok db') ↔
      (i.val = 5 → contents "users" = []) := by
  match i with
  | ⟨0, _⟩ => exact iff_of_true (init_runs h) fun hi => by cases hi
  | ⟨1, _⟩ => exact iff_of_true (addIdempotencyKey_runs h hgen) fun hi => by cases hi
  | ⟨2, _⟩ => exact iff_of_true addIndexForListingOrders_runs fun hi => by cases hi
  | ⟨3, _⟩ => exact iff_of_true (addOrderProcessingFields_runs h) fun hi => by cases hi
  | ⟨4, _⟩ => exact iff_of_true addProcessedMessagesTable_runs fun hi => by cases hi
  | ⟨5, _⟩ => exact addUserPassword_runs_iff.trans ⟨fun hempty _ => hempty, fun himp => himp rfl⟩

/-- No `up` drops a table. -/
theorem up_spares_rows : ∀ i : Fin migrations.length, ∀ st ∈ (migrations.get i).up,
    st.spares "users" [] = true ∧ st.spares "orders" [] = true := by
  decide +kernel

theorem SameOn.length_eq {columns : List String} {rows rows' : List (Row UUID)}
    (h : SameOn columns rows rows') : rows'.length = rows.length :=
  (List.Forall₂.length_eq h).symm

theorem up_users {i : Fin migrations.length} {db db' : Database UUID}
    (hrun : run gen db (migrations.get i).up = .ok db') :
    db'.contents "users" = [] ↔ db.contents "users" = [] := by
  have hsame := run_sameOn hrun fun st hst => (up_spares_rows i st hst).1
  rw [← List.length_eq_zero_iff, ← List.length_eq_zero_iff, SameOn.length_eq hsame]

theorem up_generates {i : Fin migrations.length} {db db' : Database UUID}
    (hrun : run gen db (migrations.get i).up = .ok db') (hgen : Generates gen db.contents) :
    Generates gen db'.contents := by
  have hsame := run_sameOn hrun fun st hst => (up_spares_rows i st hst).2
  unfold Generates
  rw [SameOn.length_eq hsame]
  exact hgen

/-- The pending migrations run through where nothing is pending, and where there are no users. -/
theorem pending_runs_iff {i : Nat} (hi : i ≤ migrations.length) (h : Admits (schemaAt i) contents)
    (hgen : Generates gen contents) :
    (∃ db', run gen { schema := schemaAt i, contents := contents } (pending i) = .ok db') ↔
      i = migrations.length ∨ contents "users" = [] := by
  induction hi using Nat.decreasingInduction generalizing contents with
  | self => exact iff_of_true ⟨_, by rw [pending_length]; rfl⟩ (.inl rfl)
  | of_succ i hi ih =>
    rw [pending_succ ⟨i, hi⟩, run_append]
    have hup := up_runs_iff ⟨i, hi⟩ h hgen
    cases hrun : run gen { schema := schemaAt i, contents := contents }
      (migrations.get ⟨i, hi⟩).up with
    | error e =>
      -- it is the last one, and there is a user
      refine iff_of_false (fun ⟨db', h⟩ => by cases h) fun hor => ?_
      obtain ⟨db', hok⟩ := hup.mpr fun _ => hor.resolve_left (Nat.ne_of_lt hi)
      cases hrun.symm.trans hok
    | ok db₁ =>
      have hadmits : Admits db₁.schema db₁.contents := run_admits h hrun
      have hschema : db₁.schema = schemaAt (i + 1) :=
        Option.some.inj ((run_schema hrun).symm.trans (alterAll_up ⟨i, hi⟩))
      have hrest := ih (hschema ▸ hadmits) (up_generates (i := ⟨i, hi⟩) hrun hgen)
      rw [← hschema] at hrest
      refine hrest.trans ?_
      rw [up_users (i := ⟨i, hi⟩) hrun]
      refine ⟨fun hor => .inr (hor.elim (fun hlast => ?_) id), fun hor => .inr ?_⟩
      · exact hup.mp ⟨db₁, hrun⟩ (Nat.succ_injective hlast)
      · exact hor.resolve_left (Nat.ne_of_lt hi)

theorem alterAll_pending {i : Nat} (hi : i ≤ migrations.length) :
    alterAll (schemaAt i) (pending i) = some (schemaAt migrations.length) := by
  induction hi using Nat.decreasingInduction with
  | self => rw [pending_length, alterAll]
  | of_succ i hi ih =>
    rw [pending_succ ⟨i, hi⟩, alterAll_append]
    exact (congrArg (Option.bind · _) (alterAll_up ⟨i, hi⟩)).trans ih

/-! ## What a command does -/

/-- A `db:migrate` that succeeds leaves the last schema. -/
theorem migrate_ok (hi : Inv d) (h : d.migrate gen = .ok d') :
    d'.applied = migrations.length ∧ run gen d.db (pending d.applied) = .ok d'.db ∧ Inv d' := by
  unfold migrate at h
  cases hrun : run gen d.db (pending d.applied) with
  | error e =>
    rw [hrun] at h
    cases h
  | ok db' =>
    rw [hrun] at h
    cases h
    have halter := run_schema hrun
    rw [hi.schema, alterAll_pending hi.applied] at halter
    exact ⟨rfl, rfl, Nat.le_refl _, (Option.some.inj halter).symm, run_admits hi.admits hrun⟩

theorem migrate_succeeds_iff (hi : Inv d) (hgen : Generates gen d.db.contents) :
    (∃ d', d.migrate gen = .ok d') ↔
      d.applied = migrations.length ∨ d.db.contents "users" = [] := by
  have hadmits : Admits (schemaAt d.applied) d.db.contents := hi.schema ▸ hi.admits
  rw [← pending_runs_iff hi.applied hadmits hgen, ← hi.schema]
  unfold migrate
  cases hrun : run gen d.db (pending d.applied) with
  | error e => exact iff_of_false (fun ⟨_, h⟩ => by cases h) fun ⟨_, h⟩ => by cases h
  | ok db' => exact iff_of_true ⟨_, rfl⟩ ⟨db', rfl⟩

theorem lastApplied (i : Fin migrations.length) (hd : d.applied = i + 1) :
    (migrations.take d.applied).getLast? = some migrations[i] := by
  rw [hd, List.take_add_one, List.getElem?_eq_getElem i.isLt]
  exact List.getLast?_concat

/-- A `db:revert` runs the `down` of the last migration applied. -/
theorem revert_of_applied (i : Fin migrations.length) (hd : d.applied = i + 1) :
    d.revert gen =
      (run gen d.db migrations[i].down).map fun db => { applied := i, db := db } := by
  unfold revert
  rw [lastApplied i hd, hd]
  rfl

theorem revert_initial (hd : d.applied = 0) : d.revert gen = .ok d := by
  unfold revert
  rw [hd, List.take_zero]
  rfl

theorem revert_ok (hi : Inv d) (i : Fin migrations.length) (hd : d.applied = i + 1)
    (h : d.revert gen = .ok d') :
    d'.applied = i ∧ run gen d.db migrations[i].down = .ok d'.db ∧ Inv d' := by
  rw [revert_of_applied i hd] at h
  cases hrun : run gen d.db migrations[i].down with
  | error e =>
    rw [hrun] at h
    cases h
  | ok db' =>
    rw [hrun] at h
    cases h
    have halter := run_schema hrun
    rw [hi.schema, hd, alterAll_down i] at halter
    exact ⟨rfl, rfl, i.isLt.le, (Option.some.inj halter).symm, run_admits hi.admits hrun⟩

theorem revert_succeeds_iff (hi : Inv d) :
    (∃ d', d.revert gen = .ok d') ↔
      ((migrations.take d.applied).getLast? = some addOrderProcessingFields →
        NoneProcessed d.db.contents) := by
  cases hd : d.applied with
  | zero => exact iff_of_true ⟨d, revert_initial hd⟩ fun h => by cases h
  | succ j =>
    let i : Fin migrations.length := ⟨j, hd.symm.le.trans hi.applied⟩
    have hi' : d.applied = i + 1 := hd
    have hadmits : Admits (schemaAt (i + 1)) d.db.contents := by
      rw [← hi', ← hi.schema]
      exact hi.admits
    have hiff := @down_runs_iff gen d.db.contents i hadmits
    rw [← hi', ← hi.schema] at hiff
    rw [← hd, lastApplied i hi', Option.some.injEq, ← hiff, revert_of_applied i hi']
    cases hrun : run gen d.db migrations[i].down with
    | error e => exact iff_of_false (fun ⟨_, h⟩ => by cases h) fun ⟨_, h⟩ => by cases h
    | ok db' => exact iff_of_true ⟨_, rfl⟩ ⟨db', rfl⟩

/-! ## Every deployment -/

theorem Inv.step (hi : Inv d) (hs : Step d l d') : Inv d' := by
  cases hs with
  | migrate gen hgen =>
    cases h : d.migrate gen with
    | error e => exact hi
    | ok d' => exact (migrate_ok hi h).2.2
  | revert gen =>
    cases h : d.revert gen with
    | error e => exact hi
    | ok d' =>
      cases hd : d.applied with
      | zero =>
        rw [revert_initial hd] at h
        cases h
        exact hi
      | succ j => exact (revert_ok hi ⟨j, hd.symm.le.trans hi.applied⟩ hd h).2.2
  | write contents h => exact ⟨hi.applied, hi.schema, h⟩

theorem initial_inv : Inv initial where
  applied := Nat.zero_le _
  schema := rfl
  admits :=
    { fits := fun _ ht => nomatch ht
      constraints := fun _ ht => nomatch ht
      others := fun _ _ => rfl }

theorem reachable_inv (hr : system.Reach ok d) : Inv d :=
  hr.invariant (fun d h0 => by rw [h0]; exact initial_inv) fun _ _ _ _ hi _ hs => hi.step hs

/-- However it has come about, a deployment has the schema of its migrations, which its contents
satisfy.  It can be brought up to date unless there are users to whom the last migration has no
password to give, and its last migration can be taken back unless it is the one that added the
status `processed` and an order has it. -/
theorem deployment_commands (hr : system.Reach System.anyStep d) :
    d.db.schema = schemaAt d.applied ∧ Admits d.db.schema d.db.contents ∧
      (∀ gen, Generates gen d.db.contents → ((∃ d', d.migrate gen = .ok d') ↔
        d.applied = migrations.length ∨ d.db.contents "users" = [])) ∧
      ∀ gen, (∃ d', d.revert gen = .ok d') ↔
        ((migrations.take d.applied).getLast? = some addOrderProcessingFields →
          NoneProcessed d.db.contents) := by
  have hi := reachable_inv hr
  exact ⟨hi.schema, hi.admits, fun gen hgen => migrate_succeeds_iff hi hgen,
    fun gen => revert_succeeds_iff hi⟩

/-! ## What commands keep -/

/-- A command that does not take back one of the first `k` migrations. -/
def Above (k : Nat) (d : Deployment) (l : Label) : Prop :=
  l = .migrate ∨ l = .revert ∧ k < d.applied

/-- No migration removes a table or a column of an earlier one. -/
theorem columns_grow : ∀ i : Fin migrations.length, ∀ t ∈ (schemaAt i).tables,
    ∃ t' ∈ (schemaAt (i + 1)).tables, t'.name = t.name ∧ t.columnNames ⊆ t'.columnNames := by
  decide +kernel

theorem columns_kept {k i : Nat} (hk : k ≤ i) (hi : i ≤ migrations.length) {t : Table}
    (ht : t ∈ (schemaAt k).tables) :
    ∃ t' ∈ (schemaAt i).tables, t'.name = t.name ∧ t.columnNames ⊆ t'.columnNames := by
  induction i, hk using Nat.le_induction with
  | base => exact ⟨t, ht, rfl, List.Subset.refl _⟩
  | succ i hk ih =>
    obtain ⟨t', ht', hname, hcolumns⟩ := ih (Nat.le_of_succ_le hi)
    obtain ⟨t'', ht'', hname', hcolumns'⟩ := columns_grow ⟨i, hi⟩ t' ht'
    exact ⟨t'', ht'', hname'.trans hname, List.Subset.trans hcolumns hcolumns'⟩

/-- A run of one migration, up or down, above version `k`. -/
theorem run_keeps {k i : Nat} {sts : List Statement} {db db' : Database UUID} (hk : k ≤ i)
    (hi : i ≤ migrations.length)
    (hspares : ∀ t ∈ (schemaAt i).tables, ∀ st ∈ sts, st.spares t.name t.columnNames = true)
    (hrun : run gen db sts = .ok db') {t : Table} (ht : t ∈ (schemaAt k).tables) :
    SameOn t.columnNames (db.contents t.name) (db'.contents t.name) := by
  obtain ⟨t', ht', hname, hcolumns⟩ := columns_kept hk hi ht
  rw [← hname]
  exact (run_sameOn hrun (hspares t' ht')).mono hcolumns

theorem pending_keeps {k i : Nat} (hk : k ≤ i) (hi : i ≤ migrations.length)
    {db db' : Database UUID} (hrun : run gen db (pending i) = .ok db') {t : Table}
    (ht : t ∈ (schemaAt k).tables) :
    SameOn t.columnNames (db.contents t.name) (db'.contents t.name) := by
  induction hi using Nat.decreasingInduction generalizing db with
  | self =>
    rw [pending_length] at hrun
    cases hrun
    exact .refl _ _
  | of_succ i hi ih =>
    rw [pending_succ ⟨i, hi⟩, run_append] at hrun
    cases hup : run gen db (migrations.get ⟨i, hi⟩).up with
    | error e =>
      rw [hup] at hrun
      cases hrun
    | ok db₁ =>
      rw [hup] at hrun
      exact (run_keeps hk hi.le (up_spares ⟨i, hi⟩) hup ht).trans
        (ih (Nat.le_succ_of_le hk) hrun)

/-- The versions stay, and so do the rows as far as version `k` knows them. -/
theorem command_keeps {k : Nat} (hi : Inv d) (hk : k ≤ d.applied) (hl : Above k d l)
    (hs : Step d l d') : k ≤ d'.applied ∧ ∀ t ∈ (schemaAt k).tables,
      SameOn t.columnNames (d.db.contents t.name) (d'.db.contents t.name) := by
  have same : k ≤ d.applied ∧ ∀ t ∈ (schemaAt k).tables,
      SameOn t.columnNames (d.db.contents t.name) (d.db.contents t.name) :=
    ⟨hk, fun t _ => .refl _ _⟩
  cases hs with
  | migrate gen hgen =>
    cases h : d.migrate gen with
    | error e => exact same
    | ok d' =>
      obtain ⟨happlied, hrun, -⟩ := migrate_ok hi h
      exact ⟨happlied ▸ hk.trans hi.applied, fun t ht => pending_keeps hk hi.applied hrun ht⟩
  | revert gen =>
    cases h : d.revert gen with
    | error e => exact same
    | ok d' =>
      obtain hl | ⟨-, hlt⟩ := hl
      · cases hl
      · obtain ⟨j, hd⟩ := Nat.exists_eq_succ_of_ne_zero (Nat.ne_zero_of_lt hlt)
        obtain ⟨happlied, hrun, -⟩ := revert_ok hi ⟨j, hd.symm.le.trans hi.applied⟩ hd h
        have hkj : k ≤ j := Nat.le_of_lt_succ (hd ▸ hlt)
        exact ⟨happlied ▸ hkj, fun t ht => run_keeps hkj
          (Nat.le_of_succ_le (hd.symm.le.trans hi.applied)) (down_spares ⟨j, _⟩) hrun ht⟩
  | write contents h =>
    obtain hl | ⟨hl, -⟩ := hl <;> cases hl

theorem lastColumns_nodup : ∀ t ∈ (schemaAt migrations.length).tables, t.columnNames.Nodup := by
  decide +kernel

/-- Commands that leave the first `k` migrations alone, succeed or fail in any order, keep all rows
with the columns of version `k`; and back at version `k` the database is as it was there. -/
theorem commands_lose_nothing (hr : system.Reach System.anyStep d) {k : Nat} (hk : k ≤ d.applied)
    (hs : system.Steps (Above k) d d') :
    (∀ t ∈ (schemaAt k).tables,
      SameOn t.columnNames (d.db.contents t.name) (d'.db.contents t.name)) ∧
    (d.applied = k → d'.applied = k → d'.db = d.db) := by
  have hi := reachable_inv hr
  have hkeeps : Inv d' ∧ k ≤ d'.applied ∧ ∀ t ∈ (schemaAt k).tables,
      SameOn t.columnNames (d.db.contents t.name) (d'.db.contents t.name) := by
    induction hs with
    | refl => exact ⟨hi, hk, fun t _ => .refl _ _⟩
    | tail _ hnext ih =>
      obtain ⟨hi', hk', hsame⟩ := ih
      obtain ⟨l, hl, hstep⟩ := hnext
      obtain ⟨hk'', hsame'⟩ := command_keeps hi' hk' hl hstep
      exact ⟨hi'.step hstep, hk'', fun t ht => (hsame t ht).trans (hsame' t ht)⟩
  obtain ⟨hi', -, hsame⟩ := hkeeps
  refine ⟨hsame, fun hd hd' => ?_⟩
  have hschema : d'.db.schema = d.db.schema := by rw [hi'.schema, hi.schema, hd, hd']
  have hadmits : Admits d.db.schema d'.db.contents := hschema ▸ hi'.admits
  have htables : d.db.schema = schemaAt k := by rw [hi.schema, hd]
  have hcontents : d'.db.contents = d.db.contents := by
    refine hi.admits.contents_eq hadmits (fun t ht => ?_) fun t ht => ?_
    · rw [htables] at ht
      obtain hlt | rfl := Nat.lt_or_eq_of_le (hk.trans hi.applied)
      · exact columnNames_nodup ⟨k, hlt⟩ t ht
      · exact lastColumns_nodup t ht
    · exact hsame t (htables ▸ ht)
  obtain ⟨applied', db'⟩ := d'
  obtain ⟨schema', contents'⟩ := db'
  cases hschema
  cases hcontents
  rfl

/-! ## A user signs up, and the last migration is taken back -/

def member : Contents UUID := fun name =>
  if name = "users" then [firstUser ++ [("password", .text "$2b$10$7EqJtq98hPqEX7fNZaFWoO")]] else []

theorem member_admitted : Admits (schemaAt migrations.length) member where
  fits := by
    unfold RowFits Column.fits
    decide +kernel
  constraints := by decide +kernel
  others := by
    have husers : "users" ∈ (schemaAt migrations.length).tables.map (·.name) := by decide +kernel
    intro name hname
    refine if_neg ?_
    rintro rfl
    exact hname husers

/-- The service with its first user. -/
def opened : Deployment where
  applied := migrations.length
  db := { schema := schemaAt migrations.length, contents := member }

def reverted : Deployment := (opened.revert .ofNat).toOption.getD opened

theorem opened_reach : system.Reach System.anyStep opened := by
  have hempty : initial.migrate .ofNat = .ok
      { opened with db := { opened.db with contents := fun _ => [] } } := by
    have halter := alterAll_pending (Nat.zero_le _)
    rw [migrate, show initial.db = { schema := schemaAt 0, contents := fun _ => [] } from rfl,
      show initial.applied = 0 from rfl, run_empty (fun _ => rfl) halter]
    rfl
  have hinitial : system.Reach System.anyStep initial := .init rfl
  have hmigrated := hinitial.step trivial
    (.migrate .ofNat fun j k hj => absurd hj (Nat.not_lt_zero j))
  rw [hempty] at hmigrated
  exact hmigrated.step trivial (.write member member_admitted)

/-- The user would be without a password when the migration comes back. -/
theorem deployment_commands_reverted : ¬ ∃ d, reverted.migrate .ofNat = .ok d := by
  have hreach : system.Reach System.anyStep reverted := opened_reach.step trivial (.revert .ofNat)
  obtain ⟨-, -, hmigrate, -⟩ := deployment_commands hreach
  rw [hmigrate .ofNat fun j k hj => absurd hj (Nat.not_lt_zero j)]
  decide +kernel

/-- The user survives the `db:revert` and the `db:migrate` that fails. -/
theorem commands_lose_nothing_reverted : ∃ d, system.Steps (Above 5) opened d ∧
    ∀ t ∈ (schemaAt 5).tables, SameOn t.columnNames (member t.name) (d.db.contents t.name) := by
  have hsteps : system.Steps (Above 5) opened ((reverted.migrate .ofNat).toOption.getD reverted) :=
    (Relation.ReflTransGen.single ⟨.revert, .inr ⟨rfl, by decide⟩, .revert .ofNat⟩).tail
      ⟨.migrate, .inl rfl, .migrate .ofNat fun j k hj => absurd hj (Nat.not_lt_zero j)⟩
  exact ⟨_, hsteps, (commands_lose_nothing opened_reach (by decide) hsteps).1⟩

end Deployment

end Ecommerce
