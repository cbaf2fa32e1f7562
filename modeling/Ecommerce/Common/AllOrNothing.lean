import Ecommerce.Common.UnitOfWork

/-!
# AllOrNothing — callbacks of writes, commits and rollbacks

With a driver that never fails, the first ending a callback asks for settles the transaction
(`opened_run`), and from there each write opens and commits a transaction of its own
(`settled_run`).  So the unit of work is all-or-nothing just for the callbacks that write nothing
after their first ending.
-/

namespace Ecommerce.UnitOfWork

variable {ω ρ ε : Type}

inductive Action (ω : Type) where
  | save (w : ω)
  | commit
  | rollback
deriving DecidableEq

def Action.ask : Action ω → Ask ω
  | .save w => { op := .save w, fails := false }
  | .commit => { op := .commit, fails := false }
  | .rollback => { op := .rollback, fails := false }

def Action.written : Action ω → Option ω
  | .save w => some w
  | _ => none

/-- The call in which the driver serves every action of the callback. -/
def plainCall (actions : List (Action ω)) (result : Except ε ρ) : Call ω ρ ε where
  connectFails := false
  startFails := false
  asks := actions.map Action.ask
  result := result
  disposalFails := false

/-! ## What the callback asked for -/

/-- The first of `commit()` and `rollback()`. -/
def firstEnding : List (Action ω) → Option Ending
  | [] => none
  | .save _ :: as => firstEnding as
  | .commit :: _ => some .commit
  | .rollback :: _ => some .rollback

/-- The writes before the first ending. -/
def writesBefore : List (Action ω) → List ω
  | .save w :: as => w :: writesBefore as
  | _ => []

/-- What follows the first ending. -/
def afterEnding : List (Action ω) → List (Action ω)
  | [] => []
  | .save _ :: as => afterEnding as
  | _ :: as => as

/-- The writes after the first ending. -/
def lateWrites (actions : List (Action ω)) : List ω :=
  (afterEnding actions).filterMap Action.written

/-- The writes that the transaction is to make last: all of them or none. -/
def promisedWrites (actions : List (Action ω)) : List ω :=
  if firstEnding actions = some .commit then writesBefore actions else []

/-- One ending took effect, the first asked for or else that of the disposal, and it decided over
every write that lasts. -/
structure AllOrNothing (actions : List (Action ω)) (r : QueryRunner ω) : Prop where
  endings : r.endings = [(firstEnding actions).getD .rollback]
  persisted : r.persisted = promisedWrites actions

/-! ## Runs of a callback -/

/-- The transaction while it is open. -/
def opened (pending : List ω) : TypeOrmTransaction ω where
  runner := { QueryRunner.create.connect.startTransaction with session := .inTransaction pending }
  finished := false

/-- The transaction once `e` has taken effect. -/
def settled (persisted : List ω) (e : Ending) : TypeOrmTransaction ω where
  runner := { QueryRunner.create.connect with persisted := persisted, endings := [e] }
  finished := true

def runActions (tx : TypeOrmTransaction ω) (actions : List (Action ω)) : TypeOrmTransaction ω :=
  (actions.map Action.ask).foldl TypeOrmTransaction.ask tx

@[simp] theorem runActions_nil (tx : TypeOrmTransaction ω) : runActions tx [] = tx := rfl

@[simp] theorem runActions_cons (tx : TypeOrmTransaction ω) (a : Action ω)
    (actions : List (Action ω)) :
    runActions tx (a :: actions) = runActions (tx.ask a.ask) actions := rfl

@[simp] theorem opened_save (pending : List ω) (w : ω) :
    (opened pending).ask (Action.save w).ask = opened (pending ++ [w]) := rfl

@[simp] theorem opened_commit (pending : List ω) :
    (opened pending).ask Action.commit.ask = settled pending .commit := rfl

@[simp] theorem opened_rollback (pending : List ω) :
    (opened pending).ask Action.rollback.ask = settled [] .rollback := rfl

-- The flag stops further endings; nothing stops a write.
theorem settled_ask (persisted : List ω) (e : Ending) (a : Action ω) :
    (settled persisted e).ask a.ask = settled (persisted ++ a.written.toList) e := by
  cases a with
  | save w => rfl
  | commit | rollback => simp [Action.written, Action.ask, TypeOrmTransaction.ask,
      TypeOrmTransaction.commit, TypeOrmTransaction.rollback, settled]

theorem settled_run (actions : List (Action ω)) (persisted : List ω) (e : Ending) :
    runActions (settled persisted e) actions =
      settled (persisted ++ actions.filterMap Action.written) e := by
  induction actions generalizing persisted with
  | nil => simp
  | cons a actions ih =>
    rw [runActions_cons, settled_ask, ih, List.append_assoc]
    congr 2
    cases a with
    | save w => rfl
    | commit | rollback => rfl

/-- The writes that last when the first ending is `e`. -/
def kept (e : Ending) (writes : List ω) : List ω :=
  match e with
  | .commit => writes
  | .rollback => []

theorem opened_run (actions : List (Action ω)) (pending : List ω) :
    runActions (opened pending) actions =
      match firstEnding actions with
      | none => opened (pending ++ writesBefore actions)
      | some e => settled (kept e (pending ++ writesBefore actions) ++ lateWrites actions) e := by
  induction actions generalizing pending with
  | nil => simp [firstEnding, writesBefore]
  | cons a actions ih =>
    rw [runActions_cons]
    cases a with
    | save w =>
      rw [opened_save, ih]
      simp [firstEnding, writesBefore, lateWrites, afterEnding]
    | commit =>
      rw [opened_commit, settled_run]
      simp [firstEnding, writesBefore, lateWrites, afterEnding, kept]
    | rollback =>
      rw [opened_rollback, settled_run]
      simp [firstEnding, lateWrites, afterEnding, kept]

-- Without an ending there is nothing behind it.
theorem lateWrites_of_none {actions : List (Action ω)} (h : firstEnding actions = none) :
    lateWrites actions = [] := by
  induction actions with
  | nil => rfl
  | cons a actions ih =>
    cases a with
    | save w => exact ih h
    | commit | rollback => cases h

/-! ## The disposal -/

theorem transaction_plainCall (actions : List (Action ω)) (result : Except ε ρ) :
    (transaction (plainCall actions result)).1 =
      ((runActions (opened []) actions).asyncDispose false).runner := rfl

/-- The endings that take effect, for every callback. -/
theorem transaction_endings (actions : List (Action ω)) (result : Except ε ρ) :
    (transaction (plainCall actions result)).1.endings =
      [(firstEnding actions).getD .rollback] := by
  rw [transaction_plainCall, opened_run]
  cases firstEnding actions with
  | none => rfl
  | some e => rfl

/-- The writes that last, for every callback. -/
theorem transaction_persisted (actions : List (Action ω)) (result : Except ε ρ) :
    (transaction (plainCall actions result)).1.persisted =
      promisedWrites actions ++ lateWrites actions := by
  rw [transaction_plainCall, opened_run, promisedWrites]
  cases hfirst : firstEnding actions with
  | none =>
    rw [lateWrites_of_none hfirst]
    rfl
  | some e =>
    cases e with
    | commit => rfl
    | rollback => rfl

/-- The unit of work is all-or-nothing just for the callbacks that write nothing after their first
`commit()` or `rollback()`. -/
theorem allOrNothing_iff (actions : List (Action ω)) (result : Except ε ρ) :
    AllOrNothing actions (transaction (plainCall actions result)).1 ↔
      ∀ w, Action.save w ∉ afterEnding actions := by
  have hlate : lateWrites actions = [] ↔ ∀ w, Action.save w ∉ afterEnding actions := by
    rw [lateWrites, List.filterMap_eq_nil_iff]
    constructor
    · intro h w hw
      exact absurd (h _ hw) (by simp [Action.written])
    · intro h a ha
      cases a with
      | save w => exact absurd ha (h w)
      | commit | rollback => rfl
  rw [← hlate]
  constructor
  · intro h
    have hall := h.persisted
    rw [transaction_persisted] at hall
    exact List.append_right_eq_self.mp hall
  · intro h
    exact { endings := transaction_endings actions result
            persisted := by rw [transaction_persisted, h, List.append_nil] }

/-- A product saved after `rollback()` stays in the database. -/
theorem save_after_rollback :
    ¬ ∀ (actions : List (Action String)) (result : Except String Unit),
      AllOrNothing actions (transaction (plainCall actions result)).1 := by
  intro h
  have hlast := (h [.rollback, .save "product"] (.ok ())).persisted
  exact absurd hlast (by decide)

end Ecommerce.UnitOfWork
