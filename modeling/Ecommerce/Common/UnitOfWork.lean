import Mathlib.Data.List.TakeWhile

/-!
# UnitOfWork — `TypeOrmUnitOfWork.transaction` around any callback

A callback is what it asks of its transaction, one awaited call after the other, and how it ends.
Each call of the driver may fail.  Nothing but the disposal of `await using` rolls back or gives the
connection back, so both hang on the `finished` flag.
-/

namespace Ecommerce.UnitOfWork

variable {ω ρ ε : Type}

/-- The transaction of the server on a connection. -/
inductive Session (ω : Type) where
  | idle
  | inTransaction (pending : List ω)
  -- A statement failed; until the end of the transaction every other one fails too.
  | aborted
deriving DecidableEq

/-- How a transaction ends. -/
inductive Ending where
  | commit
  | rollback
deriving DecidableEq

/-- A query runner of TypeORM with what its connection has done so far: the writes that persist, the
endings of the transaction of `startTransaction` that took effect, and the number of releases. -/
structure QueryRunner (ω : Type) where
  connected : Bool
  isTransactionActive : Bool
  isReleased : Bool
  session : Session ω
  persisted : List ω
  endings : List Ending
  releases : Nat
deriving DecidableEq

namespace QueryRunner

/-- `dataSource.createQueryRunner()`. -/
def create : QueryRunner ω where
  connected := false
  isTransactionActive := false
  isReleased := false
  session := .idle
  persisted := []
  endings := []
  releases := 0

def connect (r : QueryRunner ω) : QueryRunner ω := { r with connected := true }

def startTransaction (r : QueryRunner ω) : QueryRunner ω :=
  { r with isTransactionActive := true, session := .inTransaction [] }

/-- Whether `commitTransaction` or `rollbackTransaction` returns; without an active transaction it
throws. -/
def settles (r : QueryRunner ω) (fails : Bool) : Bool := r.isTransactionActive && !fails

/-- `commitTransaction`.  The server ends the transaction also when COMMIT fails. -/
def commitTransaction (r : QueryRunner ω) (fails : Bool) : QueryRunner ω :=
  if !r.isTransactionActive then r
  else if fails then { r with session := .idle }
  else
    let r := { r with isTransactionActive := false }
    match r.session with
    | .idle => r
    | .inTransaction pending =>
      { r with
        session := .idle
        persisted := r.persisted ++ pending
        endings := r.endings ++ [.commit] }
    -- COMMIT of an aborted transaction rolls it back
    | .aborted => { r with session := .idle, endings := r.endings ++ [.rollback] }

def rollbackTransaction (r : QueryRunner ω) (fails : Bool) : QueryRunner ω :=
  if !r.isTransactionActive then r
  else if fails then { r with session := .idle }
  else
    let r := { r with isTransactionActive := false }
    match r.session with
    | .idle => r
    | _ => { r with session := .idle, endings := r.endings ++ [.rollback] }

/-- A `save` of one of the repositories.  Without a transaction on the connection it takes one of
its own and commits it. -/
def save (r : QueryRunner ω) (w : ω) (fails : Bool) : QueryRunner ω :=
  if r.isReleased then r
  else
    match r.session with
    | .idle => if fails then r else { r with persisted := r.persisted ++ [w] }
    | .inTransaction pending =>
      { r with session := if fails then .aborted else .inTransaction (pending ++ [w]) }
    | .aborted => r

def release (r : QueryRunner ω) : QueryRunner ω :=
  { r with isReleased := true, releases := r.releases + 1 }

end QueryRunner

structure TypeOrmTransaction (ω : Type) where
  runner : QueryRunner ω
  finished : Bool
deriving DecidableEq

namespace TypeOrmTransaction

def commit (tx : TypeOrmTransaction ω) (fails : Bool) : TypeOrmTransaction ω :=
  if tx.finished then tx
  else { runner := tx.runner.commitTransaction fails, finished := tx.runner.settles fails }

def rollback (tx : TypeOrmTransaction ω) (fails : Bool) : TypeOrmTransaction ω :=
  if tx.finished then tx
  else { runner := tx.runner.rollbackTransaction fails, finished := tx.runner.settles fails }

def dispose (tx : TypeOrmTransaction ω) : TypeOrmTransaction ω :=
  if tx.runner.isReleased then tx else { tx with runner := tx.runner.release }

/-- `[Symbol.asyncDispose]`: `rollback` returned just when the flag is set after it. -/
def asyncDispose (tx : TypeOrmTransaction ω) (fails : Bool) : TypeOrmTransaction ω :=
  let tx := tx.rollback fails
  if tx.finished then tx.dispose else tx

end TypeOrmTransaction

/-- What a callback can ask of its transaction. -/
inductive Op (ω : Type) where
  | save (w : ω)
  | commit
  | rollback
  | asyncDispose
deriving DecidableEq

/-- One awaited call of the callback; `fails` says that the statement it sends, if any, fails. -/
structure Ask (ω : Type) where
  op : Op ω
  fails : Bool
deriving DecidableEq

def TypeOrmTransaction.ask (tx : TypeOrmTransaction ω) (a : Ask ω) : TypeOrmTransaction ω :=
  match a.op with
  | .save w => { tx with runner := tx.runner.save w a.fails }
  | .commit => tx.commit a.fails
  | .rollback => tx.rollback a.fails
  | .asyncDispose => tx.asyncDispose a.fails

/-- A call of `transaction`: what the driver and the callback do in it. -/
structure Call (ω ρ ε : Type) where
  connectFails : Bool
  startFails : Bool
  asks : List (Ask ω)
  result : Except ε ρ
  disposalFails : Bool

/-- What a call of `transaction` rejects with. -/
inductive Thrown (ε : Type) where
  | connect
  | startTransaction
  | callback (e : ε)
  | disposal
  -- `SuppressedError`: the disposal failed after the callback had thrown.
  | suppressed (e : ε)
deriving DecidableEq

/-- What the call settles with after the callback; `disposed` says that the disposal did not throw. -/
def outcome (result : Except ε ρ) (disposed : Bool) : Except (Thrown ε) ρ :=
  match result, disposed with
  | .ok r, true => .ok r
  | .error e, true => .error (.callback e)
  | .ok _, false => .error .disposal
  | .error e, false => .error (.suppressed e)

/-- `TypeOrmUnitOfWork.transaction`: the runner of the call and the value or the error the call
settles with. -/
def transaction (call : Call ω ρ ε) : QueryRunner ω × Except (Thrown ε) ρ :=
  let runner := QueryRunner.create
  if call.connectFails then (runner, .error .connect)
  else
    let runner := runner.connect
    if call.startFails then (runner, .error .startTransaction)
    else
      let tx := call.asks.foldl TypeOrmTransaction.ask
        { runner := runner.startTransaction, finished := false }
      let tx := tx.asyncDispose call.disposalFails
      -- the disposal threw just if the flag is still unset
      (tx.runner, outcome call.result tx.finished)

end Ecommerce.UnitOfWork
