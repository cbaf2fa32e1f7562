import Ecommerce.Lib.Transition
import Ecommerce.Lib.Locking
import Ecommerce.Orders.OrdersService

/-!
# Calls — any number of `createOrder` calls on one database

Every call runs `OrdersService.createOrder` in its own transaction of the unit of work, one database
step at a time, and the steps of different calls interleave.  The database is PostgreSQL at READ
COMMITTED: an insert of a key that an open transaction has inserted waits for it; `SELECT ... FOR
UPDATE` takes the locks of the matched rows one by one, waits for each and then reads the row's last
committed version; locks are held to the end of the transaction.  Connections come from one pool, and
a request for a connection waits while none is free.

Besides its own steps a call may suffer a database failure before its COMMIT, its send may throw, and
the process may stop; the worker may update the rows of committed orders at any time.
-/

namespace Ecommerce.Orders

open Locking Transition

/-- How far a call has come. -/
inductive Phase where
  -- `runner.connect()` waits for a connection.
  | waiting
  -- The transaction has begun; the insert into `orders` is next, or waits for another call's.
  | begun
  | inserted (tx : Tx)
  -- `SELECT ... FOR UPDATE` has `todo` left to lock, in this order.
  | locking (tx : Tx) (todo : List UUID)
  -- The loop is through; the items are inserted next, then the products written.
  | checked (tx : Tx) (partialItems : List PartialItem) (products : List StockUpdate)
  | itemsSaved (tx : Tx) (products : List StockUpdate)
  | stocksSaved (tx : Tx)
  -- The order is read again; COMMIT is next.
  | reread (tx : Tx) (result : OrderView)
  | committed (result : OrderView)
  -- The runner is released; the message is sent next.
  | publishing (result : OrderView)
  -- `23505` has aborted the transaction; the look-up waits for a second connection.
  | duplicate
  | lookup
  | found (result : OrderView)
  -- An exception is on its way out; the disposal rolls back next.  `tx` is still open unless the
  -- server has aborted it.
  | failing (tx : Option Tx) (e : Failure)
  | done (outcome : Outcome)
deriving DecidableEq

namespace Phase

/-- The open transaction with its locks and uncommitted writes. -/
def tx? : Phase → Option Tx
  | .inserted tx => some tx
  | .locking tx _ => some tx
  | .checked tx _ _ => some tx
  | .itemsSaved tx _ => some tx
  | .stocksSaved tx => some tx
  | .reread tx _ => some tx
  | .failing tx _ => tx
  | _ => none

/-- The product rows held locked. -/
def rows (ph : Phase) : List Product := (ph.tx?.map (·.rows)).getD []

/-- The uncommitted entry in the unique index on `(user_id, idempotency_key)`. -/
def openKey (ph : Phase) : Option (UUID × UUID) := ph.tx?.map (·.order.key)

/-- The rows the locked read still has to lock. -/
def todo : Phase → List UUID
  | .locking _ todo => todo
  | _ => []

/-- The pool connections the call holds. -/
def connections : Phase → Nat
  | .waiting => 0
  | .publishing _ => 0
  | .done _ => 0
  | .lookup => 2
  | _ => 1

/-- A statement of the call is running or about to, and its transaction has not committed. -/
def beforeCommit : Phase → Bool
  | .committed _ => false
  | .publishing _ => false
  | .found _ => false
  | .failing _ _ => false
  | .done _ => false
  | _ => true

/-- Past its COMMIT, or finished. -/
def past : Phase → Bool
  | .committed _ => true
  | .publishing _ => true
  | .done _ => true
  | _ => false

def isDone : Phase → Bool
  | .done _ => true
  | _ => false

theorem isDone_iff {ph : Phase} : ph.isDone = true ↔ ∃ outcome, ph = .done outcome := by
  cases ph <;> simp [isDone]

end Phase

/-- What has happened, for the statements only: no step reads it. -/
inductive Event (ι : Type) where
  | committed (c : ι) (tx : Tx)
  | sent (c : ι) (message : ProcessOrderMessage)
deriving DecidableEq

/-- The fixed data of a run: the arguments of every call and what is chosen for it. -/
structure Env (ι : Type) where
  request : ι → Request
  choices : ι → Choices
  newId_injective : Function.Injective fun c => (choices c).newId

@[ext]
structure Sys (ι : Type) where
  db : Db
  -- Free connections of the pool.
  free : Nat
  rowLocks : LockTable UUID ι
  keyLocks : LockTable (UUID × UUID) ι
  calls : ι → Phase
  history : List (Event ι)

namespace Sys

variable {ι : Type} [DecidableEq ι]

/-- A pool of `n` connections, and nobody has begun. -/
def initial (n : Nat) (db : Db) : Sys ι where
  db := db
  free := n
  rowLocks := .empty
  keyLocks := .empty
  calls := fun _ => .waiting
  history := []

def setPhase (s : Sys ι) (c : ι) (ph : Phase) : Sys ι :=
  { s with calls := Function.update s.calls c ph }

/-- The end of `c`'s transaction. -/
def releaseLocks (s : Sys ι) (c : ι) : Sys ι :=
  { s with rowLocks := s.rowLocks.releaseAll c, keyLocks := s.keyLocks.releaseAll c }

/-- An exception leaves the callback.  The server has already aborted the transaction when the
failure is its own; otherwise the transaction stays open until the disposal. -/
def throwing (s : Sys ι) (c : ι) (tx : Tx) (e : Failure) : Sys ι :=
  if e.isQuery then (s.releaseLocks c).setPhase c (.failing none e)
  else s.setPhase c (.failing (some tx) e)

/-- `TypeOrmTransaction.create`: connect and begin. -/
def connect (s : Sys ι) (c : ι) : Option (Sys ι) :=
  if 0 < s.free then some { s.setPhase c .begun with free := s.free - 1 } else none

/-- `ordersRepo.add`: the insert, or its refusal with `23505`; `none` while it waits. -/
def insertOrder (env : Env ι) (s : Sys ι) (c : ι) : Option (Sys ι) :=
  let req := env.request c
  match UUID.ofText req.idempotencyKey with
  | none => some (s.setPhase c (.failing none (.query .invalidText)))
  | some key =>
    if (s.db.orderByKey (req.userId, key)).isSome then some (s.setPhase c .duplicate)
    else if s.keyLocks (req.userId, key) = none then
      some { s.setPhase c (.inserted (.start (newOrder req (env.choices c) key))) with
        keyLocks := s.keyLocks.acquire (req.userId, key) c }
    else none

/-- `productsRepo.findByIds`: the statement starts. -/
def select (env : Env ι) (s : Sys ι) (c : ι) (tx : Tx) : Sys ι :=
  match (env.request c).ids with
  | .ok ids => s.setPhase c (.locking tx ((env.choices c).scan (s.db.matchingIds ids)))
  | .error e => s.throwing c tx e

/-- The next row of the locked read; `none` while another transaction holds it. -/
def lockRow (s : Sys ι) (c : ι) (tx : Tx) (id : UUID) (todo : List UUID) : Option (Sys ι) :=
  if s.rowLocks id = none then
    match s.db.product? id with
    | some row =>
      some { s.setPhase c (.locking { tx with rows := tx.rows ++ [row] } todo) with
        rowLocks := s.rowLocks.acquire id c }
    | none => some (s.setPhase c (.locking tx todo))
  else none

/-- All rows are locked: the comparison of the lengths and the loop. -/
def check (env : Env ι) (s : Sys ι) (c : ι) (tx : Tx) : Sys ι :=
  match (env.request c).check tx.order.id tx.rows with
  | .ok (partialItems, products) => s.setPhase c (.checked tx partialItems products)
  | .error e => s.throwing c tx e

def insertItems (s : Sys ι) (c : ι) (tx : Tx) (partialItems : List PartialItem)
    (products : List StockUpdate) : Sys ι :=
  match saveItems partialItems with
  | .ok items => s.setPhase c (.itemsSaved { tx with items := items } products)
  | .error e => s.throwing c tx e

def writeStocks (s : Sys ι) (c : ι) (tx : Tx) (products : List StockUpdate) : Sys ι :=
  match saveProducts products with
  | .ok stocks => s.setPhase c (.stocksSaved { tx with stocks := stocks })
  | .error e => s.throwing c tx e

/-- `ordersRepo.findOne`, on what the own transaction sees. -/
def readAgain (env : Env ι) (s : Sys ι) (c : ι) (tx : Tx) : Sys ι :=
  match findOne (env.choices c) (s.db.apply tx) tx.order.id with
  | some result => s.setPhase c (.reread tx result)
  | none => s.throwing c tx (.domain .failedToCreateOrder)

/-- COMMIT: the writes become visible and the locks are released. -/
def commit (s : Sys ι) (c : ι) (tx : Tx) (result : OrderView) : Sys ι :=
  { (s.releaseLocks c).setPhase c (.committed result) with
    db := s.db.apply tx
    history := s.history ++ [.committed c tx] }

/-- `rabbitmq.send`, and the call returns the order. -/
def send (env : Env ι) (s : Sys ι) (c : ι) (result : OrderView) : Sys ι :=
  { s.setPhase c (.done (.created result)) with
    history := s.history ++
      [.sent c (.new result.id result.id (env.choices c).sentAt)] }

/-- `findOneOrFail` on a connection of its own, which is free again afterwards. -/
def findOneOrFail (env : Env ι) (s : Sys ι) (c : ι) : Sys ι :=
  let req := env.request c
  let order := (UUID.ofText req.idempotencyKey).bind fun key => s.db.orderByKey (req.userId, key)
  match order with
  | some o =>
    { s.setPhase c (.found (viewOrder (env.choices c) s.db o)) with free := s.free + 1 }
  | none => { s.setPhase c (.failing none .entityNotFound) with free := s.free + 1 }

/-- The next step of call `c`; `none` when it is finished or has to wait. -/
def advance (env : Env ι) (s : Sys ι) (c : ι) : Option (Sys ι) :=
  match s.calls c with
  | .waiting => s.connect c
  | .begun => s.insertOrder env c
  | .inserted tx => some (s.select env c tx)
  | .locking tx [] => some (s.check env c tx)
  | .locking tx (id :: todo) => s.lockRow c tx id todo
  | .checked tx partialItems products => some (s.insertItems c tx partialItems products)
  | .itemsSaved tx products => some (s.writeStocks c tx products)
  | .stocksSaved tx => some (s.readAgain env c tx)
  | .reread tx result => some (s.commit c tx result)
  | .committed result => some { s.setPhase c (.publishing result) with free := s.free + 1 }
  | .publishing result => some (s.send env c result)
  | .duplicate => if 0 < s.free then some { s.setPhase c .lookup with free := s.free - 1 } else none
  | .lookup => some (s.findOneOrFail env c)
  | .found result => some { s.setPhase c (.done (.duplicate result)) with free := s.free + 1 }
  | .failing _ e =>
    some { (s.releaseLocks c).setPhase c (.done (.rejected e)) with free := s.free + 1 }
  | .done _ => none

/-- A statement of `c` fails and the server rolls back.  A START TRANSACTION that fails, and a
ROLLBACK of the disposal that fails, are left out: the connection would never be given back (see
`ConnectionLeak`). -/
def fault (s : Sys ι) (c : ι) : Sys ι :=
  match s.calls c with
  | .waiting => s.setPhase c (.done (.rejected (.query .other)))
  | ph =>
    { (s.releaseLocks c).setPhase c (.failing none (.query .other)) with
      free := s.free + (ph.connections - 1) }

/-- `rabbitmq.send` throws: the order is committed and the call rejects. -/
def sendThrows (s : Sys ι) (c : ι) : Sys ι :=
  s.setPhase c (.done (.rejected .channel))

/-- The process stops during the call: the server rolls back what is open. -/
def kill (s : Sys ι) (c : ι) : Sys ι :=
  { (s.releaseLocks c).setPhase c (.done .stopped) with
    free := s.free + (s.calls c).connections }

end Sys

/-- What a transaction of the worker may change: status and times of committed orders, and its own
table. -/
structure WorkerChange (db db' : Db) : Prop where
  products : db'.products = db.products
  orderItems : db'.orderItems = db.orderItems
  orders : ∃ f : Order → Order, db'.orders = db.orders.map f ∧
    ∀ o, (f o).id = o.id ∧ (f o).key = o.key ∧ (f o).createdAt = o.createdAt

inductive Label (ι : Type) where
  | advance (c : ι)
  | fault (c : ι)
  | sendThrows (c : ι)
  | kill (c : ι)
  | worker
deriving DecidableEq

inductive Step {ι : Type} [DecidableEq ι] (env : Env ι) : Sys ι → Label ι → Sys ι → Prop
  | advance {s s' : Sys ι} (c : ι) (h : s.advance env c = some s') : Step env s (.advance c) s'
  | fault {s : Sys ι} (c : ι) (h : (s.calls c).beforeCommit = true) :
      Step env s (.fault c) (s.fault c)
  | sendThrows {s : Sys ι} (c : ι) (result : OrderView) (h : s.calls c = .publishing result) :
      Step env s (.sendThrows c) (s.sendThrows c)
  | kill {s : Sys ι} (c : ι) (h : (s.calls c).isDone = false) : Step env s (.kill c) (s.kill c)
  | worker {s : Sys ι} (db : Db) (h : WorkerChange s.db db) : Step env s .worker { s with db := db }

/-- Order creation with a pool of `n` connections, starting on the database `db`. -/
def system {ι : Type} [DecidableEq ι] (env : Env ι) (n : Nat) (db : Db) :
    System (Sys ι) (Label ι) where
  init s := s = .initial n db
  step := Step env

/-- The states of every run: all interleavings, with failures at any point. -/
abbrev Reachable {ι : Type} [DecidableEq ι] (env : Env ι) (n : Nat) (db : Db) : Sys ι → Prop :=
  (system env n db).Reach System.anyStep

/-- The calls' own steps only: nothing fails and the worker is idle. -/
def ownStep {ι : Type} (_ : Sys ι) (l : Label ι) : Prop := ∃ c, l = .advance c

/-- The steps of one call only. -/
def onlyCall {ι : Type} (c : ι) (_ : Sys ι) (l : Label ι) : Prop := l = .advance c

/-- A generated id is not the id of a row that is there from the start. -/
def FreshIds {ι : Type} (env : Env ι) (db : Db) : Prop :=
  ∀ c, ∀ o ∈ db.orders, o.id ≠ (env.choices c).newId

/-! ## What one step can do -/

section Inversion

variable {ι : Type} [DecidableEq ι] {env : Env ι} {s s' : Sys ι} {c : ι}

@[simp] theorem setPhase_self (s : Sys ι) (c : ι) (ph : Phase) : (s.setPhase c ph).calls c = ph := by
  simp [Sys.setPhase]

@[simp] theorem setPhase_of_ne (s : Sys ι) {c d : ι} (ph : Phase) (h : d ≠ c) :
    (s.setPhase c ph).calls d = s.calls d := by
  simp [Sys.setPhase, h]

@[simp] theorem releaseLocks_calls (s : Sys ι) (c : ι) : (s.releaseLocks c).calls = s.calls := rfl

@[simp] theorem releaseLocks_db (s : Sys ι) (c : ι) : (s.releaseLocks c).db = s.db := rfl

@[simp] theorem releaseLocks_history (s : Sys ι) (c : ι) :
    (s.releaseLocks c).history = s.history := rfl

/-- A step that moves only call `c`, and neither the tables nor the history. -/
structure Quiet (s s' : Sys ι) (c : ι) : Prop where
  db : s'.db = s.db
  history : s'.history = s.history
  others : ∀ d, d ≠ c → s'.calls d = s.calls d

theorem quiet_setPhase (s : Sys ι) (c : ι) (ph : Phase) (n : Nat) :
    Quiet s { s.setPhase c ph with free := n } c where
  db := rfl
  history := rfl
  others := fun _ hd => setPhase_of_ne s ph hd

theorem quiet_throwing (s : Sys ι) (c : ι) (tx : Tx) (e : Failure) :
    Quiet s (s.throwing c tx e) c := by
  unfold Sys.throwing
  split
  · exact ⟨rfl, rfl, fun _ hd => by simp [hd]⟩
  · exact quiet_setPhase s c _ s.free

theorem throwing_phase (s : Sys ι) (c : ι) (tx : Tx) (e : Failure) :
    (s.throwing c tx e).calls c = .failing (if e.isQuery then none else some tx) e := by
  unfold Sys.throwing
  split <;> simp

/-- Why a call in the phase `ph` throws `e` inside its transaction `tx`. -/
inductive Throws (env : Env ι) (s : Sys ι) (c : ι) : Phase → Tx → Failure → Prop
  | select {tx : Tx} {e : Failure} (h : (env.request c).ids = .error e) :
      Throws env s c (.inserted tx) tx e
  | check {tx : Tx} {e : Failure} (h : (env.request c).check tx.order.id tx.rows = .error e) :
      Throws env s c (.locking tx []) tx e
  | insertItems {tx : Tx} {partialItems : List PartialItem} {products : List StockUpdate}
      {e : Failure} (h : saveItems partialItems = .error e) :
      Throws env s c (.checked tx partialItems products) tx e
  | writeStocks {tx : Tx} {products : List StockUpdate} {e : Failure}
      (h : saveProducts products = .error e) : Throws env s c (.itemsSaved tx products) tx e
  | readAgain {tx : Tx} (h : findOne (env.choices c) (s.db.apply tx) tx.order.id = none) :
      Throws env s c (.stocksSaved tx) tx (.domain .failedToCreateOrder)

/-- The steps of call `c`, each with its guard and its effect. -/
inductive Advance (env : Env ι) (s : Sys ι) (c : ι) : Sys ι → Prop
  | connect (hc : s.calls c = .waiting) (hfree : 0 < s.free) :
      Advance env s c { s.setPhase c .begun with free := s.free - 1 }
  | badKey (hc : s.calls c = .begun) (hkey : UUID.ofText (env.request c).idempotencyKey = none) :
      Advance env s c (s.setPhase c (.failing none (.query .invalidText)))
  | refused (key : UUID) (o : Order) (hc : s.calls c = .begun)
      (hkey : UUID.ofText (env.request c).idempotencyKey = some key)
      (ho : s.db.orderByKey ((env.request c).userId, key) = some o) :
      Advance env s c (s.setPhase c .duplicate)
  | insert (key : UUID) (hc : s.calls c = .begun)
      (hkey : UUID.ofText (env.request c).idempotencyKey = some key)
      (hnew : s.db.orderByKey ((env.request c).userId, key) = none)
      (hlock : s.keyLocks ((env.request c).userId, key) = none) :
      Advance env s c
        { s.setPhase c (.inserted (.start (newOrder (env.request c) (env.choices c) key))) with
          keyLocks := s.keyLocks.acquire ((env.request c).userId, key) c }
  | throws (tx : Tx) (e : Failure) (why : Throws env s c (s.calls c) tx e) :
      Advance env s c (s.throwing c tx e)
  | select (tx : Tx) (ids : List UUID) (hc : s.calls c = .inserted tx)
      (hids : (env.request c).ids = .ok ids) :
      Advance env s c (s.setPhase c (.locking tx ((env.choices c).scan (s.db.matchingIds ids))))
  | lock (tx : Tx) (id : UUID) (todo : List UUID) (row : Product)
      (hc : s.calls c = .locking tx (id :: todo)) (hlock : s.rowLocks id = none)
      (hrow : s.db.product? id = some row) :
      Advance env s c
        { s.setPhase c (.locking { tx with rows := tx.rows ++ [row] } todo) with
          rowLocks := s.rowLocks.acquire id c }
  | skip (tx : Tx) (id : UUID) (todo : List UUID) (hc : s.calls c = .locking tx (id :: todo))
      (hlock : s.rowLocks id = none) (hrow : s.db.product? id = none) :
      Advance env s c (s.setPhase c (.locking tx todo))
  | check (tx : Tx) (partialItems : List PartialItem) (products : List StockUpdate)
      (hc : s.calls c = .locking tx [])
      (h : (env.request c).check tx.order.id tx.rows = .ok (partialItems, products)) :
      Advance env s c (s.setPhase c (.checked tx partialItems products))
  | insertItems (tx : Tx) (partialItems : List PartialItem) (products : List StockUpdate)
      (items : List OrderItem) (hc : s.calls c = .checked tx partialItems products)
      (h : saveItems partialItems = .ok items) :
      Advance env s c (s.setPhase c (.itemsSaved { tx with items := items } products))
  | writeStocks (tx : Tx) (products : List StockUpdate) (stocks : List (UUID × Int))
      (hc : s.calls c = .itemsSaved tx products) (h : saveProducts products = .ok stocks) :
      Advance env s c (s.setPhase c (.stocksSaved { tx with stocks := stocks }))
  | readAgain (tx : Tx) (result : OrderView) (hc : s.calls c = .stocksSaved tx)
      (h : findOne (env.choices c) (s.db.apply tx) tx.order.id = some result) :
      Advance env s c (s.setPhase c (.reread tx result))
  | commit (tx : Tx) (result : OrderView) (hc : s.calls c = .reread tx result) :
      Advance env s c (s.commit c tx result)
  | release (result : OrderView) (hc : s.calls c = .committed result) :
      Advance env s c { s.setPhase c (.publishing result) with free := s.free + 1 }
  | send (result : OrderView) (hc : s.calls c = .publishing result) :
      Advance env s c (s.send env c result)
  | connectAgain (hc : s.calls c = .duplicate) (hfree : 0 < s.free) :
      Advance env s c { s.setPhase c .lookup with free := s.free - 1 }
  | find (key : UUID) (o : Order) (hc : s.calls c = .lookup)
      (hkey : UUID.ofText (env.request c).idempotencyKey = some key)
      (ho : s.db.orderByKey ((env.request c).userId, key) = some o) :
      Advance env s c
        { s.setPhase c (.found (viewOrder (env.choices c) s.db o)) with free := s.free + 1 }
  | missing (hc : s.calls c = .lookup)
      (ho : ∀ key, UUID.ofText (env.request c).idempotencyKey = some key →
        s.db.orderByKey ((env.request c).userId, key) = none) :
      Advance env s c { s.setPhase c (.failing none .entityNotFound) with free := s.free + 1 }
  | dispose (result : OrderView) (hc : s.calls c = .found result) :
      Advance env s c { s.setPhase c (.done (.duplicate result)) with free := s.free + 1 }
  | rollback (tx : Option Tx) (e : Failure) (hc : s.calls c = .failing tx e) :
      Advance env s c
        { (s.releaseLocks c).setPhase c (.done (.rejected e)) with free := s.free + 1 }

/-- The insert of a key that nobody has goes ahead. -/
theorem advance_insert {key : UUID} (hc : s.calls c = .begun)
    (hkey : UUID.ofText (env.request c).idempotencyKey = some key)
    (hnew : s.db.orderByKey ((env.request c).userId, key) = none)
    (hlock : s.keyLocks ((env.request c).userId, key) = none) :
    s.advance env c = some
      { s.setPhase c (.inserted (.start (newOrder (env.request c) (env.choices c) key))) with
        keyLocks := s.keyLocks.acquire ((env.request c).userId, key) c } := by
  simp only [Sys.advance, hc, Sys.insertOrder, hkey, hnew, hlock, Option.isSome_none,
    Bool.false_eq_true, if_false, if_true]

theorem insertOrder_cases (hc : s.calls c = .begun) (h : s.insertOrder env c = some s') :
    Advance env s c s' := by
  simp only [Sys.insertOrder] at h
  split at h
  · rename_i hkey
    rw [← Option.some.inj h]
    exact .badKey hc hkey
  · rename_i key hkey
    split at h
    · rename_i ho
      obtain ⟨o, ho⟩ := Option.isSome_iff_exists.mp ho
      rw [← Option.some.inj h]
      exact .refused key o hc hkey ho
    · rename_i hnew
      split at h
      · rename_i hlock
        rw [← Option.some.inj h]
        exact .insert key hc hkey (by simpa using hnew) hlock
      · cases h

theorem lockRow_cases {tx : Tx} {id : UUID} {todo : List UUID}
    (hc : s.calls c = .locking tx (id :: todo)) (h : s.lockRow c tx id todo = some s') :
    Advance env s c s' := by
  unfold Sys.lockRow at h
  split at h
  · rename_i hlock
    split at h
    · rename_i row hrow
      rw [← Option.some.inj h]
      exact .lock tx id todo row hc hlock hrow
    · rename_i hrow
      rw [← Option.some.inj h]
      exact .skip tx id todo hc hlock hrow
  · cases h

theorem findOneOrFail_cases (hc : s.calls c = .lookup) : Advance env s c (s.findOneOrFail env c) := by
  simp only [Sys.findOneOrFail]
  split
  · rename_i o ho
    obtain ⟨key, hkey, ho⟩ := Option.bind_eq_some_iff.mp ho
    exact .find key o hc hkey ho
  · rename_i ho
    refine .missing hc fun key hkey => ?_
    rwa [hkey] at ho

/-- Every step of a call is one of the listed ones. -/
theorem advance_cases (h : s.advance env c = some s') : Advance env s c s' := by
  -- one case for each phase; a phase that branches yields its step and its throw
  unfold Sys.advance at h
  split at h
  · rename_i hc
    unfold Sys.connect at h
    split at h
    · rename_i hfree
      rw [← Option.some.inj h]
      exact .connect hc hfree
    · -- an ended call takes no step
      cases h
  · rename_i hc
    exact insertOrder_cases hc h
  · rename_i tx hc
    rw [← Option.some.inj h]
    unfold Sys.select
    split
    · rename_i ids hids
      exact .select tx ids hc hids
    · rename_i e hids
      exact .throws tx e (hc ▸ .select hids)
  · rename_i tx hc
    rw [← Option.some.inj h]
    unfold Sys.check
    split
    · rename_i partialItems products hcheck
      exact .check tx partialItems products hc hcheck
    · rename_i e hcheck
      exact .throws tx e (hc ▸ .check hcheck)
  · rename_i hc
    exact lockRow_cases hc h
  · rename_i tx partialItems products hc
    rw [← Option.some.inj h]
    unfold Sys.insertItems
    split
    · rename_i items hitems
      exact .insertItems tx partialItems products items hc hitems
    · rename_i e hitems
      exact .throws tx e (hc ▸ .insertItems hitems)
  · rename_i tx products hc
    rw [← Option.some.inj h]
    unfold Sys.writeStocks
    split
    · rename_i stocks hstocks
      exact .writeStocks tx products stocks hc hstocks
    · rename_i e hstocks
      exact .throws tx e (hc ▸ .writeStocks hstocks)
  · rename_i tx hc
    rw [← Option.some.inj h]
    unfold Sys.readAgain
    split
    · rename_i result hresult
      exact .readAgain tx result hc hresult
    · rename_i hresult
      exact .throws tx _ (hc ▸ .readAgain hresult)
  · rename_i tx result hc
    rw [← Option.some.inj h]
    exact .commit tx result hc
  · rename_i result hc
    rw [← Option.some.inj h]
    exact .release result hc
  · rename_i result hc
    rw [← Option.some.inj h]
    exact .send result hc
  · rename_i hc
    split at h
    · rename_i hfree
      rw [← Option.some.inj h]
      exact .connectAgain hc hfree
    · cases h
  · rename_i hc
    rw [← Option.some.inj h]
    exact findOneOrFail_cases hc
  · rename_i result hc
    rw [← Option.some.inj h]
    exact .dispose result hc
  · rename_i tx e hc
    rw [← Option.some.inj h]
    exact .rollback tx e hc
  · cases h

/-- A step of a call is its COMMIT, its send, or moves nothing but the call. -/
theorem Advance.writes (h : Advance env s c s') :
    (∃ tx result, s.calls c = .reread tx result ∧ s' = s.commit c tx result) ∨
    (∃ result, s.calls c = .publishing result ∧ s' = s.send env c result) ∨
    Quiet s s' c := by
  cases h with
  | commit tx result hc => exact .inl ⟨tx, result, hc, rfl⟩
  | send result hc => exact .inr (.inl ⟨result, hc, rfl⟩)
  | throws tx e why => exact .inr (.inr (quiet_throwing s c tx e))
  | insert key hc hkey hnew hlock =>
    exact .inr (.inr ⟨rfl, rfl, fun _ hd => setPhase_of_ne s _ hd⟩)
  | lock tx id todo row hc hlock hrow =>
    exact .inr (.inr ⟨rfl, rfl, fun _ hd => setPhase_of_ne s _ hd⟩)
  | rollback tx e hc => exact .inr (.inr ⟨rfl, rfl, fun _ hd => by simp [hd]⟩)
  | _ => exact .inr (.inr (quiet_setPhase s c _ _))

theorem Advance.others (h : Advance env s c s') : ∀ d, d ≠ c → s'.calls d = s.calls d := by
  rcases h.writes with ⟨tx, result, -, rfl⟩ | ⟨result, -, rfl⟩ | hquiet
  · exact fun d hd => by simp [Sys.commit, hd]
  · exact fun d hd => by simp [Sys.send, hd]
  · exact hquiet.others

theorem fault_phase (s : Sys ι) (c : ι) : (s.fault c).calls c =
    if s.calls c = .waiting then .done (.rejected (.query .other))
    else .failing none (.query .other) := by
  unfold Sys.fault
  split
  · rename_i hc
    simp [hc]
  · rename_i hc
    rw [if_neg hc]
    simp

theorem quiet_fault (s : Sys ι) (c : ι) : Quiet s (s.fault c) c := by
  unfold Sys.fault
  split
  · exact quiet_setPhase s c _ s.free
  · exact ⟨rfl, rfl, fun _ hd => by simp [hd]⟩

theorem quiet_kill (s : Sys ι) (c : ι) : Quiet s (s.kill c) c :=
  ⟨rfl, rfl, fun _ hd => by simp [Sys.kill, hd]⟩

end Inversion

/-! ## Runs given by the calls that move -/

section Run

variable {ι : Type} [DecidableEq ι] {env : Env ι} {n : Nat} {db : Db}

/-- The calls of the list move one after the other; `none` when one of them has to wait. -/
def Sys.run (env : Env ι) (s : Sys ι) : List ι → Option (Sys ι)
  | [] => some s
  | c :: cs => (s.advance env c).bind fun s' => s'.run env cs

/-- A run that ends in a state with the property `p` reaches such a state. -/
theorem reach_of_run (env : Env ι) (n : Nat) (db : Db) (cs : List ι) {p : Sys ι → Bool}
    (h : ((Sys.initial n db).run env cs).any p = true) :
    ∃ s, (system env n db).Reach ownStep s ∧ p s = true :=
  (System.Reach.init rfl).of_run (fun _ => rfl) (fun _ _ _ => rfl) (fun _ c _ => Step.advance c) cs
    (fun c _ _ => ⟨c, rfl⟩) h

/-- The step with this label, where the worker is idle. -/
def Sys.perform (env : Env ι) (s : Sys ι) : Label ι → Option (Sys ι)
  | .advance c => s.advance env c
  | .fault c => if (s.calls c).beforeCommit then some (s.fault c) else none
  | .kill c => if (s.calls c).isDone then none else some (s.kill c)
  | _ => none

theorem step_of_perform {s s' : Sys ι} {l : Label ι} (h : s.perform env l = some s') :
    Step env s l s' := by
  cases l with
  | advance c => exact .advance c h
  | fault c =>
    obtain ⟨hc, heq⟩ := Option.ite_none_right_eq_some.mp h
    rw [← Option.some.inj heq]
    exact .fault c hc
  | kill c =>
    obtain ⟨hc, heq⟩ := Option.ite_none_left_eq_some.mp h
    rw [← Option.some.inj heq]
    exact .kill c (by simpa using hc)
  | sendThrows c => cases h
  | worker => cases h

end Run

/-! ## A small shop, for the examples -/

def shop : Db where
  products := [⟨.ofNat 1, 5, "10.00"⟩, ⟨.ofNat 2, 5, "20.00"⟩]
  orders := []
  orderItems := []
  processedMessages := []

/-- What is chosen for the call number `i`; its locked read visits the rows in the order of the
table, or from the last to the first. -/
def shopChoices (backwards : Bool) (i : Nat) : Choices where
  newId := .ofNat (100 + i)
  createdAt := i
  scan ids := if backwards then ids.reverse else ids
  scan_perm ids := by
    cases backwards
    · exact .refl _
    · exact List.reverse_perm ids
  joined items := items
  joined_perm _ := .refl _
  sentAt := i

/-- A request for two pieces of each of the numbered products. -/
def shopRequest (user key : Nat) (products : List Nat) : Request where
  userId := .ofNat user
  dto := { items := .array (products.map fun i => .item { id := (UUID.ofNat i).text, qty := 2 }) }
  idempotencyKey := (UUID.ofNat key).text

/-- Two calls, with idempotency keys of their own or one in common. -/
def shopEnv (backwards : Fin 2 → Bool) (request : Fin 2 → Request) : Env (Fin 2) where
  request := request
  choices c := shopChoices (backwards c) c
  newId_injective := by
    show Function.Injective fun c : Fin 2 => UUID.ofNat (100 + c)
    decide

-- The shop starts without orders.
theorem freshIds_shop (backwards : Fin 2 → Bool) (request : Fin 2 → Request) :
    FreshIds (shopEnv backwards request) shop := by
  intro c o ho
  cases ho

end Ecommerce.Orders
