import Ecommerce.Lib.Transition
import Ecommerce.Lib.Locking
import Ecommerce.Worker.OrdersWorkerService

/-!
# Worker — the processes that handle `orders.process`

Any number of processes consume the queue, each on a channel of its own and with any number of
deliveries at a time.  A handler runs its transaction one database step at a time; the inserts of
one message wait for each other.  Processes may die and start again, channels may close, database
statements may fail and broker calls may throw, each at any point.

The row lock of the UPDATE only delays one of two transactions on one order, and is left out.
-/

namespace Ecommerce.Worker

open Amqp Locking Orders Transition

/-- `OrdersWorkerService.name`. -/
def handlerName : String := "OrdersWorkerService"

/-- The row `dedupRepo.insert` writes. -/
def dedupRow (m : ProcessOrderMessage) : ProcessedMessage :=
  { messageId := m.messageId, handler := handlerName }

/-- The times of one UPDATE: `new Date()`, and the clock of the database. -/
structure OrderUpdate where
  processedAt : Date
  updatedAt : Date
deriving DecidableEq

/-- How far a handler has come. -/
inductive Phase where
  -- the insert of the dedup row is next, or waits for another one
  | started
  | inserted
  -- the callback is through, with or without an UPDATE; COMMIT is next
  | processed (update : Option OrderUpdate)
  -- the callback has thrown; the rollback is next
  | aborting
  -- `23505`: the callback returns false, and COMMIT of the aborted transaction rolls it back
  | refused
  -- the promise of the transaction has resolved, or has rejected
  | resolved
  | rejected
  -- the timer is set
  | backoff
  | finished
deriving DecidableEq

namespace Phase

/-- The dedup row is inserted and not committed. -/
def holdsRow : Phase → Bool
  | .inserted => true
  | .processed _ => true
  | .aborting => true
  | _ => false

/-- A statement of the transaction is running or about to. -/
def inTransaction : Phase → Bool
  | .started => true
  | .inserted => true
  | .processed _ => true
  | .refused => true
  | _ => false

end Phase

structure Handler (π : Type) where
  owner : π
  copy : Copy
  phase : Phase

/-- What has happened; no step reads it. -/
inductive Event where
  | published (c : Copy)
  | committed (tag : Nat) (c : Copy)
  | duplicate (tag : Nat) (c : Copy)

structure State (π : Type) where
  broker : Broker π Queue Copy
  db : Db
  -- the uncommitted entries of the unique index on `(message_id, handler)`
  dedupLocks : LockTable UUID Nat
  running : π → Bool
  handlers : Nat → Option (Handler π)
  nextPub : Nat
  history : List Event

namespace State

variable {π : Type} [DecidableEq π]

def initial (db : Db) : State π where
  broker := .initial
  db := db
  dedupLocks := .empty
  running := fun _ => false
  handlers := fun _ => none
  nextPub := 0
  history := []

def setPhase (s : State π) (tag : Nat) (h : Handler π) (ph : Phase) : State π :=
  { s with handlers := Function.update s.handlers tag (some { h with phase := ph }) }

/-! ## Processes and channels -/

/-- A process starts: connect, create the channel, consume. -/
def start (s : State π) (p : π) : Option (State π) :=
  if s.running p = false ∧ s.broker.isOpen p = false then
    some { s with
      running := Function.update s.running p true
      broker := s.broker.openChannel p }
  else none

/-- The process is gone, and the server rolls back its open transactions.  Its channel closes later. -/
def die (s : State π) (p : π) : State π :=
  { s with
    running := Function.update s.running p false
    handlers := fun tag =>
      match s.handlers tag with
      | some h => if h.owner = p then none else some h
      | none => none
    dedupLocks := fun id =>
      match s.dedupLocks id with
      | some tag => if (s.handlers tag).any (·.owner = p) then none else some tag
      | none => none }

def close (s : State π) (p : π) : State π := { s with broker := s.broker.close p }

/-- The next delivery of `orders.process` for `p`. -/
def deliver (s : State π) (p : π) (i : Nat) : Option (State π) :=
  if s.running p then
    match s.broker.deliver p .process i with
    | some (b, c) =>
      some { s with
        broker := b
        handlers := Function.update s.handlers s.broker.nextTag
          (some { owner := p, copy := c, phase := .started }) }
    | none => none
  else none

def take (s : State π) (p : π) : Option (State π) :=
  (s.broker.take p).map fun b => { s with broker := b }

/-- A publish and the ack after it are taken together. -/
def takePair (s : State π) (p : π) : Option (State π) :=
  match s.broker.wire p with
  | .publish _ _ _ :: .ack _ :: _ => (s.take p).bind fun s' => s'.take p
  | _ => none

/-! ## The handler's transaction -/

/-- `dedupRepo.insert`; `none` while it waits for another transaction's row. -/
def insertDedup (s : State π) (tag : Nat) (h : Handler π) : Option (State π) :=
  if dedupRow h.copy.message ∈ s.db.processedMessages then
    some { s.setPhase tag h .refused with
      history := s.history ++ [.duplicate tag h.copy] }
  else if s.dedupLocks h.copy.message.messageId = none then
    some { s.setPhase tag h .inserted with
      dedupLocks := s.dedupLocks.acquire h.copy.message.messageId tag }
  else none

/-- `processOrderMessage`, after its sleep. -/
def processOrderMessage (m : ProcessOrderMessage) (u : OrderUpdate) :
    Except String (Option OrderUpdate) :=
  match m.simulateFailure with
  | some sim =>
    if sim.stopOnAttempt.any (·.strictEq m.attempt) then .ok none else .error sim.reason
  | none => .ok (some u)

def process (s : State π) (tag : Nat) (h : Handler π) (u : OrderUpdate) : State π :=
  match processOrderMessage h.copy.message u with
  | .ok update => s.setPhase tag h (.processed update)
  | .error _ => s.setPhase tag h .aborting

/-- `UPDATE orders SET status = 'processed', ... WHERE id = orderId`. -/
def updateOrder (orderId : UUID) (u : OrderUpdate) (o : Order) : Order :=
  if o.id = orderId then
    { o with status := .processed, processedAt := some u.processedAt, updatedAt := u.updatedAt }
  else o

/-- The contents after COMMIT: the dedup row, and the UPDATE if there was one. -/
def applyMessage (db : Db) (m : ProcessOrderMessage) (update : Option OrderUpdate) : Db :=
  { db with
    orders := match update with
      | some u => db.orders.map (updateOrder m.orderId u)
      | none => db.orders
    processedMessages := db.processedMessages ++ [dedupRow m] }

def commit (s : State π) (tag : Nat) (h : Handler π) (update : Option OrderUpdate) : State π :=
  { s.setPhase tag h .resolved with
    db := applyMessage s.db h.copy.message update
    dedupLocks := s.dedupLocks.releaseAll tag
    history := s.history ++ [.committed tag h.copy] }

/-- The transaction is rolled back and its promise rejects. -/
def rollback (s : State π) (tag : Nat) (h : Handler π) : State π :=
  { s.setPhase tag h .rejected with dedupLocks := s.dedupLocks.releaseAll tag }

/-! ## The handler's turns -/

/-- On a closed channel every broker call throws. -/
def faults (s : State π) (h : Handler π) (f : Faults) : Faults :=
  if s.broker.isOpen h.owner then f else .all

/-- The rest of the `consume` callback. -/
def finish (maxRetries : Number) (s : State π) (tag : Nat) (h : Handler π) (f : Faults)
    (resolved : Bool) : State π :=
  let (result, frames) := (consume maxRetries (s.faults h f) tag h.copy resolved).exec
  let ph := match result with
    | .ok true => .backoff
    | _ => .finished
  { s.setPhase tag h ph with broker := s.broker.write h.owner frames }

/-- The timer fires; an exception in its callback ends the process. -/
def fire (s : State π) (tag : Nat) (h : Handler π) (f : Faults) : State π :=
  let (result, frames) := (retry (s.faults h f) tag h.copy).exec
  let s' := { s.setPhase tag h .finished with broker := s.broker.write h.owner frames }
  match result with
  | .ok _ => s'
  | .error _ => s'.die h.owner

/-- The next step of the handler of delivery `tag`; `none` when it is over or has to wait. -/
def advance (maxRetries : Number) (s : State π) (tag : Nat) (u : OrderUpdate) (f : Faults) :
    Option (State π) :=
  match s.handlers tag with
  | none => none
  | some h =>
    match h.phase with
    | .started => s.insertDedup tag h
    | .inserted => some (s.process tag h u)
    | .processed update => some (s.commit tag h update)
    | .aborting => some (s.rollback tag h)
    | .refused => some (s.setPhase tag h .resolved)
    | .resolved => some (s.finish maxRetries tag h f true)
    | .rejected => some (s.finish maxRetries tag h f false)
    | .backoff => some (s.fire tag h f)
    | .finished => none

/-! ## The other parts of the system -/

/-- A message is put on `orders.process` from outside the worker. -/
def publish (s : State π) (m : ProcessOrderMessage) : State π :=
  let c : Copy := { message := m, pub := s.nextPub }
  { s with
    broker := s.broker.put .process c
    nextPub := s.nextPub + 1
    history := s.history ++ [.published c] }

end State

/-- What order creation may change: stocks and items, and it adds orders with new ids. -/
structure ShopChange (db db' : Db) : Prop where
  processedMessages : db'.processedMessages = db.processedMessages
  orders : ∃ new, db'.orders = db.orders ++ new ∧ ∀ o ∈ new, o.status = .created ∧
    o.processedAt = none ∧ { messageId := o.id, handler := handlerName } ∉ db.processedMessages

inductive Label (π : Type) where
  | start (p : π)
  | die (p : π)
  | close (p : π)
  | deliver (p : π)
  | take (p : π)
  | takePair (p : π)
  | advance (tag : Nat) (f : Faults)
  | fault (tag : Nat)
  -- Any message is put on `orders.process`: that of an order, or one put there at the broker.
  | publish (m : ProcessOrderMessage)
  | shop

inductive Step {π : Type} [DecidableEq π] (maxRetries : Number) :
    State π → Label π → State π → Prop
  | start {s s' : State π} (p : π) (h : s.start p = some s') : Step maxRetries s (.start p) s'
  | die {s : State π} (p : π) (h : s.running p = true) : Step maxRetries s (.die p) (s.die p)
  | close {s : State π} (p : π) (h : s.broker.isOpen p = true) :
      Step maxRetries s (.close p) (s.close p)
  | deliver {s s' : State π} (p : π) (i : Nat) (h : s.deliver p i = some s') :
      Step maxRetries s (.deliver p) s'
  | take {s s' : State π} (p : π) (h : s.take p = some s') : Step maxRetries s (.take p) s'
  | takePair {s s' : State π} (p : π) (h : s.takePair p = some s') :
      Step maxRetries s (.takePair p) s'
  | advance {s s' : State π} (tag : Nat) (u : OrderUpdate) (f : Faults)
      (h : s.advance maxRetries tag u f = some s') : Step maxRetries s (.advance tag f) s'
  | fault {s : State π} (tag : Nat) (hd : Handler π) (hh : s.handlers tag = some hd)
      (h : hd.phase.inTransaction = true) : Step maxRetries s (.fault tag) (s.rollback tag hd)
  | publish {s : State π} (m : ProcessOrderMessage) : Step maxRetries s (.publish m) (s.publish m)
  | shop {s : State π} (db : Db) (h : ShopChange s.db db) :
      Step maxRetries s .shop { s with db := db }

/-- The worker with `WORKER_RETRIES = maxRetries`, on the database `db` and with empty queues. -/
def system {π : Type} [DecidableEq π] (maxRetries : Number) (db : Db) :
    System (State π) (Label π) where
  init s := s = .initial db
  step := Step maxRetries

/-! ## Runs given by their labels -/

section Run

variable {π : Type} [DecidableEq π]

/-- The step with this label that delivers the first message of the queue and uses the times `u`. -/
def State.exec (maxRetries : Number) (u : OrderUpdate) (s : State π) : Label π → Option (State π)
  | .start p => s.start p
  | .die p => if s.running p then some (s.die p) else none
  | .close p => if s.broker.isOpen p then some (s.close p) else none
  | .deliver p => s.deliver p 0
  | .take p => s.take p
  | .takePair p => s.takePair p
  | .advance tag f => s.advance maxRetries tag u f
  | .fault tag => (s.handlers tag).bind fun h =>
    if h.phase.inTransaction then some (s.rollback tag h) else none
  | .publish m => some (s.publish m)
  | .shop => some s

theorem step_of_exec {maxRetries : Number} {u : OrderUpdate} {s s' : State π} {l : Label π}
    (h : s.exec maxRetries u l = some s') : Step maxRetries s l s' := by
  cases l with
  | start p => exact .start p h
  | die p =>
    obtain ⟨hrun, heq⟩ := Option.ite_none_right_eq_some.mp h
    rw [← Option.some.inj heq]
    exact .die p hrun
  | close p =>
    obtain ⟨hopen, heq⟩ := Option.ite_none_right_eq_some.mp h
    rw [← Option.some.inj heq]
    exact .close p hopen
  | deliver p => exact .deliver p 0 h
  | take p => exact .take p h
  | takePair p => exact .takePair p h
  | advance tag f => exact .advance tag u f h
  | fault tag =>
    obtain ⟨hd, hh, h⟩ := Option.bind_eq_some_iff.mp h
    obtain ⟨hph, heq⟩ := Option.ite_none_right_eq_some.mp h
    rw [← Option.some.inj heq]
    exact .fault tag hd hh hph
  | publish m =>
    rw [← Option.some.inj h]
    exact .publish m
  | shop =>
    rw [← Option.some.inj h]
    exact .shop s.db ⟨rfl, [], by simp⟩

def State.run (maxRetries : Number) (u : OrderUpdate) (s : State π) :
    List (Label π) → Option (State π)
  | [] => some s
  | l :: ls => (s.exec maxRetries u l).bind fun s' => s'.run maxRetries u ls

/-- A run from a reachable state that ends in a state with the property `p` reaches such a state. -/
theorem reach_of_run {maxRetries : Number} {db : Db} {ok : State π → Label π → Prop} {s : State π}
    (hr : (system maxRetries db).Reach ok s) (u : OrderUpdate) (ls : List (Label π))
    (hok : ∀ l ∈ ls, ∀ s, ok s l) {p : State π → Bool} (h : (s.run maxRetries u ls).any p = true) :
    ∃ s', (system maxRetries db).Reach ok s' ∧ p s' = true :=
  hr.of_run (fun _ => rfl) (fun _ _ _ => rfl) (fun _ _ _ => step_of_exec) ls hok h

/-- The states of the run with these labels, which is idle after the last of them. -/
def State.after (maxRetries : Number) (u : OrderUpdate) (s : State π) :
    List (Label π) → Nat → State π
  | [], _ => s
  | _ :: _, 0 => s
  | l :: ls, n + 1 => ((s.exec maxRetries u l).getD s).after maxRetries u ls n

theorem after_zero (maxRetries : Number) (u : OrderUpdate) (s : State π) (ls : List (Label π)) :
    s.after maxRetries u ls 0 = s := by
  cases ls <;> rfl

theorem step_after {maxRetries : Number} {u : OrderUpdate} {s : State π} {ls : List (Label π)}
    (h : (s.run maxRetries u ls).isSome = true) (n : Nat) :
    Step maxRetries (s.after maxRetries u ls n) (ls.getD n .shop)
      (s.after maxRetries u ls (n + 1)) := by
  induction ls generalizing s n with
  | nil => exact step_of_exec (u := u) rfl
  | cons l ls ih =>
    cases hexec : s.exec maxRetries u l with
    | none => simp [State.run, hexec] at h
    | some s' =>
      simp only [State.run, hexec, Option.bind_some] at h
      cases n with
      | zero =>
        simp only [State.after, hexec, Option.getD_some, after_zero]
        exact step_of_exec hexec
      | succ n =>
        simp only [State.after, hexec, Option.getD_some]
        exact ih h n

theorem run_eq_after {maxRetries : Number} {u : OrderUpdate} {s s' : State π}
    {ls : List (Label π)} (h : s.run maxRetries u ls = some s') {n : Nat} (hn : ls.length ≤ n) :
    s.after maxRetries u ls n = s' := by
  induction ls generalizing s n with
  | nil => exact Option.some.inj h
  | cons l ls ih =>
    obtain ⟨s₁, hexec, hrest⟩ := Option.bind_eq_some_iff.mp h
    cases n with
    | zero => exact absurd hn (Nat.not_succ_le_zero _)
    | succ n =>
      simp only [State.after, hexec, Option.getD_some]
      exact ih hrest (Nat.le_of_succ_le_succ hn)

end Run

end Ecommerce.Worker
