import Ecommerce.Lib.Settlement
import Ecommerce.Orders.ProcessOrderMessage

/-!
# OrdersWorkerService — the handler of one delivery

The handler is a piece of JavaScript: from the end of its transaction to the end of the `consume`
callback nothing else runs, and so in the callback of its timer.  Such a stretch is a `Turn`, which
writes frames to the channel and may throw.  Which broker calls throw is up to `Faults`.
-/

namespace Ecommerce.Worker

open Amqp Orders

/-- The queues `assertInfra` declares. -/
inductive Queue where
  -- `orders.process`
  | process
  -- `orders.dlq`
  | dlq
deriving DecidableEq

instance : Fintype Queue := ⟨{.process, .dlq}, fun q => by cases q <;> decide⟩

/-- A message on its way; `pub` numbers the message it is a copy of, and nothing reads it. -/
structure Copy where
  message : ProcessOrderMessage
  pub : Nat
deriving DecidableEq

/-- `msg.messageId` and `msg.orderId`. -/
def Copy.ids (c : Copy) : UUID × UUID := (c.message.messageId, c.message.orderId)

/-- The broker calls of one turn that throw. -/
structure Faults where
  ack : Bool
  send : Bool
  ackAfterSend : Bool
  reject : Bool

namespace Faults

def none : Faults := ⟨false, false, false, false⟩

/-- On a closed channel every call throws. -/
def all : Faults := ⟨true, true, true, true⟩

end Faults

/-- Code that writes frames and may throw. -/
abbrev Turn := ExceptT Unit (StateM (List (Frame Queue Copy)))

def call (throws : Bool) (f : Frame Queue Copy) : Turn Unit :=
  if throws then throw () else modify (· ++ [f])

section Handler

variable (maxRetries : Number) (f : Faults) (tag : Nat) (c : Copy)

/-- The copy the timer republishes. -/
def Copy.retry (c : Copy) : Copy :=
  { c with message := { c.message with attempt := c.message.attempt.plus (.ofInt 1) } }

/-- `handleFailedProcessing`; true when it has set the timer. -/
def handleFailedProcessing : Turn Bool :=
  if c.message.attempt.ge maxRetries then do
    call f.send (.publish tag .dlq c)
    call f.ackAfterSend (.ack tag)
    return false
  else
    return true

/-- `handle`, once the transaction has resolved or rejected. -/
def handle (resolved : Bool) : Turn Bool :=
  tryCatch
    (do
      unless resolved do throw ()
      call f.ack (.ack tag)
      return false)
    fun _ => handleFailedProcessing maxRetries f tag c

/-- The callback given to `channel.consume`, from the same point. -/
def consume (resolved : Bool) : Turn Bool :=
  tryCatch (handle maxRetries f tag c resolved) fun _ => do
    tryCatch (call f.reject (.reject tag)) fun _ => return
    return false

/-- The callback of the timer; nobody catches what it throws. -/
def retry : Turn Unit := do
  call f.send (.publish tag .process c.retry)
  call f.ackAfterSend (.ack tag)

end Handler

/-- The frames a turn writes, and its result unless it throws. -/
def Turn.exec {α : Type} (t : Turn α) : Except Unit α × List (Frame Queue Copy) := t.run.run []

/-! ## What a turn writes -/

/-- A copy a handler sends: the message it has, or its next attempt. -/
def Copy.Sends (c c' : Copy) : Prop := c' = c ∨ c' = c.retry

theorem Copy.Sends.ids {c c' : Copy} (h : c.Sends c') : c'.ids = c.ids := by
  rcases h with rfl | rfl <;> rfl

/-- The frames of one handler: nothing, one settlement, or a copy and then at most one settlement.
An ack without a copy takes a transaction that has resolved. -/
inductive Writes (resolved : Bool) (tag : Nat) (c : Copy) : List (Frame Queue Copy) → Prop
  | nothing : Writes resolved tag c []
  | ack (h : resolved = true) : Writes resolved tag c [.ack tag]
  | reject : Writes resolved tag c [.reject tag]
  | copy (q : Queue) (c' : Copy) (h : c.Sends c') : Writes resolved tag c [.publish tag q c']
  | copyAck (q : Queue) (c' : Copy) (h : c.Sends c') :
      Writes resolved tag c [.publish tag q c', .ack tag]
  | copyReject (q : Queue) (c' : Copy) (h : c.Sends c') :
      Writes resolved tag c [.publish tag q c', .reject tag]

theorem writes_consume (maxRetries : Number) (f : Faults) (tag : Nat) (c : Copy)
    (resolved : Bool) : Writes resolved tag c (consume maxRetries f tag c resolved).exec.2 := by
  obtain ⟨ack, send, ackAfterSend, reject⟩ := f
  cases resolved <;> cases ack
  case true.false => exact .ack rfl
  all_goals
    -- the failure path: a rejected transaction, or an `ack` that threw
    by_cases hretry : c.message.attempt.ge maxRetries = true
    · cases send <;> cases ackAfterSend <;> cases reject <;>
        simp only [consume, handle, handleFailedProcessing, if_pos hretry] <;>
        first
        | exact .copyAck .dlq c (.inl rfl)
        | exact .copyReject .dlq c (.inl rfl)
        | exact .copy .dlq c (.inl rfl)
        | exact .reject
        | exact .nothing
    · simp only [consume, handle, handleFailedProcessing, if_neg hretry]
      exact .nothing

theorem writes_retry (f : Faults) (tag : Nat) (c : Copy) :
    Writes false tag c (retry f tag c).exec.2 := by
  obtain ⟨ack, send, ackAfterSend, reject⟩ := f
  cases send <;> cases ackAfterSend
  · exact .copyAck .process c.retry (.inr rfl)
  · exact .copy .process c.retry (.inr rfl)
  · exact .nothing
  · exact .nothing

section Frames

variable {maxRetries : Number} {f : Faults} {tag : Nat} {c : Copy} {resolved : Bool}

/-- A handler that sets the timer has written nothing yet. -/
theorem consume_waits (h : (consume maxRetries f tag c resolved).exec.1 = .ok true) :
    (consume maxRetries f tag c resolved).exec.2 = [] := by
  obtain ⟨ack, send, ackAfterSend, reject⟩ := f
  by_cases hretry : c.message.attempt.ge maxRetries = true
  · simp only [consume, handle, handleFailedProcessing, if_pos hretry] at h
    cases resolved <;> cases ack <;> cases send <;> cases ackAfterSend <;> cases reject <;> cases h
  · simp only [consume, handle, handleFailedProcessing, if_neg hretry] at h ⊢
    cases resolved <;> cases ack <;> first | rfl | cases h

/-- On a closed channel nothing is written. -/
theorem consume_all : (consume maxRetries .all tag c resolved).exec.2 = [] := by
  by_cases hretry : c.message.attempt.ge maxRetries = true
  · simp only [consume, handle, handleFailedProcessing, if_pos hretry]
    cases resolved <;> rfl
  · simp only [consume, handle, handleFailedProcessing, if_neg hretry]
    cases resolved <;> rfl

theorem retry_all : (retry .all tag c).exec.2 = [] := rfl

theorem Writes.settles {fs : List (Frame Queue Copy)} (h : Writes resolved tag c fs) :
    (settles fs).Nodup ∧ ∀ t ∈ settles fs, t = tag := by
  cases h <;> simp

theorem Writes.publish {fs : List (Frame Queue Copy)} {t : Nat} {q : Queue} {c' : Copy}
    (h : Writes resolved tag c fs) (hm : .publish t q c' ∈ fs) : c.Sends c' := by
  cases h with
  | nothing => cases hm
  | ack h => simp at hm
  | reject => simp at hm
  | copy q c'' h =>
    simp only [List.mem_singleton, Frame.publish.injEq] at hm
    exact hm.2.2 ▸ h
  | copyAck q c'' h =>
    simp only [List.mem_cons, Frame.publish.injEq, reduceCtorEq, List.not_mem_nil, or_false] at hm
    exact hm.2.2 ▸ h
  | copyReject q c'' h =>
    simp only [List.mem_cons, Frame.publish.injEq, reduceCtorEq, List.not_mem_nil, or_false] at hm
    exact hm.2.2 ▸ h

/-- Unless the transaction has resolved, a copy is sent before the ack. -/
theorem Writes.guarded {fs : List (Frame Queue Copy)} (h : Writes resolved tag c fs) :
    resolved = true ∨ Broker.Guarded (fun t c' => t = tag ∧ c'.ids = c.ids) tag fs := by
  cases h with
  | nothing => exact .inr trivial
  | ack h => exact .inl h
  | reject => exact .inr trivial
  | copy q c' h => exact .inr (.inr trivial)
  | copyAck q c' h => exact .inr (.inl ⟨rfl, h.ids⟩)
  | copyReject q c' h => exact .inr (.inl ⟨rfl, h.ids⟩)

/-- When no call throws, a copy is always followed by the ack. -/
theorem exchanges_consume {π : Type} {ds : List (Delivery π Queue Copy)}
    (hd : ∀ d ∈ ds, d.tag = tag → d.message.pub = c.pub) :
    Broker.Exchanges (·.pub) ds (consume maxRetries .none tag c resolved).exec.2 := by
  cases resolved with
  | true => exact trivial
  | false =>
    by_cases hretry : c.message.attempt.ge maxRetries = true
    · simp only [consume, handle, handleFailedProcessing, if_pos hretry]
      exact ⟨rfl, hd, trivial⟩
    · simp only [consume, handle, handleFailedProcessing, if_neg hretry]
      exact trivial

theorem exchanges_retry {π : Type} {ds : List (Delivery π Queue Copy)}
    (hd : ∀ d ∈ ds, d.tag = tag → d.message.pub = c.pub) :
    Broker.Exchanges (·.pub) ds (retry .none tag c).exec.2 := ⟨rfl, hd, trivial⟩

end Frames

end Ecommerce.Worker
