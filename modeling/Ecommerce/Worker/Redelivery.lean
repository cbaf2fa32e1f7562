import Ecommerce.Common.Coercion
import Ecommerce.Lib.Transition

/-!
# Redelivery — what the worker does with any content

`RabbitMqService.consume` parses what it gets and hands the value on unchecked.  What throws outside
the handler's `try` sends the delivery back to its queue; what throws in the timer ends the process.

The system is one message and its copies, while the broker works: nothing is lost, and a delivery
that goes back is delivered again.  Other messages only decide when a step is taken.
-/

namespace Ecommerce.Worker

open Transition

/-- `{ ...msg, attempt: msg.attempt + 1 }`; `none` for a `TypeError`. -/
def retryCopy (c : Conversions) (msg : Json) : Option Json :=
  (Json.plus? c (msg.get? "attempt") (.ofInt 1)).map (msg.withField "attempt")

/-- What the code gets from Node and from `amqplib`; `β` are the contents of messages. -/
structure Runtime (β : Type) extends Conversions where
  -- `JSON.parse(content.toString())`; `none` when it throws
  parse : β → Option Json
  -- `Buffer.from(JSON.stringify(value))`
  stringify : Json → β
  -- whether `sendToQueue` takes this value for the option `messageId`
  accepts : Option Json → Bool
  parse_stringify : ∀ content msg copy, parse content = some msg →
    retryCopy toConversions msg = some copy → parse (stringify copy) = some copy.written

/-- What becomes of a delivery. -/
inductive Verdict (β : Type) where
  | acked
  -- a copy for `orders.dlq`, and the ack
  | dead (copy : β)
  -- the timer is set
  | waits (msg : Json)
  -- `reject` with `requeue`
  | requeued

/-- How the transaction of a handler ends. -/
inductive Ending where
  | processed
  | duplicate
  | failed
deriving DecidableEq

namespace Runtime

variable {β : Type} (rt : Runtime β)

/-! ## The code -/

/-- `getConfig().maxRetries`, of the variable `WORKER_RETRIES` if it is set. -/
def maxRetries (workerRetries : Option String) : Number :=
  rt.toNumber <| match workerRetries with
    | some text => if text = "" then "3" else text
    | none => "3"

/-- `send`; `none` when it throws. -/
def send (message : Json) : Option β :=
  if rt.accepts (message.get? "messageId") then some (rt.stringify message) else none

/-- `handleFailedProcessing`. -/
def handleFailedProcessing (maxRetries : Number) (msg : Json) : Option (Verdict β) := do
  if ← Json.ge? rt.toConversions (msg.get? "attempt") maxRetries then
    return .dead (← rt.send msg)
  else
    return .waits msg

/-- The first line `handle` logs. -/
def received (msg : Json) : Option (String × String) :=
  match msg with
  | .null => none
  | msg => do
    let messageId ← Json.printed? rt.toConversions (msg.get? "messageId")
    let attempt ← Json.printed? rt.toConversions (msg.get? "attempt")
    return (messageId, attempt)

/-- `handle`, if its transaction ends like this. -/
def handle (maxRetries : Number) (msg : Json) (ending : Ending) : Option (Verdict β) := do
  let _ ← rt.received msg
  match ending with
  | .processed => return .acked
  | .duplicate => return .acked
  | .failed => rt.handleFailedProcessing maxRetries msg

/-- The callback given to `channel.consume`. -/
def consume (maxRetries : Number) (content : β) (ending : Ending) : Verdict β :=
  match (rt.parse content).bind (rt.handle maxRetries · ending) with
  | some verdict => verdict
  | none => .requeued

/-- The callback of the timer; `none` when it throws. -/
def retry (msg : Json) : Option β := (retryCopy rt.toConversions msg).bind rt.send

end Runtime

/-! ## The copies of a message -/

/-- Where the copies of one message are. -/
structure Copies (β : Type) where
  -- `orders.process`
  queue : List β
  handled : List β
  -- a delivery, and the message its timer sends
  waiting : List (β × Json)
  -- `orders.dlq`
  dead : List β
  delivered : Nat
  duplicates : Nat

namespace Copies

variable {β : Type}

/-- The message on `orders.process`. -/
def initial (content : β) : Copies β :=
  { queue := [content], handled := [], waiting := [], dead := [], delivered := 0, duplicates := 0 }

/-- A verdict takes effect. -/
def settle (s : Copies β) (content : β) (ending : Ending) : Verdict β → Copies β
  | .acked => { s with duplicates := s.duplicates + if ending = .duplicate then 1 else 0 }
  | .dead copy => { s with dead := s.dead ++ [copy] }
  | .waits msg => { s with waiting := s.waiting ++ [(content, msg)] }
  | .requeued => { s with queue := s.queue ++ [content] }

/-- No copy is on `orders.process`, nor with a consumer. -/
structure Left (s : Copies β) : Prop where
  queue : s.queue = []
  handled : s.handled = []
  waiting : s.waiting = []

end Copies

inductive Happens where
  | deliver
  | settle (ending : Ending)
  | fire
  | crash

section System

variable {β : Type} (rt : Runtime β) (maxRetries : Number)

inductive Copies.Step : Copies β → Happens → Copies β → Prop
  | deliver {s : Copies β} (i : Nat) (content : β) (h : s.queue[i]? = some content) :
      Step s .deliver { s with
        queue := s.queue.eraseIdx i
        handled := s.handled ++ [content]
        delivered := s.delivered + 1 }
  | settle {s : Copies β} (i : Nat) (content : β) (ending : Ending)
      (h : s.handled[i]? = some content) :
      Step s (.settle ending) (Copies.settle { s with handled := s.handled.eraseIdx i }
        content ending (rt.consume maxRetries content ending))
  -- the copy is sent and the delivery is acked
  | fire {s : Copies β} (i : Nat) (content : β) (msg : Json) (copy : β)
      (h : s.waiting[i]? = some (content, msg)) (hcopy : rt.retry msg = some copy) :
      Step s .fire { s with
        waiting := s.waiting.eraseIdx i
        queue := s.queue ++ [copy] }
  -- nobody catches what the timer throws, and the delivery goes back
  | crash {s : Copies β} (i : Nat) (content : β) (msg : Json)
      (h : s.waiting[i]? = some (content, msg)) (hcopy : rt.retry msg = none) :
      Step s .crash { s with
        waiting := s.waiting.eraseIdx i
        queue := s.queue ++ [content] }

/-- The worker with this number of retries and a message of this content. -/
def redelivery (content : β) : System (Copies β) Happens where
  init s := s = .initial content
  step := Copies.Step rt maxRetries

/-- No processing of the message succeeds, and no process ends. -/
def Unsuccessful : Copies β → Happens → Prop
  | _, .settle ending => ending ≠ .processed
  | _, .crash => False
  | _, _ => True

/-- Redelivery is bounded, and in the end the message is in `orders.dlq`, unless it was a duplicate. -/
def NoPoison (content : β) : Prop :=
  ∃ n, ∀ s, (redelivery rt maxRetries content).Reach Unsuccessful s →
    s.delivered ≤ n ∧ (s.Left → s.dead ≠ [] ∨ 0 < s.duplicates)

end System

end Ecommerce.Worker
