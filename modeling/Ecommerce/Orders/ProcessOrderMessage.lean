import Ecommerce.Common.Number
import Ecommerce.Database.Entities

/-!
# ProcessOrderMessage — the messages of the queue `orders.process`
-/

namespace Ecommerce.Orders

structure SimulatedFailure where
  reason : String
  stopOnAttempt : Option Number
deriving DecidableEq

structure ProcessOrderMessage where
  messageId : UUID
  orderId : UUID
  createdAt : Date
  attempt : Number
  simulateFailure : Option SimulatedFailure
deriving DecidableEq

/-- `new ProcessOrderMessageDto(messageId, orderId)`, with the constructor's defaults. -/
def ProcessOrderMessage.new (messageId orderId : UUID) (now : Date) : ProcessOrderMessage where
  messageId := messageId
  orderId := orderId
  createdAt := now
  attempt := .ofInt 1
  simulateFailure := none

end Ecommerce.Orders
