import Ecommerce.Common.Uuid

/-!
# Errors — how a `createOrder` call can fail

`OrderError` lists the domain errors of `common/errors.ts` that order creation raises, with their
fields.  A `Failure` is anything `createOrder` rejects with.
-/

namespace Ecommerce

inductive OrderError where
  | failedToCreateOrder
  | cannotFindProducts (missingProductsCount : Int)
  | notEnoughItemsInStock (productId : UUID) (askedQty : Nat) (stock : Int)
deriving DecidableEq

namespace OrderError

def code : OrderError → String
  | .failedToCreateOrder => "FAILED_TO_CREATE_ORDER"
  | .cannotFindProducts _ => "CANNOT_FIND_PRODUCTS"
  | .notEnoughItemsInStock _ _ _ => "NOT_ENOUGH_ITEMS_IN_STOCK"

def httpStatus : OrderError → Nat
  | .failedToCreateOrder => 500
  | .cannotFindProducts _ => 404
  | .notEnoughItemsInStock _ _ _ => 409

def message : OrderError → String
  | .failedToCreateOrder => "Failed to create order"
  | .cannotFindProducts _ => "Some products can not be found"
  | .notEnoughItemsInStock _ _ _ => "Product does not have enough of stock"

end OrderError

/-- The errors PostgreSQL answers a statement with; a statement that fails aborts its
transaction at once. -/
inductive QueryError where
  -- `42601`, as for an empty `IN` list.
  | syntaxError
  -- `22P02`: the text is not a `uuid` or not a number.
  | invalidText
  -- `23502`: NULL in a NOT NULL column.
  | notNullViolation
  -- Any other failure of the statement or of its connection, but not `23505`.
  | other
deriving DecidableEq

inductive Failure where
  | domain (e : OrderError)
  | query (e : QueryError)
  -- A JavaScript `TypeError`, as for `dto.items.map` when `items` is not an array.
  | typeError
  -- `EntityNotFoundError` of `findOneOrFail`.
  | entityNotFound
  -- `RabbitMqService.send` threw: the channel is missing or closed.
  | channel
deriving DecidableEq

/-- Whether the failure is the server's, which has then already aborted the transaction. -/
def Failure.isQuery : Failure → Bool
  | .query _ => true
  | _ => false

/-- The exceptions a request ends with, as the filter tells them apart. -/
inductive HttpError where
  | badRequest (message : String)
  | unauthorized
  | notFound (message : String)
  | internal (e : QueryError)
deriving DecidableEq

end Ecommerce
