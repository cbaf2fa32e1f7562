import Ecommerce.Common.Errors
import Ecommerce.Common.Json

/-!
# HttpExceptionFilter — what a failed request is answered with

Every exception that leaves a handler, a guard or a pipe ends in the filter.  A domain error is sent
with its details as they are, an HTTP exception by what its response says, and anything else without
a word about it.
-/

namespace Ecommerce

/-- An instance of one of the subclasses of `DomainError`. -/
structure DomainError where
  code : String
  httpStatus : Nat
  message : String
  details : Option Json

namespace DomainError

/-- `EntityNotFoundError`. -/
def entityNotFound (entityName : String) (details : List (String × Json)) : DomainError where
  code := "CANNOT_FIND_ENTITY"
  httpStatus := 404
  message := s!"Cannot find entity '{entityName}'"
  details := some (.obj (("entityName", .str entityName) :: details))

/-- `DuplicateEntityCreationError`. -/
def duplicateEntityCreation (entityName : String) (details : List (String × Json)) :
    DomainError where
  code := "DUPLICATE_ENTITY_CREATION"
  httpStatus := 409
  message := s!"Such '{entityName}' entity already exists"
  details := some (.obj (("entityName", .str entityName) :: details))

/-- `IncorrectPasswordError`. -/
def incorrectPassword (details : List (String × Json)) : DomainError where
  code := "INCORRECT_PASSWORD"
  httpStatus := 401
  message := "Incorrect password"
  details := some (.obj details)

end DomainError

/-- The errors of order creation, with their details. -/
def OrderError.toDomain (e : OrderError) : DomainError where
  code := e.code
  httpStatus := e.httpStatus
  message := e.message
  details := some (.obj (match e with
    | .failedToCreateOrder => []
    | .cannotFindProducts missingProductsCount =>
      [("missingProductsCount", .num (.ofInt missingProductsCount))]
    | .notEnoughItemsInStock productId askedQty stock =>
      [("productId", .str productId.text), ("askedQty", .num (.ofInt askedQty)),
        ("stock", .num (.ofInt stock))]))

inductive Exception where
  | domain (e : DomainError)
  -- `HttpException`, by its status and its response.
  | http (status : Nat) (response : Json)
  -- Everything else, such as an error of the driver or a `TypeError`.
  | other

namespace Exception

/-- An exception of the framework for a status, by its message or messages. -/
def ofStatus (status : Nat) (error : String) (message : Json) : Exception :=
  .http status (.obj [("message", message), ("error", .str error),
    ("statusCode", .num (.ofInt status))])

/-- `new BadRequestException(message)`. -/
def badRequest (message : String) : Exception := ofStatus 400 "Bad Request" (.str message)

/-- What `ValidationPipe` throws. -/
def invalid (messages : List String) : Exception :=
  ofStatus 400 "Bad Request" (.arr (messages.map .str))

/-- `new UnauthorizedException()`. -/
def unauthorized : Exception :=
  .http 401 (.obj [("message", .str "Unauthorized"), ("statusCode", .num (.ofInt 401))])

/-- What a failed `createOrder` leaves its handler as. -/
def ofFailure : Failure → Exception
  | .domain e => .domain e.toDomain
  | _ => .other

end Exception

def HttpError.toException : HttpError → Exception
  | .badRequest message => .badRequest message
  | .unauthorized => .unauthorized
  | .notFound message => .ofStatus 404 "Not Found" (.str message)
  | .internal _ => .other

/-- The JSON body of an error response. -/
structure ErrorBody where
  code : String
  message : String
  details : Option Json
  correlationId : String

structure ErrorResponse where
  status : Nat
  body : ErrorBody

section Filter

-- The text JavaScript makes of a value, `String(value)`.
variable (toText : Json → String)

/-- `HttpExceptionFilter.catch`. -/
def HttpExceptionFilter.catchException (correlationId : String) : Exception → ErrorResponse
  | .domain e =>
    { status := e.httpStatus
      body := { code := e.code, message := e.message, details := e.details, correlationId } }
  | .http status res =>
    let message? := (res.get? "message").filter Json.truthy
    let body : ErrorBody :=
      match (res.get? "code").filter Json.truthy, message? with
      | some code, some message =>
        { code := toText code
          message := toText message
          details := (res.get? "details").filter fun
            | .arr _ => true
            | .obj _ => true
            | _ => false
          correlationId }
      | _, _ =>
        { code := if 500 ≤ status then "INTERNAL_ERROR" else "REQUEST_FAILED"
          message := match res, message? with
            | .str s, _ => s
            | _, some (.arr _) => "Request failed"
            | _, some message => toText message
            | _, none => "Request failed"
          details := match res.get? "message" with
            | some (.arr messages) => some (.obj [("messages", .arr messages)])
            | _ => none
          correlationId }
    { status, body }
  | .other =>
    { status := 500
      body := { code := "INTERNAL_ERROR", message := "Internal server error", details := none,
                correlationId } }

/-- The status of the response to a request whose handler sends `httpCode` with a result. -/
def responseStatus {α : Type} (correlationId : String) (httpCode : Nat) : Except Exception α → Nat
  | .ok _ => httpCode
  | .error e => (HttpExceptionFilter.catchException toText correlationId e).status

end Filter

/-! ## What a response tells -/

section Responses

variable {toText : Json → String} {correlationId : String}

-- The response to a domain error determines it.
theorem catch_domain_inj {e e' : DomainError} :
    HttpExceptionFilter.catchException toText correlationId (.domain e) =
      HttpExceptionFilter.catchException toText correlationId (.domain e') ↔ e = e' := by
  cases e
  cases e'
  simp only [HttpExceptionFilter.catchException, ErrorResponse.mk.injEq, ErrorBody.mk.injEq,
    DomainError.mk.injEq, and_true]
  tauto

theorem catch_invalid (messages : List String) :
    HttpExceptionFilter.catchException toText correlationId (.invalid messages) =
      { status := 400
        body := { code := "REQUEST_FAILED", message := "Request failed"
                  details := some (.obj [("messages", .arr (messages.map .str))])
                  correlationId } } := rfl

theorem catch_invalid_inj {messages messages' : List String} :
    HttpExceptionFilter.catchException toText correlationId (.invalid messages) =
      HttpExceptionFilter.catchException toText correlationId (.invalid messages') ↔
        messages = messages' := by
  have hinj : Function.Injective Json.str := fun _ _ h => Json.str.inj h
  rw [catch_invalid, catch_invalid]
  simp [hinj.list_map.eq_iff]

end Responses

end Ecommerce
