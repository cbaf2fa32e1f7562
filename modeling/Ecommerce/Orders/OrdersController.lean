import Ecommerce.Auth.AuthService
import Ecommerce.Orders.OrdersRepository

/-!
# OrdersController — the requests a user sends for orders

Handlers take their arguments as the pipes leave them, and the id of the user from the payload of
the token.  An error of the database leaves a handler as an internal one.
-/

namespace Ecommerce.Orders

open Query Auth

namespace OrdersService

def findById (scan : Scan OrderRow) (id : String) (userId : Option String) (db : Db) :
    Except QueryError (Option OrderView) :=
  TypeOrmOrdersRepository.findOne scan { id := some id, userId := userId } db

def list (scan : Scan OrderRow) (options : LocalFindOptions) (db : Db) :
    Except QueryError (List ListedOrder) :=
  TypeOrmOrdersRepository.find scan options db

end OrdersService

structure OrderItemResponseDto where
  productId : UUID
  qty : Nat
  purchasePrice : String
deriving DecidableEq

/-- `toDto` on an order of `findById`. -/
structure OrderResponseDto where
  id : UUID
  status : OrderStatus
  idempotencyKey : UUID
  createdAt : Date
  updatedAt : Date
  processedAt : Option Date
  items : List OrderItemResponseDto
deriving DecidableEq

/-- `toDto` on an order of `list`, which has fewer columns. -/
structure ListedOrderDto where
  id : UUID
  status : OrderStatus
  createdAt : Date
  items : List OrderItemResponseDto
deriving DecidableEq

def itemDto (i : OrderItem) : OrderItemResponseDto where
  productId := i.productId
  qty := i.qty
  purchasePrice := i.purchasePrice

def OrderView.toDto (o : OrderView) : OrderResponseDto where
  id := o.id
  status := o.status
  idempotencyKey := o.idempotencyKey
  createdAt := o.createdAt
  updatedAt := o.updatedAt
  processedAt := o.processedAt
  items := o.items.map itemDto

def ListedOrder.toDto (o : ListedOrder) : ListedOrderDto where
  id := o.id
  status := o.status
  createdAt := o.createdAt
  items := o.items.map itemDto

namespace OrdersController

def findById (scan : Scan OrderRow) (userId id : String) (db : Db) :
    Except HttpError OrderResponseDto :=
  match OrdersService.findById scan id (some userId) db with
  | .ok (some result) => .ok result.toDto
  | .ok none => .error (.notFound "Order not found")
  | .error e => .error (.internal e)

/-- The query parameters of `list`. -/
structure ListQuery where
  status : OrderStatus
  page : Int
  limit : Int
  fromDate : Option Date
  toDate : Option Date

def list (scan : Scan OrderRow) (userId : String) (query : ListQuery) (db : Db) :
    Except HttpError (List ListedOrderDto) :=
  let options : LocalFindOptions := {
    status := query.status, userId := some userId, page := query.page, limit := query.limit
    fromDate := query.fromDate, toDate := query.toDate }
  match OrdersService.list scan options db with
  | .ok orders => .ok (orders.map (·.toDto))
  | .error e => .error (.internal e)

/-- `create`, up to its call of `createOrder`; the insert is what reads the id of the user. -/
def create (userId : String) (dto : CreateOrderDto) (idempotencyKey : Option String) :
    Except HttpError Request :=
  match idempotencyKey.filter (· ≠ "") with
  | none => .error (.badRequest "'Idempotency-Key' header is missing")
  | some key =>
    match UUID.ofText userId with
    | some owner => .ok { userId := owner, dto := dto, idempotencyKey := key }
    | none => .error (.internal .invalidText)

end OrdersController

/-- A key in the header and the text of an id make a call of `createOrder`. -/
theorem create_text (u : UUID) (dto : CreateOrderDto) {key : String} (hkey : key ≠ "") :
    OrdersController.create u.text dto (some key) =
      .ok { userId := u, dto := dto, idempotencyKey := key } := by
  simp only [OrdersController.create, Option.filter_some, hkey, UUID.ofText_text, ne_eq,
    not_false_eq_true, decide_true, if_true]

/-! ## The requests behind the guard -/

section Requests

variable {Token : Type} (jwt : JwtService Token) (config : JwtConfig) (now : Nat) (token : Token)

/-- `GET /orders/:id`. -/
def getOrder (id : String) (scan : Scan OrderRow) (db : Db) : Except HttpError OrderResponseDto := do
  let user ← authenticate jwt config now (some token)
  OrdersController.findById scan user.sub id db

/-- `GET /orders`. -/
def getOrders (query : OrdersController.ListQuery) (scan : Scan OrderRow) (db : Db) :
    Except HttpError (List ListedOrderDto) := do
  let user ← authenticate jwt config now (some token)
  OrdersController.list scan user.sub query db

/-- `POST /orders`: the call of `createOrder` it leads to. -/
def postOrder (dto : CreateOrderDto) (idempotencyKey : Option String) : Except HttpError Request := do
  let user ← authenticate jwt config now (some token)
  OrdersController.create user.sub dto idempotencyKey

end Requests

end Ecommerce.Orders
