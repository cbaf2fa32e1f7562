import Ecommerce.Orders.CreateOrderDto
import Ecommerce.Orders.ProcessOrderMessage

/-!
# OrdersService — `createOrder`, run on its own

The steps of `createOrder` as functions of what they read, and the whole call composed from them on
one committed database.  The interleaved calls use the same functions, one step at a time.
-/

namespace Ecommerce.Orders

/-- The arguments of one call. -/
structure Request where
  userId : UUID
  dto : CreateOrderDto
  idempotencyKey : String

/-- The pair the unique constraint is about, as the database reads it; `none` when the key of the
request is no `uuid`. -/
def Request.pair (req : Request) : Option (UUID × UUID) :=
  (UUID.ofText req.idempotencyKey).map fun key => (req.userId, key)

/-- What the database and the clock choose for one call: the generated id and creation time of its
order row, the order in which `SELECT ... FOR UPDATE` visits the matched rows, the order of the item
rows in a join, and the time its message is built. -/
structure Choices where
  newId : UUID
  createdAt : Date
  scan : List UUID → List UUID
  scan_perm : ∀ ids, (scan ids).Perm ids
  joined : List OrderItem → List OrderItem
  joined_perm : ∀ items, (joined items).Perm items
  sentAt : Date

/-- An order as `findOne` returns it: the columns of `orderSelect`, with its items. -/
structure OrderView where
  id : UUID
  status : OrderStatus
  idempotencyKey : UUID
  createdAt : Date
  updatedAt : Date
  processedAt : Option Date
  items : List OrderItem
deriving DecidableEq

inductive Outcome where
  | created (order : OrderView)
  | duplicate (order : OrderView)
  | rejected (e : Failure)
  -- The process stopped during the call.
  | stopped
deriving DecidableEq

/-- An element of `partialItems`; `qty` is `undefined` when the quantity map has no entry. -/
structure PartialItem where
  orderId : UUID
  productId : UUID
  qty : Option Nat
  purchasePrice : String
deriving DecidableEq

/-- A product as the loop leaves it; its stock is NaN after subtracting `undefined`. -/
structure StockUpdate where
  id : UUID
  stock : Option Int
deriving DecidableEq

/-- The row `ordersRepo.add` inserts. -/
def newOrder (req : Request) (ch : Choices) (key : UUID) : Order where
  id := ch.newId
  userId := req.userId
  status := .created
  idempotencyKey := key
  createdAt := ch.createdAt
  updatedAt := ch.createdAt
  processedAt := none

/-- The loop over the locked products. -/
def fillItems (lines : List Line) (orderId : UUID) :
    List Product → Except Failure (List PartialItem × List StockUpdate)
  | [] => .ok ([], [])
  | p :: ps =>
    let askedQty := qtyOf lines p.id
    -- `p.stock < undefined` is false
    if askedQty.any (fun q => p.stock < q) then
      .error (.domain (.notEnoughItemsInStock p.id (askedQty.getD 0) p.stock))
    else
      match fillItems lines orderId ps with
      | .ok (items, products) =>
        .ok ({ orderId := orderId, productId := p.id, qty := askedQty, purchasePrice := p.price }
              :: items,
          { id := p.id, stock := askedQty.map fun q => p.stock - q } :: products)
      | .error e => .error e

/-- From the locked products to the item rows and the new stocks. -/
def checkProducts (lines : List Line) (orderId : UUID) (products : List Product) :
    Except Failure (List PartialItem × List StockUpdate) :=
  if products.length ≠ lines.length then
    .error (.domain (.cannotFindProducts ((lines.length : Int) - products.length)))
  else fillItems lines orderId products

/-- `checkProducts` on the lines of the request; the query before it has read them already. -/
def Request.check (req : Request) (orderId : UUID) (products : List Product) :
    Except Failure (List PartialItem × List StockUpdate) :=
  match req.dto.lines with
  | .ok lines => checkProducts lines orderId products
  | .error e => .error e

/-- The parameters of `findByIds`. -/
def Request.ids (req : Request) : Except Failure (List UUID) :=
  match req.dto.lines with
  | .ok lines => idParams lines
  | .error e => .error e

/-- `orderItemsRepo.extend`: an undefined `qty` is inserted as NULL, which the column refuses. -/
def saveItems : List PartialItem → Except Failure (List OrderItem)
  | [] => .ok []
  | i :: is =>
    match i.qty, saveItems is with
    | some qty, .ok items =>
      .ok ({ orderId := i.orderId, productId := i.productId, qty := qty,
             purchasePrice := i.purchasePrice } :: items)
    | _, _ => .error (.query .notNullViolation)

/-- `productsRepo.extend`: the stocks are written as they stand in memory; NaN is no integer. -/
def saveProducts : List StockUpdate → Except Failure (List (UUID × Int))
  | [] => .ok []
  | u :: us =>
    match u.stock, saveProducts us with
    | some n, .ok stocks => .ok ((u.id, n) :: stocks)
    | _, _ => .error (.query .invalidText)

/-- The order row with its joined items, as the select list of `findOne` shows it. -/
def viewOrder (ch : Choices) (db : Db) (o : Order) : OrderView where
  id := o.id
  status := o.status
  idempotencyKey := o.idempotencyKey
  createdAt := o.createdAt
  updatedAt := o.updatedAt
  processedAt := o.processedAt
  items := ch.joined (db.itemsOf o.id)

/-- `ordersRepo.findOne({ id })`. -/
def findOne (ch : Choices) (db : Db) (id : UUID) : Option OrderView :=
  (db.orderById id).map (viewOrder ch db)

/-- The product rows `findByIds` returns when no other transaction is in the way. -/
def findByIds (ch : Choices) (db : Db) (ids : List UUID) : List Product :=
  (ch.scan (db.matchingIds ids)).filterMap db.product?

/-- The callback of `createOrder` once the product rows are locked, up to its COMMIT. -/
def fillRows (req : Request) (ch : Choices) (db : Db) (order : Order) (rows : List Product) :
    Except Failure (Tx × OrderView) := do
  let (partialItems, products) ← req.check order.id rows
  let items ← saveItems partialItems
  let stocks ← saveProducts products
  let tx : Tx := { order, rows, items, stocks }
  match findOne ch (db.apply tx) order.id with
  | some result => return (tx, result)
  | none => throw (.domain .failedToCreateOrder)

/-- The callback from the locked read up to its COMMIT. -/
def fillOrder (req : Request) (ch : Choices) (db : Db) (order : Order) :
    Except Failure (Tx × OrderView) := do
  let ids ← req.ids
  fillRows req ch db order (findByIds ch db ids)

/-- The end of the transaction: COMMIT, or a rollback and the exception. -/
def txOutcome (db : Db) : Except Failure (Tx × OrderView) → Db × Outcome
  | .ok (tx, result) => (db.apply tx, .created result)
  | .error e => (db, .rejected e)

/-- `createOrder` on a database nobody else uses: the database it leaves and its outcome. -/
def createOrder (req : Request) (ch : Choices) (db : Db) : Db × Outcome :=
  match UUID.ofText req.idempotencyKey with
  | none => (db, .rejected (.query .invalidText))
  | some key =>
    match db.orderByKey (req.userId, key) with
    | some o => (db, .duplicate (viewOrder ch db o))
    | none => txOutcome db (fillOrder req ch db (newOrder req ch key))

/-! ## What the steps compute -/

/-- A loop that comes to its end yields one item and one decremented product for each product. -/
theorem fillItems_ok {lines : List Line} {orderId : UUID} {ps : List Product}
    {items : List PartialItem} {products : List StockUpdate}
    (h : fillItems lines orderId ps = .ok (items, products)) :
    items = ps.map (fun p => ⟨orderId, p.id, qtyOf lines p.id, p.price⟩) ∧
    products = ps.map (fun p => ⟨p.id, (qtyOf lines p.id).map fun q => p.stock - q⟩) ∧
    ∀ p ∈ ps, ∀ q, qtyOf lines p.id = some q → (q : Int) ≤ p.stock := by
  induction ps generalizing items products with
  | nil =>
    simp only [fillItems, Except.ok.injEq, Prod.mk.injEq] at h
    obtain ⟨rfl, rfl⟩ := h
    simp
  | cons p ps ih =>
    rw [fillItems] at h
    split at h
    · cases h
    · rename_i hstock
      split at h
      · -- this row has enough, and the rest of the loop came to its end
        rename_i items' products' hrest
        simp only [Except.ok.injEq, Prod.mk.injEq] at h
        obtain ⟨rfl, rfl⟩ := h
        obtain ⟨hi, hp, hle⟩ := ih hrest
        refine ⟨by rw [hi]; rfl, by rw [hp]; rfl, ?_⟩
        intro p' hmem q hq
        rcases List.mem_cons.mp hmem with rfl | hmem
        · simpa [hq] using hstock
        · exact hle p' hmem q hq
      · cases h

theorem checkProducts_ok {lines : List Line} {orderId : UUID} {ps : List Product}
    {r : List PartialItem × List StockUpdate} (h : checkProducts lines orderId ps = .ok r) :
    ps.length = lines.length ∧ fillItems lines orderId ps = .ok r := by
  unfold checkProducts at h
  split at h
  · cases h
  · rename_i hlen
    exact ⟨not_not.mp hlen, h⟩

/-- An insert of items that is not refused had a quantity in every line. -/
theorem saveItems_ok {is : List PartialItem} {items : List OrderItem}
    (h : saveItems is = .ok items) :
    is = items.map fun i => ⟨i.orderId, i.productId, some i.qty, i.purchasePrice⟩ := by
  induction is generalizing items with
  | nil =>
    simp only [saveItems, Except.ok.injEq] at h
    rw [← h, List.map_nil]
  | cons i is ih =>
    rw [saveItems] at h
    split at h
    · rename_i qty items' hq hrest
      rw [← Except.ok.inj h, List.map_cons, ← ih hrest, ← hq]
    · cases h

theorem saveProducts_ok {us : List StockUpdate} {stocks : List (UUID × Int)}
    (h : saveProducts us = .ok stocks) :
    us = stocks.map fun s => ⟨s.1, some s.2⟩ := by
  induction us generalizing stocks with
  | nil =>
    simp only [saveProducts, Except.ok.injEq] at h
    rw [← h, List.map_nil]
  | cons u us ih =>
    rw [saveProducts] at h
    split at h
    · rename_i n stocks' hn hrest
      rw [← Except.ok.inj h, List.map_cons, ← ih hrest, ← hn]
    · cases h

end Ecommerce.Orders
