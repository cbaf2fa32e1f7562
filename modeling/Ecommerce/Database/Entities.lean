import Mathlib.Data.List.Nodup
import Ecommerce.Common.Uuid

/-!
# Entities — the tables and what one transaction does to them

Rows carry the columns the modelled code reads or writes.  A transaction keeps its uncommitted
writes and the product rows it has locked in a `Tx`; `Db.apply` is what COMMIT makes visible.
-/

namespace Ecommerce

/-- A point in time, in ticks of the database clock. -/
abbrev Date := Nat

inductive OrderStatus where
  | created
  | canceled
  | processed
  | paid
deriving DecidableEq

structure Product where
  id : UUID
  stock : Int
  price : String
deriving DecidableEq

structure Order where
  id : UUID
  userId : UUID
  status : OrderStatus
  idempotencyKey : UUID
  createdAt : Date
  updatedAt : Date
  processedAt : Option Date
deriving DecidableEq

structure OrderItem where
  orderId : UUID
  productId : UUID
  qty : Nat
  purchasePrice : String
deriving DecidableEq

structure ProcessedMessage where
  messageId : UUID
  handler : String
deriving DecidableEq

/-- The committed contents of the database. -/
structure Db where
  products : List Product
  orders : List Order
  orderItems : List OrderItem
  processedMessages : List ProcessedMessage
deriving DecidableEq

/-- The pair the constraint `UQ_orders_user_id_idempotency_key` is about. -/
def Order.key (o : Order) : UUID × UUID := (o.userId, o.idempotencyKey)

/-- An open transaction of the unit of work, once its order row is inserted. -/
structure Tx where
  order : Order
  -- the product rows locked FOR UPDATE, each as it was read under its lock
  rows : List Product
  items : List OrderItem
  -- the new stocks written to the product rows
  stocks : List (UUID × Int)
deriving DecidableEq

namespace Tx

/-- The transaction right after its insert into `orders`. -/
def start (o : Order) : Tx := { order := o, rows := [], items := [], stocks := [] }

/-- The ids of the product rows the transaction holds locked. -/
def lockedIds (tx : Tx) : List UUID := tx.rows.map (·.id)

/-- A product row with the stock the transaction wrote to it, if it wrote one. -/
def newStock (tx : Tx) (p : Product) : Product :=
  match tx.stocks.lookup p.id with
  | some n => { p with stock := n }
  | none => p

end Tx

namespace Db

def product? (db : Db) (id : UUID) : Option Product := db.products.find? (·.id = id)

def orderByKey (db : Db) (key : UUID × UUID) : Option Order := db.orders.find? (·.key = key)

def orderById (db : Db) (id : UUID) : Option Order := db.orders.find? (·.id = id)

/-- The ids of the products `WHERE product.id IN (ids)` matches, each row once. -/
def matchingIds (db : Db) (ids : List UUID) : List UUID :=
  (db.products.filter (·.id ∈ ids)).map (·.id)

def itemsOf (db : Db) (orderId : UUID) : List OrderItem :=
  db.orderItems.filter (·.orderId = orderId)

/-- What the transaction's own statements see, and what everybody sees after its COMMIT. -/
def apply (db : Db) (tx : Tx) : Db :=
  { db with
    products := db.products.map tx.newStock
    orders := db.orders ++ [tx.order]
    orderItems := db.orderItems ++ tx.items }

/-- The constraints of the schema, as far as the modelled code depends on them. -/
structure Valid (db : Db) : Prop where
  productIds : (db.products.map (·.id)).Nodup
  orderIds : (db.orders.map (·.id)).Nodup
  orderKeys : (db.orders.map (·.key)).Nodup
  itemOrders : ∀ i ∈ db.orderItems, ∃ o ∈ db.orders, o.id = i.orderId

instance (db : Db) : Decidable db.Valid :=
  decidable_of_iff
    ((db.products.map (·.id)).Nodup ∧ (db.orders.map (·.id)).Nodup ∧
      (db.orders.map (·.key)).Nodup ∧ ∀ i ∈ db.orderItems, ∃ o ∈ db.orders, o.id = i.orderId)
    ⟨fun h => ⟨h.1, h.2.1, h.2.2.1, h.2.2.2⟩,
      fun h => ⟨h.productIds, h.orderIds, h.orderKeys, h.itemOrders⟩⟩

/-! ## Reading one row -/

theorem product?_of_mem {db : Db} (h : (db.products.map (·.id)).Nodup) {p : Product}
    (hp : p ∈ db.products) : db.product? p.id = some p := by
  unfold product?
  revert h hp
  induction db.products with
  | nil => simp
  | cons q qs ih =>
    intro h hp
    rw [List.map_cons, List.nodup_cons] at h
    rcases List.mem_cons.mp hp with rfl | hp
    · simp
    · have hne : q.id ≠ p.id := fun heq => h.1 (heq ▸ List.mem_map_of_mem hp)
      rw [List.find?_cons_of_neg (by simpa using hne)]
      exact ih h.2 hp

theorem mem_of_orderByKey {db : Db} {key : UUID × UUID} {o : Order}
    (h : db.orderByKey key = some o) : o ∈ db.orders ∧ o.key = key :=
  ⟨List.mem_of_find?_eq_some h, by simpa using List.find?_some h⟩

theorem orderByKey_eq_none_iff {db : Db} {key : UUID × UUID} :
    db.orderByKey key = none ↔ ∀ o ∈ db.orders, o.key ≠ key := by
  simp [orderByKey]

theorem mem_matchingIds {db : Db} {ids : List UUID} {id : UUID} :
    id ∈ db.matchingIds ids ↔ id ∈ ids ∧ ∃ p ∈ db.products, p.id = id := by
  simp only [matchingIds, List.mem_map, List.mem_filter, decide_eq_true_eq]
  constructor
  · rintro ⟨p, ⟨hp, hid⟩, rfl⟩
    exact ⟨hid, p, hp, rfl⟩
  · rintro ⟨hid, p, hp, rfl⟩
    exact ⟨p, ⟨hp, hid⟩, rfl⟩

theorem matchingIds_nodup {db : Db} (h : (db.products.map (·.id)).Nodup) (ids : List UUID) :
    (db.matchingIds ids).Nodup :=
  h.sublist (List.Sublist.map _ List.filter_sublist)

/-- Which rows an `IN` list matches depends on the ids in the table only. -/
theorem matchingIds_congr {db db' : Db} (h : db'.products.map (·.id) = db.products.map (·.id))
    (ids : List UUID) : db'.matchingIds ids = db.matchingIds ids := by
  have filter_map : ∀ ps : List Product,
      (ps.filter (·.id ∈ ids)).map (·.id) = (ps.map (·.id)).filter (· ∈ ids) := by
    intro ps
    rw [List.filter_map]
    rfl
  unfold matchingIds
  rw [filter_map, filter_map, h]

/-! ## The effect of a COMMIT -/

@[simp] theorem newStock_id (tx : Tx) (p : Product) : (tx.newStock p).id = p.id := by
  unfold Tx.newStock
  split <;> rfl

theorem newStock_of_not_written {tx : Tx} {p : Product} (h : tx.stocks.lookup p.id = none) :
    tx.newStock p = p := by
  unfold Tx.newStock
  rw [h]

@[simp] theorem apply_productIds (db : Db) (tx : Tx) :
    (db.apply tx).products.map (·.id) = db.products.map (·.id) := by
  simp [apply, Function.comp_def]

/-- A row the transaction did not write is as it was. -/
theorem mem_apply_products {db : Db} {tx : Tx} {p : Product} (hp : p ∈ db.products)
    (hw : tx.stocks.lookup p.id = none) : p ∈ (db.apply tx).products := by
  have hmem : tx.newStock p ∈ db.products.map tx.newStock := List.mem_map_of_mem hp
  rwa [newStock_of_not_written hw] at hmem

theorem orderByKey_apply_of_ne {db : Db} {tx : Tx} {key : UUID × UUID}
    (h : db.orderByKey key = none) (hne : tx.order.key ≠ key) :
    (db.apply tx).orderByKey key = none := by
  rw [orderByKey_eq_none_iff] at h ⊢
  intro o ho
  rcases List.mem_append.mp ho with ho | ho
  · exact h o ho
  · rw [List.mem_singleton.mp ho]
    exact hne

theorem orderById_apply_self {db : Db} {tx : Tx} (h : ∀ o ∈ db.orders, o.id ≠ tx.order.id) :
    (db.apply tx).orderById tx.order.id = some tx.order := by
  have hnone : db.orders.find? (·.id = tx.order.id) = none := by
    simpa using h
  simp [orderById, apply, List.find?_append, hnone]

/-- The items of a new order are the items its transaction inserted. -/
theorem itemsOf_apply_self {db : Db} {tx : Tx} (hv : db.Valid)
    (hid : ∀ o ∈ db.orders, o.id ≠ tx.order.id)
    (hitems : ∀ i ∈ tx.items, i.orderId = tx.order.id) :
    (db.apply tx).itemsOf tx.order.id = tx.items := by
  have hold : db.orderItems.filter (·.orderId = tx.order.id) = [] := by
    rw [List.filter_eq_nil_iff]
    intro i hi
    obtain ⟨o, ho, heq⟩ := hv.itemOrders i hi
    simpa [heq] using hid o ho
  have hnew : tx.items.filter (·.orderId = tx.order.id) = tx.items := by
    rw [List.filter_eq_self]
    simpa using hitems
  simp only [itemsOf, apply, List.filter_append, hold, hnew, List.nil_append]

/-- The items of every other order are as they were. -/
theorem itemsOf_apply_of_ne {db : Db} {tx : Tx} {id : UUID} (hne : id ≠ tx.order.id)
    (hitems : ∀ i ∈ tx.items, i.orderId = tx.order.id) :
    (db.apply tx).itemsOf id = db.itemsOf id := by
  have hnew : tx.items.filter (·.orderId = id) = [] := by
    rw [List.filter_eq_nil_iff]
    intro i hi
    simpa [hitems i hi] using hne.symm
  simp only [itemsOf, apply, List.filter_append, hnew, List.append_nil]

theorem Valid.apply {db : Db} {tx : Tx} (hv : db.Valid)
    (hid : ∀ o ∈ db.orders, o.id ≠ tx.order.id) (hkey : db.orderByKey tx.order.key = none)
    (hitems : ∀ i ∈ tx.items, i.orderId = tx.order.id) : (db.apply tx).Valid where
  productIds := by
    rw [apply_productIds]
    exact hv.productIds
  orderIds := by
    simp only [Db.apply, List.map_append, List.map_cons, List.map_nil]
    refine List.nodup_append.mpr ⟨hv.orderIds, List.nodup_singleton _, ?_⟩
    simpa using hid
  orderKeys := by
    simp only [Db.apply, List.map_append, List.map_cons, List.map_nil]
    refine List.nodup_append.mpr ⟨hv.orderKeys, List.nodup_singleton _, ?_⟩
    simpa using orderByKey_eq_none_iff.mp hkey
  itemOrders := by
    intro i hi
    rcases List.mem_append.mp hi with hi | hi
    · obtain ⟨o, ho, heq⟩ := hv.itemOrders i hi
      exact ⟨o, List.mem_append_left _ ho, heq⟩
    · exact ⟨tx.order, List.mem_append_right _ (List.mem_singleton_self _), (hitems i hi).symm⟩

end Db

end Ecommerce
