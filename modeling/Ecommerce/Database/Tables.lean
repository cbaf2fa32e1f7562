import Ecommerce.Database.Entities
import Ecommerce.Database.MigrationRuns
import Ecommerce.Lib.Records
import Ecommerce.Users.UsersService

/-!
# Tables — the entities in the tables of the migrations

The entities and the migrations describe one database in two ways.  `tables` are the rows in which
the entities are stored, and what the schema of the last migration demands of them is written out
in `Stored`, constraint by constraint.
-/

namespace Ecommerce

open Sql Users

/-- The columns that the entities of the model leave out. -/
structure OtherColumns where
  userUpdatedAt : UUID → Int
  title : UUID → String
  description : UUID → String
  productTimes : UUID → Int × Int
  itemTimes : UUID → UUID → Int × Int
  -- of a processed message: its generated id, and its time
  rowId : ProcessedMessage → UUID
  processedAt : ProcessedMessage → Int

def roleLabel : Auth.UserRole → String
  | .user => "user"
  | .admin => "admin"

def statusLabel : OrderStatus → String
  | .created => "created"
  | .canceled => "canceled"
  | .processed => "processed"
  | .paid => "paid"

namespace OtherColumns

variable (others : OtherColumns)

def userRow (u : SavedUser) : Row UUID :=
  [("id", .uuid u.id), ("email", .text u.email), ("role", .label (roleLabel u.role)),
    ("created_at", .timestamp u.createdAt), ("updated_at", .timestamp (others.userUpdatedAt u.id)),
    ("password", .text u.password)]

def productRow (p : Product) : Row UUID :=
  [("id", .uuid p.id), ("title", .text (others.title p.id)),
    ("description", .text (others.description p.id)), ("stock", .int p.stock),
    ("price", .numeric p.price), ("created_at", .timestamp (others.productTimes p.id).1),
    ("updated_at", .timestamp (others.productTimes p.id).2)]

def orderRow (o : Order) : Row UUID :=
  [("id", .uuid o.id), ("user_id", .uuid o.userId), ("status", .label (statusLabel o.status)),
    ("created_at", .timestamp o.createdAt), ("updated_at", .timestamp o.updatedAt),
    ("idempotency_key", .uuid o.idempotencyKey),
    ("processed_at", match o.processedAt with
      | none => .null
      | some t => .timestamp t)]

def orderItemRow (i : OrderItem) : Row UUID :=
  [("order_id", .uuid i.orderId), ("product_id", .uuid i.productId), ("qty", .int i.qty),
    ("purchase_price", .numeric i.purchasePrice),
    ("created_at", .timestamp (others.itemTimes i.orderId i.productId).1),
    ("updated_at", .timestamp (others.itemTimes i.orderId i.productId).2)]

def processedMessageRow (m : ProcessedMessage) : Row UUID :=
  [("id", .uuid (others.rowId m)), ("message_id", .uuid m.messageId), ("handler", .text m.handler),
    ("processed_at", .timestamp (others.processedAt m))]

def tables (rows : List SavedUser) (db : Db) : Contents UUID := fun name =>
  if name = "users" then rows.map others.userRow
  else if name = "products" then db.products.map others.productRow
  else if name = "orders" then db.orders.map orderRow
  else if name = "order_items" then db.orderItems.map others.orderItemRow
  else if name = "processed_messages" then db.processedMessages.map others.processedMessageRow
  else []

end OtherColumns

/-- What the last migration leaves. -/
def lastSchema : Schema := schemaAt migrations.length

/-- The range of the type `integer`. -/
def IsInteger (n : Int) : Prop := -2 ^ 31 ≤ n ∧ n < 2 ^ 31

/-- Everything the last schema demands of the rows of the entities. -/
structure Stored (others : OtherColumns) (rows : List SavedUser) (db : Db) : Prop where
  userIds : (rows.map (·.id)).Nodup
  emails : (rows.map (·.email)).Nodup
  texts : ∀ u ∈ rows, u.email.length ≤ maxLength ∧ u.password.length ≤ maxLength
  productIds : (db.products.map (·.id)).Nodup
  titles : ∀ p ∈ db.products, (others.title p.id).length ≤ 200
  stocks : ∀ p ∈ db.products, IsInteger p.stock
  orderIds : (db.orders.map (·.id)).Nodup
  orderKeys : (db.orders.map (·.key)).Nodup
  owners : ∀ o ∈ db.orders, ∃ u ∈ rows, u.id = o.userId
  itemKeys : (db.orderItems.map fun i => (i.orderId, i.productId)).Nodup
  itemOrders : ∀ i ∈ db.orderItems, ∃ o ∈ db.orders, o.id = i.orderId
  itemProducts : ∀ i ∈ db.orderItems, ∃ p ∈ db.products, p.id = i.productId
  qtys : ∀ i ∈ db.orderItems, IsInteger i.qty
  rowIds : (db.processedMessages.map others.rowId).Nodup
  messages : (db.processedMessages.map fun m => (m.messageId, m.handler)).Nodup

variable {others : OtherColumns} {rows : List SavedUser} {db : Db}

theorem Stored.valid (h : Stored others rows db) : db.Valid where
  productIds := h.productIds
  orderIds := h.orderIds
  orderKeys := h.orderKeys
  itemOrders := h.itemOrders

/-! ## The last schema -/

namespace LastSchema

open Migrations

def types : List (String × List String) :=
  [("users_role_enum", ["user", "admin"]),
    ("orders_status_enum", ["created", "canceled", "processed", "paid"])]

def users : Table :=
  { Migrations.users with
    columns := Migrations.users.columns ++ [required "password" (.varchar (some 100))] }

def orders : Table :=
  { Migrations.orders with
    columns := Migrations.orders.columns ++ [required "idempotency_key" .uuid,
      { name := "processed_at", type := .timestamptz, notNull := false, default := none }]
    constraints := Migrations.orders.constraints ++ [
      .foreignKey "FK_orders_user_id_users_id" ["user_id"] "users" ["id"] .cascade .noAction,
      .unique "UQ_orders_user_id_idempotency_key" ["user_id", "idempotency_key"]] }

def orderItems : Table :=
  { Migrations.orderItems with
    constraints := Migrations.orderItems.constraints ++ [
      .foreignKey "FK_order_items_order_id_orders_id" ["order_id"] "orders" ["id"]
        .cascade .noAction,
      .foreignKey "FK_order_items_product_id_products_id" ["product_id"] "products" ["id"]
        .restrict .noAction] }

theorem types_eq : lastSchema.types = types := by
  decide +kernel

@[simp] theorem lookup_role : types.lookup "users_role_enum" = some ["user", "admin"] := rfl

@[simp] theorem lookup_status : types.lookup "orders_status_enum" =
    some ["created", "canceled", "processed", "paid"] := rfl

theorem tables_eq :
    lastSchema.tables = [users, products, orders, orderItems, processedMessages] := by
  decide +kernel

end LastSchema

/-! ### Rows -/

theorem userRow_fits (u : SavedUser) :
    RowFits LastSchema.types LastSchema.users.columns (others.userRow u) ↔
      u.email.length ≤ maxLength ∧ u.password.length ≤ maxLength := by
  cases hrole : u.role <;>
    simp [RowFits, OtherColumns.userRow, LastSchema.users, Migrations.users,
      Migrations.generatedId, Migrations.required, Migrations.timestamp, Column.fits, hasType,
      roleLabel, hrole, maxLength]

theorem productRow_fits (p : Product) :
    RowFits LastSchema.types Migrations.products.columns (others.productRow p) ↔
      (others.title p.id).length ≤ 200 ∧ IsInteger p.stock := by
  simp [RowFits, OtherColumns.productRow, Migrations.products, Migrations.generatedId,
    Migrations.required, Migrations.timestamp, Column.fits, hasType, IsInteger]

theorem orderRow_fits (o : Order) :
    RowFits LastSchema.types LastSchema.orders.columns (OtherColumns.orderRow o) := by
  cases hstatus : o.status <;> cases hprocessed : o.processedAt <;>
    simp [RowFits, OtherColumns.orderRow, LastSchema.orders, Migrations.orders,
      Migrations.generatedId, Migrations.required, Migrations.timestamp, Column.fits, hasType,
      statusLabel, hstatus, hprocessed]

theorem orderItemRow_fits (i : OrderItem) :
    RowFits LastSchema.types LastSchema.orderItems.columns (others.orderItemRow i) ↔
      IsInteger i.qty := by
  simp [RowFits, OtherColumns.orderItemRow, LastSchema.orderItems, Migrations.orderItems,
    Migrations.required, Migrations.timestamp, Column.fits, hasType, IsInteger]

theorem processedMessageRow_fits (m : ProcessedMessage) :
    RowFits LastSchema.types Migrations.processedMessages.columns
      (others.processedMessageRow m) := by
  simp [RowFits, OtherColumns.processedMessageRow, Migrations.processedMessages,
    Migrations.generatedId, Migrations.required, Migrations.timestamp, Column.fits, hasType]

/-! ### Keys -/

section Keys

variable (others)

@[simp] theorem project_userId (u : SavedUser) :
    project (others.userRow u) ["id"] = [.uuid u.id] := rfl

@[simp] theorem project_email (u : SavedUser) :
    project (others.userRow u) ["email"] = [.text u.email] := rfl

@[simp] theorem project_productId (p : Product) :
    project (others.productRow p) ["id"] = [.uuid p.id] := rfl

@[simp] theorem project_orderId (o : Order) :
    project (OtherColumns.orderRow o) ["id"] = [.uuid o.id] := rfl

@[simp] theorem project_owner (o : Order) :
    project (OtherColumns.orderRow o) ["user_id"] = [.uuid o.userId] := rfl

@[simp] theorem project_orderKey (o : Order) :
    project (OtherColumns.orderRow o) ["user_id", "idempotency_key"] =
      [.uuid o.userId, .uuid o.idempotencyKey] := rfl

@[simp] theorem project_itemOrder (i : OrderItem) :
    project (others.orderItemRow i) ["order_id"] = [.uuid i.orderId] := rfl

@[simp] theorem project_itemProduct (i : OrderItem) :
    project (others.orderItemRow i) ["product_id"] = [.uuid i.productId] := rfl

@[simp] theorem project_itemKey (i : OrderItem) :
    project (others.orderItemRow i) ["order_id", "product_id"] =
      [.uuid i.orderId, .uuid i.productId] := rfl

@[simp] theorem project_rowId (m : ProcessedMessage) :
    project (others.processedMessageRow m) ["id"] = [.uuid (others.rowId m)] := rfl

@[simp] theorem project_message (m : ProcessedMessage) :
    project (others.processedMessageRow m) ["message_id", "handler"] =
      [.uuid m.messageId, .text m.handler] := rfl

end Keys

/-! ### Constraints -/

section Constraints

variable (contents : Contents UUID)

theorem users_hold_iff : (∀ k ∈ LastSchema.users.constraints,
      k.Holds contents (rows.map others.userRow)) ↔
    (rows.map (·.email)).Nodup ∧ (rows.map (·.id)).Nodup := by
  simp only [LastSchema.users, Migrations.users, List.forall_mem_cons, List.not_mem_nil,
    false_implies, implies_true, and_true]
  rw [unique_records_iff (·.email) (by simp) (by simp),
    primaryKey_records_iff (·.id) (by simp) (by simp)]

theorem products_hold_iff : (∀ k ∈ Migrations.products.constraints,
      k.Holds contents (db.products.map others.productRow)) ↔
    (db.products.map (·.id)).Nodup := by
  simp only [Migrations.products, List.forall_mem_singleton]
  exact primaryKey_records_iff (fun p : Product => p.id) (by simp) (by simp) _ _

theorem orders_hold_iff (husers : contents "users" = rows.map others.userRow) :
    (∀ k ∈ LastSchema.orders.constraints,
      k.Holds contents (db.orders.map OtherColumns.orderRow)) ↔
    (db.orders.map (·.id)).Nodup ∧ (∀ o ∈ db.orders, ∃ u ∈ rows, u.id = o.userId) ∧
      (db.orders.map (·.key)).Nodup := by
  simp only [LastSchema.orders, Migrations.orders, List.cons_append, List.nil_append,
    List.forall_mem_cons, List.not_mem_nil, false_implies, implies_true, and_true]
  rw [primaryKey_records_iff (·.id) (by simp) (by simp),
    foreignKey_records_iff husers (by simp),
    unique_records_iff (·.key) (by simp) (by simp [Order.key])]
  simp

theorem orderItems_hold_iff (horders : contents "orders" = db.orders.map OtherColumns.orderRow)
    (hproducts : contents "products" = db.products.map others.productRow) :
    (∀ k ∈ LastSchema.orderItems.constraints,
      k.Holds contents (db.orderItems.map others.orderItemRow)) ↔
    (db.orderItems.map fun i => (i.orderId, i.productId)).Nodup ∧
      (∀ i ∈ db.orderItems, ∃ o ∈ db.orders, o.id = i.orderId) ∧
        ∀ i ∈ db.orderItems, ∃ p ∈ db.products, p.id = i.productId := by
  simp only [LastSchema.orderItems, Migrations.orderItems, List.cons_append, List.nil_append,
    List.forall_mem_cons, List.not_mem_nil, false_implies, implies_true, and_true]
  rw [primaryKey_records_iff (fun i => (i.orderId, i.productId)) (by simp) (by simp),
    foreignKey_records_iff horders (by simp), foreignKey_records_iff hproducts (by simp)]
  simp

theorem processedMessages_hold_iff : (∀ k ∈ Migrations.processedMessages.constraints,
      k.Holds contents (db.processedMessages.map others.processedMessageRow)) ↔
    (db.processedMessages.map fun m => (m.messageId, m.handler)).Nodup ∧
      (db.processedMessages.map others.rowId).Nodup := by
  simp only [Migrations.processedMessages, List.forall_mem_cons, List.not_mem_nil,
    false_implies, implies_true, and_true]
  rw [unique_records_iff (fun m => (m.messageId, m.handler)) (by simp) (by simp),
    primaryKey_records_iff others.rowId (by simp) (by simp)]

end Constraints

theorem rows_fit_iff : (∀ t ∈ lastSchema.tables, ∀ r ∈ others.tables rows db t.name,
      RowFits lastSchema.types t.columns r) ↔
    (∀ u ∈ rows, u.email.length ≤ maxLength ∧ u.password.length ≤ maxLength) ∧
      (∀ p ∈ db.products, (others.title p.id).length ≤ 200 ∧ IsInteger p.stock) ∧
        ∀ i ∈ db.orderItems, IsInteger i.qty := by
  rw [LastSchema.tables_eq, LastSchema.types_eq]
  simp only [List.forall_mem_cons, List.not_mem_nil, false_implies, implies_true, and_true]
  show (∀ r ∈ rows.map others.userRow, RowFits LastSchema.types LastSchema.users.columns r) ∧
    (∀ r ∈ db.products.map others.productRow,
      RowFits LastSchema.types Migrations.products.columns r) ∧
    (∀ r ∈ db.orders.map OtherColumns.orderRow,
      RowFits LastSchema.types LastSchema.orders.columns r) ∧
    (∀ r ∈ db.orderItems.map others.orderItemRow,
      RowFits LastSchema.types LastSchema.orderItems.columns r) ∧
    (∀ r ∈ db.processedMessages.map others.processedMessageRow,
      RowFits LastSchema.types Migrations.processedMessages.columns r) ↔ _
  simp only [List.forall_mem_map, userRow_fits, productRow_fits, orderRow_fits, orderItemRow_fits,
    processedMessageRow_fits, implies_true, true_and, and_true]

theorem constraints_hold_iff : (∀ t ∈ lastSchema.tables, ∀ k ∈ t.constraints,
      k.Holds (others.tables rows db) (others.tables rows db t.name)) ↔
    ((rows.map (·.email)).Nodup ∧ (rows.map (·.id)).Nodup) ∧ (db.products.map (·.id)).Nodup ∧
      ((db.orders.map (·.id)).Nodup ∧ (∀ o ∈ db.orders, ∃ u ∈ rows, u.id = o.userId) ∧
        (db.orders.map (·.key)).Nodup) ∧
      ((db.orderItems.map fun i => (i.orderId, i.productId)).Nodup ∧
        (∀ i ∈ db.orderItems, ∃ o ∈ db.orders, o.id = i.orderId) ∧
          ∀ i ∈ db.orderItems, ∃ p ∈ db.products, p.id = i.productId) ∧
      (db.processedMessages.map fun m => (m.messageId, m.handler)).Nodup ∧
        (db.processedMessages.map others.rowId).Nodup := by
  rw [LastSchema.tables_eq]
  simp only [List.forall_mem_cons, List.not_mem_nil, false_implies, implies_true, and_true]
  exact and_congr (users_hold_iff _) (and_congr (products_hold_iff _)
    (and_congr (orders_hold_iff _ rfl) (and_congr (orderItems_hold_iff _ rfl rfl)
      (processedMessages_hold_iff _))))

/-- The schema of the migrations demands of the entities what `Stored` says, and nothing else. -/
theorem admits_tables_iff :
    Admits lastSchema (others.tables rows db) ↔ Stored others rows db := by
  have hothers : ∀ name, name ∉ lastSchema.tables.map (·.name) →
      others.tables rows db name = [] := by
    intro name hname
    rw [LastSchema.tables_eq] at hname
    simp only [LastSchema.users, LastSchema.orders, LastSchema.orderItems, Migrations.users,
      Migrations.products, Migrations.orders, Migrations.orderItems, Migrations.processedMessages,
      List.map_cons, List.map_nil, List.mem_cons, List.not_mem_nil, not_or] at hname
    simp [OtherColumns.tables, hname]
  constructor
  · intro h
    obtain ⟨htexts, hproducts, hqtys⟩ := rows_fit_iff.mp h.fits
    obtain ⟨⟨hemails, huserIds⟩, hproductIds, ⟨horderIds, howners, hkeys⟩,
      ⟨hitemKeys, hitemOrders, hitemProducts⟩, hmessages, hrowIds⟩ :=
      constraints_hold_iff.mp h.constraints
    exact ⟨huserIds, hemails, htexts, hproductIds, fun p hp => (hproducts p hp).1,
      fun p hp => (hproducts p hp).2, horderIds, hkeys, howners, hitemKeys, hitemOrders,
      hitemProducts, hqtys, hrowIds, hmessages⟩
  · intro h
    exact ⟨rows_fit_iff.mpr ⟨h.texts, fun p hp => ⟨h.titles p hp, h.stocks p hp⟩, h.qtys⟩,
      constraints_hold_iff.mpr ⟨⟨h.emails, h.userIds⟩, h.productIds,
        ⟨h.orderIds, h.owners, h.orderKeys⟩, ⟨h.itemKeys, h.itemOrders, h.itemProducts⟩,
        h.messages, h.rowIds⟩, hothers⟩

end Ecommerce
