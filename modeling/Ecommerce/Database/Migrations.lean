import Ecommerce.Lib.Ddl

/-!
# Migrations — the schema and how it came about

The six migrations in the order of their timestamps, each as the statements of its `up` and `down`.
-/

namespace Ecommerce

open Sql

structure Migration where
  name : String
  up : List Statement
  down : List Statement
deriving DecidableEq

namespace Migrations

/-- `"created_at" TIMESTAMP WITH TIME ZONE NOT NULL DEFAULT now()`, and likewise `"updated_at"`. -/
def timestamp (name : String) : Column :=
  { name := name, type := .timestamptz, notNull := true, default := some .now }

/-- `"id" uuid NOT NULL DEFAULT uuid_generate_v4()`. -/
def generatedId : Column :=
  { name := "id", type := .uuid, notNull := true, default := some .uuidGenerateV4 }

/-- A column that is NOT NULL and has no default. -/
def required (name : String) (type : DataType) : Column :=
  { name := name, type := type, notNull := true, default := none }

def users : Table where
  name := "users"
  columns := [generatedId, required "email" (.varchar (some 100)),
    { name := "role", type := .enum "users_role_enum", notNull := true,
      default := some (.literal "user") },
    timestamp "created_at", timestamp "updated_at"]
  constraints := [.unique "UQ_users_email" ["email"], .primaryKey "PK_users_id" ["id"]]

def products : Table where
  name := "products"
  columns := [generatedId, required "title" (.varchar (some 200)), required "description" .text,
    required "stock" .integer, required "price" .numeric,
    timestamp "created_at", timestamp "updated_at"]
  constraints := [.primaryKey "PK_products_id" ["id"]]

def orders : Table where
  name := "orders"
  columns := [generatedId, required "user_id" .uuid,
    { name := "status", type := .enum "orders_status_enum", notNull := true,
      default := some (.literal "created") },
    timestamp "created_at", timestamp "updated_at"]
  constraints := [.primaryKey "PK_orders_id" ["id"]]

def orderItems : Table where
  name := "order_items"
  columns := [required "order_id" .uuid, required "product_id" .uuid, required "qty" .integer,
    required "purchase_price" .numeric, timestamp "created_at", timestamp "updated_at"]
  constraints := [.primaryKey "PK_order_items_order_id_product_id" ["order_id", "product_id"]]

def processedMessages : Table where
  name := "processed_messages"
  columns := [generatedId, required "message_id" .uuid, required "handler" (.varchar none),
    timestamp "processed_at"]
  constraints := [.unique "UQ_processed_messages_message_id_handler" ["message_id", "handler"],
    .primaryKey "PK_processed_messages_id" ["id"]]

def init : Migration where
  name := "Init1770837951129"
  up := [
    .createType "users_role_enum" ["user", "admin"],
    .createTable users,
    .createTable products,
    .createType "orders_status_enum" ["created", "canceled", "paid"],
    .createTable orders,
    .createIndex { name := "IX_orders_user_id", table := "orders", columns := [("user_id", false)] },
    .createTable orderItems,
    .addConstraint "orders"
      (.foreignKey "FK_orders_user_id_users_id" ["user_id"] "users" ["id"] .cascade .noAction),
    .addConstraint "order_items"
      (.foreignKey "FK_order_items_order_id_orders_id" ["order_id"] "orders" ["id"]
        .cascade .noAction),
    .addConstraint "order_items"
      (.foreignKey "FK_order_items_product_id_products_id" ["product_id"] "products" ["id"]
        .restrict .noAction)]
  down := [
    .dropConstraint "order_items" "FK_order_items_product_id_products_id",
    .dropConstraint "order_items" "FK_order_items_order_id_orders_id",
    .dropConstraint "orders" "FK_orders_user_id_users_id",
    .dropTable "order_items",
    .dropIndex "IX_orders_user_id",
    .dropTable "orders",
    .dropType "orders_status_enum",
    .dropTable "products",
    .dropTable "users",
    .dropType "users_role_enum"]

def addIdempotencyKey : Migration where
  name := "AddIdempotencyKey1770901187228"
  up := [
    .addColumn "orders" "idempotency_key" .uuid false,
    .fillUuid "orders" "idempotency_key",
    .setNotNull "orders" "idempotency_key",
    .addConstraint "orders"
      (.unique "UQ_orders_user_id_idempotency_key" ["user_id", "idempotency_key"])]
  down := [
    .dropConstraint "orders" "UQ_orders_user_id_idempotency_key",
    .dropColumn "orders" "idempotency_key"]

def ordersListingIndex : Index where
  name := "IX_orders_user_id_status_created_at"
  table := "orders"
  columns := [("user_id", false), ("status", false), ("created_at", true)]

def addIndexForListingOrders : Migration where
  name := "AddIndexForListingOrders1771877464333"
  up := [.createIndex ordersListingIndex]
  down := [.dropIndex "IX_orders_user_id_status_created_at"]

def addOrderProcessingFields : Migration where
  name := "AddOrderProcessingFields1773518476643"
  up := [
    .addColumn "orders" "processed_at" .timestamptz false,
    .dropIndex "IX_orders_user_id_status_created_at",
    .renameType "orders_status_enum" "orders_status_enum_old",
    .createType "orders_status_enum" ["created", "canceled", "processed", "paid"],
    .dropDefault "orders" "status",
    .setEnum "orders" "status" "orders_status_enum",
    .setDefault "orders" "status" (.literal "created"),
    .dropType "orders_status_enum_old",
    .createIndex ordersListingIndex]
  down := [
    .dropIndex "IX_orders_user_id_status_created_at",
    .createType "orders_status_enum_old" ["created", "canceled", "paid"],
    .dropDefault "orders" "status",
    .setEnum "orders" "status" "orders_status_enum_old",
    .setDefault "orders" "status" (.literal "created"),
    .dropType "orders_status_enum",
    .renameType "orders_status_enum_old" "orders_status_enum",
    .createIndex ordersListingIndex,
    .dropColumn "orders" "processed_at"]

def addProcessedMessagesTable : Migration where
  name := "AddProcessedMessagesTable1773758211678"
  up := [.createTable processedMessages]
  down := [.dropTable "processed_messages"]

def addUserPassword : Migration where
  name := "AddUserPassword1775511558732"
  up := [.addColumn "users" "password" (.varchar (some 100)) true]
  down := [.dropColumn "users" "password"]

end Migrations

open Migrations in
/-- In the order in which they run. -/
def migrations : List Migration :=
  [init, addIdempotencyKey, addIndexForListingOrders, addOrderProcessingFields,
    addProcessedMessagesTable, addUserPassword]

end Ecommerce
