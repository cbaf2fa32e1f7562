import Ecommerce.Orders.PageRequests

/-!
# SplitReads — the two queries of a read, each on its own state of the database

Outside a transaction the second query of `findOne` and of `find` may see what others have committed
since the first one.  The first decides which orders are read, the second what is read of them.
-/

namespace Ecommerce.Orders

open Query Auth

/-! ## The reads -/

/-- `firstOrder`, with the rows that meet the condition at each of the two queries. -/
def firstOrderOver (scan : Scan OrderRow) (rows rows' : List OrderRow) : Option OrderView :=
  let ids := slice 0 (some 1) (distinctSorted (· ≤ ·) (rows.map (·.1.id)))
  ((group (·.1.id) (scan.order (rows'.filter (·.1.id ∈ ids)))).filterMap viewRows).head?

/-- `pageRows`, likewise; without a limit and an offset there is one query only. -/
def pageRowsOver (take : Int) (skip : Number) (rows rows' : List OrderRow) :
    Except QueryError (List OrderRow) :=
  if take = 0 ∧ skip = .ofInt 0 then .ok rows'
  else do
    let ids ← pageIds take skip rows
    return rows'.filter (·.1.id ∈ ids)

def listOrdersOver (scan : Scan OrderRow) (take : Int) (skip : Number)
    (rows rows' : List OrderRow) : Except QueryError (List ListedOrder) := do
  let page ← pageRowsOver take skip rows rows'
  return (group (·.1.id) ((scan.order page).insertionSort newerRow)).filterMap listRows

namespace TypeOrmOrdersRepository

def findOneOver (scan : Scan OrderRow) (options : FindOptionsWhere) (db db' : Db) :
    Except QueryError (Option OrderView) := do
  let id ← uuidParam options.id
  let userId ← uuidParam options.userId
  return firstOrderOver scan ((orderRows db).filter fun r => whereOne id userId r.1)
    ((orderRows db').filter fun r => whereOne id userId r.1)

def findOver (scan : Scan OrderRow) (options : LocalFindOptions) (db db' : Db) :
    Except QueryError (List ListedOrder) := do
  let userId ← uuidParam (options.userId.filter (· ≠ ""))
  listOrdersOver scan options.limit (pageSkip options.page options.limit)
    ((orderRows db).filter fun r => whereMany options userId r.1)
    ((orderRows db').filter fun r => whereMany options userId r.1)

/-- On one state they are the reads of the repository. -/
theorem findOneOver_self (scan : Scan OrderRow) (options : FindOptionsWhere) (db : Db) :
    findOneOver scan options db db = findOne scan options db := rfl

theorem findOver_self (scan : Scan OrderRow) (options : LocalFindOptions) (db : Db) :
    findOver scan options db db = find scan options db := rfl

end TypeOrmOrdersRepository

section Requests

variable {Token : Type} (jwt : JwtService Token) (config : JwtConfig) (now : Nat) (token : Token)

/-- `GET /orders/:id`, with its two queries on `db` and on `db'`. -/
def getOrderOver (id : String) (scan : Scan OrderRow) (db db' : Db) :
    Except HttpError OrderResponseDto := do
  let user ← authenticate jwt config now (some token)
  match TypeOrmOrdersRepository.findOneOver scan { id := some id, userId := some user.sub } db db' with
  | .ok (some result) => .ok result.toDto
  | .ok none => .error (.notFound "Order not found")
  | .error e => .error (.internal e)

/-- `GET /orders`, likewise. -/
def getOrdersOver (query : OrdersController.ListQuery) (scan : Scan OrderRow) (db db' : Db) :
    Except HttpError (List ListedOrderDto) := do
  let user ← authenticate jwt config now (some token)
  let options : LocalFindOptions := {
    status := query.status, userId := some user.sub, page := query.page, limit := query.limit
    fromDate := query.fromDate, toDate := query.toDate }
  match TypeOrmOrdersRepository.findOver scan options db db' with
  | .ok orders => .ok (orders.map (·.toDto))
  | .error e => .error (.internal e)

theorem getOrderOver_self (id : String) (scan : Scan OrderRow) (db : Db) :
    getOrderOver jwt config now token id scan db db = getOrder jwt config now token id scan db := rfl

theorem getOrdersOver_self (query : OrdersController.ListQuery) (scan : Scan OrderRow) (db : Db) :
    getOrdersOver jwt config now token query scan db db =
      getOrders jwt config now token query scan db := rfl

end Requests

/-! ## One order of a user -/

section One

variable {u id : UUID} {db db' : Db}

/-- The order with this id, if it is the user's. -/
def ownOrder (u id : UUID) (db : Db) : Option Order := (db.orderById id).filter (·.userId = u)

theorem ownOrder_eq_some {o : Order} (h : ownOrder u id db = some o) :
    o ∈ db.orders ∧ o.id = id ∧ o.userId = u := by
  obtain ⟨hfind, howner⟩ := Option.filter_eq_some_iff.mp h
  exact ⟨List.mem_of_find?_eq_some hfind, by simpa using List.find?_some hfind, by simpa using howner⟩

theorem ownOrder_of_mem (hids : (db.orders.map (·.id)).Nodup) {o : Order} (ho : o ∈ db.orders)
    (howner : o.userId = u) : ownOrder u o.id db = some o := by
  obtain ⟨o', ho'⟩ : ∃ o', db.orderById o.id = some o' :=
    Option.isSome_iff_exists.mp (List.find?_isSome.mpr ⟨o, ho, by simp⟩)
  have hid : o'.id = o.id := by simpa using List.find?_some ho'
  have heq : o' = o := List.inj_on_of_nodup_map hids (List.mem_of_find?_eq_some ho') ho hid
  rw [ownOrder, ho', heq, Option.filter_some, if_pos (by simpa using howner)]

/-- The joined rows of the one order a user asks for. -/
theorem ownRows (hids : (db.orders.map (·.id)).Nodup) :
    (orderRows db).filter (fun r => TypeOrmOrdersRepository.whereOne (some id) (some u) r.1) =
      (ownOrder u id db).toList.flatMap fun o => matched o (db.itemsOf o.id) := by
  have hfilter : db.orders.filter (TypeOrmOrdersRepository.whereOne (some id) (some u)) =
      (ownOrder u id db).toList := by
    rw [ownOrder, Option.toList_filter, Db.orderById, ← filter_orderId hids, List.filter_filter]
    refine List.filter_congr fun o _ => ?_
    simp [TypeOrmOrdersRepository.whereOne, Bool.and_comm]
  rw [orderRows, leftJoin_filter, hfilter]
  rfl

/-- Nothing is read unless the order is there at both queries. -/
theorem findOneOver_missing (scan : Scan OrderRow) (hids : (db.orders.map (·.id)).Nodup)
    (hids' : (db'.orders.map (·.id)).Nodup)
    (h : ownOrder u id db = none ∨ ownOrder u id db' = none) {text owner : String}
    (htext : UUID.ofText text = some id) (howner : UUID.ofText owner = some u) :
    TypeOrmOrdersRepository.findOneOver scan { id := some text, userId := some owner } db db' =
      .ok none := by
  have hnil : scan.order [] = [] := (scan.perm []).eq_nil
  simp only [TypeOrmOrdersRepository.findOneOver, uuidParam, htext, howner, bind, Except.bind, pure,
    Except.pure, ownRows hids, ownRows hids', firstOrderOver]
  obtain hnone | hnone := h
  · simp [hnone, slice, distinctSorted, hnil, group]
  · simp [hnone, hnil, group]

/-- An order that is there at both queries is read as it is at the second. -/
theorem findOneOver_found (scan : Scan OrderRow) (hids : (db.orders.map (·.id)).Nodup)
    (hids' : (db'.orders.map (·.id)).Nodup) {o o' : Order} (h : ownOrder u id db = some o)
    (h' : ownOrder u id db' = some o') {text owner : String} (htext : UUID.ofText text = some id)
    (howner : UUID.ofText owner = some u) :
    ∃ items, items.Perm (db'.itemsOf o'.id) ∧
      TypeOrmOrdersRepository.findOneOver scan { id := some text, userId := some owner } db db' =
        .ok (some {
          id := o'.id, status := o'.status, idempotencyKey := o'.idempotencyKey
          createdAt := o'.createdAt, updatedAt := o'.updatedAt, processedAt := o'.processedAt
          items }) := by
  obtain ⟨items, hperm, hread⟩ := firstOrder_matched scan o' (db'.itemsOf o'.id)
  refine ⟨items, hperm, ?_⟩
  -- both queries name the one id
  have hids_of : ∀ (o : Order) (items : List OrderItem), o.id = id →
      distinctSorted (· ≤ ·) ((matched o items).map (·.1.id)) = [id] := by
    intro o items hid
    refine distinctSorted_const _ (by simpa using matched_ne_nil o items) fun x hx => ?_
    obtain ⟨r, hr, rfl⟩ := List.mem_map.mp hx
    rw [fst_of_mem_matched hr, hid]
  rw [firstOrder, hids_of o' _ (ownOrder_eq_some h').2.1] at hread
  simp only [TypeOrmOrdersRepository.findOneOver, uuidParam, htext, howner, bind, Except.bind, pure,
    Except.pure, ownRows hids, ownRows hids', h, h', Option.toList_some, List.flatMap_singleton,
    firstOrderOver, hids_of o _ (ownOrder_eq_some h).2.1]
  exact congrArg Except.ok hread

end One

/-! ## A page -/

section Page

variable (options : LocalFindOptions) {u : UUID} {db db' : Db}

/-- The orders of a page, as the first query finds them. -/
def window (options : LocalFindOptions) (offset : Nat) (u : UUID) (db : Db) : List Order :=
  ((newestOrders (matching options u db)).drop offset).take options.limit.toNat

theorem findOver_eq (huser : options.userId = some u.text) (scan : Scan OrderRow) :
    TypeOrmOrdersRepository.findOver scan options db db' =
      listOrdersOver scan options.limit (pageSkip options.page options.limit)
        (rowsOf db (matching options u db)) (rowsOf db' (matching options u db')) := by
  unfold TypeOrmOrdersRepository.findOver
  rw [owner_filter huser, uuidParam_text, ← orderRows_matching, ← orderRows_matching]
  rfl

/-- A page lists the orders of its window that still match at the second query, as they are then. -/
theorem findOver_page (hids : (db.orders.map (·.id)).Nodup) (hids' : (db'.orders.map (·.id)).Nodup)
    (huser : options.userId = some u.text) (scan : Scan OrderRow)
    (hlimit : 0 < options.limit ∧ options.limit < 2 ^ 63) {offset : Nat}
    (hskip : rowCount (pageSkip options.page options.limit) = .ok offset) :
    ∃ orders arranged, TypeOrmOrdersRepository.findOver scan options db db' = .ok orders ∧
      Arranges newer ((matching options u db').filter
        (·.id ∈ (window options offset u db).map (·.id))) arranged ∧
      List.Forall₂ (Shows db') arranged orders := by
  have hmatching : ((matching options u db).map (·.id)).Nodup :=
    hids.sublist (List.filter_sublist.map _)
  have hlisted : (((matching options u db').filter
      (·.id ∈ (window options offset u db).map (·.id))).map (·.id)).Nodup :=
    hids'.sublist ((List.filter_sublist.trans List.filter_sublist).map _)
  obtain ⟨arranged, harranged, hshows⟩ := group_rowsOf db' hlisted scan
  refine ⟨_, arranged, ?_, harranged, hshows⟩
  have hfilter : (rowsOf db' (matching options u db')).filter
      (fun r => r.1.id ∈ (window options offset u db).map (·.id)) =
        rowsOf db' ((matching options u db').filter
          (·.id ∈ (window options offset u db).map (·.id))) :=
    leftJoin_filter _ _ _ fun o : Order => decide (o.id ∈ (window options offset u db).map (·.id))
  have hids_eq : pageIds options.limit (pageSkip options.page options.limit)
      (rowsOf db (matching options u db)) = .ok ((window options offset u db).map (·.id)) :=
    pageIds_ok hmatching hlimit hskip
  rw [findOver_eq options huser, listOrdersOver, pageRowsOver, if_neg fun h => hlimit.1.ne' h.1,
    hids_eq, ← hfilter]
  rfl

/-- The database takes no negative number and none beyond `bigint`. -/
theorem findOver_error (huser : options.userId = some u.text) (scan : Scan OrderRow)
    (hlimit : options.limit ≠ 0)
    (h : ¬ ((0 ≤ options.limit ∧ options.limit < 2 ^ 63) ∧
      ∃ offset, rowCount (pageSkip options.page options.limit) = .ok offset)) :
    TypeOrmOrdersRepository.findOver scan options db db' = .error .other := by
  rw [findOver_eq options huser, listOrdersOver, pageRowsOver, if_neg fun h => hlimit h.1,
    pageIds_error hlimit h]
  rfl

end Page

end Ecommerce.Orders
