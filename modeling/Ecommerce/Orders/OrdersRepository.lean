import Ecommerce.Lib.Query
import Ecommerce.Orders.OrdersService

/-!
# OrdersRepository — the queries that read orders with their items

Both reads join `orders` with `order_items`.  As they limit their rows, TypeORM sends two queries: a
`SELECT DISTINCT` of the sorted ids alone, with LIMIT and OFFSET, and the joined rows of these ids,
which it groups into orders.  The first is sorted by the id last, which leaves nothing open; the rows
of the second come as the database visits them, sorted by the creation time in `find` alone.
-/

namespace Ecommerce.Orders

open Query

/-- A row of `orders LEFT JOIN order_items`. -/
abbrev OrderRow := Order × Option OrderItem

def orderRows (db : Db) : List OrderRow :=
  leftJoin (fun o i => i.orderId = o.id) db.orders db.orderItems

/-- The `FindOptionsWhere` of `findOne`: a field that is `undefined` is left out of the condition. -/
structure FindOptionsWhere where
  id : Option String
  userId : Option String
deriving DecidableEq

/-- The argument of `find`. -/
structure LocalFindOptions where
  status : OrderStatus
  userId : Option String
  page : Int
  limit : Int
  fromDate : Option Date
  toDate : Option Date
deriving DecidableEq

/-- `(page - 1) * limit`, in doubles. -/
def pageSkip (page limit : Int) : Number :=
  ((Number.ofInt page).minus (.ofInt 1)).times (.ofInt limit)

/-- An order as `find` selects it. -/
structure ListedOrder where
  id : UUID
  status : OrderStatus
  createdAt : Date
  items : List OrderItem
deriving DecidableEq

/-- A text that a query compares with a `uuid` column, when there is one. -/
def uuidParam : Option String → Except QueryError (Option UUID)
  | none => .ok none
  | some text =>
    match UUID.ofText text with
    | some id => .ok (some id)
    | none => .error .invalidText

/-- The number after LIMIT or OFFSET is a `bigint` that must not be negative. -/
def rowCount : Number → Except QueryError Nat
  | .finite q => if 0 ≤ q ∧ q < 2 ^ 63 then .ok ⌊q⌋.toNat else .error .other
  | _ => .error .other

/-- `ORDER BY created_at DESC, id ASC`. -/
def newestFirst (a b : Date × UUID) : Prop := b.1 < a.1 ∨ a.1 = b.1 ∧ a.2 ≤ b.2

instance : DecidableRel newestFirst := fun a b =>
  inferInstanceAs (Decidable (b.1 < a.1 ∨ a.1 = b.1 ∧ a.2 ≤ b.2))

/-- `ORDER BY created_at DESC` on joined rows. -/
def newerRow (a b : OrderRow) : Prop := b.1.createdAt ≤ a.1.createdAt

instance : DecidableRel newerRow := fun a b =>
  inferInstanceAs (Decidable (b.1.createdAt ≤ a.1.createdAt))

/-- The first query of `find`: LIMIT and OFFSET are left out where they are 0. -/
def pageIds (take : Int) (skip : Number) (rows : List OrderRow) : Except QueryError (List UUID) := do
  let offset ← rowCount skip
  let limit ← if take = 0 then .ok none else (rowCount (.ofInt take)).map some
  let keys := distinctSorted newestFirst (rows.map fun r => (r.1.createdAt, r.1.id))
  return (slice offset limit keys).map (·.2)

/-- The rows an order of the result is made of; a paged query is sent only when `take` or `skip` is
neither 0 nor missing. -/
def pageRows (take : Int) (skip : Number) (rows : List OrderRow) :
    Except QueryError (List OrderRow) :=
  if take = 0 ∧ skip = .ofInt 0 then .ok rows
  else do
    let ids ← pageIds take skip rows
    return rows.filter (·.1.id ∈ ids)

/-- One object of the result: the columns of its first row and the items of all of its rows. -/
def viewRows : List OrderRow → Option OrderView
  | [] => none
  | r :: rows => some {
      id := r.1.id, status := r.1.status, idempotencyKey := r.1.idempotencyKey
      createdAt := r.1.createdAt, updatedAt := r.1.updatedAt, processedAt := r.1.processedAt
      items := (r :: rows).filterMap (·.2) }

def listRows : List OrderRow → Option ListedOrder
  | [] => none
  | r :: rows => some {
      id := r.1.id, status := r.1.status, createdAt := r.1.createdAt
      items := (r :: rows).filterMap (·.2) }

/-- The two queries of `findOne` on the rows that meet its condition: it takes one order. -/
def firstOrder (scan : Scan OrderRow) (rows : List OrderRow) : Option OrderView :=
  let ids := slice 0 (some 1) (distinctSorted (· ≤ ·) (rows.map (·.1.id)))
  ((group (·.1.id) (scan.order (rows.filter (·.1.id ∈ ids)))).filterMap viewRows).head?

/-- The queries of `find` on the rows that meet its condition. -/
def listOrders (scan : Scan OrderRow) (take : Int) (skip : Number) (rows : List OrderRow) :
    Except QueryError (List ListedOrder) := do
  let page ← pageRows take skip rows
  return (group (·.1.id) ((scan.order page).insertionSort newerRow)).filterMap listRows

namespace TypeOrmOrdersRepository

/-- The condition of `findOne`. -/
def whereOne (id userId : Option UUID) (o : Order) : Bool :=
  id.all (o.id = ·) && userId.all (o.userId = ·)

def findOne (scan : Scan OrderRow) (options : FindOptionsWhere) (db : Db) :
    Except QueryError (Option OrderView) := do
  let id ← uuidParam options.id
  let userId ← uuidParam options.userId
  return firstOrder scan ((orderRows db).filter fun r => whereOne id userId r.1)

/-- The condition of `find`, where `userId` has been read as a `uuid`. -/
def whereMany (options : LocalFindOptions) (userId : Option UUID) (o : Order) : Bool :=
  decide (o.status = options.status) && userId.all (o.userId = ·) &&
    options.fromDate.all (· ≤ o.createdAt) && options.toDate.all (o.createdAt ≤ ·)

def find (scan : Scan OrderRow) (options : LocalFindOptions) (db : Db) :
    Except QueryError (List ListedOrder) := do
  -- `if (userId)`: the empty string is false too
  let userId ← uuidParam (options.userId.filter (· ≠ ""))
  listOrders scan options.limit (pageSkip options.page options.limit)
    ((orderRows db).filter fun r => whereMany options userId r.1)

end TypeOrmOrdersRepository

/-! ## What the answers depend on -/

instance : Std.Antisymm newestFirst where
  antisymm a b h h' := by
    rcases h with hlt | ⟨htime, hle⟩
    · rcases h' with hlt' | ⟨htime', -⟩
      · exact absurd hlt' (lt_asymm hlt)
      · exact absurd htime' hlt.ne
    · rcases h' with hlt' | ⟨-, hle'⟩
      · exact absurd htime hlt'.ne
      · exact Prod.ext htime (UUID.le_antisymm hle hle')

instance : Std.Total newestFirst where
  total a b := by
    rcases lt_trichotomy a.1 b.1 with hlt | heq | hgt
    · exact .inr (.inl hlt)
    · rcases UUID.le_total a.2 b.2 with hle | hle
      · exact .inl (.inr ⟨heq, hle⟩)
      · exact .inr (.inr ⟨heq.symm, hle⟩)
    · exact .inl (.inl hgt)

instance : IsTrans (Date × UUID) newestFirst where
  trans a b c h h' := by
    rcases h with hlt | ⟨htime, hle⟩
    · rcases h' with hlt' | ⟨htime', -⟩
      · exact .inl (hlt'.trans hlt)
      · exact .inl (htime' ▸ hlt)
    · rcases h' with hlt' | ⟨htime', hle'⟩
      · exact .inl (htime ▸ hlt')
      · exact .inr ⟨htime.trans htime', UUID.le_trans hle hle'⟩

/-- The ids of a page do not depend on the order of the rows. -/
theorem pageIds_perm (take : Int) (skip : Number) {rows rows' : List OrderRow} (h : rows.Perm rows') :
    pageIds take skip rows = pageIds take skip rows' := by
  unfold pageIds
  rw [distinctSorted_perm newestFirst (h.map fun r => (r.1.createdAt, r.1.id))]

/-- A page is refused whatever the order of the rows, or has the same rows up to their order. -/
theorem pageRows_perm (take : Int) (skip : Number) {rows rows' : List OrderRow}
    (h : rows.Perm rows') :
    (∃ e, pageRows take skip rows = .error e ∧ pageRows take skip rows' = .error e) ∨
    ∃ page page', pageRows take skip rows = .ok page ∧ pageRows take skip rows' = .ok page' ∧
      page.Perm page' := by
  unfold pageRows
  split
  · exact .inr ⟨rows, rows', rfl, rfl, h⟩
  · rw [pageIds_perm take skip h]
    cases pageIds take skip rows' with
    | error e => exact .inl ⟨e, rfl, rfl⟩
    | ok ids => exact .inr ⟨_, _, rfl, rfl, h.filter _⟩

/-- What one table may answer, the same rows in another order may answer. -/
theorem firstOrder_perm (scan : Scan OrderRow) {rows rows' : List OrderRow}
    (h : rows.Perm rows') : ∃ scan', firstOrder scan' rows' = firstOrder scan rows := by
  have hids := distinctSorted_perm (· ≤ ·) (h.map (·.1.id))
  have hload := h.filter
    (·.1.id ∈ slice 0 (some 1) (distinctSorted (· ≤ ·) (rows'.map (·.1.id))))
  refine ⟨scan.follow hload, ?_⟩
  simp only [firstOrder, hids, Scan.follow_order]

theorem listOrders_perm (scan : Scan OrderRow) (take : Int) (skip : Number)
    {rows rows' : List OrderRow} (h : rows.Perm rows') :
    ∃ scan', listOrders scan' take skip rows' = listOrders scan take skip rows := by
  unfold listOrders
  rcases pageRows_perm take skip h with ⟨e, herr, herr'⟩ | ⟨page, page', hpage, hpage', hperm⟩
  · refine ⟨scan, ?_⟩
    rw [herr, herr']
  · refine ⟨scan.follow hperm, ?_⟩
    rw [hpage, hpage']
    show Except.ok _ = Except.ok _
    rw [Scan.follow_order]

/-! ## One order by its id -/

/-- The order `findOne` makes of the joined rows of one order. -/
theorem firstOrder_matched (scan : Scan OrderRow) (o : Order) (items : List OrderItem) :
    ∃ items', items'.Perm items ∧ firstOrder scan (matched o items) = some {
      id := o.id, status := o.status, idempotencyKey := o.idempotencyKey, createdAt := o.createdAt
      updatedAt := o.updatedAt, processedAt := o.processedAt, items := items' } := by
  have hid : ∀ r ∈ matched o items, r.1.id = o.id := fun r hr => by rw [fst_of_mem_matched hr]
  have hids : distinctSorted (· ≤ ·) ((matched o items).map (·.1.id)) = [o.id] := by
    refine distinctSorted_const _ (by simpa using matched_ne_nil o items) fun x hx => ?_
    obtain ⟨r, hr, rfl⟩ := List.mem_map.mp hx
    exact hid r hr
  -- all rows are those of one order, the only one on the page
  have hall : (matched o items).filter (·.1.id ∈ slice 0 (some 1) [o.id]) = matched o items := by
    rw [List.filter_eq_self]
    intro r hr
    simp [slice, hid r hr]
  have hperm := scan.perm (matched o items)
  have hgroup : group (·.1.id) (scan.order (matched o items)) = [scan.order (matched o items)] :=
    group_const (fun hnil => matched_ne_nil o items (List.nil_perm.mp (hnil ▸ hperm)))
      fun r hr => hid r (hperm.mem_iff.mp hr)
  refine ⟨(scan.order (matched o items)).filterMap (·.2), ?_, ?_⟩
  · have hitems := hperm.filterMap (·.2)
    rwa [filterMap_matched] at hitems
  · simp only [firstOrder, hids, hall, hgroup]
    cases hrows : scan.order (matched o items) with
    | nil =>
      rw [hrows] at hperm
      exact absurd (List.nil_perm.mp hperm) (matched_ne_nil o items)
    | cons r rows =>
      have hr : r.1 = o := fst_of_mem_matched (hperm.mem_iff.mp (hrows ▸ List.mem_cons_self))
      simp [viewRows, hr]

theorem uuidParam_text (u : UUID) : uuidParam (some u.text) = .ok (some u) := by
  simp only [uuidParam, UUID.ofText_text]

/-- A user id counts as given: it is not the empty text. -/
theorem owner_filter {options : LocalFindOptions} {u : UUID} (huser : options.userId = some u.text) :
    options.userId.filter (· ≠ "") = some u.text := by
  rw [huser, Option.filter_some, if_pos (by simpa using u.text_ne_empty)]

/-- At most one row has a given id. -/
theorem filter_orderId {os : List Order} (h : (os.map (·.id)).Nodup) (id : UUID) :
    os.filter (·.id = id) = (os.find? (·.id = id)).toList := by
  induction os with
  | nil => rfl
  | cons o os ih =>
    rw [List.map_cons, List.nodup_cons] at h
    by_cases ho : o.id = id
    · have hrest : os.filter (·.id = id) = [] := by
        refine List.filter_eq_nil_iff.mpr fun o' ho' => ?_
        have hne : o'.id ≠ o.id := fun heq => h.1 (heq ▸ List.mem_map_of_mem ho')
        simpa [ho] using hne
      rw [List.filter_cons_of_pos (by simpa using ho), hrest,
        List.find?_cons_of_pos (by simpa using ho), Option.toList_some]
    · rw [List.filter_cons_of_neg (by simpa using ho), ih h.2,
        List.find?_cons_of_neg (by simpa using ho)]

/-- What `createOrder` reads again is what the repository's queries answer. -/
theorem findOne_createOrder (scan : Scan OrderRow) (ch : Choices) {db : Db}
    (h : (db.orders.map (·.id)).Nodup) (id : UUID) :
    ∃ joined : Scan OrderItem,
      TypeOrmOrdersRepository.findOne scan { id := some id.text, userId := none } db =
        .ok (findOne { ch with joined := joined.order, joined_perm := joined.perm } db id) := by
  have hrows : (orderRows db).filter (fun r => TypeOrmOrdersRepository.whereOne (some id) none r.1) =
      (db.orderById id).toList.flatMap fun o => matched o (db.itemsOf o.id) := by
    rw [orderRows, leftJoin_filter]
    -- the owner is not asked for
    have hfilter : db.orders.filter (TypeOrmOrdersRepository.whereOne (some id) none) =
        db.orders.filter (·.id = id) := by
      refine List.filter_congr fun o _ => ?_
      simp [TypeOrmOrdersRepository.whereOne]
    rw [hfilter, filter_orderId h]
    rfl
  unfold TypeOrmOrdersRepository.findOne findOne
  rw [uuidParam_text]
  show ∃ joined : Scan OrderItem, Except.ok (firstOrder scan _) = _
  rw [hrows]
  cases db.orderById id with
  | none =>
    have hnil : scan.order [] = [] := (scan.perm []).eq_nil
    refine ⟨⟨fun items => items, fun items => .refl items⟩, ?_⟩
    simp [firstOrder, hnil, group]
  | some o =>
    obtain ⟨items', hperm, heq⟩ := firstOrder_matched scan o (db.itemsOf o.id)
    refine ⟨.yielding hperm, ?_⟩
    rw [Option.toList_some, List.flatMap_singleton, heq]
    simp only [Option.map_some, viewOrder, Scan.yielding_order]

end Ecommerce.Orders
