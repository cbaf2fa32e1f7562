import Mathlib.Data.List.Dedup
import Ecommerce.Common.IsUuid
import Ecommerce.Orders.OrderContents

/-!
# Decision — what `createOrder` makes of a new request

The service compares the number of lines with the number of locked rows, and reads each row's
quantity under the text of its id.  The first is right while no id is repeated, the second while the
ids have the letter case in which the database returns them.
-/

namespace Ecommerce.Orders

/-! ## The items -/

/-- `@IsUUID()`, `@IsInt()` and `@Min(1)`. -/
def OrderItemDto.accepted (i : OrderItemDto) : Bool := UUID.isUUID i.id && 1 ≤ i.qty

/-- The body whose `items` are these. -/
def CreateOrderDto.ofItems (items : List OrderItemDto) : CreateOrderDto where
  items := .array (items.map .item)

def OrderItemDto.line (i : OrderItemDto) : Line where
  id := some i.id
  qty := some i.qty

/-- The uuid an accepted text stands for. -/
def OrderItemDto.uuid (i : OrderItemDto) : UUID := (UUID.ofText i.id).getD (.ofNat 0)

def OrderItemDto.pair (i : OrderItemDto) : UUID × Nat := (i.uuid, i.qty)

theorem accepted_ofText {i : OrderItemDto} (h : i.accepted = true) :
    UUID.ofText i.id = some i.uuid ∧ (i.uuid.text = i.id ↔ UUID.hasUpper i.id = false) := by
  obtain ⟨u, hread, htext⟩ := UUID.ofText_isUUID (Bool.and_eq_true_iff.mp h).1
  have huuid : i.uuid = u := by rw [OrderItemDto.uuid, hread, Option.getD_some]
  rw [huuid]
  exact ⟨hread, htext⟩

section Items

variable {items : List OrderItemDto}

theorem lines_ofItems (items : List OrderItemDto) :
    (CreateOrderDto.ofItems items).lines = .ok (items.map OrderItemDto.line) := by
  show ItemValue.lines (items.map .item) = _
  induction items with
  | nil => rfl
  | cons i items ih => simp only [List.map_cons, ItemValue.lines, ItemValue.line, ih]; rfl

theorem asked_ofItems (hok : ∀ i ∈ items, i.accepted = true) :
    (CreateOrderDto.ofItems items).asked = some (items.map OrderItemDto.pair) := by
  rw [CreateOrderDto.asked_of_lines (lines_ofItems items)]
  have hline : ∀ i ∈ items, i.line.asked = some i.pair := by
    intro i hi
    simp [Line.asked, OrderItemDto.line, (accepted_ofText (hok i hi)).1, OrderItemDto.pair]
  rw [mapM_eq_filterMap, List.filterMap_map, ← List.filterMap_eq_map]
  · exact congrArg some (List.filterMap_congr hline)
  · intro l hl
    obtain ⟨i, hi, rfl⟩ := List.mem_map.mp hl
    rw [hline i hi]
    rfl

theorem mapM_ofItems (hok : ∀ i ∈ items, i.accepted = true) :
    (items.map (·.id)).mapM UUID.ofText = some (items.map OrderItemDto.uuid) := by
  rw [mapM_eq_filterMap, List.filterMap_map, ← List.filterMap_eq_map]
  · exact congrArg some (List.filterMap_congr fun i hi => (accepted_ofText (hok i hi)).1)
  · intro t ht
    obtain ⟨i, hi, rfl⟩ := List.mem_map.mp ht
    rw [(accepted_ofText (hok i hi)).1]
    rfl

theorem idParams_ofItems (hok : ∀ i ∈ items, i.accepted = true) (hne : items ≠ []) :
    idParams (items.map OrderItemDto.line) = .ok (items.map OrderItemDto.uuid) := by
  have htexts : (items.map OrderItemDto.line).filterMap (·.id) = items.map (·.id) := by
    rw [List.filterMap_map, ← List.filterMap_eq_map]
    rfl
  have hempty : (items.map OrderItemDto.line).isEmpty = false := by
    rw [List.isEmpty_eq_false_iff, ne_eq, List.map_eq_nil_iff]
    exact hne
  simp only [idParams, hempty, Bool.false_eq_true, if_false, htexts,
    mapM_ofItems hok]

/-- Where no product is named twice, a product finds the quantity of its item under a lower-case id
and nothing under another one. -/
theorem qtyOf_ofItems (hok : ∀ i ∈ items, i.accepted = true)
    (hnodup : (items.map OrderItemDto.uuid).Nodup) {i : OrderItemDto} (hi : i ∈ items) :
    qtyOf (items.map OrderItemDto.line) i.uuid =
      if UUID.hasUpper i.id then none else some i.qty := by
  obtain ⟨hread, htext⟩ := accepted_ofText (hok i hi)
  split
  · next hupper =>
    rw [← Option.not_isSome_iff_eq_none, Option.isSome_iff_exists]
    rintro ⟨q, hq⟩
    obtain ⟨j, hj, hline⟩ := List.mem_map.mp (mem_of_qtyOf hq)
    have hid : j.id = i.uuid.text := Option.some.inj (congrArg Line.id hline)
    -- two items with one id are the same item, and a printed id has no upper case
    have hsame : j = i := by
      apply List.inj_on_of_nodup_map hnodup hj hi
      rw [OrderItemDto.uuid, hid, UUID.ofText_text, Option.getD_some]
    have hprinted : i.uuid.text = i.id := by
      rw [← hid, hsame]
    rw [htext.mp hprinted] at hupper
    cases hupper
  · next hlower =>
    rw [Bool.not_eq_true] at hlower
    have hid : i.uuid.text = i.id := htext.mpr hlower
    apply qtyOf_of_mem
    · -- distinct uuids come from distinct texts
      have hids : ((items.map OrderItemDto.line).map (·.id)).map
          (fun t => (t.bind UUID.ofText).getD (.ofNat 0)) = items.map OrderItemDto.uuid := by
        rw [List.map_map, List.map_map]
        rfl
      rw [← hids] at hnodup
      exact hnodup.of_map
    · rw [hid]
      exact List.mem_map_of_mem hi

end Items

/-! ## The locked rows -/

section Rows

variable {ch : Choices} {db : Db} {ids : List UUID}

theorem findByIds_ids (hv : (db.products.map (·.id)).Nodup) :
    (findByIds ch db ids).map (·.id) = ch.scan (db.matchingIds ids) := by
  have hrow : ∀ id ∈ ch.scan (db.matchingIds ids), (db.product? id).map (·.id) = some id := by
    intro id hid
    obtain ⟨-, p, hp, rfl⟩ := Db.mem_matchingIds.mp ((ch.scan_perm _).mem_iff.mp hid)
    rw [Db.product?_of_mem hv hp, Option.map_some]
  rw [findByIds, List.map_filterMap, List.filterMap_congr hrow, List.filterMap_some]

theorem mem_findByIds (hv : (db.products.map (·.id)).Nodup) {p : Product} :
    p ∈ findByIds ch db ids ↔ p ∈ db.products ∧ p.id ∈ ids := by
  rw [findByIds, List.mem_filterMap]
  constructor
  · rintro ⟨id, hid, hp⟩
    have hmem := Db.mem_matchingIds.mp ((ch.scan_perm _).mem_iff.mp hid)
    have hpid : p.id = id := by simpa using List.find?_some hp
    rw [hpid]
    exact ⟨List.mem_of_find?_eq_some hp, hmem.1⟩
  · rintro ⟨hp, hid⟩
    refine ⟨p.id, (ch.scan_perm _).mem_iff.mpr ?_, Db.product?_of_mem hv hp⟩
    exact Db.mem_matchingIds.mpr ⟨hid, p, hp, rfl⟩

/-- The distinct ids that no product has. -/
def missingIds (db : Db) (ids : List UUID) : List UUID :=
  ids.dedup.filter fun id => id ∉ db.products.map (·.id)

/-- The rows and the missing ids make up the distinct ids. -/
theorem findByIds_length (ch : Choices) (ids : List UUID) (hv : (db.products.map (·.id)).Nodup) :
    (findByIds ch db ids).length + (missingIds db ids).length = ids.dedup.length := by
  have hfound : (db.matchingIds ids).Perm (ids.dedup.filter fun id => id ∈ db.products.map (·.id)) := by
    rw [List.perm_ext_iff_of_nodup (Db.matchingIds_nodup hv ids) (ids.nodup_dedup.filter _)]
    intro id
    rw [Db.mem_matchingIds, List.mem_filter, List.mem_dedup, decide_eq_true_eq, List.mem_map]
  have hrows : (findByIds ch db ids).length =
      (ids.dedup.filter fun id => id ∈ db.products.map (·.id)).length := by
    rw [← hfound.length_eq, ← (ch.scan_perm _).length_eq, ← findByIds_ids hv, List.length_map]
  rw [hrows, missingIds]
  have hsplit := List.length_eq_length_filter_add (l := ids.dedup)
    (fun id => decide (id ∈ db.products.map (·.id)))
  rw [hsplit]
  simp only [decide_not]

end Rows

/-! ## The loop and the writes -/

section Loop

variable {lines : List Line} {orderId : UUID} {ps : List Product}

/-- The loop stops at a row with too little stock, and only there. -/
theorem fillItems_stops {e : Failure} (h : fillItems lines orderId ps = .error e) :
    ∃ p ∈ ps, ∃ q, qtyOf lines p.id = some q ∧ p.stock < q ∧
      e = .domain (.notEnoughItemsInStock p.id q p.stock) := by
  induction ps with
  | nil => cases h
  | cons p ps ih =>
    rw [fillItems] at h
    split at h
    · next hshort =>
      cases hq : qtyOf lines p.id with
      | none =>
        rw [hq] at hshort
        cases hshort
      | some q =>
        rw [hq] at hshort h
        exact ⟨p, List.mem_cons_self, q, hq, of_decide_eq_true hshort, (Except.error.inj h).symm⟩
    · split at h
      · cases h
      · next hrest =>
        rw [Except.error.injEq] at h
        obtain ⟨p', hp', hfound⟩ := ih (h ▸ hrest)
        exact ⟨p', List.mem_cons_of_mem _ hp', hfound⟩

theorem saveItems_of_qty {is : List PartialItem} (h : ∀ i ∈ is, i.qty ≠ none) :
    ∃ items, saveItems is = .ok items := by
  induction is with
  | nil => exact ⟨[], rfl⟩
  | cons i is ih =>
    obtain ⟨q, hq⟩ := Option.ne_none_iff_exists'.mp (h i List.mem_cons_self)
    obtain ⟨items, hitems⟩ := ih fun j hj => h j (List.mem_cons_of_mem _ hj)
    exact ⟨_, by rw [saveItems, hq, hitems]⟩

theorem saveItems_of_missing {is : List PartialItem} (h : ∃ i ∈ is, i.qty = none) :
    saveItems is = .error (.query .notNullViolation) := by
  cases hsave : saveItems is with
  | ok items =>
    obtain ⟨i, hi, hnone⟩ := h
    rw [saveItems_ok hsave] at hi
    obtain ⟨item, -, rfl⟩ := List.mem_map.mp hi
    cases hnone
  | error e =>
    cases is with
    | nil => cases hsave
    | cons i is =>
      rw [saveItems] at hsave
      split at hsave
      · cases hsave
      · exact hsave.symm

theorem saveProducts_of_stock {us : List StockUpdate} (h : ∀ u ∈ us, u.stock ≠ none) :
    ∃ stocks, saveProducts us = .ok stocks := by
  induction us with
  | nil => exact ⟨[], rfl⟩
  | cons u us ih =>
    obtain ⟨n, hn⟩ := Option.ne_none_iff_exists'.mp (h u List.mem_cons_self)
    obtain ⟨stocks, hstocks⟩ := ih fun v hv => h v (List.mem_cons_of_mem _ hv)
    exact ⟨_, by rw [saveProducts, hn, hstocks]⟩

/-- The order a transaction has inserted is there when it reads again. -/
theorem findOne_apply (ch : Choices) (db : Db) (tx : Tx) :
    ∃ v, findOne ch (db.apply tx) tx.order.id = some v := by
  have hsome : ((db.apply tx).orderById tx.order.id).isSome = true := by
    rw [Db.orderById, List.find?_isSome]
    exact ⟨tx.order, List.mem_append_right _ (List.mem_singleton_self _), by simp⟩
  obtain ⟨o, ho⟩ := Option.isSome_iff_exists.mp hsome
  exact ⟨_, by rw [findOne, ho, Option.map_some]⟩

end Loop

/-! ## The decision -/

/-- The total quantity asked of a product. -/
def totalAsked (asked : List (UUID × Nat)) (id : UUID) : Nat :=
  ((asked.filter (·.1 = id)).map (·.2)).sum

/-- A requested product of which more is asked than there is. -/
structure Short (db : Db) (asked : List (UUID × Nat)) (p : Product) : Prop where
  product : p ∈ db.products
  requested : p.id ∈ asked.map (·.1)
  exceeds : p.stock < totalAsked asked p.id

/-- How a request for these pairs is to end on `db`, the database after it included. -/
structure DecidedCorrectly (db : Db) (asked : List (UUID × Nat)) (r : Db × Outcome) : Prop where
  missing : missingIds db (asked.map (·.1)) ≠ [] →
    r = (db, .rejected (.domain (.cannotFindProducts (missingIds db (asked.map (·.1))).length)))
  short : missingIds db (asked.map (·.1)) = [] → (∃ p, Short db asked p) →
    ∃ p q, Short db asked p ∧
      r = (db, .rejected (.domain (.notEnoughItemsInStock p.id q p.stock)))
  enough : missingIds db (asked.map (·.1)) = [] → (¬ ∃ p, Short db asked p) →
    ∃ tx v, r = (db.apply tx, .created v)

section Decision

variable {req : Request} {ch : Choices} {db : Db} {items : List OrderItemDto}

/-- The rows a request for these items locks. -/
def lockedRows (ch : Choices) (db : Db) (items : List OrderItemDto) : List Product :=
  findByIds ch db (items.map OrderItemDto.uuid)

/-- On a new pair the call comes to its comparison of the lengths. -/
theorem createOrder_new (hitems : req.dto = .ofItems items) (hne : items ≠ [])
    (hok : ∀ i ∈ items, i.accepted = true) {pair : UUID × UUID} (hpair : req.pair = some pair)
    (hnew : db.orderByKey pair = none) :
    ∃ order, createOrder req ch db =
      txOutcome db (fillRows req ch db order (lockedRows ch db items)) := by
  obtain ⟨key, hkey, rfl⟩ := Option.map_eq_some_iff.mp hpair
  have hids : req.ids = .ok (items.map OrderItemDto.uuid) := by
    rw [Request.ids, hitems, lines_ofItems]
    exact idParams_ofItems hok hne
  refine ⟨newOrder req ch key, ?_⟩
  rw [createOrder, hkey]
  simp only [hnew, fillOrder, hids]
  rfl

theorem check_ofItems (hitems : req.dto = .ofItems items) (orderId : UUID) (rows : List Product) :
    req.check orderId rows = checkProducts (items.map OrderItemDto.line) orderId rows := by
  rw [Request.check, hitems, lines_ofItems]

variable {order : Order} {rows : List Product}

theorem fillRows_missing (hitems : req.dto = .ofItems items) (hlen : rows.length ≠ items.length) :
    fillRows req ch db order rows =
      .error (.domain (.cannotFindProducts ((items.length : Int) - rows.length))) := by
  rw [fillRows, check_ofItems hitems, checkProducts, List.length_map, if_pos hlen]
  rfl

theorem fillRows_stops (hitems : req.dto = .ofItems items) (hlen : rows.length = items.length)
    {e : Failure} (hloop : fillItems (items.map OrderItemDto.line) order.id rows = .error e) :
    fillRows req ch db order rows = .error e := by
  rw [fillRows, check_ofItems hitems, checkProducts, List.length_map, if_neg (not_not.mpr hlen),
    hloop]
  rfl

theorem fillRows_refused (hitems : req.dto = .ofItems items) (hlen : rows.length = items.length)
    {partialItems : List PartialItem} {products : List StockUpdate}
    (hloop : fillItems (items.map OrderItemDto.line) order.id rows = .ok (partialItems, products))
    (hqty : ∃ r ∈ rows, qtyOf (items.map OrderItemDto.line) r.id = none) :
    fillRows req ch db order rows = .error (.query .notNullViolation) := by
  have hsave : saveItems partialItems = .error (.query .notNullViolation) := by
    apply saveItems_of_missing
    obtain ⟨r, hr, hnone⟩ := hqty
    rw [(fillItems_ok hloop).1]
    exact ⟨_, List.mem_map_of_mem hr, hnone⟩
  rw [fillRows, check_ofItems hitems, checkProducts, List.length_map, if_neg (not_not.mpr hlen),
    hloop]
  simp only [bind, Except.bind, hsave]

theorem fillRows_filled (hitems : req.dto = .ofItems items) (hlen : rows.length = items.length)
    {partialItems : List PartialItem} {products : List StockUpdate}
    (hloop : fillItems (items.map OrderItemDto.line) order.id rows = .ok (partialItems, products))
    (hqty : ∀ r ∈ rows, qtyOf (items.map OrderItemDto.line) r.id ≠ none) :
    ∃ tx v, fillRows req ch db order rows = .ok (tx, v) := by
  obtain ⟨hitemsOf, hproducts, -⟩ := fillItems_ok hloop
  obtain ⟨is, his⟩ : ∃ is, saveItems partialItems = .ok is := by
    apply saveItems_of_qty
    intro i hi
    rw [hitemsOf] at hi
    obtain ⟨r, hr, rfl⟩ := List.mem_map.mp hi
    exact hqty r hr
  obtain ⟨stocks, hstocks⟩ : ∃ stocks, saveProducts products = .ok stocks := by
    apply saveProducts_of_stock
    intro u hu
    rw [hproducts] at hu
    obtain ⟨r, hr, rfl⟩ := List.mem_map.mp hu
    obtain ⟨q, hq⟩ := Option.ne_none_iff_exists'.mp (hqty r hr)
    simp [hq]
  obtain ⟨v, hv⟩ := findOne_apply ch db { order, rows, items := is, stocks }
  refine ⟨{ order, rows, items := is, stocks }, v, ?_⟩
  rw [fillRows, check_ofItems hitems, checkProducts, List.length_map, if_neg (not_not.mpr hlen),
    hloop]
  simp only [bind, Except.bind, his, hstocks, hv]
  rfl

/-! ### Both ways -/

theorem pairs_ids (items : List OrderItemDto) :
    (items.map OrderItemDto.pair).map (·.1) = items.map OrderItemDto.uuid := by
  rw [List.map_map]
  rfl

-- Where no product is named twice, the total is the quantity of the one line.
theorem totalAsked_of_mem (hnodup : (items.map OrderItemDto.uuid).Nodup) {i : OrderItemDto}
    (hi : i ∈ items) : totalAsked (items.map OrderItemDto.pair) i.uuid = i.qty := by
  induction items with
  | nil => cases hi
  | cons j items ih =>
    rw [List.map_cons, List.nodup_cons] at hnodup
    rcases List.mem_cons.mp hi with rfl | hmem
    · have hrest : (items.map OrderItemDto.pair).filter (·.1 = i.uuid) = [] := by
        rw [List.filter_eq_nil_iff]
        intro a ha
        obtain ⟨k, hk, rfl⟩ := List.mem_map.mp ha
        have hne : k.uuid ≠ i.uuid := fun heq => hnodup.1 (heq ▸ List.mem_map_of_mem hk)
        exact fun h => hne (of_decide_eq_true h)
      rw [totalAsked, List.map_cons, List.filter_cons_of_pos (by simp [OrderItemDto.pair]), hrest]
      simp [OrderItemDto.pair]
    · have hne : j.uuid ≠ i.uuid := fun heq => hnodup.1 (heq ▸ List.mem_map_of_mem hmem)
      have hskip : ¬ decide (j.pair.1 = i.uuid) = true := fun h => hne (of_decide_eq_true h)
      rw [totalAsked, List.map_cons, List.filter_cons_of_neg
        (p := fun a : UUID × Nat => decide (a.1 = i.uuid)) hskip]
      exact ih hnodup.2 hmem

/-- The item's id is in lower case and its product has too little stock. -/
def ShortLower (db : Db) (i : OrderItemDto) : Prop :=
  UUID.hasUpper i.id = false ∧ ∃ p ∈ db.products, UUID.ofText i.id = some p.id ∧ p.stock < i.qty

/-- The lengths are equal just when no product is named twice and none is missing. -/
theorem lockedRows_length (hv : (db.products.map (·.id)).Nodup) :
    (lockedRows ch db items).length = items.length ↔
      (items.map OrderItemDto.uuid).Nodup ∧ missingIds db (items.map OrderItemDto.uuid) = [] := by
  have hcount := findByIds_length ch (items.map OrderItemDto.uuid) hv
  have hdedup := (items.map OrderItemDto.uuid).dedup_sublist
  have hle := hdedup.length_le
  rw [List.length_map] at hle
  rw [lockedRows, ← List.dedup_eq_self, ← List.length_eq_zero_iff]
  constructor
  · intro hlen
    constructor
    · apply hdedup.eq_of_length
      rw [List.length_map]
      omega
    · omega
  · rintro ⟨hnodup, hnone⟩
    rw [hnodup, List.length_map] at hcount
    omega

-- A row of the locked ones is the product of an item, and that item alone.
theorem item_of_row (hv : (db.products.map (·.id)).Nodup) {p : Product}
    (hp : p ∈ lockedRows ch db items) : p ∈ db.products ∧ ∃ i ∈ items, i.uuid = p.id := by
  obtain ⟨hmem, hid⟩ := (mem_findByIds hv).mp hp
  exact ⟨hmem, List.mem_map.mp hid⟩

theorem row_of_item (hv : (db.products.map (·.id)).Nodup)
    (hnone : missingIds db (items.map OrderItemDto.uuid) = []) {i : OrderItemDto} (hi : i ∈ items) :
    ∃ p ∈ lockedRows ch db items, p.id = i.uuid := by
  have hmem : i.uuid ∈ items.map OrderItemDto.uuid := List.mem_map_of_mem hi
  have hexists : i.uuid ∈ db.products.map (·.id) := by
    by_contra hmissing
    have hin : i.uuid ∈ missingIds db (items.map OrderItemDto.uuid) :=
      List.mem_filter.mpr ⟨List.mem_dedup.mpr hmem, decide_eq_true hmissing⟩
    rw [hnone] at hin
    cases hin
  obtain ⟨p, hp, hid⟩ := List.mem_map.mp hexists
  exact ⟨p, (mem_findByIds hv).mpr ⟨hp, hid ▸ hmem⟩, hid⟩

/-- Where no product is named twice, the short products are those of single items. -/
theorem short_iff (hnodup : (items.map OrderItemDto.uuid).Nodup) {p : Product} :
    Short db (items.map OrderItemDto.pair) p ↔
      p ∈ db.products ∧ ∃ i ∈ items, i.uuid = p.id ∧ p.stock < i.qty := by
  constructor
  · intro h
    have hmem := h.requested
    rw [pairs_ids] at hmem
    obtain ⟨i, hi, hid⟩ := List.mem_map.mp hmem
    have hlt := h.exceeds
    rw [← hid, totalAsked_of_mem hnodup hi] at hlt
    exact ⟨h.product, i, hi, hid, hlt⟩
  · rintro ⟨hp, i, hi, hid, hlt⟩
    constructor
    · exact hp
    · rw [pairs_ids, ← hid]
      exact List.mem_map_of_mem hi
    · rwa [← hid, totalAsked_of_mem hnodup hi]

/-- The loop stops at the row of a line in lower case that asks for too much. -/
theorem stopped_at (hv : (db.products.map (·.id)).Nodup) (hok : ∀ i ∈ items, i.accepted = true)
    (hnodup : (items.map OrderItemDto.uuid).Nodup) {orderId : UUID} {e : Failure}
    (hloop : fillItems (items.map OrderItemDto.line) orderId (lockedRows ch db items) = .error e) :
    ∃ p ∈ db.products, ∃ i ∈ items, i.uuid = p.id ∧ UUID.hasUpper i.id = false ∧ p.stock < i.qty ∧
      e = .domain (.notEnoughItemsInStock p.id i.qty p.stock) := by
  obtain ⟨p, hp, q, hq, hlt, rfl⟩ := fillItems_stops hloop
  obtain ⟨hmem, i, hi, hid⟩ := item_of_row hv hp
  rw [← hid, qtyOf_ofItems hok hnodup hi] at hq
  split at hq
  · cases hq
  · next hlower =>
    rw [Bool.not_eq_true] at hlower
    have hqty : i.qty = q := Option.some.inj hq
    subst hqty
    exact ⟨p, hmem, i, hi, hid, hlower, hlt, rfl⟩

/-- The loop stops if and only if an item with a lower-case id is short. -/
theorem loop_stops_iff (hv : (db.products.map (·.id)).Nodup)
    (hok : ∀ i ∈ items, i.accepted = true) (hnodup : (items.map OrderItemDto.uuid).Nodup)
    (orderId : UUID) :
    (∃ e, fillItems (items.map OrderItemDto.line) orderId (lockedRows ch db items) = .error e) ↔
      ∃ i ∈ items, ShortLower db i := by
  constructor
  · rintro ⟨e, he⟩
    obtain ⟨p, hp, i, hi, hid, hlower, hlt, -⟩ := stopped_at hv hok hnodup he
    refine ⟨i, hi, hlower, p, hp, ?_, hlt⟩
    rw [(accepted_ofText (hok i hi)).1, hid]
  · rintro ⟨i, hi, hlower, p, hp, hread, hlt⟩
    have hid : i.uuid = p.id := by rw [OrderItemDto.uuid, hread, Option.getD_some]
    cases hloop : fillItems (items.map OrderItemDto.line) orderId (lockedRows ch db items) with
    | error e => exact ⟨e, rfl⟩
    | ok r =>
      have hrow : p ∈ lockedRows ch db items :=
        (mem_findByIds hv).mpr ⟨hp, hid ▸ List.mem_map_of_mem hi⟩
      have hqty : qtyOf (items.map OrderItemDto.line) p.id = some i.qty := by
        rw [← hid, qtyOf_ofItems hok hnodup hi, hlower]
        rfl
      -- had the loop gone through, the stock would have sufficed
      have henough := (fillItems_ok hloop).2.2 p hrow i.qty hqty
      omega

theorem passed_enough (hv : (db.products.map (·.id)).Nodup) (hok : ∀ i ∈ items, i.accepted = true)
    (hnodup : (items.map OrderItemDto.uuid).Nodup) {orderId : UUID}
    {r : List PartialItem × List StockUpdate} (hloop : fillItems (items.map OrderItemDto.line)
      orderId (lockedRows ch db items) = .ok r) : ¬ ∃ i ∈ items, ShortLower db i := by
  rw [← loop_stops_iff hv hok hnodup orderId]
  rintro ⟨e, he⟩
  rw [hloop] at he
  cases he

-- A repeated id, or a missing one: the comparison of the lengths decides.
theorem decides_missing (hv : db.Valid) (hitems : req.dto = .ofItems items)
    (hrows : createOrder req ch db = txOutcome db (fillRows req ch db order (lockedRows ch db items)))
    (hlen : (lockedRows ch db items).length ≠ items.length) :
    DecidedCorrectly db (items.map OrderItemDto.pair) (createOrder req ch db) ↔
      (items.map OrderItemDto.uuid).Nodup := by
  have hcount := findByIds_length ch (items.map OrderItemDto.uuid) hv.productIds
  have hdedup := (items.map OrderItemDto.uuid).dedup_sublist
  have hresult : createOrder req ch db = (db, .rejected (.domain (.cannotFindProducts
      ((items.length : Int) - (lockedRows ch db items).length)))) := by
    rw [hrows, fillRows_missing hitems hlen]
    rfl
  constructor
  · intro h
    by_cases hnone : missingIds db (items.map OrderItemDto.uuid) = []
    · rw [← pairs_ids] at hnone
      by_cases hshort : ∃ p, Short db (items.map OrderItemDto.pair) p
      · obtain ⟨p, q, -, hwrong⟩ := h.short hnone hshort
        rw [hresult] at hwrong
        cases hwrong
      · -- nothing is missing or short, so a refusal is wrong
        obtain ⟨tx, v, hwrong⟩ := h.enough hnone hshort
        rw [hresult] at hwrong
        cases congrArg Prod.snd hwrong
    · have hmissing := h.missing (by rwa [pairs_ids])
      rw [hresult, pairs_ids] at hmissing
      simp only [Prod.mk.injEq, Outcome.rejected.injEq, Failure.domain.injEq,
        OrderError.cannotFindProducts.injEq, true_and] at hmissing
      -- the number told is the right one only when no id is repeated
      rw [← List.dedup_eq_self]
      apply hdedup.eq_of_length
      rw [List.length_map]
      unfold lockedRows at hmissing
      omega
  · intro hnodup
    have hmissing : missingIds db (items.map OrderItemDto.uuid) ≠ [] := fun hnone =>
      hlen ((lockedRows_length hv.productIds).mpr ⟨hnodup, hnone⟩)
    have hnumber : (items.length : Int) - (lockedRows ch db items).length =
        (missingIds db (items.map OrderItemDto.uuid)).length := by
      rw [List.dedup_eq_self.mpr hnodup, List.length_map] at hcount
      unfold lockedRows
      omega
    constructor
    · intro _
      rw [hresult, hnumber, pairs_ids]
    · intro hnone
      rw [pairs_ids] at hnone
      exact absurd hnone hmissing
    · intro hnone
      rw [pairs_ids] at hnone
      exact absurd hnone hmissing

/-- A line in upper case is inserted without a quantity. -/
theorem fillRows_upper (hv : db.Valid) (hitems : req.dto = .ofItems items)
    (hok : ∀ i ∈ items, i.accepted = true) (hlen : (lockedRows ch db items).length = items.length)
    {r : List PartialItem × List StockUpdate}
    (hloop : fillItems (items.map OrderItemDto.line) order.id (lockedRows ch db items) = .ok r)
    (hupper : ∃ i ∈ items, UUID.hasUpper i.id = true) :
    fillRows req ch db order (lockedRows ch db items) = .error (.query .notNullViolation) := by
  obtain ⟨hnodup, hnone⟩ := (lockedRows_length hv.productIds).mp hlen
  obtain ⟨i, hi, hup⟩ := hupper
  -- the row of the upper-case id is under its lower-case text, where no line is
  obtain ⟨p, hp, hid⟩ : ∃ p ∈ lockedRows ch db items, p.id = i.uuid :=
    row_of_item hv.productIds hnone hi
  have hqty : qtyOf (items.map OrderItemDto.line) p.id = none := by
    rw [hid, qtyOf_ofItems hok hnodup hi, if_pos hup]
  exact fillRows_refused hitems hlen hloop ⟨p, hp, hqty⟩

/-- Lines in lower case are all filled. -/
theorem fillRows_lower (hv : db.Valid) (hitems : req.dto = .ofItems items)
    (hok : ∀ i ∈ items, i.accepted = true) (hlen : (lockedRows ch db items).length = items.length)
    {r : List PartialItem × List StockUpdate}
    (hloop : fillItems (items.map OrderItemDto.line) order.id (lockedRows ch db items) = .ok r)
    (hlower : ∀ i ∈ items, UUID.hasUpper i.id = false) :
    ∃ tx v, fillRows req ch db order (lockedRows ch db items) = .ok (tx, v) := by
  obtain ⟨hnodup, -⟩ := (lockedRows_length hv.productIds).mp hlen
  have hqty : ∀ p ∈ lockedRows ch db items, qtyOf (items.map OrderItemDto.line) p.id ≠ none := by
    intro p hp
    obtain ⟨-, i, hi, hid⟩ := item_of_row hv.productIds hp
    rw [← hid, qtyOf_ofItems hok hnodup hi, hlower i hi]
    exact Option.some_ne_none _
  exact fillRows_filled hitems hlen hloop hqty

-- Every id names a product of its own: the loop decides, and then the insert of the items.
theorem decides_found (hv : db.Valid) (hitems : req.dto = .ofItems items)
    (hok : ∀ i ∈ items, i.accepted = true)
    (hrows : createOrder req ch db = txOutcome db (fillRows req ch db order (lockedRows ch db items)))
    (hnodup : (items.map OrderItemDto.uuid).Nodup)
    (hnone : missingIds db (items.map OrderItemDto.uuid) = []) :
    DecidedCorrectly db (items.map OrderItemDto.pair) (createOrder req ch db) ↔
      (∀ i ∈ items, UUID.hasUpper i.id = false) ∨ ∃ i ∈ items, ShortLower db i := by
  have hlen : (lockedRows ch db items).length = items.length :=
    (lockedRows_length hv.productIds).mpr ⟨hnodup, hnone⟩
  have hmissing : ¬ missingIds db ((items.map OrderItemDto.pair).map (·.1)) ≠ [] := by
    rw [pairs_ids]
    exact not_not.mpr hnone
  cases hloop : fillItems (items.map OrderItemDto.line) order.id (lockedRows ch db items) with
  | error e =>
    have hstops := (loop_stops_iff hv.productIds hok hnodup order.id).mp ⟨e, hloop⟩
    apply iff_of_true _ (.inr hstops)
    obtain ⟨p, hp, i, hi, hid, -, hlt, rfl⟩ := stopped_at hv.productIds hok hnodup hloop
    have hshort : Short db (items.map OrderItemDto.pair) p :=
      (short_iff hnodup).mpr ⟨hp, i, hi, hid, hlt⟩
    constructor
    · exact fun h => absurd h hmissing
    · intro _ _
      refine ⟨p, i.qty, hshort, ?_⟩
      rw [hrows, fillRows_stops hitems hlen hloop]
      rfl
    · exact fun _ h => absurd ⟨p, hshort⟩ h
  | ok r =>
    have hlower : ¬ ∃ i ∈ items, ShortLower db i := passed_enough hv.productIds hok hnodup hloop
    rw [or_iff_left hlower]
    constructor
    · intro h i hi
      by_contra hupper
      rw [Bool.not_eq_false] at hupper
      have hresult : createOrder req ch db = (db, .rejected (.query .notNullViolation)) := by
        rw [hrows, fillRows_upper hv hitems hok hlen hloop ⟨i, hi, hupper⟩]
        rfl
      rw [not_not] at hmissing
      by_cases hshort : ∃ p, Short db (items.map OrderItemDto.pair) p
      · obtain ⟨p, q, -, hwrong⟩ := h.short hmissing hshort
        rw [hresult] at hwrong
        cases hwrong
      · obtain ⟨tx, v, hwrong⟩ := h.enough hmissing hshort
        rw [hresult] at hwrong
        cases congrArg Prod.snd hwrong
    · intro hall
      constructor
      · exact fun h => absurd h hmissing
      · rintro - ⟨p, hp⟩
        obtain ⟨hmem, i, hi, hid, hlt⟩ := (short_iff hnodup).mp hp
        have hread : UUID.ofText i.id = some p.id := by rw [(accepted_ofText (hok i hi)).1, hid]
        exact absurd ⟨i, hi, hall i hi, p, hmem, hread, hlt⟩ hlower
      · intro _ _
        obtain ⟨tx, v, hfilled⟩ :=
          fillRows_lower hv hitems hok hlen hloop hall
        refine ⟨tx, v, ?_⟩
        rw [hrows, hfilled]
        rfl

/-- The service decides a request for accepted items correctly if and only if no product is named
twice, and some product is missing, or all ids are in lower case, or one in lower case names a
product with too little stock. -/
theorem createOrder_decides_iff (hv : db.Valid) (hitems : req.dto = .ofItems items)
    (hne : items ≠ []) (hok : ∀ i ∈ items, i.accepted = true) {pair : UUID × UUID}
    (hpair : req.pair = some pair) (hnew : db.orderByKey pair = none) :
    ∃ asked, req.dto.asked = some asked ∧
      (DecidedCorrectly db asked (createOrder req ch db) ↔
        (asked.map (·.1)).Nodup ∧ (missingIds db (asked.map (·.1)) ≠ [] ∨
          (∀ i ∈ items, UUID.hasUpper i.id = false) ∨ ∃ i ∈ items, ShortLower db i)) := by
  refine ⟨items.map OrderItemDto.pair, by rw [hitems, asked_ofItems hok], ?_⟩
  obtain ⟨order, hrows⟩ : ∃ order, createOrder req ch db =
      txOutcome db (fillRows req ch db order (lockedRows ch db items)) :=
    createOrder_new hitems hne hok hpair hnew
  rw [pairs_ids]
  by_cases hlen : (lockedRows ch db items).length = items.length
  · obtain ⟨hnodup, hnone⟩ := (lockedRows_length hv.productIds).mp hlen
    rw [decides_found hv hitems hok hrows hnodup hnone, and_iff_right hnodup,
      or_iff_right (not_not.mpr hnone)]
  · rw [decides_missing hv hitems hrows hlen]
    constructor
    · intro hnodup
      exact ⟨hnodup, .inl fun hnone => hlen ((lockedRows_length hv.productIds).mpr ⟨hnodup, hnone⟩)⟩
    · exact fun h => h.1

/-- A shop with five pieces of the product of the interface documentation. -/
def docShop : Db where
  products := [⟨.ofNat 0x0e8fd1615c564dba8c7a6f422ea4d8ee, 5, "500"⟩]
  orders := []
  orderItems := []
  processedMessages := []

/-- A request for these pieces of it. -/
def docRequest (items : List OrderItemDto) : Request where
  userId := .ofNat 1
  dto := .ofItems items
  idempotencyKey := "7d444840-9dc0-11d1-b245-5ffdce74fad2"

def docPair : UUID × UUID := (.ofNat 1, .ofNat 0x7d4448409dc011d1b2455ffdce74fad2)

theorem docRequest_pair (items : List OrderItemDto) : (docRequest items).pair = some docPair := by
  have hkey : UUID.ofText "7d444840-9dc0-11d1-b245-5ffdce74fad2" =
      some (.ofNat 0x7d4448409dc011d1b2455ffdce74fad2) := by
    decide +kernel
  exact congrArg (Option.map fun key => (UUID.ofNat 1, key)) hkey

theorem createOrder_decides_doc :
    let items := [⟨"0e8fd161-5c56-4dba-8c7a-6f422ea4d8ee", 2⟩]
    ∃ asked, (docRequest items).dto.asked = some asked ∧
      (DecidedCorrectly docShop asked (createOrder (docRequest items) (shopChoices false 0) docShop) ↔
        (asked.map (·.1)).Nodup ∧ (missingIds docShop (asked.map (·.1)) ≠ [] ∨
          (∀ i ∈ items, UUID.hasUpper i.id = false) ∨ ∃ i ∈ items, ShortLower docShop i)) :=
  createOrder_decides_iff (by decide +kernel) rfl (by decide) (by decide +kernel)
    (docRequest_pair _) rfl

/-- One piece of the product in each of two lines: the service finds a product missing. -/
theorem repeated_id_decided_wrongly :
    ¬ ∀ (db : Db) (req : Request) (ch : Choices) (items : List OrderItemDto), db.Valid →
      req.dto = .ofItems items → items ≠ [] → (∀ i ∈ items, i.accepted = true) →
      ∀ pair, req.pair = some pair → db.orderByKey pair = none →
      ∀ asked, req.dto.asked = some asked → DecidedCorrectly db asked (createOrder req ch db) := by
  intro h
  let items : List OrderItemDto := [⟨"0e8fd161-5c56-4dba-8c7a-6f422ea4d8ee", 1⟩,
    ⟨"0e8fd161-5c56-4dba-8c7a-6f422ea4d8ee", 1⟩]
  let asked : List (UUID × Nat) := [(.ofNat 0x0e8fd1615c564dba8c7a6f422ea4d8ee, 1),
    (.ofNat 0x0e8fd1615c564dba8c7a6f422ea4d8ee, 1)]
  have hdecided := h docShop (docRequest items) (shopChoices false 0) items (by decide +kernel) rfl
    (by decide) (by decide +kernel) docPair (docRequest_pair _) rfl asked (by decide +kernel)
  have henough : ¬ ∃ p, Short docShop asked p := by
    rintro ⟨p, hp⟩
    have hlt := hp.exceeds
    rw [List.mem_singleton.mp hp.product] at hlt
    revert hlt
    decide +kernel
  obtain ⟨tx, v, hcreated⟩ := hdecided.enough (by decide +kernel) henough
  have hresult : (createOrder (docRequest items) (shopChoices false 0) docShop).2 =
      .rejected (.domain (.cannotFindProducts 1)) := by
    decide +kernel
  rw [hcreated] at hresult
  cases hresult

end Decision

end Ecommerce.Orders
