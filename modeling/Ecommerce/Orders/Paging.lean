import Ecommerce.Lib.Pages
import Ecommerce.Orders.OrdersController

/-!
# Paging — what the pages of a user's orders contain

The ids of a page are a slice of all matching ids, sorted by creation time and id, so no tie is left
open between two queries.  The orders of the page are loaded by these ids and sorted by creation
time alone.
-/

namespace Ecommerce.Orders

open Query TypeOrmOrdersRepository

/-- An object of the result shows this order, with its items and no others. -/
structure Shows (db : Db) (o : Order) (l : ListedOrder) : Prop where
  id : l.id = o.id
  status : l.status = o.status
  createdAt : l.createdAt = o.createdAt
  items : l.items.Perm (db.itemsOf o.id)

/-- Non-increasing creation times. -/
def newer (a b : Order) : Prop := b.createdAt ≤ a.createdAt

/-- The orders a user asks for. -/
def matching (options : LocalFindOptions) (u : UUID) (db : Db) : List Order :=
  db.orders.filter (whereMany options (some u))

theorem mem_matching {options : LocalFindOptions} {u : UUID} {db : Db} {o : Order} :
    o ∈ matching options u db ↔ o ∈ db.orders ∧ o.userId = u ∧ o.status = options.status ∧
      (∀ t, options.fromDate = some t → t ≤ o.createdAt) ∧
      ∀ t, options.toDate = some t → o.createdAt ≤ t := by
  simp only [matching, whereMany, List.mem_filter, Option.all_some, Bool.and_eq_true,
    decide_eq_true_eq, Option.all_eq_true]
  tauto

/-- The order of the first query, which leaves no ties. -/
def byNewest (a b : Order) : Prop := newestFirst (a.createdAt, a.id) (b.createdAt, b.id)

instance : DecidableRel byNewest := fun _ _ => inferInstanceAs (Decidable (newestFirst _ _))

instance : Std.Total byNewest where
  total _ _ := Std.Total.total (r := newestFirst) _ _

instance : IsTrans Order byNewest where
  trans _ _ _ := IsTrans.trans (r := newestFirst) _ _ _

theorem newer_of_byNewest {a b : Order} (h : byNewest a b) : newer a b := by
  rcases h with hlt | ⟨heq, -⟩
  · exact hlt.le
  · exact heq.ge

instance : Std.Total newerRow where
  total a b := Nat.le_total b.1.createdAt a.1.createdAt

instance : IsTrans OrderRow newerRow where
  trans _ _ _ h h' := Nat.le_trans h' h

/-! ## The rows of a page -/

section Page

variable {db : Db} {os : List Order}

/-- The rows of some orders. -/
def rowsOf (db : Db) (os : List Order) : List OrderRow :=
  leftJoin (fun o i => i.orderId = o.id) os db.orderItems

/-- The object `find` makes of the rows of one order. -/
theorem listRows_matched {o : Order} {rows : List OrderRow}
    (h : rows.Perm (matched o (db.itemsOf o.id))) :
    ∃ l, listRows rows = some l ∧ Shows db o l := by
  cases rows with
  | nil => exact absurd (List.nil_perm.mp h) (matched_ne_nil o _)
  | cons r rows =>
    have hr : r.1 = o := fst_of_mem_matched (h.mem_iff.mp List.mem_cons_self)
    refine ⟨_, rfl, congrArg (·.id) hr, congrArg (·.status) hr, congrArg (·.createdAt) hr, ?_⟩
    have hitems := h.filterMap (·.2)
    rwa [filterMap_matched] at hitems

variable (db)

/-- The rows of some orders, loaded in any order, become these orders by creation time. -/
theorem group_rowsOf (hids : (os.map (·.id)).Nodup) (scan : Scan OrderRow) :
    ∃ arranged, Arranges newer os arranged ∧ List.Forall₂ (Shows db) arranged
      ((group (·.1.id) ((scan.order (rowsOf db os)).insertionSort newerRow)).filterMap listRows) := by
  have hperm : ((scan.order (rowsOf db os)).insertionSort newerRow).Perm (rowsOf db os) :=
    (List.perm_insertionSort newerRow _).trans (scan.perm _)
  have hsorted := List.pairwise_insertionSort newerRow (scan.order (rowsOf db os))
  revert hperm hsorted
  generalize (scan.order (rowsOf db os)).insertionSort newerRow = rows
  intro hperm hsorted
  -- the ids tell the orders apart
  have hgroup : group (·.1.id) rows = group (·.1) rows :=
    group_comp (f := Order.id) fun r hr r' hr' => List.inj_on_of_nodup_map hids
      (mem_leftJoin (hperm.mem_iff.mp hr)) (mem_leftJoin (hperm.mem_iff.mp hr'))
  obtain ⟨arranged, harr, hsub, hgroups, hrows⟩ := group_leftJoin (hids.of_map _) hperm
  have hnewer : (rows.map (·.1)).Pairwise newer := List.pairwise_map.mpr hsorted
  refine ⟨arranged, ⟨harr, hnewer.sublist hsub⟩, ?_⟩
  rw [hgroup, hgroups, List.filterMap_map]
  exact forall₂_filterMap fun o ho => listRows_matched (hrows o ho)

/-- The matching orders as the first query sorts them. -/
def newestOrders (os : List Order) : List Order := os.insertionSort byNewest

theorem newestOrders_arranges (os : List Order) : Arranges newer os (newestOrders os) where
  perm := List.perm_insertionSort byNewest os
  sorted := (List.pairwise_insertionSort byNewest os).imp newer_of_byNewest

/-- The sorted keys of the joined rows are those of the sorted orders. -/
theorem distinctSorted_rowsOf (hids : (os.map (·.id)).Nodup) :
    distinctSorted newestFirst ((rowsOf db os).map fun r => (r.1.createdAt, r.1.id)) =
      (newestOrders os).map fun o => (o.createdAt, o.id) := by
  have hperm := (newestOrders_arranges os).perm
  have hnodup : ((newestOrders os).map fun o => (o.createdAt, o.id)).Nodup := by
    refine List.Nodup.of_map (·.2) ?_
    rw [List.map_map]
    exact (hperm.map (·.id)).nodup_iff.mpr hids
  have hkeys : ((rowsOf db os).map fun r => (r.1.createdAt, r.1.id)).dedup.Perm
      ((newestOrders os).map fun o => (o.createdAt, o.id)) := by
    refine (List.perm_ext_iff_of_nodup (List.nodup_dedup _) hnodup).mpr fun k => ?_
    rw [List.mem_dedup, List.mem_map, List.mem_map]
    constructor
    · rintro ⟨r, hr, rfl⟩
      exact ⟨r.1, hperm.mem_iff.mpr (mem_leftJoin hr), rfl⟩
    · rintro ⟨o, ho, rfl⟩
      obtain ⟨r, hr, rfl⟩ := exists_mem_leftJoin _ db.orderItems (hperm.mem_iff.mp ho)
      exact ⟨r, hr, rfl⟩
  have hsorted : ((newestOrders os).map fun o => (o.createdAt, o.id)).Pairwise newestFirst :=
    List.pairwise_map.mpr (List.pairwise_insertionSort byNewest os)
  exact ((List.perm_insertionSort newestFirst _).trans hkeys).eq_of_pairwise'
    (List.pairwise_insertionSort newestFirst _) hsorted

/-- The rows loaded for the ids of some of the orders are the rows of these orders. -/
theorem filter_rowsOf (hids : (os.map (·.id)).Nodup) {chosen : List Order}
    (hsub : chosen.Sublist (newestOrders os)) :
    ∃ os' : List Order, os'.Perm chosen ∧ (os'.map (·.id)).Nodup ∧
      (rowsOf db os).filter (·.1.id ∈ chosen.map (·.id)) = rowsOf db os' := by
  have hperm := (newestOrders_arranges os).perm
  refine ⟨os.filter (·.id ∈ chosen.map (·.id)), ?_, ?_, ?_⟩
  · have hnodup := hids.of_map
    refine (List.perm_ext_iff_of_nodup (hnodup.filter _)
      ((hperm.nodup_iff.mpr hnodup).sublist hsub)).mpr fun o => ?_
    rw [List.mem_filter, decide_eq_true_eq, List.mem_map]
    constructor
    · rintro ⟨ho, o', ho', hid⟩
      rwa [← List.inj_on_of_nodup_map hids (hperm.mem_iff.mp (hsub.subset ho')) ho hid]
    · exact fun ho => ⟨hperm.mem_iff.mp (hsub.subset ho), o, ho, rfl⟩
  · exact hids.sublist (List.filter_sublist.map _)
  · exact leftJoin_filter _ os db.orderItems fun o => decide (o.id ∈ chosen.map (·.id))

end Page

/-! ## One page -/

section Find

variable {db : Db} (options : LocalFindOptions) {u : UUID}

theorem orderRows_matching (u : UUID) (db : Db) :
    (orderRows db).filter (fun r => whereMany options (some u) r.1) =
      rowsOf db (matching options u db) := by
  rw [orderRows, leftJoin_filter]
  rfl

/-- `find` for a user joins and pages the orders the user asks for. -/
theorem find_eq (huser : options.userId = some u.text) (scan : Scan OrderRow) :
    find scan options db =
      listOrders scan options.limit (pageSkip options.page options.limit)
        (rowsOf db (matching options u db)) := by
  unfold find
  rw [owner_filter huser, uuidParam_text, ← orderRows_matching]
  rfl

theorem rowCount_ofInt {n : Int} :
    rowCount (.ofInt n) = if 0 ≤ n ∧ n < 2 ^ 63 then .ok n.toNat else .error .other := by
  have hbounds : (0 : ℚ) ≤ n ∧ (n : ℚ) < 2 ^ 63 ↔ 0 ≤ n ∧ n < 2 ^ 63 := by norm_cast
  simp only [rowCount, Number.ofInt, hbounds, Int.floor_intCast]

theorem rowCount_ok {n : Int} (h : 0 ≤ n ∧ n < 2 ^ 63) : rowCount (.ofInt n) = .ok n.toNat := by
  rw [rowCount_ofInt, if_pos h]

/-- The database refuses a number, or takes it. -/
theorem rowCount_cases (n : Number) : rowCount n = .error .other ∨ ∃ k, rowCount n = .ok k := by
  cases n with
  | finite q =>
    by_cases h : 0 ≤ q ∧ q < 2 ^ 63
    · exact .inr ⟨_, if_pos h⟩
    · exact .inl (if_neg h)
  | _ => exact .inl rfl

theorem pageIds_ok {os : List Order} (hids : (os.map (·.id)).Nodup) {take : Int} {skip : Number}
    {offset : Nat} (htake : 0 < take ∧ take < 2 ^ 63) (hskip : rowCount skip = .ok offset) :
    pageIds take skip (rowsOf db os) =
      .ok ((((newestOrders os).drop offset).take take.toNat).map (·.id)) := by
  simp only [pageIds, bind, Except.bind, pure, Except.pure, Except.map, hskip,
    rowCount_ok ⟨htake.1.le, htake.2⟩, if_neg htake.1.ne', distinctSorted_rowsOf db hids, slice,
    ← List.map_drop, ← List.map_take, List.map_map]
  rfl

/-- A number the database does not take. -/
theorem pageIds_error {rows : List OrderRow} {take : Int} {skip : Number} (htake : take ≠ 0)
    (h : ¬ ((0 ≤ take ∧ take < 2 ^ 63) ∧ ∃ offset, rowCount skip = .ok offset)) :
    pageIds take skip rows = .error .other := by
  obtain hskip | ⟨offset, hskip⟩ := rowCount_cases skip
  · simp only [pageIds, bind, Except.bind, hskip]
  · have hrefused : rowCount (.ofInt take) = .error .other := by
      rw [rowCount_ofInt, if_neg fun htake => h ⟨htake, offset, hskip⟩]
    simp only [pageIds, bind, Except.bind, Except.map, hskip, if_neg htake, hrefused]

/-- A page lists a slice of the sorted orders, again by creation time. -/
theorem find_page (hids : (db.orders.map (·.id)).Nodup) (huser : options.userId = some u.text)
    (scan : Scan OrderRow) (hlimit : 0 < options.limit ∧ options.limit < 2 ^ 63) {offset : Nat}
    (hskip : rowCount (pageSkip options.page options.limit) = .ok offset) :
    ∃ orders arranged, find scan options db = .ok orders ∧
      Arranges newer (((newestOrders (matching options u db)).drop offset).take
        options.limit.toNat) arranged ∧
      List.Forall₂ (Shows db) arranged orders := by
  have hmatching : ((matching options u db).map (·.id)).Nodup :=
    hids.sublist (List.filter_sublist.map _)
  obtain ⟨os', hperm, hids', hrows⟩ := filter_rowsOf db hmatching
    ((List.take_sublist options.limit.toNat _).trans (List.drop_sublist offset _))
  obtain ⟨arranged, harranged, hshows⟩ := group_rowsOf db hids' scan
  refine ⟨_, arranged, ?_, ⟨harranged.perm.trans hperm, harranged.sorted⟩, hshows⟩
  rw [find_eq options huser, listOrders, pageRows, if_neg fun h => hlimit.1.ne' h.1,
    pageIds_ok hmatching hlimit hskip, ← hrows]
  rfl

/-- The database takes no negative number and none beyond `bigint`. -/
theorem find_error (huser : options.userId = some u.text) (scan : Scan OrderRow)
    (hlimit : options.limit ≠ 0)
    (h : ¬ ((0 ≤ options.limit ∧ options.limit < 2 ^ 63) ∧
      ∃ offset, rowCount (pageSkip options.page options.limit) = .ok offset)) :
    find scan options db = .error .other := by
  rw [find_eq options huser, listOrders, pageRows, if_neg fun h => hlimit h.1, pageIds_error hlimit h]
  rfl

/-- The rows of a page are some of the rows that meet the condition. -/
theorem mem_of_pageRows {take : Int} {skip : Number} {rows page : List OrderRow}
    (h : pageRows take skip rows = .ok page) {r : OrderRow} (hr : r ∈ page) : r ∈ rows := by
  unfold pageRows at h
  split at h
  · cases h
    exact hr
  · cases hids : pageIds take skip rows with
    | error e =>
      rw [hids] at h
      cases h
    | ok ids =>
      rw [hids] at h
      cases h
      exact List.mem_of_mem_filter hr

/-- Whatever is listed is one of the user's orders. -/
theorem find_owner (huser : options.userId = some u.text) {scan : Scan OrderRow}
    {orders : List ListedOrder} (h : find scan options db = .ok orders) {l : ListedOrder}
    (hl : l ∈ orders) : ∃ o ∈ db.orders, o.id = l.id ∧ o.userId = u := by
  rw [find_eq options huser, listOrders] at h
  cases hpage : pageRows options.limit (pageSkip options.page options.limit)
    (rowsOf db (matching options u db)) with
  | error e =>
    rw [hpage] at h
    cases h
  | ok page =>
    rw [hpage] at h
    cases h
    obtain ⟨g, hg, hlisted⟩ := List.mem_filterMap.mp hl
    obtain ⟨k, -, rfl⟩ := List.mem_map.mp hg
    -- the object has the id of its first row
    generalize hrows : ((scan.order page).insertionSort newerRow).filter (·.1.id = k) = g at hlisted
    cases g with
    | nil => cases hlisted
    | cons r g =>
      obtain rfl := Option.some.inj hlisted
      have hr := List.mem_of_mem_filter (hrows ▸ List.mem_cons_self : r ∈ List.filter _ _)
      have hmem := (scan.perm page).mem_iff.mp ((List.perm_insertionSort newerRow _).mem_iff.mp hr)
      obtain ⟨ho, howner, -⟩ := mem_matching.mp (mem_leftJoin (mem_of_pageRows hpage hmem))
      exact ⟨r.1, ho, rfl, howner⟩

end Find

end Ecommerce.Orders
