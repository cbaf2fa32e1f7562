import Ecommerce.Common.HttpExceptionFilter
import Ecommerce.Orders.PageSkip

/-!
# PageRequests — a user's way through the pages

Neither the controller nor the service bounds `page` and `limit`, so the database is sent whatever
`limit` and `(page - 1) * limit` are.
-/

namespace Ecommerce.Orders

open Query TypeOrmOrdersRepository

/-! ## The response to one request -/

/-- The elements at the positions from `lo` up to `hi`, as far as there are any. -/
def positions {α : Type} (lo hi : Int) (l : List α) : List α := (l.take hi.toNat).drop lo.toNat

theorem positions_page {α : Type} {page limit : Int} (hpage : 1 ≤ page) (hlimit : 1 ≤ limit)
    (l : List α) : positions ((page - 1) * limit) (page * limit) l =
      (l.drop ((page - 1) * limit).toNat).take limit.toNat := by
  have hskip : 0 ≤ (page - 1) * limit := Int.mul_nonneg (by omega) (by omega)
  have hmul : page * limit = (page - 1) * limit + limit := by
    rw [sub_mul, one_mul]
    omega
  rw [positions, List.drop_take]
  congr 1
  omega

/-- What `list` asks the repository for. -/
def OrdersController.ListQuery.options (query : ListQuery) (u : UUID) : LocalFindOptions where
  status := query.status
  userId := some u.text
  page := query.page
  limit := query.limit
  fromDate := query.fromDate
  toDate := query.toDate

/-- The answer has at most `limit` orders, those at the positions of the page in the matching orders
sorted by creation time and id, again by creation time; or it is a refusal that is not the server's
fault. -/
def PageRespected (toText : Json → String) (correlationId : String) (db : Db)
    (query : OrdersController.ListQuery) (u : UUID) :
    Except HttpError (List ListedOrderDto) → Prop
  | .ok dtos => (dtos.length : Int) ≤ query.limit ∧
      ∃ arranged orders, Arranges newer (positions ((query.page - 1) * query.limit)
          (query.page * query.limit) (newestOrders (matching (query.options u) u db))) arranged ∧
        dtos = orders.map ListedOrder.toDto ∧ List.Forall₂ (Shows db) arranged orders
  | .error e =>
      (HttpExceptionFilter.catchException toText correlationId e.toException).status < 500

section Response

variable {toText : Json → String} {correlationId : String} {db : Db}
variable {query : OrdersController.ListQuery} {u : UUID}

theorem controller_list_eq (scan : Scan OrderRow) :
    OrdersController.list scan u.text query db =
      match find scan (query.options u) db with
      | .ok orders => .ok (orders.map (·.toDto))
      | .error e => .error (.internal e) := rfl

/-- Objects show orders by their ids. -/
theorem map_id_of_shows {os : List Order} {orders : List ListedOrder}
    (h : List.Forall₂ (Shows db) os orders) : os.map (·.id) = orders.map (·.id) := by
  induction h with
  | nil => rfl
  | cons hshow _ ih => rw [List.map_cons, List.map_cons, hshow.id, ih]

theorem nodup_newestOrders (hids : (db.orders.map (·.id)).Nodup) (options : LocalFindOptions)
    (u : UUID) : ((newestOrders (matching options u db)).map (·.id)).Nodup :=
  ((newestOrders_arranges _).perm.map (·.id)).nodup_iff.mpr
    (hids.sublist (List.filter_sublist.map _))

/-- The page at the offset that the database is sent is the page of the request, if both have the
same orders. -/
theorem pageRespected_page (hids : (db.orders.map (·.id)).Nodup) (scan : Scan OrderRow)
    (hpage : 1 ≤ query.page) (hlimit : 1 ≤ query.limit ∧ query.limit < 2 ^ 63) {offset : Nat}
    (hskip : rowCount (pageSkip query.page query.limit) = .ok offset) :
    PageRespected toText correlationId db query u (OrdersController.list scan u.text query db) ↔
      offset = ((query.page - 1) * query.limit).toNat ∨
        (matching (query.options u) u db).length ≤ offset ∧
          (matching (query.options u) u db).length ≤ ((query.page - 1) * query.limit).toNat := by
  obtain ⟨orders, arranged, heq, harranged, hshows⟩ :=
    find_page (query.options u) hids rfl scan hlimit hskip
  have hnodup := nodup_newestOrders hids (query.options u) u
  rw [← (newestOrders_arranges (matching (query.options u) u db)).perm.length_eq,
    ← slice_perm_iff hnodup.of_map (by omega : 0 < query.limit.toNat), controller_list_eq, heq]
  simp only [PageRespected, positions_page hpage hlimit.1, List.length_map]
  constructor
  · rintro ⟨-, arranged', orders', harranged', hdtos, hshows'⟩
    -- the ids of the answer are those of both slices
    have hsame : arranged.map (·.id) = arranged'.map (·.id) := by
      have hdto := congrArg (List.map ListedOrderDto.id) hdtos
      rw [List.map_map, List.map_map] at hdto
      rw [map_id_of_shows hshows, map_id_of_shows hshows']
      exact hdto
    have hids' := (harranged.perm.map Order.id).symm.trans
      (hsame ▸ harranged'.perm.map Order.id)
    have hmem {n : Nat} {o : Order} (ho : o ∈ ((newestOrders (matching (query.options u) u db)).drop
        n).take query.limit.toNat) : o ∈ newestOrders (matching (query.options u) u db) :=
      List.mem_of_mem_drop (List.mem_of_mem_take ho)
    refine (List.perm_ext_iff_of_nodup ?_ ?_).mpr fun o => ⟨fun ho => ?_, fun ho => ?_⟩
    · exact hnodup.of_map.sublist ((List.take_sublist _ _).trans (List.drop_sublist _ _))
    · exact hnodup.of_map.sublist ((List.take_sublist _ _).trans (List.drop_sublist _ _))
    · obtain ⟨o', ho', hid⟩ := List.mem_map.mp (hids'.mem_iff.mp (List.mem_map_of_mem ho))
      rwa [← List.inj_on_of_nodup_map hnodup (hmem ho') (hmem ho) hid]
    · obtain ⟨o', ho', hid⟩ := List.mem_map.mp (hids'.mem_iff.mpr (List.mem_map_of_mem ho))
      rwa [← List.inj_on_of_nodup_map hnodup (hmem ho') (hmem ho) hid]
  · intro hperm
    refine ⟨?_, arranged, orders, ⟨harranged.perm.trans hperm, harranged.sorted⟩, rfl, hshows⟩
    have hlength : orders.length ≤ query.limit.toNat := by
      rw [← hshows.length_eq, harranged.perm.length_eq]
      exact List.length_take_le _ _
    omega

/-- Of at most 2^53 orders every page is the right one, whether its offset is rounded or not. -/
theorem pageRespected_of_few (hids : (db.orders.map (·.id)).Nodup) (scan : Scan OrderRow)
    (hlimit : 1 ≤ query.limit ∧ query.limit < 2 ^ 63)
    (hfew : (matching (query.options u) u db).length ≤ 2 ^ 53) {offset : Nat}
    (hsent : rowCount (pageSkip query.page query.limit) = .ok offset) :
    PageRespected toText correlationId db query u
      (OrdersController.list scan u.text query db) := by
  obtain ⟨hpage, hskip, -⟩ := pageSkip_of_rowCount hlimit.1 hsent
  have hexact : 0 ≤ (query.page - 1) * query.limit := Int.mul_nonneg (by omega) (by omega)
  have hskips := pageSkip_skips hpage hlimit.1 hfew hskip
  exact (pageRespected_page hids scan hpage hlimit hsent).mpr (by omega)

variable (toText correlationId query u)

end Response

/-! ## Requests for no page -/

/-- The rows in the order of the table. -/
def tableOrder : Scan OrderRow := ⟨fun rows => rows, fun rows => .refl rows⟩

/-- Three orders of one user, two of them created at the same time. -/
def listedShop : Db where
  products := []
  orders := [⟨.ofNat 100, .ofNat 7, .created, .ofNat 50, 5, 5, none⟩,
    ⟨.ofNat 101, .ofNat 7, .created, .ofNat 51, 5, 5, none⟩,
    ⟨.ofNat 102, .ofNat 7, .created, .ofNat 52, 3, 3, none⟩]
  orderItems := [⟨.ofNat 100, .ofNat 1, 2, "1.00"⟩, ⟨.ofNat 101, .ofNat 1, 1, "1.00"⟩,
    ⟨.ofNat 100, .ofNat 2, 1, "2.00"⟩]
  processedMessages := []

/-- The result of `list` for page `k`; each query visits the rows in an order of its own. -/
def listPage (scan : Nat → Scan OrderRow) (options : LocalFindOptions) (db : Db) (k : Nat) :
    Except QueryError (List ListedOrder) :=
  OrdersService.list (scan k) { options with page := k } db

/-- The results for the pages 1, 2, 3 and so on, up to the first empty one. -/
structure FirstPages (page : Nat → Except QueryError (List ListedOrder))
    (pages : List (List ListedOrder)) : Prop where
  results : ∀ k (h : k < pages.length), page (k + 1) = .ok pages[k]
  nonempty : ∀ p ∈ pages, p ≠ []
  last : page (pages.length + 1) = .ok []

/-- The pages list these orders by creation time, each once and with its items, and only the last
page may be short. -/
structure Lossless (db : Db) (os : List Order) (limit : Int) (pages : List (List ListedOrder)) :
    Prop where
  orders : ∃ arranged, Arranges newer os arranged ∧ List.Forall₂ (Shows db) arranged pages.flatten
  full : ∀ k (h : k + 1 < pages.length), (pages[k].length : Int) = limit

section AllPages

variable {db : Db} {options : LocalFindOptions} {u : UUID} (scan : Nat → Scan OrderRow)

theorem listPage_ok (hids : (db.orders.map (·.id)).Nodup) (huser : options.userId = some u.text)
    (hlimit : 1 ≤ options.limit ∧ options.limit < 2 ^ 63) {k offset : Nat}
    (hskip : rowCount (pageSkip (k + 1 : Nat) options.limit) = .ok offset) :
    ∃ orders arranged, listPage scan options db (k + 1) = .ok orders ∧
      Arranges newer (((newestOrders (matching options u db)).drop offset).take
        options.limit.toNat) arranged ∧
      List.Forall₂ (Shows db) arranged orders :=
  find_page { options with page := (k + 1 : Nat) } hids huser (scan (k + 1)) hlimit hskip

/-- A page that is answered has numbers that the database takes. -/
theorem sent_of_listPage (huser : options.userId = some u.text) (hlimit : 1 ≤ options.limit)
    {k : Nat} {orders : List ListedOrder} (h : listPage scan options db (k + 1) = .ok orders) :
    options.limit < 2 ^ 63 ∧
      ∃ offset, rowCount (pageSkip (k + 1 : Nat) options.limit) = .ok offset := by
  by_contra hrefused
  have hzero : options.limit ≠ 0 := by omega
  have herror : find (scan (k + 1)) { options with page := (k + 1 : Nat) } db = .error .other :=
    find_error { options with page := (k + 1 : Nat) } huser (scan (k + 1)) hzero fun hsent =>
      hrefused ⟨hsent.1.2, hsent.2⟩
  have hcontra := h.symm.trans herror
  cases hcontra

/-- What the database answers up to the first empty page: each page shows a slice of the sorted
orders. -/
structure Slices (page : Nat → Except QueryError (List ListedOrder)) (db : Db) (os : List Order)
    (size : Nat) (orders : Nat → List ListedOrder) (arranged : Nat → List Order) : Prop where
  results : ∀ k ≤ pageCount os.length size, page (k + 1) = .ok (orders k)
  arranges : ∀ k ≤ pageCount os.length size,
    Arranges newer (((newestOrders os).drop (k * size)).take size) (arranged k)
  shows : ∀ k ≤ pageCount os.length size, List.Forall₂ (Shows db) (arranged k) (orders k)

section Slices

variable {page : Nat → Except QueryError (List ListedOrder)} {os : List Order} {size : Nat}
variable {orders : Nat → List ListedOrder} {arranged : Nat → List Order}

theorem Slices.length (h : Slices page db os size orders arranged) {k : Nat}
    (hk : k ≤ pageCount os.length size) :
    (orders k).length = min size (os.length - k * size) := by
  rw [← (h.shows k hk).length_eq, (h.arranges k hk).perm.length_eq, List.length_take,
    List.length_drop, (newestOrders_arranges os).perm.length_eq]

theorem Slices.firstPages (h : Slices page db os size orders arranged) (hsize : 0 < size) :
    FirstPages page ((List.range (pageCount os.length size)).map orders) where
  results := by
    intro k hk
    rw [List.length_map, List.length_range] at hk
    rw [List.getElem_map, List.getElem_range]
    exact h.results k hk.le
  nonempty := by
    intro p hp hnil
    obtain ⟨k, hk, rfl⟩ := List.mem_map.mp hp
    rw [List.mem_range] at hk
    have hlength := h.length hk.le
    have hbegun := (lt_pageCount hsize).mp hk
    rw [hnil, List.length_nil] at hlength
    omega
  last := by
    have hlength := h.length le_rfl
    have hall := le_pageCount_mul (n := os.length) hsize
    rw [List.length_map, List.length_range, h.results _ le_rfl,
      List.eq_nil_of_length_eq_zero (show (orders (pageCount os.length size)).length = 0 by omega)]

theorem Slices.lossless (h : Slices page db os size orders arranged) (hsize : 0 < size) :
    Lossless db os size ((List.range (pageCount os.length size)).map orders) where
  orders := by
    have hall := le_pageCount_mul (n := os.length) hsize
    have hsorted := newestOrders_arranges os
    have hpages := Arranges.pages hsorted.sorted _ fun k hk => h.arranges k hk.le
    rw [List.take_of_length_le (by rw [hsorted.perm.length_eq]; exact hall)] at hpages
    refine ⟨_, hsorted.trans hpages, ?_⟩
    rw [← List.flatMap_def]
    exact forall₂_flatMap fun k hk => h.shows k (List.mem_range.mp hk).le
  full := by
    intro k hk
    rw [List.length_map, List.length_range] at hk
    have hlength := h.length (k := k) (by omega)
    have hnext := (lt_pageCount hsize).mp hk
    rw [Nat.succ_mul] at hnext
    rw [List.getElem_map, List.getElem_range]
    omega

end Slices

/-- The pages up to the first empty one, when their offsets are exact. -/
theorem exists_firstPages (hids : (db.orders.map (·.id)).Nodup)
    (huser : options.userId = some u.text) (hlimit : 1 ≤ options.limit ∧ options.limit < 2 ^ 63)
    (hskip : ∀ k < pageCount (matching options u db).length options.limit.toNat,
      pageSkip (k + 1 : Nat) options.limit = .ofInt (k * options.limit))
    {last : Int} (hlast : pageSkip
      (pageCount (matching options u db).length options.limit.toNat + 1 : Nat) options.limit =
        .ofInt last)
    (hend : ((matching options u db).length : Int) ≤ last) (hfits : last < 2 ^ 63) :
    ∃ pages, FirstPages (listPage scan options db) pages ∧
      Lossless db (matching options u db) options.limit pages := by
  have hsize : 0 < options.limit.toNat := by omega
  have hcast : (options.limit.toNat : Int) = options.limit := Int.toNat_of_nonneg (by omega)
  have hlength := (newestOrders_arranges (matching options u db)).perm.length_eq
  have hpages : ∀ k ≤ pageCount (matching options u db).length options.limit.toNat,
      ∃ orders arranged, listPage scan options db (k + 1) = .ok orders ∧
        Arranges newer (((newestOrders (matching options u db)).drop
          (k * options.limit.toNat)).take options.limit.toNat) arranged ∧
        List.Forall₂ (Shows db) arranged orders := by
    intro k hk
    rcases hk.lt_or_eq with hlt | rfl
    · -- an offset before the last one
      have hle := pageSkip_mono (by exact_mod_cast Nat.succ_le_succ hk) hlimit.1 (hskip k hlt) hlast
      have hnonneg : 0 ≤ (k : Int) * options.limit := Int.mul_nonneg (by omega) (by omega)
      have hsent : rowCount (pageSkip (k + 1 : Nat) options.limit) =
          .ok (k * options.limit.toNat) := by
        rw [hskip k hlt, rowCount_ok ⟨hnonneg, by omega⟩, ← natCast_mul_toNat hlimit.1,
          Int.toNat_natCast]
      exact listPage_ok scan hids huser hlimit hsent
    · -- the last page is empty, whether its offset is exact or not
      have hsent := congrArg rowCount hlast
      rw [rowCount_ok ⟨by omega, hfits⟩] at hsent
      obtain ⟨orders, arranged, hok, harranged, hshows⟩ := listPage_ok scan hids huser hlimit hsent
      refine ⟨orders, arranged, hok, ?_, hshows⟩
      have hall := le_pageCount_mul (n := (matching options u db).length) hsize
      rw [List.drop_eq_nil_of_le (by omega)] at harranged
      rwa [List.drop_eq_nil_of_le (by omega)]
  choose! orders arranged hok harranged hshows using hpages
  have hslices : Slices (listPage scan options db) db (matching options u db) options.limit.toNat
      orders arranged := ⟨hok, harranged, hshows⟩
  have hlossless := hslices.lossless hsize
  rw [hcast] at hlossless
  exact ⟨_, hslices.firstPages hsize, hlossless⟩

/-- The offsets of pages that lose and repeat nothing. -/
theorem offsets_of_lossless (hids : (db.orders.map (·.id)).Nodup)
    (huser : options.userId = some u.text) (hlimit : 1 ≤ options.limit)
    {pages : List (List ListedOrder)} (hfirst : FirstPages (listPage scan options db) pages)
    (hlossless : Lossless db (matching options u db) options.limit pages) {offset : Nat → Nat}
    (hsent : ∀ k ≤ pages.length,
      rowCount (pageSkip (k + 1 : Nat) options.limit) = .ok (offset k)) :
    pages.length = pageCount (matching options u db).length options.limit.toNat ∧
      (∀ k < pages.length, offset k = k * options.limit.toNat) ∧
      (matching options u db).length ≤ offset pages.length := by
  have hsize : 0 < options.limit.toNat := by omega
  have hfits := (sent_of_listPage scan huser hlimit hfirst.last).1
  have hnodup := nodup_newestOrders hids options u
  have hperm := (newestOrders_arranges (matching options u db)).perm
  have hlength : ((newestOrders (matching options u db)).map (·.id)).length =
      (matching options u db).length := by rw [List.length_map, hperm.length_eq]
  -- the ids of a page are a slice of all the ids
  have hslice {k : Nat} {orders : List ListedOrder} (hk : k ≤ pages.length)
      (hpage : listPage scan options db (k + 1) = .ok orders) : (orders.map (·.id)).Perm
        ((((newestOrders (matching options u db)).map (·.id)).drop (offset k)).take
          options.limit.toNat) := by
    obtain ⟨orders', arranged, hok, harranged, hshows⟩ :=
      listPage_ok scan hids huser ⟨hlimit, hfits⟩ (hsent k hk)
    obtain rfl := Except.ok.inj (hok.symm.trans hpage)
    rw [← map_id_of_shows hshows, ← List.map_drop, ← List.map_take]
    exact harranged.perm.map _
  have hoffsets := offsets_of_pages hnodup hsize (pages.map (List.map ListedOrder.id)) offset
    ?pages ?all ?mono ?nonempty
  case pages =>
    intro i p hp
    rw [List.getElem?_map, Option.map_eq_some_iff] at hp
    obtain ⟨orders, hi, rfl⟩ := hp
    obtain ⟨hlt, rfl⟩ := List.getElem?_eq_some_iff.mp hi
    exact hslice hlt.le (hfirst.results i hlt)
  case all =>
    obtain ⟨arranged, harranged, hshows⟩ := hlossless.orders
    rw [← List.map_flatten, ← map_id_of_shows hshows]
    exact (harranged.perm.trans hperm.symm).map _
  case mono =>
    intro i j hij hj
    rw [List.length_map] at hj
    have hi := (pageSkip_of_rowCount hlimit (hsent i (by omega))).2.1
    have hj := (pageSkip_of_rowCount hlimit (hsent j hj.le)).2.1
    exact_mod_cast pageSkip_mono (by exact_mod_cast Nat.succ_le_succ hij) hlimit hi hj
  case nonempty =>
    intro p hp
    obtain ⟨orders, horders, rfl⟩ := List.mem_map.mp hp
    simpa using hfirst.nonempty orders horders
  rw [List.length_map, hlength] at hoffsets
  refine ⟨hoffsets.1, hoffsets.2, ?_⟩
  have hempty := (hslice le_rfl hfirst.last).length_eq
  rw [List.length_take, List.length_drop, hlength, List.map_nil, List.length_nil] at hempty
  omega

/-- The pages of at most 2^52 orders lose nothing, exactly when the database takes the limit. -/
theorem lossless_of_few (hids : (db.orders.map (·.id)).Nodup)
    (huser : options.userId = some u.text) (hlimit : 1 ≤ options.limit)
    (hdouble : Number.round options.limit = .ofInt options.limit)
    (hfew : (matching options u db).length ≤ 2 ^ 52) :
    (∃ pages, FirstPages (listPage scan options db) pages ∧
      Lossless db (matching options u db) options.limit pages) ↔ options.limit < 2 ^ 63 := by
  constructor
  · rintro ⟨pages, hfirst, -⟩
    exact (sent_of_listPage scan huser hlimit hfirst.last).1
  · intro hfits
    have hsize : 0 < options.limit.toNat := by omega
    have hall := le_pageCount_mul (n := (matching options u db).length) hsize
    have hlt := pageCount_mul_lt (n := (matching options u db).length) hsize
    have hcast := natCast_mul_toNat hlimit
      (pageCount (matching options u db).length options.limit.toNat)
    refine exists_firstPages scan hids huser ⟨hlimit, hfits⟩
      (fun k hk => pageSkip_upTo hlimit hfew hdouble hk.le)
      (pageSkip_upTo hlimit hfew hdouble le_rfl) (by omega) ?_
    by_cases hmany : 1 < pageCount (matching options u db).length options.limit.toNat
    · have hlow := (lt_pageCount hsize).mp hmany
      omega
    · have hle := Nat.mul_le_mul_right options.limit.toNat (not_lt.mp hmany)
      omega

/-- The pages from the first to the first empty one list every matching order, exactly when the
database takes the limit, and the offset of every page as it is rounded is the exact one, or for the
first page that is empty one past the last order that it takes. -/
theorem paging_lossless_iff (hids : (db.orders.map (·.id)).Nodup)
    (huser : options.userId = some u.text) (hlimit : 1 ≤ options.limit) :
    (∃ pages, FirstPages (listPage scan options db) pages ∧
      Lossless db (matching options u db) options.limit pages) ↔
    options.limit < 2 ^ 63 ∧
      (∀ k < pageCount (matching options u db).length options.limit.toNat,
        pageSkip (k + 1 : Nat) options.limit = .ofInt (k * options.limit)) ∧
      ∃ last : Int, pageSkip
          (pageCount (matching options u db).length options.limit.toNat + 1 : Nat)
          options.limit = .ofInt last ∧
        ((matching options u db).length : Int) ≤ last ∧ last < 2 ^ 63 := by
  constructor
  · rintro ⟨pages, hfirst, hlossless⟩
    have hsent : ∀ k, ∃ offset, k ≤ pages.length →
        rowCount (pageSkip (k + 1 : Nat) options.limit) = .ok offset := by
      intro k
      by_cases hk : k < pages.length
      · obtain ⟨-, offset, hoffset⟩ := sent_of_listPage scan huser hlimit (hfirst.results k hk)
        exact ⟨offset, fun _ => hoffset⟩
      · obtain ⟨-, offset, hoffset⟩ := sent_of_listPage scan huser hlimit hfirst.last
        exact ⟨offset, fun hle => le_antisymm hle (not_lt.mp hk) ▸ hoffset⟩
    choose offset hsent using hsent
    obtain ⟨hcount, hoffsets, hend⟩ :=
      offsets_of_lossless scan hids huser hlimit hfirst hlossless hsent
    refine ⟨(sent_of_listPage scan huser hlimit hfirst.last).1, fun k hk => ?_, ?_⟩
    · rw [← hcount] at hk
      rw [(pageSkip_of_rowCount hlimit (hsent k hk.le)).2.1, hoffsets k hk,
        natCast_mul_toNat hlimit]
    · obtain ⟨-, hlast, hfits⟩ := pageSkip_of_rowCount hlimit (hsent pages.length le_rfl)
      rw [← hcount]
      exact ⟨_, hlast, by exact_mod_cast hend, hfits⟩
  · rintro ⟨hfits, hskip, last, hlast, hend, hlt⟩
    exact exists_firstPages scan hids huser ⟨hlimit, hfits⟩ hskip hlast hend hlt

end AllPages

/-- A limit beyond `bigint` ends in an error of the database, so no order is listed. -/
theorem listedShop_no_page : ¬ ∃ pages,
    FirstPages (listPage (fun _ => tableOrder)
      { status := .created, userId := some (UUID.ofNat 7).text, page := 1, limit := 2 ^ 63,
        fromDate := none, toDate := none } listedShop) pages := by
  rintro ⟨pages, hfirst⟩
  have hsent := sent_of_listPage (u := .ofNat 7) _ rfl (by decide) hfirst.last
  exact absurd hsent.1 (by decide)

/-- Two pages of at most two orders, though two of the three have one creation time. -/
theorem listedShop_paged : ∃ pages,
    FirstPages (listPage (fun _ => tableOrder)
      { status := .created, userId := some (UUID.ofNat 7).text, page := 1, limit := 2,
        fromDate := none, toDate := none } listedShop) pages ∧
    Lossless listedShop listedShop.orders 2 pages := by
  have hexact (k : Nat) (hk : k ≤ 2) : pageSkip (k + 1 : Nat) 2 = .ofInt (k * 2) := by
    have hskip := pageSkip_exact (k + 1 : Nat) 2
      (by rw [abs_le]; omega) (by rw [abs_le]; omega)
    rwa [Nat.cast_add, Nat.cast_one, add_sub_cancel_right] at hskip
  exact (paging_lossless_iff _ (u := .ofNat 7) (by decide +kernel) rfl (by decide)).mpr
    ⟨by decide, fun k hk => hexact k (hk.le.trans (by decide +kernel)), 4,
      hexact 2 le_rfl, by decide +kernel, by decide⟩

end Ecommerce.Orders
