import Ecommerce.Orders.Calls

/-!
# CallInvariant — what holds in every state of order creation

The lock tables agree with what the calls hold; every row a call has locked is still the committed
row; the local variables of a call are what the steps so far compute; an inserted key is not
committed.  One step changes the phase of one call, so preservation is proved once for the three
kinds of such changes (`Inv.local_step`, `Inv.keep`, `Inv.drop`) and each step is an instance.
-/

namespace Ecommerce.Orders

open Locking Transition

variable {ι : Type} [DecidableEq ι] {env : Env ι} {db₀ : Db}

/-- `tx` is a transaction of call `c`: its order row is the one `c` inserts. -/
def Opened (env : Env ι) (c : ι) (tx : Tx) : Prop :=
  ∃ key, UUID.ofText (env.request c).idempotencyKey = some key ∧
    tx.order = newOrder (env.request c) (env.choices c) key

/-- The rows locked so far and then those still to lock are the matched rows in scan order. -/
def Scanned (env : Env ι) (db₀ : Db) (c : ι) (tx : Tx) (todo : List UUID) : Prop :=
  ∃ ids, (env.request c).ids = .ok ids ∧
    tx.lockedIds ++ todo = (env.choices c).scan (db₀.matchingIds ids)

/-- All writes of the transaction are in place and are what the loop computed. -/
structure Filled (env : Env ι) (db₀ : Db) (c : ι) (tx : Tx) : Prop where
  opened : Opened env c tx
  scanned : Scanned env db₀ c tx []
  writes : ∃ partialItems products,
    (env.request c).check tx.order.id tx.rows = .ok (partialItems, products) ∧
    saveItems partialItems = .ok tx.items ∧ saveProducts products = .ok tx.stocks

/-- The order of `tx` with its items, as every later look-up shows it. -/
def txView (ch : Choices) (tx : Tx) : OrderView where
  id := tx.order.id
  status := tx.order.status
  idempotencyKey := tx.order.idempotencyKey
  createdAt := tx.order.createdAt
  updatedAt := tx.order.updatedAt
  processedAt := tx.order.processedAt
  items := ch.joined tx.items

/-- The local variables of a call, phase by phase. -/
def PhaseOk (env : Env ι) (db₀ : Db) (c : ι) : Phase → Prop
  | .inserted tx => Opened env c tx ∧ tx = .start tx.order
  | .locking tx todo =>
    Opened env c tx ∧ tx.items = [] ∧ tx.stocks = [] ∧ Scanned env db₀ c tx todo
  | .checked tx partialItems products =>
    Opened env c tx ∧ tx.stocks = [] ∧ Scanned env db₀ c tx [] ∧
      (env.request c).check tx.order.id tx.rows = .ok (partialItems, products)
  | .itemsSaved tx products =>
    Opened env c tx ∧ Scanned env db₀ c tx [] ∧ ∃ partialItems,
      (env.request c).check tx.order.id tx.rows = .ok (partialItems, products) ∧
      saveItems partialItems = .ok tx.items
  | .stocksSaved tx => Filled env db₀ c tx
  | .reread tx result => Filled env db₀ c tx ∧ result = txView (env.choices c) tx
  | .failing (some tx) _ => Opened env c tx
  | _ => True

structure Inv (env : Env ι) (db₀ : Db) (s : Sys ι) : Prop where
  rowLocks : s.rowLocks.Agrees fun c id => id ∈ (s.calls c).rows.map (·.id)
  keyLocks : s.keyLocks.Agrees fun c key => (s.calls c).openKey = some key
  current : ∀ c, ∀ r ∈ (s.calls c).rows, r ∈ s.db.products
  phases : ∀ c, PhaseOk env db₀ c (s.calls c)
  keyFree : ∀ c key, (s.calls c).openKey = some key → s.db.orderByKey key = none
  productIds : s.db.products.map (·.id) = db₀.products.map (·.id)
  valid : s.db.Valid
  owners : ∀ o ∈ s.db.orders, (∃ o₀ ∈ db₀.orders, o₀.id = o.id) ∨
    ∃ d, (env.choices d).newId = o.id ∧ (s.calls d).past = true

/-! ## Steps that leave the database as it is -/

section Local

variable {s : Sys ι}

/-- One call moves to the phase `ph` and the database stays: what remains to show is about the lock
tables and about `ph`. -/
theorem Inv.local_step (h : Inv env db₀ s) {s' : Sys ι} {c : ι} {ph : Phase}
    (hcalls : s'.calls = Function.update s.calls c ph) (hdb : s'.db = s.db)
    (hrows : s'.rowLocks.Agrees fun d id => id ∈ (s'.calls d).rows.map (·.id))
    (hkeys : s'.keyLocks.Agrees fun d key => (s'.calls d).openKey = some key)
    (hcur : ∀ r ∈ ph.rows, r ∈ s.db.products) (hph : PhaseOk env db₀ c ph)
    (hfree : ∀ key, ph.openKey = some key → s.db.orderByKey key = none)
    (hpast : (s.calls c).past = true → ph.past = true) : Inv env db₀ s' where
  rowLocks := hrows
  keyLocks := hkeys
  current := by
    intro d
    rw [hcalls, hdb]
    by_cases hd : d = c
    · subst hd
      simpa using hcur
    · rw [Function.update_of_ne hd]
      exact h.current d
  phases := by
    intro d
    rw [hcalls]
    by_cases hd : d = c
    · subst hd
      simpa using hph
    · rw [Function.update_of_ne hd]
      exact h.phases d
  keyFree := by
    intro d
    rw [hcalls, hdb]
    by_cases hd : d = c
    · subst hd
      simpa using hfree
    · rw [Function.update_of_ne hd]
      exact h.keyFree d
  productIds := by
    rw [hdb]
    exact h.productIds
  valid := by
    rw [hdb]
    exact h.valid
  owners := by
    intro o ho
    rw [hdb] at ho
    -- an order of a call stays one: the call does not move back before its COMMIT
    rcases h.owners o ho with h0 | ⟨d, hid, hd⟩
    · exact Or.inl h0
    · refine Or.inr ⟨d, hid, ?_⟩
      rw [hcalls]
      by_cases hdc : d = c
      · subst hdc
        simpa using hpast hd
      · rw [Function.update_of_ne hdc]
        exact hd

/-- The call holds the same rows and the same key as before. -/
theorem Inv.keep (h : Inv env db₀ s) (c : ι) {ph : Phase} {n : Nat} {es : List (Event ι)}
    (hrows : ph.rows = (s.calls c).rows) (hkey : ph.openKey = (s.calls c).openKey)
    (hph : PhaseOk env db₀ c ph) (hpast : (s.calls c).past = true → ph.past = true) :
    Inv env db₀ { s.setPhase c ph with free := n, history := es } := by
  have rows_eq : ∀ d, (Function.update s.calls c ph d).rows = (s.calls d).rows := by
    intro d
    by_cases hd : d = c
    · subst hd
      simpa using hrows
    · rw [Function.update_of_ne hd]
  have key_eq : ∀ d, (Function.update s.calls c ph d).openKey = (s.calls d).openKey := by
    intro d
    by_cases hd : d = c
    · subst hd
      simpa using hkey
    · rw [Function.update_of_ne hd]
  refine h.local_step rfl rfl ?_ ?_ ?_ hph ?_ hpast
  · exact h.rowLocks.congr fun d id => by simp [Sys.setPhase, rows_eq]
  · exact h.keyLocks.congr fun d key => by simp [Sys.setPhase, key_eq]
  · rw [hrows]
    exact h.current c
  · rw [hkey]
    exact h.keyFree c

/-- The call's transaction is over: its locks are released. -/
theorem Inv.drop (h : Inv env db₀ s) (c : ι) {ph : Phase} {n : Nat} {es : List (Event ι)}
    (htx : ph.tx? = none) (hph : PhaseOk env db₀ c ph)
    (hpast : (s.calls c).past = true → ph.past = true) :
    Inv env db₀ { (s.releaseLocks c).setPhase c ph with free := n, history := es } := by
  have hrows : ph.rows = [] := by simp [Phase.rows, htx]
  have hkey : ph.openKey = none := by simp [Phase.openKey, htx]
  refine h.local_step rfl rfl ?_ ?_ ?_ hph ?_ hpast
  · refine h.rowLocks.releaseAll ?_ ?_
    · intro id
      simp [Sys.setPhase, hrows]
    · intro d hd id
      simp [Sys.setPhase, Function.update_of_ne hd, Sys.releaseLocks]
  · refine h.keyLocks.releaseAll ?_ ?_
    · intro key
      simp [Sys.setPhase, hkey]
    · intro d hd key
      simp [Sys.setPhase, Function.update_of_ne hd, Sys.releaseLocks]
  · simp [hrows]
  · simp [hkey]

omit [DecidableEq ι] in
/-- A call throws inside an open transaction, which has not committed. -/
theorem Throws.open_tx {c : ι} {ph : Phase} {tx : Tx} {e : Failure} (h : Throws env s c ph tx e) :
    ph.tx? = some tx ∧ ph.past = false := by
  cases h <;> exact ⟨rfl, rfl⟩

omit [DecidableEq ι] in
theorem PhaseOk.opened {c : ι} {ph : Phase} {tx : Tx} (h : PhaseOk env db₀ c ph)
    (htx : ph.tx? = some tx) : Opened env c tx := by
  cases ph with
  | inserted tx' =>
    cases htx
    exact h.1
  | locking tx' todo =>
    cases htx
    exact h.1
  | checked tx' partialItems products =>
    cases htx
    exact h.1
  | itemsSaved tx' products =>
    cases htx
    exact h.1
  -- from here on the transaction is filled, which says more
  | stocksSaved tx' =>
    cases htx
    exact Filled.opened h
  | reread tx' result =>
    cases htx
    exact h.1.opened
  | failing tx' e =>
    cases htx
    exact h
  | _ => cases htx

theorem Inv.throws (h : Inv env db₀ s) {c : ι} {tx : Tx} {e : Failure}
    (why : Throws env s c (s.calls c) tx e) : Inv env db₀ (s.throwing c tx e) := by
  obtain ⟨htx, hpast⟩ := why.open_tx
  unfold Sys.throwing
  split
  -- the server has rolled back already
  · exact h.drop c rfl trivial (by simp [hpast])
  · have hrows : (Phase.failing (some tx) e).rows = (s.calls c).rows := by
      unfold Phase.rows
      rw [htx]
      rfl
    have hkey : (Phase.failing (some tx) e).openKey = (s.calls c).openKey := by
      unfold Phase.openKey
      rw [htx]
      rfl
    exact h.keep c hrows hkey ((h.phases c).opened htx) (by simp [hpast])

/-- The new row enters the unique index, and its key is locked with it. -/
theorem Inv.insert (h : Inv env db₀ s) {c : ι} {key : UUID} (hc : s.calls c = .begun)
    (hkey : UUID.ofText (env.request c).idempotencyKey = some key)
    (hnew : s.db.orderByKey ((env.request c).userId, key) = none)
    (hlock : s.keyLocks ((env.request c).userId, key) = none) :
    Inv env db₀ { s.setPhase c (.inserted (.start (newOrder (env.request c) (env.choices c) key)))
      with keyLocks := s.keyLocks.acquire ((env.request c).userId, key) c } := by
  -- c holds no row yet, and its key was free
  refine h.local_step (c := c) rfl rfl ?_ ?_ ?_ ⟨⟨key, hkey, rfl⟩, rfl⟩ ?_ ?_
  · refine h.rowLocks.congr fun d id => ?_
    by_cases hd : d = c
    · subst hd
      simp [Sys.setPhase, hc, Phase.rows, Phase.tx?, Tx.start]
    · simp [Sys.setPhase, hd]
  · refine h.keyLocks.acquire hlock ?_ ?_
    · intro key'
      simp [Sys.setPhase, hc, Phase.openKey, Phase.tx?, Tx.start, newOrder, Order.key, eq_comm]
    · intro d hd key'
      simp [Sys.setPhase, hd]
  · simp [Phase.rows, Phase.tx?, Tx.start]
  · intro key' hkey'
    simp only [Phase.openKey, Phase.tx?, Tx.start, newOrder, Order.key, Option.map_some,
      Option.some.injEq] at hkey'
    rw [← hkey']
    exact hnew
  · simp [hc, Phase.past]

omit [DecidableEq ι] in
/-- The statement visits the matched rows, which are the ones that matched at the start. -/
theorem Inv.select (h : Inv env db₀ s) {c : ι} {tx : Tx} {ids : List UUID}
    (hc : s.calls c = .inserted tx) (hids : (env.request c).ids = .ok ids) :
    PhaseOk env db₀ c (.locking tx ((env.choices c).scan (s.db.matchingIds ids))) := by
  have hph := h.phases c
  rw [hc] at hph
  obtain ⟨hopen, htx⟩ := hph
  refine ⟨hopen, by rw [htx]; rfl, by rw [htx]; rfl, ids, hids, ?_⟩
  rw [htx, Db.matchingIds_congr h.productIds]
  rfl

omit [DecidableEq ι] in
/-- Every row still to lock is there: products are neither inserted nor deleted. -/
theorem Inv.todo_product (h : Inv env db₀ s) {c : ι} {tx : Tx} {todo : List UUID}
    (hc : s.calls c = .locking tx todo) {id : UUID} (hid : id ∈ todo) :
    ∃ row, s.db.product? id = some row ∧ row ∈ s.db.products ∧ row.id = id := by
  have hph := h.phases c
  rw [hc] at hph
  obtain ⟨-, -, -, ids, -, hscan⟩ := hph
  have hmem : id ∈ (env.choices c).scan (db₀.matchingIds ids) := by
    rw [← hscan]
    exact List.mem_append_right _ hid
  rw [((env.choices c).scan_perm _).mem_iff, ← Db.matchingIds_congr h.productIds,
    Db.mem_matchingIds] at hmem
  obtain ⟨-, row, hrow, rfl⟩ := hmem
  exact ⟨row, Db.product?_of_mem h.valid.productIds hrow, hrow, rfl⟩

/-- A row is locked and read in its last committed version. -/
theorem Inv.lock (h : Inv env db₀ s) {c : ι} {tx : Tx} {id : UUID} {todo : List UUID}
    {row : Product} (hc : s.calls c = .locking tx (id :: todo)) (hlock : s.rowLocks id = none)
    (hrow : s.db.product? id = some row) :
    Inv env db₀ { s.setPhase c (.locking { tx with rows := tx.rows ++ [row] } todo) with
      rowLocks := s.rowLocks.acquire id c } := by
  obtain ⟨row', hrow', hmem, hid⟩ := h.todo_product hc (List.mem_cons_self ..)
  -- the row that is read is the committed one
  cases hrow.symm.trans hrow'
  have hph := h.phases c
  rw [hc] at hph
  obtain ⟨hopen, hitems, hstocks, ids, hids, hscan⟩ := hph
  refine h.local_step (c := c) rfl rfl ?_ ?_ ?_ ⟨hopen, hitems, hstocks, ids, hids, ?_⟩ ?_ ?_
  · refine h.rowLocks.acquire hlock ?_ ?_
    · intro id'
      simp [Sys.setPhase, hc, Phase.rows, Phase.tx?, hid, or_comm]
    · intro d hd id'
      simp [Sys.setPhase, hd]
  · refine h.keyLocks.congr fun d key => ?_
    by_cases hd : d = c
    · subst hd
      simp [Sys.setPhase, hc, Phase.openKey, Phase.tx?]
    · simp [Sys.setPhase, hd]
  · intro r hr
    simp only [Phase.rows, Phase.tx?, Option.map_some, Option.getD_some, List.mem_append,
      List.mem_singleton] at hr
    rcases hr with hr | rfl
    · exact h.current c r (by simpa [hc, Phase.rows, Phase.tx?] using hr)
    · exact hmem
  · rw [← hscan]
    simp [Tx.lockedIds, hid]
  · intro key hkey
    exact h.keyFree c key (by rw [hc]; exact hkey)
  · simp [hc, Phase.past]

end Local

/-! ## What a filled transaction writes -/

/-- The quantity the request asks of a product, read from its lines. -/
def askedQty (lines : List Line) (p : Product) : Nat := (qtyOf lines p.id).getD 0

omit [DecidableEq ι] in
/-- One item and one new stock for every locked row, and no stock falls below zero. -/
theorem Filled.writes_eq {c : ι} {tx : Tx} (h : Filled env db₀ c tx) :
    ∃ lines, (env.request c).dto.lines = .ok lines ∧ tx.rows.length = lines.length ∧
      (∀ r ∈ tx.rows, qtyOf lines r.id = some (askedQty lines r)) ∧
      tx.items = tx.rows.map (fun r => ⟨tx.order.id, r.id, askedQty lines r, r.price⟩) ∧
      tx.stocks = tx.rows.map (fun r => (r.id, r.stock - askedQty lines r)) ∧
      ∀ r ∈ tx.rows, (askedQty lines r : Int) ≤ r.stock := by
  obtain ⟨partialItems, products, hcheck, hitems, hstocks⟩ := h.writes
  unfold Request.check at hcheck
  split at hcheck
  · rename_i lines hlines
    obtain ⟨hlen, hfill⟩ := checkProducts_ok hcheck
    obtain ⟨hloop, hproducts, hle⟩ := fillItems_ok hfill
    have hpi := saveItems_ok hitems
    have hps := saveProducts_ok hstocks
    -- an undefined quantity would have been refused by the NOT NULL of the items
    have hq : ∀ r ∈ tx.rows, qtyOf lines r.id = some (askedQty lines r) := by
      intro r hr
      have hmem : (⟨tx.order.id, r.id, qtyOf lines r.id, r.price⟩ : PartialItem) ∈ partialItems := by
        rw [hloop]
        exact List.mem_map_of_mem hr
      rw [hpi] at hmem
      obtain ⟨i, -, hi⟩ := List.mem_map.mp hmem
      simp only [PartialItem.mk.injEq] at hi
      simp [askedQty, ← hi.2.2.1]
    refine ⟨lines, hlines, hlen, hq, ?_, ?_, fun r hr => hle r hr _ (hq r hr)⟩
    · -- the saved items and the checked lines are the same list, read twice
      let back : PartialItem → OrderItem := fun i =>
        ⟨i.orderId, i.productId, i.qty.getD 0, i.purchasePrice⟩
      calc tx.items = partialItems.map back := by
            rw [hpi, List.map_map]
            exact (List.map_id _).symm
        _ = _ := by
            rw [hloop, List.map_map]
            rfl
    · let back : StockUpdate → UUID × Int := fun u => (u.id, u.stock.getD 0)
      calc tx.stocks = products.map back := by
            rw [hps, List.map_map]
            exact (List.map_id _).symm
        _ = _ := by
            rw [hproducts, List.map_map]
            refine List.map_congr_left fun r hr => ?_
            simp [back, hq r hr]
  · cases hcheck

omit [DecidableEq ι] in
theorem Filled.items_orderId {c : ι} {tx : Tx} (h : Filled env db₀ c tx) :
    ∀ i ∈ tx.items, i.orderId = tx.order.id := by
  obtain ⟨lines, -, -, -, hitems, -, -⟩ := h.writes_eq
  rw [hitems]
  simp

omit [DecidableEq ι] in
/-- Only locked rows are written. -/
theorem Filled.lookup_stocks {c : ι} {tx : Tx} (h : Filled env db₀ c tx) {id : UUID}
    (hid : id ∉ tx.lockedIds) : tx.stocks.lookup id = none := by
  obtain ⟨lines, -, -, -, -, hstocks, -⟩ := h.writes_eq
  rw [hstocks, List.lookup_eq_none_iff]
  intro st hst
  obtain ⟨r, hr, rfl⟩ := List.mem_map.mp hst
  have hne : id ≠ r.id := fun heq => hid (heq ▸ List.mem_map_of_mem hr)
  simpa using hne

omit [DecidableEq ι] in
theorem Filled.lockedIds_nodup {c : ι} {tx : Tx} (h : Filled env db₀ c tx)
    (hv : (db₀.products.map (·.id)).Nodup) : tx.lockedIds.Nodup := by
  obtain ⟨ids, -, hscan⟩ := h.scanned
  rw [List.append_nil] at hscan
  rw [hscan, ((env.choices c).scan_perm _).nodup_iff]
  exact Db.matchingIds_nodup hv ids

/-! ## COMMIT and the steps outside the transaction -/

section Steps

variable {s : Sys ι}

omit [DecidableEq ι] in
/-- An order row that is committed does not have the id of a call that has not committed. -/
theorem Inv.newId_free (h : Inv env db₀ s) (hf : FreshIds env db₀) {c : ι}
    (hc : (s.calls c).past = false) : ∀ o ∈ s.db.orders, o.id ≠ (env.choices c).newId := by
  intro o ho heq
  rcases h.owners o ho with ⟨o₀, ho₀, hid⟩ | ⟨d, hid, hd⟩
  · exact hf c o₀ ho₀ (hid.trans heq)
  · have hdc : d = c := env.newId_injective (hid.trans heq)
    rw [hdc, hc] at hd
    cases hd

omit [DecidableEq ι] in
theorem Opened.order_id {c : ι} {tx : Tx} (h : Opened env c tx) :
    tx.order.id = (env.choices c).newId := by
  obtain ⟨key, -, heq⟩ := h
  rw [heq]
  rfl

omit [DecidableEq ι] in
/-- The re-read inside the transaction finds the order it inserted. -/
theorem Inv.findOne_own (h : Inv env db₀ s) (hf : FreshIds env db₀) {c : ι} {tx : Tx}
    (htx : Filled env db₀ c tx) (hc : (s.calls c).past = false) :
    findOne (env.choices c) (s.db.apply tx) tx.order.id = some (txView (env.choices c) tx) := by
  have hid := h.newId_free hf hc
  rw [← htx.opened.order_id] at hid
  simp only [findOne, Db.orderById_apply_self hid, Option.map_some, viewOrder, txView,
    Db.itemsOf_apply_self h.valid hid htx.items_orderId]

omit [DecidableEq ι] in
/-- The committed contents change while every call stays where it is. -/
theorem Inv.change_db (h : Inv env db₀ s) {db : Db}
    (hcur : ∀ c, ∀ r ∈ (s.calls c).rows, r ∈ db.products)
    (hfree : ∀ c key, (s.calls c).openKey = some key → db.orderByKey key = none)
    (hids : db.products.map (·.id) = s.db.products.map (·.id)) (hvalid : db.Valid)
    (howners : ∀ o ∈ db.orders, (∃ o' ∈ s.db.orders, o'.id = o.id) ∨
      ∃ d, (env.choices d).newId = o.id ∧ (s.calls d).past = true) :
    Inv env db₀ { s with db := db } where
  rowLocks := h.rowLocks
  keyLocks := h.keyLocks
  current := hcur
  phases := h.phases
  keyFree := hfree
  productIds := hids.trans h.productIds
  valid := hvalid
  owners := by
    intro o ho
    rcases howners o ho with ⟨o', ho', hid⟩ | hd
    · rw [← hid]
      exact h.owners o' ho'
    · exact Or.inr hd

theorem Inv.commit (h : Inv env db₀ s) (hf : FreshIds env db₀) {c : ι} {tx : Tx}
    {result : OrderView} (hc : s.calls c = .reread tx result) :
    Inv env db₀ (s.commit c tx result) := by
  have hph := h.phases c
  rw [hc] at hph
  obtain ⟨htx, -⟩ := hph
  have hpast : (s.calls c).past = false := by rw [hc]; rfl
  have hopenKey : (s.calls c).openKey = some tx.order.key := by rw [hc]; rfl
  have hlocked : ∀ id ∈ tx.lockedIds, id ∈ (s.calls c).rows.map (·.id) := by
    rw [hc]
    exact fun id hid => hid
  have hdrop : Inv env db₀ { (s.releaseLocks c).setPhase c (.committed result) with
      free := s.free, history := s.history ++ [.committed c tx] } :=
    h.drop c rfl trivial (fun _ => rfl)
  have other : ∀ d, d ≠ c → ((s.releaseLocks c).setPhase c (.committed result)).calls d = s.calls d :=
    fun d hd => Function.update_of_ne hd _ _
  refine hdrop.change_db ?_ ?_ (Db.apply_productIds s.db tx) ?_ ?_
  · intro d r hr
    by_cases hd : d = c
    · subst hd
      simp [Sys.setPhase, Phase.rows, Phase.tx?] at hr
    · have hr' : r ∈ (s.calls d).rows := by rwa [← other d hd]
      refine Db.mem_apply_products (h.current d r hr') (htx.lookup_stocks fun hmem => ?_)
      -- no row is locked by both
      exact hd (h.rowLocks.holder_unique (List.mem_map_of_mem hr') (hlocked _ hmem))
  · intro d key hkey
    by_cases hd : d = c
    · subst hd
      simp [Sys.setPhase, Phase.openKey, Phase.tx?] at hkey
    · have hkey' : (s.calls d).openKey = some key := by rwa [← other d hd]
      refine Db.orderByKey_apply_of_ne (h.keyFree d key hkey') fun heq => ?_
      exact hd (h.keyLocks.holder_unique hkey' (heq ▸ hopenKey))
  · have hid := h.newId_free hf hpast
    rw [← htx.opened.order_id] at hid
    exact h.valid.apply hid (h.keyFree c _ hopenKey) htx.items_orderId
  · intro o ho
    rcases List.mem_append.mp ho with ho | ho
    · exact Or.inl ⟨o, ho, rfl⟩
    · rw [List.mem_singleton.mp ho]
      exact Or.inr ⟨c, htx.opened.order_id.symm, by simp [Sys.setPhase, Phase.past]⟩

theorem Inv.advance (h : Inv env db₀ s) (hf : FreshIds env db₀) {c : ι} {s' : Sys ι}
    (hs : s.advance env c = some s') : Inv env db₀ s' := by
  have hph := h.phases c
  cases advance_cases hs with
  | connect hc hfree =>
    exact h.keep c (by rw [hc]; rfl) (by rw [hc]; rfl) trivial (by simp [hc, Phase.past])
  | badKey hc hkey =>
    exact h.keep c (by rw [hc]; rfl) (by rw [hc]; rfl) trivial (by simp [hc, Phase.past])
  | refused key o hc hkey ho =>
    exact h.keep c (by rw [hc]; rfl) (by rw [hc]; rfl) trivial (by simp [hc, Phase.past])
  | insert key hc hkey hnew hlock => exact h.insert hc hkey hnew hlock
  | throws tx e why => exact h.throws why
  | select tx ids hc hids =>
    exact h.keep c (by rw [hc]; rfl) (by rw [hc]; rfl) (h.select hc hids) (by simp [hc, Phase.past])
  | lock tx id todo row hc hlock hrow => exact h.lock hc hlock hrow
  | skip tx id todo hc hlock hrow =>
    -- no row can vanish while the statement waits for it
    obtain ⟨row, hrow', -, -⟩ := h.todo_product hc (List.mem_cons_self ..)
    cases hrow.symm.trans hrow'
  | check tx partialItems products hc hcheck =>
    rw [hc] at hph
    obtain ⟨hopen, -, hstocks, hscan⟩ := hph
    exact h.keep c (by rw [hc]; rfl) (by rw [hc]; rfl) ⟨hopen, hstocks, hscan, hcheck⟩
      (by simp [hc, Phase.past])
  | insertItems tx partialItems products items hc hitems =>
    rw [hc] at hph
    obtain ⟨hopen, -, hscan, hcheck⟩ := hph
    exact h.keep c (by rw [hc]; rfl) (by rw [hc]; rfl)
      ⟨hopen, hscan, partialItems, hcheck, hitems⟩ (by simp [hc, Phase.past])
  | writeStocks tx products stocks hc hstocks =>
    rw [hc] at hph
    obtain ⟨hopen, hscan, partialItems, hcheck, hitems⟩ := hph
    exact h.keep c (by rw [hc]; rfl) (by rw [hc]; rfl)
      ⟨hopen, hscan, partialItems, products, hcheck, hitems, hstocks⟩ (by simp [hc, Phase.past])
  | readAgain tx result hc hresult =>
    rw [hc] at hph
    have hview : result = txView (env.choices c) tx :=
      Option.some.inj (hresult.symm.trans (h.findOne_own hf hph (by rw [hc]; rfl)))
    exact h.keep c (by rw [hc]; rfl) (by rw [hc]; rfl) ⟨hph, hview⟩ (by simp [hc, Phase.past])
  | commit tx result hc => exact h.commit hf hc
  | release result hc =>
    exact h.keep c (by rw [hc]; rfl) (by rw [hc]; rfl) trivial (fun _ => rfl)
  | send result hc =>
    exact h.keep c (by rw [hc]; rfl) (by rw [hc]; rfl) trivial (fun _ => rfl)
  | connectAgain hc hfree =>
    exact h.keep c (by rw [hc]; rfl) (by rw [hc]; rfl) trivial (by simp [hc, Phase.past])
  | find key o hc hkey ho =>
    exact h.keep c (by rw [hc]; rfl) (by rw [hc]; rfl) trivial (by simp [hc, Phase.past])
  | missing hc ho =>
    exact h.keep c (by rw [hc]; rfl) (by rw [hc]; rfl) trivial (by simp [hc, Phase.past])
  | dispose result hc =>
    exact h.keep c (by rw [hc]; rfl) (by rw [hc]; rfl) trivial (fun _ => rfl)
  | rollback tx e hc => exact h.drop c rfl trivial (fun _ => rfl)

theorem beforeCommit_past {ph : Phase} (h : ph.beforeCommit = true) : ph.past = false := by
  cases ph <;> first | rfl | cases h

theorem Inv.fault (h : Inv env db₀ s) {c : ι} (hc : (s.calls c).beforeCommit = true) :
    Inv env db₀ (s.fault c) := by
  have hpast := beforeCommit_past hc
  unfold Sys.fault
  split
  · rename_i hw
    exact h.keep c (by rw [hw]; rfl) (by rw [hw]; rfl) trivial (fun _ => rfl)
  · exact h.drop c rfl trivial (by simp [hpast])

omit [DecidableEq ι] in
theorem Inv.worker (h : Inv env db₀ s) {db : Db} (hw : WorkerChange s.db db) :
    Inv env db₀ { s with db := db } := by
  obtain ⟨f, horders, hf⟩ := hw.orders
  -- the worker changes statuses only: ids and keys stay
  have hids : db.orders.map (·.id) = s.db.orders.map (·.id) := by
    rw [horders, List.map_map]
    exact List.map_congr_left fun o _ => (hf o).1
  have hkeys : db.orders.map (·.key) = s.db.orders.map (·.key) := by
    rw [horders, List.map_map]
    exact List.map_congr_left fun o _ => (hf o).2.1
  refine h.change_db ?_ ?_ (by rw [hw.products]) ?_ ?_
  · rw [hw.products]
    exact h.current
  · intro c key hkey
    have hnone := h.keyFree c key hkey
    rw [Db.orderByKey_eq_none_iff] at hnone ⊢
    intro o ho heq
    have hmem : o.key ∈ s.db.orders.map (·.key) := hkeys ▸ List.mem_map_of_mem ho
    obtain ⟨o', ho', heq'⟩ := List.mem_map.mp hmem
    exact hnone o' ho' (heq'.trans heq)
  · refine ⟨by rw [hw.products]; exact h.valid.productIds, by rw [hids]; exact h.valid.orderIds,
      by rw [hkeys]; exact h.valid.orderKeys, ?_⟩
    intro i hi
    rw [hw.orderItems] at hi
    obtain ⟨o, ho, heq⟩ := h.valid.itemOrders i hi
    have hmem : o.id ∈ db.orders.map (·.id) := hids ▸ List.mem_map_of_mem ho
    obtain ⟨o', ho', heq'⟩ := List.mem_map.mp hmem
    exact ⟨o', ho', heq'.trans heq⟩
  · intro o ho
    have hmem : o.id ∈ s.db.orders.map (·.id) := hids ▸ List.mem_map_of_mem ho
    obtain ⟨o', ho', heq⟩ := List.mem_map.mp hmem
    exact Or.inl ⟨o', ho', heq⟩

theorem Inv.step (h : Inv env db₀ s) (hf : FreshIds env db₀) {l : Label ι} {s' : Sys ι}
    (hs : Step env s l s') : Inv env db₀ s' := by
  cases hs with
  | advance c hs => exact h.advance hf hs
  | fault c hc => exact h.fault hc
  | sendThrows c result hc =>
    exact h.keep c (by rw [hc]; rfl) (by rw [hc]; rfl) trivial (fun _ => rfl)
  | kill c hc => exact h.drop c rfl trivial (fun _ => rfl)
  | worker db hw => exact h.worker hw

omit [DecidableEq ι] in
theorem inv_initial (hv : db₀.Valid) (n : Nat) : Inv env db₀ (Sys.initial n db₀) where
  rowLocks := LockTable.agrees_empty fun c id => by simp [Sys.initial, Phase.rows, Phase.tx?]
  keyLocks := LockTable.agrees_empty fun c key => by simp [Sys.initial, Phase.openKey, Phase.tx?]
  current := by
    intro c r hr
    simp [Sys.initial, Phase.rows, Phase.tx?] at hr
  phases := fun c => trivial
  keyFree := by
    intro c key hkey
    simp [Sys.initial, Phase.openKey, Phase.tx?] at hkey
  productIds := rfl
  valid := hv
  owners := fun o ho => Or.inl ⟨o, ho, rfl⟩

theorem Reachable.inv {n : Nat} (hr : Reachable env n db₀ s) (hv : db₀.Valid)
    (hf : FreshIds env db₀) : Inv env db₀ s :=
  hr.invariant (fun _ h0 => by rw [h0]; exact inv_initial hv n)
    fun _ _ _ _ h _ hs => h.step hf hs

end Steps

end Ecommerce.Orders
