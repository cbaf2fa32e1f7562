import Mathlib.Algebra.BigOperators.Group.List.Basic
import Ecommerce.Orders.CallInvariant

/-!
# StockConservation — no oversell

The stock of every product and the quantity sold of it add up to its initial stock in every committed
state.  A COMMIT writes stocks computed in memory; they are right because each row the call read is
still the committed row (`Inv.current`).
-/

namespace Ecommerce.Orders

open Locking Transition

variable {ι : Type} [DecidableEq ι] {env : Env ι} {db₀ : Db}

/-- The quantity of a product in the committed items of the orders that `db₀` does not have. -/
def soldSince (db₀ db : Db) (id : UUID) : Nat :=
  ((db.orderItems.filter fun i =>
    i.productId = id ∧ ∀ o ∈ db₀.orders, o.id ≠ i.orderId).map (·.qty)).sum

/-! ## Lists of rows with distinct ids -/

section Rows

variable {rows : List Product}

theorem lookup_map_of_mem (hn : (rows.map (·.id)).Nodup) {r : Product} (hr : r ∈ rows)
    (g : Product → Int) : (rows.map fun p => (p.id, g p)).lookup r.id = some (g r) := by
  induction rows with
  | nil => cases hr
  | cons p ps ih =>
    rw [List.map_cons, List.nodup_cons] at hn
    rcases List.mem_cons.mp hr with rfl | hr
    · rw [List.map_cons, List.lookup_cons_self]
    · have hne : r.id ≠ p.id := fun heq => hn.1 (heq ▸ List.mem_map_of_mem hr)
      rw [List.map_cons, List.lookup_cons, beq_false_of_ne hne]
      exact ih hn.2 hr

/-- One item a row: the items of a product sum up to the quantity of its row. -/
theorem sum_map_filter_of_mem (hn : (rows.map (·.id)).Nodup) {r : Product} (hr : r ∈ rows)
    (q : Product → Nat) : ((rows.filter (·.id = r.id)).map q).sum = q r := by
  induction rows with
  | nil => cases hr
  | cons p ps ih =>
    rw [List.map_cons, List.nodup_cons] at hn
    rcases List.mem_cons.mp hr with rfl | hr
    · have hrest : ps.filter (·.id = r.id) = [] := by
        rw [List.filter_eq_nil_iff]
        intro p hp
        have hne : p.id ≠ r.id := fun heq => hn.1 (heq ▸ List.mem_map_of_mem hp)
        simpa using hne
      rw [List.filter_cons_of_pos (by simp), hrest, List.map_singleton, List.sum_singleton]
    · have hne : p.id ≠ r.id := fun heq => hn.1 (heq ▸ List.mem_map_of_mem hr)
      rw [List.filter_cons_of_neg (by simpa using hne)]
      exact ih hn.2 hr

end Rows

/-! ## One COMMIT -/

section Commit

variable {db : Db} {c : ι} {tx : Tx}

theorem soldSince_apply (hnew : ∀ o ∈ db₀.orders, o.id ≠ tx.order.id)
    (hitems : ∀ i ∈ tx.items, i.orderId = tx.order.id) (id : UUID) :
    soldSince db₀ (db.apply tx) id =
      soldSince db₀ db id + ((tx.items.filter (·.productId = id)).map (·.qty)).sum := by
  have hfilter : (tx.items.filter fun i =>
      i.productId = id ∧ ∀ o ∈ db₀.orders, o.id ≠ i.orderId) =
      tx.items.filter (·.productId = id) := by
    apply List.filter_congr
    intro i hi
    rw [hitems i hi]
    simp only [decide_eq_decide]
    exact ⟨fun h => h.1, fun h => ⟨h, hnew⟩⟩
  simp only [soldSince, Db.apply, List.filter_append, List.map_append, List.sum_append, hfilter]

omit [DecidableEq ι] in
/-- What a COMMIT takes from a row's stock is what it adds to the quantity sold of it. -/
theorem Filled.newStock_add (h : Filled env db₀ c tx) (hv : (db₀.products.map (·.id)).Nodup)
    (hpk : (db.products.map (·.id)).Nodup) (hcur : ∀ r ∈ tx.rows, r ∈ db.products)
    {p : Product} (hp : p ∈ db.products) :
    (tx.newStock p).stock + ((tx.items.filter (·.productId = p.id)).map (·.qty)).sum = p.stock ∧
      (0 ≤ p.stock → 0 ≤ (tx.newStock p).stock) := by
  obtain ⟨lines, -, -, -, hitems, hstocks, hle⟩ := h.writes_eq
  have hnodup := h.lockedIds_nodup hv
  have hsum : ((tx.items.filter (·.productId = p.id)).map (·.qty)).sum =
      ((tx.rows.filter (·.id = p.id)).map (askedQty lines)).sum := by
    rw [hitems, List.filter_map, List.map_map]
    rfl
  rw [hsum]
  by_cases hlocked : p.id ∈ tx.lockedIds
  · obtain ⟨r, hr, hid⟩ := List.mem_map.mp hlocked
    -- the row that was read is the committed one
    have hrp : r = p := by
      have h1 := Db.product?_of_mem hpk (hcur r hr)
      rw [hid, Db.product?_of_mem hpk hp] at h1
      exact (Option.some.inj h1).symm
    subst hrp
    have hlookup : tx.stocks.lookup r.id = some (r.stock - askedQty lines r) := by
      rw [hstocks]
      exact lookup_map_of_mem hnodup hr _
    rw [sum_map_filter_of_mem hnodup hr]
    simp only [Tx.newStock, hlookup]
    have := hle r hr
    omega
  · have hnone : tx.rows.filter (·.id = p.id) = [] := by
      rw [List.filter_eq_nil_iff]
      intro r hr
      have hne : r.id ≠ p.id := fun heq => hlocked (heq ▸ List.mem_map_of_mem hr)
      simpa using hne
    rw [hnone, Db.newStock_of_not_written (h.lookup_stocks hlocked)]
    simp

end Commit

/-! ## Every run -/

/-- The law, for the products of one committed state. -/
def Conserved (db₀ db : Db) : Prop :=
  ∀ p ∈ db.products, 0 ≤ p.stock ∧
    ∃ p₀ ∈ db₀.products, p₀.id = p.id ∧ p.stock + soldSince db₀ db p.id = p₀.stock

theorem conserved_initial (hv : db₀.Valid) (hstock : ∀ p ∈ db₀.products, 0 ≤ p.stock) :
    Conserved db₀ db₀ := by
  intro p hp
  refine ⟨hstock p hp, p, hp, rfl, ?_⟩
  have hnone : (db₀.orderItems.filter fun i =>
      i.productId = p.id ∧ ∀ o ∈ db₀.orders, o.id ≠ i.orderId) = [] := by
    rw [List.filter_eq_nil_iff]
    intro i hi
    obtain ⟨o, ho, heq⟩ := hv.itemOrders i hi
    simp only [decide_eq_true_eq, not_and, not_forall, not_not]
    exact fun _ => ⟨o, ho, heq⟩
  unfold soldSince
  rw [hnone]
  simp

omit [DecidableEq ι] in
theorem Conserved.commit {s : Sys ι} (hs : Conserved db₀ s.db) (h : Inv env db₀ s)
    (hv : db₀.Valid) (hf : FreshIds env db₀) {c : ι} {tx : Tx} {result : OrderView}
    (hc : s.calls c = .reread tx result) : Conserved db₀ (s.db.apply tx) := by
  have hph := h.phases c
  rw [hc] at hph
  obtain ⟨htx, -⟩ := hph
  have hcur : ∀ r ∈ tx.rows, r ∈ s.db.products := by
    have := h.current c
    rwa [hc] at this
  intro p' hp'
  obtain ⟨p, hp, rfl⟩ := List.mem_map.mp hp'
  obtain ⟨hnonneg, p₀, hp₀, hid, hsum⟩ := hs p hp
  obtain ⟨hadd, hpos⟩ := htx.newStock_add hv.productIds h.valid.productIds hcur hp
  refine ⟨hpos hnonneg, p₀, hp₀, by rw [hid, Db.newStock_id], ?_⟩
  have hnew : ∀ o ∈ db₀.orders, o.id ≠ tx.order.id := by
    rw [htx.opened.order_id]
    exact hf c
  rw [Db.newStock_id, soldSince_apply hnew htx.items_orderId, Nat.cast_add]
  omega

theorem Conserved.step {s s' : Sys ι} {l : Label ι} (hs : Conserved db₀ s.db)
    (h : Inv env db₀ s) (hv : db₀.Valid) (hf : FreshIds env db₀) (hstep : Step env s l s') :
    Conserved db₀ s'.db := by
  cases hstep with
  | advance c hadv =>
    rcases (advance_cases hadv).writes with ⟨tx, result, hc, rfl⟩ | ⟨result, -, rfl⟩ | hquiet
    · exact hs.commit h hv hf hc
    · exact hs
    · rwa [hquiet.db]
  | fault c hc => rwa [(quiet_fault s c).db]
  | sendThrows c result hc => exact hs
  | kill c hc => exact hs
  | worker db hw =>
    intro p hp
    have hsold : soldSince db₀ db p.id = soldSince db₀ s.db p.id := by
      unfold soldSince
      rw [hw.orderItems]
    show _ ∧ ∃ p₀ ∈ db₀.products, p₀.id = p.id ∧ p.stock + (soldSince db₀ db p.id : Int) = p₀.stock
    rw [hsold]
    exact hs p (hw.products ▸ hp)

theorem Reachable.conserved {n : Nat} {s : Sys ι} (hr : Reachable env n db₀ s) (hv : db₀.Valid)
    (hf : FreshIds env db₀) (hstock : ∀ p ∈ db₀.products, 0 ≤ p.stock) : Conserved db₀ s.db :=
  System.Reach.invariant (I := fun s => Conserved db₀ s.db) hr
    (fun _ h0 => by rw [h0]; exact conserved_initial hv hstock)
    fun _ _ _ hr' ih _ hs => ih.step (Reachable.inv hr' hv hf) hv hf hs

/-- In every committed state of every run the products are the initial ones, no stock is negative,
and stock and quantity sold add up to the initial stock. -/
theorem stock_conserved {n : Nat} {s : Sys ι} (hv : db₀.Valid) (hf : FreshIds env db₀)
    (hstock : ∀ p ∈ db₀.products, 0 ≤ p.stock) (hr : Reachable env n db₀ s) :
    s.db.products.map (·.id) = db₀.products.map (·.id) ∧
      ∀ p ∈ s.db.products, 0 ≤ p.stock ∧
        ∃ p₀ ∈ db₀.products, p₀.id = p.id ∧ p.stock + soldSince db₀ s.db p.id = p₀.stock := by
  exact ⟨(hr.inv hv hf).productIds, hr.conserved hv hf hstock⟩

/-- A call that has bought two pieces of each product. -/
theorem stock_conserved_after_order :
    ∃ s : Sys (Fin 2), (s.calls 0).isDone = true ∧ s.db.products.map (·.stock) = [3, 3] ∧
      s.db.products.map (·.id) = shop.products.map (·.id) ∧
      ∀ p ∈ s.db.products, 0 ≤ p.stock ∧
        ∃ p₀ ∈ shop.products, p₀.id = p.id ∧ p.stock + soldSince shop s.db p.id = p₀.stock := by
  let env := shopEnv (fun _ => false) fun _ => shopRequest 50 60 [1, 2]
  let p : Sys (Fin 2) → Bool := fun s =>
    (s.calls 0).isDone && s.db.products.map (·.stock) = [3, 3]
  obtain ⟨s, hr, hs⟩ := reach_of_run env 1 shop (List.replicate 12 0)
    (show Option.any p _ = true by decide +kernel)
  simp only [p, Bool.and_eq_true, decide_eq_true_eq] at hs
  have hfresh : FreshIds env shop := freshIds_shop _ _
  exact ⟨s, hs.1, hs.2, stock_conserved (by decide) hfresh (by decide) hr.any⟩

end Ecommerce.Orders
