import Mathlib.Data.List.Perm.Subperm
import Ecommerce.Orders.Serializability
import Ecommerce.Orders.StockConservation

/-!
# OrderContents — what a committed order contains

The quantity map keeps one entry for an id, and `createOrder` compares two lengths only.  Still the
lines and the locked rows correspond one to one: the rows have distinct ids, each finds its quantity
under the text of its id, and there are as many rows as lines (`ids_perm`).
-/

namespace Ecommerce.Orders

open Locking Transition

/-! ## The pairs of a request -/

/-- The product and the quantity an element asks for; `none` when it names no product. -/
def ItemValue.asked : ItemValue → Option (UUID × Nat)
  | .missing => none
  | .nested => none
  | .item dto => (UUID.ofText dto.id).map fun id => (id, dto.qty)

/-- The (product, qty) pairs of the request; `none` when `items` is no array of items. -/
def CreateOrderDto.asked (dto : CreateOrderDto) : Option (List (UUID × Nat)) :=
  match dto.items with
  | .array elems => elems.mapM ItemValue.asked
  | _ => none

def Line.asked (l : Line) : Option (UUID × Nat) :=
  match l.id, l.qty with
  | some id, some qty => (UUID.ofText id).map fun id => (id, qty)
  | _, _ => none

theorem asked_of_line {v : ItemValue} {l : Line} (h : v.line = .ok l) : v.asked = l.asked := by
  cases v with
  | missing => cases h
  | nested | item dto =>
    rw [← Except.ok.inj h]
    rfl

theorem ItemValue.asked_of_lines {vs : List ItemValue} {ls : List Line}
    (h : ItemValue.lines vs = .ok ls) : vs.mapM ItemValue.asked = ls.mapM Line.asked := by
  induction vs generalizing ls with
  | nil =>
    rw [← Except.ok.inj h]
    rfl
  | cons v vs ih =>
    rw [ItemValue.lines] at h
    split at h
    · next l ls' hl hls =>
      rw [← Except.ok.inj h, List.mapM_cons, List.mapM_cons, asked_of_line hl, ih hls]
    · cases h
    · cases h

theorem CreateOrderDto.asked_of_lines {dto : CreateOrderDto} {ls : List Line}
    (h : dto.lines = .ok ls) : dto.asked = ls.mapM Line.asked := by
  cases dto with
  | mk items =>
    cases items with
    | missing | object => cases h
    | array elems => exact ItemValue.asked_of_lines h

/-! ## Lines and rows -/

theorem text_injective : Function.Injective UUID.text := by
  intro u v h
  apply Option.some.inj
  rw [← UUID.ofText_text u, h, UUID.ofText_text]

section Rows

variable {lines : List Line} {rows : List Product}

theorem mem_of_qtyOf {id : UUID} {q : Nat} (h : qtyOf lines id = some q) :
    (⟨some id.text, some q⟩ : Line) ∈ lines := by
  obtain ⟨l, hfind, hqty⟩ := Option.bind_eq_some_iff.mp h
  have hid : l.id = some id.text := by simpa using List.find?_some hfind
  have hmem : l ∈ lines := List.mem_reverse.mp (List.mem_of_find?_eq_some hfind)
  cases l
  cases hid
  cases hqty
  exact hmem

-- With distinct ids there is nothing for the last entry to hide.
theorem qtyOf_of_mem (hnodup : (lines.map (·.id)).Nodup) {id : UUID} {qty : Option Nat}
    (h : (⟨some id.text, qty⟩ : Line) ∈ lines) : qtyOf lines id = qty := by
  unfold qtyOf
  have hsome : (lines.reverse.find? (·.id = some id.text)).isSome = true := by
    rw [List.find?_isSome]
    exact ⟨_, List.mem_reverse.mpr h, by simp⟩
  obtain ⟨l, hl⟩ := Option.isSome_iff_exists.mp hsome
  have hid : l.id = some id.text := by simpa using List.find?_some hl
  have hmem : l ∈ lines := List.mem_reverse.mp (List.mem_of_find?_eq_some hl)
  have heq : l = ⟨some id.text, qty⟩ := List.inj_on_of_nodup_map hnodup hmem h hid
  rw [hl, heq]
  rfl

/-- The lines are the ids of the rows with the quantities found for them. -/
theorem lines_perm (hnodup : (rows.map (·.id)).Nodup) (hlen : rows.length = lines.length)
    (hqty : ∀ r ∈ rows, qtyOf lines r.id ≠ none) :
    (rows.map fun r => (⟨some r.id.text, qtyOf lines r.id⟩ : Line)).Perm lines := by
  have hdistinct : (rows.map fun r => (⟨some r.id.text, qtyOf lines r.id⟩ : Line)).Nodup := by
    apply List.Nodup.of_map (·.id)
    have htexts : (rows.map fun r => (⟨some r.id.text, qtyOf lines r.id⟩ : Line)).map (·.id) =
        (rows.map (·.id)).map fun id => some id.text := by
      rw [List.map_map, List.map_map]
      rfl
    rw [htexts]
    exact hnodup.map fun u v h => text_injective (Option.some.inj h)
  have hsub : (rows.map fun r => (⟨some r.id.text, qtyOf lines r.id⟩ : Line)) ⊆ lines := by
    intro l hl
    obtain ⟨r, hr, rfl⟩ := List.mem_map.mp hl
    obtain ⟨q, hq⟩ := Option.ne_none_iff_exists'.mp (hqty r hr)
    rw [hq]
    exact mem_of_qtyOf hq
  apply (hdistinct.subperm hsub).perm_of_length_le
  rw [List.length_map, hlen]

theorem mapM_eq_filterMap {α β : Type} {f : α → Option β} {xs : List α}
    (h : ∀ x ∈ xs, (f x).isSome = true) : xs.mapM f = some (xs.filterMap f) := by
  induction xs with
  | nil => rfl
  | cons x xs ih =>
    obtain ⟨b, hb⟩ := Option.isSome_iff_exists.mp (h x List.mem_cons_self)
    rw [List.mapM_cons, ih fun y hy => h y (List.mem_cons_of_mem _ hy), List.filterMap_cons, hb]
    rfl

/-- Every line names a product, and the pairs are those of the rows. -/
theorem asked_perm (hnodup : (rows.map (·.id)).Nodup) (hlen : rows.length = lines.length)
    (hqty : ∀ r ∈ rows, qtyOf lines r.id = some (askedQty lines r)) :
    ∃ asked, lines.mapM Line.asked = some asked ∧
      asked.Perm (rows.map fun r => (r.id, askedQty lines r)) := by
  have hperm := lines_perm hnodup hlen fun r hr => by simp [hqty r hr]
  have hrow : ∀ r ∈ rows, Line.asked ⟨some r.id.text, qtyOf lines r.id⟩ =
      some (r.id, askedQty lines r) := by
    intro r hr
    simp [Line.asked, hqty r hr, UUID.ofText_text]
  have hall : ∀ l ∈ lines, l.asked.isSome = true := by
    intro l hl
    obtain ⟨r, hr, rfl⟩ := List.mem_map.mp (hperm.mem_iff.mpr hl)
    rw [hrow r hr]
    rfl
  refine ⟨_, mapM_eq_filterMap hall, ?_⟩
  have hpairs : (rows.map fun r => (⟨some r.id.text, qtyOf lines r.id⟩ : Line)).filterMap
      Line.asked = rows.map fun r => (r.id, askedQty lines r) := by
    rw [List.filterMap_map, ← List.filterMap_eq_map]
    exact List.filterMap_congr hrow
  rw [← hpairs]
  exact (hperm.filterMap _).symm

end Rows

/-! ## One COMMIT -/

-- An association list with distinct keys.
theorem lookup_of_mem {l : List (UUID × Nat)} (hnodup : (l.map (·.1)).Nodup) {a : UUID × Nat}
    (ha : a ∈ l) : l.lookup a.1 = some a.2 := by
  obtain ⟨l₁, l₂, rfl⟩ := List.mem_iff_append.mp ha
  rw [List.lookup_eq_some_iff]
  refine ⟨l₁, l₂, rfl, fun b hb => ?_⟩
  rw [List.map_append, List.nodup_append] at hnodup
  have hne := hnodup.2.2 b.1 (List.mem_map_of_mem hb) a.1 (by simp)
  simpa using hne.symm

/-- What the COMMIT of the new order `order` does to the tables.  `asked` are the pairs of the
request, `rows` the product rows as they were when they were locked, `items` the new items. -/
structure Commits (asked : List (UUID × Nat)) (rows : List Product) (items : List OrderItem)
    (before after : Db) (order : Order) : Prop where
  /-- No product is named twice. -/
  distinct : (asked.map (·.1)).Nodup
  /-- The named products exist, and they are the locked ones. -/
  locked : (rows.map (·.id)).Perm (asked.map (·.1))
  exist : ∀ r ∈ rows, r ∈ before.products
  /-- One item for each pair, with the price of the locked row. -/
  pairs : (items.map fun i => (i.productId, i.qty)).Perm asked
  prices : ∀ i ∈ items, i.orderId = order.id ∧
    ∃ r ∈ rows, r.id = i.productId ∧ i.purchasePrice = r.price
  /-- The stocks of the named products are lower by the quantities, and nothing else changes. -/
  products : after.products =
    before.products.map fun p => { p with stock := p.stock - (asked.lookup p.id).getD 0 }
  orders : after.orders = before.orders ++ [order]
  orderItems : after.orderItems = before.orderItems ++ items
  processedMessages : after.processedMessages = before.processedMessages
  /-- The order is a new one. -/
  fresh : ∀ o ∈ before.orders, o.id ≠ order.id

section Commit

variable {ι : Type} [DecidableEq ι] {env : Env ι} {db₀ : Db} {s s' : Sys ι} {c : ι} {n : Nat}

omit [DecidableEq ι] in
theorem Filled.commits {tx : Tx} {db : Db} (h : Filled env db₀ c tx)
    (hv : (db₀.products.map (·.id)).Nodup) (hpk : (db.products.map (·.id)).Nodup)
    (hcur : ∀ r ∈ tx.rows, r ∈ db.products) (hfresh : ∀ o ∈ db.orders, o.id ≠ tx.order.id) :
    ∃ asked, (env.request c).dto.asked = some asked ∧
      Commits asked tx.rows tx.items db (db.apply tx) tx.order := by
  obtain ⟨lines, hlines, hlen, hqty, hitems, hstocks, -⟩ := h.writes_eq
  have hnodup : (tx.rows.map (·.id)).Nodup := h.lockedIds_nodup hv
  obtain ⟨asked, hasked, hperm⟩ := asked_perm hnodup hlen hqty
  have hids : (asked.map (·.1)).Perm (tx.rows.map (·.id)) := by
    have hmap := hperm.map (·.1)
    rwa [List.map_map] at hmap
  have hdistinct : (asked.map (·.1)).Nodup := hids.nodup_iff.mpr hnodup
  refine ⟨asked, (CreateOrderDto.asked_of_lines hlines).trans hasked, ?_⟩
  constructor
  · exact hdistinct
  · exact hids.symm
  · exact hcur
  · rw [hitems, List.map_map]
    exact hperm.symm
  · intro i hi
    rw [hitems] at hi
    obtain ⟨r, hr, rfl⟩ := List.mem_map.mp hi
    exact ⟨rfl, r, hr, rfl, rfl⟩
  · show db.products.map tx.newStock = _
    apply List.map_congr_left
    intro p hp
    by_cases hlocked : p.id ∈ tx.lockedIds
    · obtain ⟨r, hr, hid⟩ := List.mem_map.mp hlocked
      -- the row that was read is the committed one
      have hrp : r = p := List.inj_on_of_nodup_map hpk (hcur r hr) hp hid
      subst hrp
      have hstock : tx.stocks.lookup r.id = some (r.stock - askedQty lines r) := by
        rw [hstocks]
        exact lookup_map_of_mem hnodup hr _
      have hpair : asked.lookup r.id = some (askedQty lines r) :=
        lookup_of_mem (a := (r.id, askedQty lines r)) hdistinct
          (hperm.mem_iff.mpr (List.mem_map_of_mem hr))
      simp [Tx.newStock, hstock, hpair]
    · have hnone : asked.lookup p.id = none := by
        rw [List.lookup_eq_none_iff]
        intro a ha
        have hmem : a.1 ∈ tx.rows.map (·.id) := hids.mem_iff.mp (List.mem_map_of_mem ha)
        have hne : p.id ≠ a.1 := fun heq => hlocked (heq ▸ hmem)
        simpa using hne
      rw [Db.newStock_of_not_written (h.lookup_stocks hlocked), hnone]
      simp
  · rfl
  · rfl
  · rfl
  · exact hfresh

/-- Where a call that has committed `result` can be. -/
def Phase.keeps (result : OrderView) : Phase → Bool
  | .committed v => v = result
  | .publishing v => v = result
  | .done (.created v) => v = result
  | .done (.rejected _) => true
  | .done .stopped => true
  | _ => false

theorem keeps_closed {ph : Phase} {result : OrderView} (h : ph.keeps result = true) :
    ph.tx? = none := by
  cases ph with
  | inserted | locking | checked | itemsSaved | stocksSaved | reread | failing => cases h
  | _ => rfl

theorem Advance.keeps {result : OrderView} (h : Advance env s c s')
    (hc : (s.calls c).keeps result = true) : (s'.calls c).keeps result = true := by
  cases h with
  | throws tx e why =>
    obtain ⟨hopen, -⟩ := why.open_tx
    rw [keeps_closed hc] at hopen
    cases hopen
  | release v hph =>
    rw [hph] at hc
    rw [setPhase_self]
    exact hc
  | send v hph =>
    rw [hph] at hc
    simp only [Sys.send, setPhase_self]
    exact hc
  | _ => simp_all [Phase.keeps]

theorem Step.keeps {l : Label ι} {result : OrderView} (hs : Step env s l s')
    (hc : (s.calls c).keeps result = true) : (s'.calls c).keeps result = true := by
  cases hs with
  | advance d hadv =>
    by_cases hd : c = d
    · subst hd
      exact (advance_cases hadv).keeps hc
    · rwa [(advance_cases hadv).others c hd]
  | fault d hph =>
    by_cases hd : c = d
    · subst hd
      -- a fault hits before the COMMIT, when there is nothing to keep
      generalize s.calls c = ph at hc hph
      cases ph <;> first | cases hc | cases hph
    · rwa [(quiet_fault s d).others c hd]
  | sendThrows d v hph =>
    by_cases hd : c = d
    · subst hd
      rw [Sys.sendThrows, setPhase_self]
      rfl
    · rwa [Sys.sendThrows, setPhase_of_ne s _ hd]
  | kill d hph =>
    by_cases hd : c = d
    · subst hd
      simp [Sys.kill, Phase.keeps]
    · rwa [(quiet_kill s d).others c hd]
  | worker db hw => exact hc

theorem Steps.keeps {t : Sys ι} {result : OrderView}
    (hsteps : (system env n db₀).Steps System.anyStep s t)
    (hc : (s.calls c).keeps result = true) : (t.calls c).keeps result = true := by
  induction hsteps with
  | refl => exact hc
  | tail _ hnext ih =>
    obtain ⟨l, -, hs⟩ := hnext
    exact Step.keeps hs ih

/-- Whenever a call commits a new order, the tables change by the order, one item for each pair the
request asks for, and the stocks of these products; no product is named twice; and the order the
call returns after it shows exactly these items. -/
theorem committed_order_contents (hv : db₀.Valid) (hf : FreshIds env db₀)
    (hr : Reachable env n db₀ s) {tx : Tx} {result : OrderView}
    (hc : s.calls c = .reread tx result) (hs : Step env s (.advance c) s') :
    (∃ asked, (env.request c).dto.asked = some asked ∧
      Commits asked tx.rows tx.items s.db s'.db tx.order) ∧
    (result.id = tx.order.id ∧ result.items.Perm tx.items) ∧
    ∀ t v, (system env n db₀).Steps System.anyStep s' t → t.calls c = .done (.created v) →
      v = result := by
  have hinv := hr.inv hv hf
  have hph := hinv.phases c
  rw [hc] at hph
  obtain ⟨hfilled, hresult⟩ := hph
  have hafter : s' = s.commit c tx result := by
    cases hs with
    | advance _ hadv =>
      simp only [Sys.advance, hc, Option.some.injEq] at hadv
      exact hadv.symm
  -- in this phase the only step is the COMMIT
  subst hafter
  have hcur : ∀ r ∈ tx.rows, r ∈ s.db.products := by
    have hrows := hinv.current c
    rwa [hc] at hrows
  have hfresh := hinv.newId_free hf (c := c) (by rw [hc]; rfl)
  rw [← hfilled.opened.order_id] at hfresh
  refine ⟨hfilled.commits hv.productIds hinv.valid.productIds hcur hfresh, ?_, ?_⟩
  · rw [hresult]
    exact ⟨rfl, (env.choices c).joined_perm _⟩
  · intro t v hsteps hdone
    have hself : (s.commit c tx result).calls c = .committed result := by simp [Sys.commit]
    have hkeeps : ((s.commit c tx result).calls c).keeps result = true := by
      rw [hself]
      exact decide_eq_true rfl
    have hend := Steps.keeps hsteps hkeeps
    rw [hdone] at hend
    exact of_decide_eq_true hend

/-- The COMMIT of an order of two pieces each of the two products of the shop. -/
theorem committed_order_contents_shop :
    ∃ (env : Env (Fin 2)) (s s' : Sys (Fin 2)) (tx : Tx) (result : OrderView) (asked : _),
      s.calls 0 = .reread tx result ∧ Step env s (.advance 0) s' ∧
      (env.request 0).dto.asked = some asked ∧
      Commits asked tx.rows tx.items s.db s'.db tx.order := by
  let env := shopEnv (fun _ => true) fun _ => shopRequest 50 60 [1, 2]
  let isReread : Phase → Bool := fun ph => match ph with | .reread _ _ => true | _ => false
  obtain ⟨s, hr, hs⟩ := reach_of_run env 1 shop (List.replicate 9 0)
    (p := fun s => isReread (s.calls 0)) (by decide +kernel)
  have hfresh : FreshIds env shop := freshIds_shop _ _
  cases hc : s.calls 0 with
  | reread tx result =>
    have hstep : Step env s (.advance 0) (s.commit 0 tx result) :=
      .advance 0 (by simp only [Sys.advance, hc])
    obtain ⟨⟨asked, hasked, hcommits⟩, -⟩ :=
      committed_order_contents (by decide) hfresh hr.any hc hstep
    exact ⟨env, s, _, tx, result, asked, hc, hstep, hasked, hcommits⟩
  | _ =>
    rw [hc] at hs
    cases hs

end Commit

end Ecommerce.Orders
