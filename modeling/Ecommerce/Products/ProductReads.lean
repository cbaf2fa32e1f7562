import Ecommerce.Common.IsUuid
import Ecommerce.Orders.Results
import Ecommerce.Orders.StockConservation
import Ecommerce.Products.ProductsController

/-!
# ProductReads — the page of a product, seen again later

Between two looks at the page of a product orders are created and processed.  The second page shows
what the first one did, less what the orders committed in between have bought, and these have paid
the price that both pages show.
-/

namespace Ecommerce.Products

open Locking Transition Orders Auth

variable {ι : Type} [DecidableEq ι] {env : Env ι} {db₀ : Db} {n : Nat}

/-- What becomes of a product between two states: orders have bought of it, at its price. -/
structure Sells (db db' : Db) (p p' : Product) : Prop where
  id : p'.id = p.id
  price : p'.price = p.price
  stock : p'.stock + soldSince db db' p.id = p.stock
  nonneg : 0 ≤ p.stock → 0 ≤ p'.stock
  paid : ∀ i ∈ db'.orderItems, i.productId = p.id → (∀ o ∈ db.orders, o.id ≠ i.orderId) →
    i.purchasePrice = p.price

/-- The state `db'` of a run that was at `db` before. -/
structure Later (db db' : Db) : Prop where
  orders : ∀ o ∈ db.orders, ∃ o' ∈ db'.orders, o'.id = o.id
  products : ∀ p ∈ db.products, ∃ p' ∈ db'.products, Sells db db' p p'

/-! ## One step -/

section Step

variable {db : Db} {s s' : Sys ι} {l : Label ι}

theorem soldSince_self (hv : db.Valid) (id : UUID) : soldSince db db id = 0 := by
  have hnone : (db.orderItems.filter fun i =>
      i.productId = id ∧ ∀ o ∈ db.orders, o.id ≠ i.orderId) = [] := by
    apply List.filter_eq_nil_iff.mpr
    intro i hi
    obtain ⟨o, ho, hid⟩ := hv.itemOrders i hi
    simp only [decide_eq_true_eq, not_and, not_forall, not_not]
    exact fun _ => ⟨o, ho, hid⟩
  unfold soldSince
  rw [hnone]
  rfl

theorem Later.refl (hv : db.Valid) : Later db db where
  orders o ho := ⟨o, ho, rfl⟩
  products p hp := ⟨p, hp, {
    id := rfl
    price := rfl
    stock := by rw [soldSince_self hv]; omega
    nonneg := id
    paid := fun i hi _ hnew => by
      obtain ⟨o, ho, hid⟩ := hv.itemOrders i hi
      exact absurd hid (hnew o ho) }⟩

omit [DecidableEq ι] in
/-- The items of a COMMIT have the prices of the rows it has locked. -/
theorem price_of_item {c : ι} {tx : Tx} (h : Filled env db₀ c tx)
    (hpk : (s.db.products.map (·.id)).Nodup) (hcur : ∀ r ∈ tx.rows, r ∈ s.db.products)
    {i : OrderItem} (hi : i ∈ tx.items) {p : Product} (hp : p ∈ s.db.products)
    (hid : i.productId = p.id) : i.purchasePrice = p.price := by
  obtain ⟨lines, -, -, -, hitems, -, -⟩ := h.writes_eq
  rw [hitems] at hi
  obtain ⟨r, hr, rfl⟩ := List.mem_map.mp hi
  have hrow : r = p := List.inj_on_of_nodup_map hpk (hcur r hr) hp hid
  rw [← hrow]

theorem newStock_price (tx : Tx) (p : Product) : (tx.newStock p).price = p.price := by
  unfold Tx.newStock
  split <;> rfl

omit [DecidableEq ι] in
/-- A COMMIT sells what its items say, at the price of the row. -/
theorem Sells.commit {p p' : Product} (h : Sells db s.db p p') (hi : Inv env db₀ s)
    (hv : db₀.Valid) {c : ι} {tx : Tx} (htx : Filled env db₀ c tx)
    (hcur : ∀ r ∈ tx.rows, r ∈ s.db.products) (hnew : ∀ o ∈ db.orders, o.id ≠ tx.order.id)
    (hp' : p' ∈ s.db.products) : Sells db (s.db.apply tx) p (tx.newStock p') := by
  obtain ⟨hadd, hpos⟩ := htx.newStock_add hv.productIds hi.valid.productIds hcur hp'
  rw [h.id] at hadd
  exact {
    id := (Db.newStock_id tx p').trans h.id
    price := (newStock_price tx p').trans h.price
    stock := by
      have hstock := h.stock
      rw [soldSince_apply hnew htx.items_orderId, Nat.cast_add]
      omega
    nonneg := fun hnonneg => hpos (h.nonneg hnonneg)
    paid := fun i hmem hid hnone => by
      rcases List.mem_append.mp hmem with hold | hitem
      · exact h.paid i hold hid hnone
      · rw [price_of_item htx hi.valid.productIds hcur hitem hp' (hid.trans h.id.symm)]
        exact h.price }

omit [DecidableEq ι] in
/-- The worker sells nothing. -/
theorem Sells.worker {p p' : Product} {db' : Db} (h : Sells db s.db p p')
    (hw : WorkerChange s.db db') : Sells db db' p p' where
  id := h.id
  price := h.price
  stock := by
    have hsold : soldSince db db' p.id = soldSince db s.db p.id := by
      unfold soldSince
      rw [hw.orderItems]
    rw [hsold]
    exact h.stock
  nonneg := h.nonneg
  paid := by
    rw [hw.orderItems]
    exact h.paid

omit [DecidableEq ι] in
theorem Later.commit (h : Later db s.db) (hi : Inv env db₀ s) (hv : db₀.Valid)
    (hf : FreshIds env db₀) {c : ι} {tx : Tx} {result : OrderView}
    (hc : s.calls c = .reread tx result) : Later db (s.db.apply tx) := by
  obtain ⟨htx, -, hfresh⟩ := hi.reread_fresh hf hc
  have hcur : ∀ r ∈ tx.rows, r ∈ s.db.products := by
    have hrows := hi.current c
    rwa [hc] at hrows
  -- the order of the transaction is not one of the first state either
  have hnew : ∀ o ∈ db.orders, o.id ≠ tx.order.id := by
    intro o ho heq
    obtain ⟨o', ho', hid⟩ := h.orders o ho
    exact hfresh o' ho' (hid.trans heq)
  constructor
  · intro o ho
    obtain ⟨o', ho', hid⟩ := h.orders o ho
    exact ⟨o', List.mem_append_left _ ho', hid⟩
  · intro p hp
    obtain ⟨p', hp', hsells⟩ := h.products p hp
    exact ⟨tx.newStock p', List.mem_map_of_mem hp', hsells.commit hi hv htx hcur hnew hp'⟩

omit [DecidableEq ι] in
theorem Later.worker {db' : Db} (h : Later db s.db) (hw : WorkerChange s.db db') :
    Later db db' := by
  constructor
  · intro o ho
    obtain ⟨f, horders, hkept⟩ := hw.orders
    obtain ⟨o', ho', hid⟩ := h.orders o ho
    rw [horders]
    exact ⟨f o', List.mem_map_of_mem ho', (hkept o').1.trans hid⟩
  · intro p hp
    obtain ⟨p', hp', hsells⟩ := h.products p hp
    rw [hw.products]
    exact ⟨p', hp', hsells.worker hw⟩

theorem Later.step (h : Later db s.db) (hi : Inv env db₀ s) (hv : db₀.Valid)
    (hf : FreshIds env db₀) (hs : Step env s l s') : Later db s'.db := by
  obtain heq | ⟨c, tx, result, hc, heq⟩ | ⟨-, hw⟩ := hs.db_cases
  · rwa [heq]
  · rw [heq]
    exact h.commit hi hv hf hc
  · exact h.worker hw

end Step

/-! ## Every run -/

section Run

variable {s s' : Sys ι}

theorem later_run (hv : db₀.Valid) (hf : FreshIds env db₀) (hr : Reachable env n db₀ s)
    (hsteps : (system env n db₀).Steps System.anyStep s s') : Later s.db s'.db := by
  induction hsteps with
  | refl => exact .refl (hr.inv hv hf).valid
  | tail hab hnext ih =>
    obtain ⟨l, -, hs⟩ := hnext
    exact ih.step (Reachable.inv (hr.steps hab) hv hf) hv hf hs

variable {Token : Type} {accepts : String → Bool}

/-- Two looks at the page of a product, at any two moments of a run, with or without tokens: both are
refused, both find nothing, or both show the product at one price.  Then the second stock is less by
just what the orders committed in between have bought of it, each piece at that price. -/
theorem product_page_accounts (jwt : JwtService Token) (config : JwtConfig) (hv : db₀.Valid)
    (hf : FreshIds env db₀) (hr : Reachable env n db₀ s)
    (hsteps : (system env n db₀).Steps System.anyStep s s')
    (haccepts : ParseUUIDPipe.Sound accepts) (id : String) (others others' : OtherColumns)
    (now now' : Nat) (token token' : Option Token) :
    (∃ e, (e = ParseUUIDPipe.invalid ∨ e = productNotFound) ∧
      getProduct jwt config now accepts token id others s.db = .error e ∧
      getProduct jwt config now' accepts token' id others' s'.db = .error e) ∨
    ∃ p p', p ∈ s.db.products ∧ p' ∈ s'.db.products ∧ Sells s.db s'.db p p' ∧
      getProduct jwt config now accepts token id others s.db = .ok (toResponse others p) ∧
      getProduct jwt config now' accepts token' id others' s'.db = .ok (toResponse others' p') := by
  have hlater := later_run hv hf hr hsteps
  have hinv := hr.inv hv hf
  have hinv' := Reachable.inv (hr.steps hsteps) hv hf
  cases haccept : accepts id with
  | false => exact .inl ⟨_, .inl rfl, getProduct_refused haccept, getProduct_refused haccept⟩
  | true =>
    obtain ⟨u, hu⟩ := Option.isSome_iff_exists.mp (haccepts id haccept)
    rw [getProduct_accepted haccept hu, getProduct_accepted haccept hu]
    by_cases hmem : u ∈ db₀.products.map (·.id)
    · right
      obtain ⟨p, hp, rfl⟩ := List.mem_map.mp (hinv.productIds ▸ hmem)
      obtain ⟨p', hp', hsells⟩ := hlater.products p hp
      have hrow := Db.product?_of_mem hinv.valid.productIds hp
      have hrow' := Db.product?_of_mem hinv'.valid.productIds hp'
      rw [hsells.id] at hrow'
      exact ⟨p, p', hp, hp', hsells, by rw [hrow], by rw [hrow']⟩
    · left
      have missing : ∀ {db : Db}, db.products.map (·.id) = db₀.products.map (·.id) →
          db.product? u = none := by
        intro db hids
        apply List.find?_eq_none.mpr
        intro p hp
        rw [← hids] at hmem
        have hne : p.id ≠ u := fun heq => hmem (heq ▸ List.mem_map_of_mem hp)
        simpa using hne
      exact ⟨_, .inr rfl, by rw [missing hinv.productIds], by rw [missing hinv'.productIds]⟩

end Run

/-! ## Two orders, and a look at the page after each -/

section Witness

-- The framework's pattern asks for no version.
def shapePipe (value : String) : Bool := UUID.hasShape value.toList

theorem shapePipe_sound : ParseUUIDPipe.Sound shapePipe := by
  intro value h
  simp only [shapePipe, UUID.hasShape, Bool.and_eq_true, decide_eq_true_eq] at h
  obtain ⟨hlength, hall⟩ := h
  have hhalves : value.toList.take 18 ++ value.toList.drop 18 = value.toList :=
    List.take_append_drop 18 _
  have hread := UUID.readDigits_halves (l := value.toList.take 18) (r := value.toList.drop 18)
    (by rw [List.length_take]; omega) (by rw [List.length_drop]; omega) (by rwa [hhalves])
  rw [hhalves] at hread
  unfold UUID.ofText
  split
  · rfl
  · next hnone =>
    rw [hread.1] at hnone
    cases hnone

def pageEnv : Env (Fin 2) := shopEnv (fun _ => false) fun c => shopRequest 50 (60 + c) [1]

def pageColumns : OtherColumns where
  userUpdatedAt _ := 0
  title _ := "Laptop"
  description _ := "Piece of tech"
  productTimes _ := (0, 0)
  itemTimes _ _ := (0, 0)
  rowId m := m.messageId
  processedAt _ := 0

-- Without a token.
def laptopPage (now : Nat) (db : Db) : Except Exception ProductResponseDto :=
  getProduct Auth.plainJwt docConfig now shapePipe none (UUID.ofNat 1).text pageColumns db

/-- The page shows three pieces, two are bought, and then it shows one. -/
theorem product_page_accounts_bought : ∃ (s s' : Sys (Fin 2)) (p p' : Product),
    soldSince s.db s'.db p.id = 2 ∧ Sells s.db s'.db p p' ∧
    laptopPage 0 s.db = .ok (toResponse pageColumns p) ∧ p.stock = 3 ∧
    laptopPage 9 s'.db = .ok (toResponse pageColumns p') ∧ p'.stock = 1 := by
  let shown (now : Nat) (db : Db) : Option (UUID × Int) :=
    (laptopPage now db).toOption.map fun page => (page.id, page.stock)
  let later : List (Fin 2) := List.replicate 11 1
  let bought : Sys (Fin 2) → Bool := fun s =>
    shown 0 s.db = some (.ofNat 1, 3) && (s.run pageEnv later).any fun s' =>
      shown 9 s'.db = some (.ofNat 1, 1) && soldSince s.db s'.db (.ofNat 1) = 2
  obtain ⟨s, hr, hs⟩ := reach_of_run pageEnv 3 shop (List.replicate 11 0) (p := bought)
    (by decide +kernel)
  simp only [bought, Bool.and_eq_true, decide_eq_true_eq, Option.any_eq_true] at hs
  obtain ⟨hshown, s', hrun, hshown', hsold⟩ := hs
  have hsteps : (system pageEnv 3 shop).Steps System.anyStep s s' :=
    System.Steps.of_run (fun _ => rfl) (fun _ _ _ => rfl) (fun _ c _ => Step.advance c) later
      (fun _ _ _ => trivial) hrun
  obtain ⟨e, -, hpage, -⟩ | ⟨p, p', -, -, hsells, hpage, hpage'⟩ := product_page_accounts Auth.plainJwt
    docConfig (by decide) (freshIds_shop _ _) hr.any hsteps shapePipe_sound (UUID.ofNat 1).text
    pageColumns pageColumns 0 9 none none
  · have herror : laptopPage 0 s.db = .error e := hpage
    simp [shown, herror, Except.toOption] at hshown
  · have hfirst : laptopPage 0 s.db = .ok (toResponse pageColumns p) := hpage
    have hsecond : laptopPage 9 s'.db = .ok (toResponse pageColumns p') := hpage'
    simp only [shown, hfirst, Except.toOption, Option.map_some, Option.some.injEq, Prod.mk.injEq]
      at hshown
    simp only [shown, hsecond, Except.toOption, Option.map_some, Option.some.injEq, Prod.mk.injEq]
      at hshown'
    have hid : p.id = .ofNat 1 := hshown.1
    rw [← hid] at hsold
    exact ⟨s, s', p, p', hsold, hsells, hfirst, hshown.2, hsecond, hshown'.2⟩

end Witness

end Ecommerce.Products
