import Ecommerce.Auth.Passwords
import Ecommerce.Database.Tables
import Ecommerce.Lib.Pages
import Ecommerce.Users.UsersController

/-!
# Seed — the demo data

`npm run db:seed` looks up each row before it inserts it, all in one transaction.  So it adds rows
only, what it adds satisfies the constraints of the schema, and where the demo data are there
(`Settled`) it adds nothing.
-/

namespace Ecommerce

open Users Auth

/-- The tables that the seed reads and writes. -/
structure Store where
  rows : List SavedUser
  others : OtherColumns
  db : Db

/-- The schema admits the tables. -/
def Store.Stored (store : Store) : Prop := Ecommerce.Stored store.others store.rows store.db

namespace Seed

def adminEmail : String := "admin@example.com"

def adminPass : String := "admin-pass"

def userEmail : String := "user@example.com"

def userPass : String := "user-pass"

structure ProductData where
  title : String
  description : String
  stock : Int
  price : String
deriving DecidableEq

def productData : List ProductData :=
  [{ title := "Laptop", description := "High performance laptop", stock := 10, price := "1200" },
    { title := "Mouse", description := "Wireless mouse", stock := 50, price := "25" },
    { title := "Keyboard", description := "Mechanical keyboard", stock := 30, price := "100" }]

/-- What is made up in one run: the time, salts, random ids, and the order in which products are
visited. -/
structure Choices where
  now : Date
  adminSalt : String
  userSalt : String
  adminId : UUID
  userId : UUID
  productId : ProductData → UUID
  orderId : UUID
  idempotencyKey : UUID
  scan : Query.Scan Product

inductive SeedError where
  | insert (e : InsertError)
  -- `products[1].price` of a product that is not there
  | typeError
deriving DecidableEq

/-- A row of `users` is looked up by its email. -/
def ensureUser (passwords : PasswordService) (now : Date) (salt : String) (id : UUID)
    (email password : String) (role : UserRole) (store : Store) :
    Except SeedError (Store × SavedUser) :=
  match store.rows.find? (·.email = email) with
  | some user => .ok (store, user)
  | none =>
    match Users.insert (accounts store.rows)
        { id, email, password := passwords.hash salt password, role, createdAt := now } with
    | .ok (_, saved) => .ok ({ store with rows := store.rows ++ [saved] }, saved)
    | .error e => .error (.insert e)

def withProduct (others : OtherColumns) (id : UUID) (data : ProductData) : OtherColumns :=
  { others with
    title := Function.update others.title id data.title
    description := Function.update others.description id data.description }

/-- A product is looked up by its title, which need not be unique. -/
def ensureProduct (ch : Choices) (data : ProductData) (store : Store) :
    Except SeedError (Store × Product) :=
  match (ch.scan.order (store.db.products.filter (store.others.title ·.id = data.title))).head? with
  | some product => .ok (store, product)
  | none =>
    let product : Product := { id := ch.productId data, stock := data.stock, price := data.price }
    if product.id ∈ store.db.products.map (·.id) then .error (.insert .uniqueViolation)
    else .ok ({ store with
                others := withProduct store.others product.id data
                db := { store.db with products := store.db.products ++ [product] } }, product)

def ensureProducts (ch : Choices) : List ProductData → Store →
    Except SeedError (Store × List Product)
  | [], store => .ok (store, [])
  | data :: rest, store => do
    let (store, product) ← ensureProduct ch data store
    let (store, products) ← ensureProducts ch rest store
    return (store, product :: products)

/-- `findOne` with a relation: the first query takes the least id. -/
def existingOrder (userId : UUID) (db : Db) : Option Order :=
  let found := db.orders.filter fun o => o.userId = userId ∧ o.status = .created
  let ids := Query.slice 0 (some 1) (Query.distinctSorted (· ≤ ·) (found.map (·.id)))
  found.find? (·.id ∈ ids)

def ensureOrder (ch : Choices) (user : SavedUser) (store : Store) :
    Except SeedError (Store × Order) :=
  match existingOrder user.id store.db with
  | some order => .ok (store, order)
  | none =>
    let order : Order := {
      id := ch.orderId, userId := user.id, status := .created, idempotencyKey := ch.idempotencyKey
      createdAt := ch.now, updatedAt := ch.now, processedAt := none }
    if ∃ o ∈ store.db.orders, o.id = order.id ∨ o.key = order.key then
      .error (.insert .uniqueViolation)
    else .ok ({ store with db := { store.db with orders := store.db.orders ++ [order] } }, order)

def ensureItems (order : Order) (products : List Product) (store : Store) :
    Except SeedError Store :=
  if (store.db.itemsOf order.id).length = 0 then
    match products with
    | p :: q :: _ =>
      let items : List OrderItem :=
        [{ orderId := order.id, productId := p.id, qty := 1, purchasePrice := p.price },
          { orderId := order.id, productId := q.id, qty := 2, purchasePrice := q.price }]
      if p.id = q.id then .error (.insert .uniqueViolation)
      else .ok { store with db := { store.db with orderItems := store.db.orderItems ++ items } }
    | _ => .error .typeError
  else .ok store

/-- The transaction; where it fails, it is rolled back. -/
def seed (passwords : PasswordService) (ch : Choices) (store : Store) : Except SeedError Store := do
  let (store, _) ← ensureUser passwords ch.now ch.adminSalt ch.adminId adminEmail adminPass .admin
    store
  let (store, user) ← ensureUser passwords ch.now ch.userSalt ch.userId userEmail userPass .user
    store
  let (store, products) ← ensureProducts ch productData store
  let (store, order) ← ensureOrder ch user store
  ensureItems order products store

/-! ## The order that is looked up -/

section Existing

variable {userId : UUID} {db : Db} {o : Order}

/-- The orders among which it is. -/
def mine (userId : UUID) (db : Db) : List Order :=
  db.orders.filter fun o => o.userId = userId ∧ o.status = .created

theorem mem_mine : o ∈ mine userId db ↔
    o ∈ db.orders ∧ o.userId = userId ∧ o.status = .created := by
  simp [mine]

theorem existingOrder_none (h : mine userId db = []) : existingOrder userId db = none := by
  show (mine userId db).find? _ = none
  rw [h, List.find?_nil]

theorem existingOrder_some (h : mine userId db ≠ []) :
    ∃ o ∈ mine userId db, existingOrder userId db = some o ∧ ∀ p ∈ mine userId db, o.id ≤ p.id := by
  have hids : (mine userId db).map (·.id) ≠ [] := by simpa using h
  obtain ⟨id, hid, hslice, hleast⟩ := Query.slice_one_distinctSorted (r := (· ≤ ·)) hids
  obtain ⟨p, hp, hpid⟩ := List.mem_map.mp hid
  have hfind : ((mine userId db).find? (·.id = id)).isSome = true :=
    List.find?_isSome.mpr ⟨p, hp, by simpa using hpid⟩
  obtain ⟨o, ho⟩ := Option.isSome_iff_exists.mp hfind
  have hoid : o.id = id := by simpa using List.find?_some ho
  refine ⟨o, List.mem_of_find?_eq_some ho, ?_, fun p hp => ?_⟩
  · show (mine userId db).find? (·.id ∈ Query.slice 0 (some 1) (Query.distinctSorted (· ≤ ·)
      ((mine userId db).map (·.id)))) = some o
    rw [hslice]
    simpa using ho
  · rw [hoid]
    exact hleast p.id (List.mem_map_of_mem hp)

theorem existingOrder_eq_some (h : existingOrder userId db = some o) :
    o ∈ mine userId db ∧ ∀ p ∈ mine userId db, o.id ≤ p.id := by
  by_cases hnil : mine userId db = []
  · rw [existingOrder_none hnil] at h
    cases h
  · obtain ⟨o', ho', heq, hleast⟩ := existingOrder_some hnil
    rw [heq] at h
    cases h
    exact ⟨ho', hleast⟩

end Existing

/-! ## What each part does -/

variable {passwords : PasswordService} {ch : Choices} {store store' : Store}

theorem bind_ok {ε α β : Type} {x : Except ε α} {f : α → Except ε β} {b : β}
    (h : (x >>= f) = .ok b) : ∃ a, x = .ok a ∧ f a = .ok b := by
  cases x with
  | error e => cases h
  | ok a => exact ⟨a, rfl, h⟩

theorem ensureUser_cases {now : Date} {salt email password : String} {id : UUID} {role : UserRole}
    {user : SavedUser}
    (h : ensureUser passwords now salt id email password role store = .ok (store', user)) :
    (store.rows.find? (·.email = email) = some user ∧ store' = store) ∨
    (store.rows.find? (·.email = email) = none ∧ user.email = email ∧
      (user.email.length ≤ maxLength ∧ user.password.length ≤ maxLength) ∧
      (∀ u ∈ store.rows, u.id ≠ user.id ∧ u.email ≠ user.email) ∧
      store' = { store with rows := store.rows ++ [user] }) := by
  unfold ensureUser at h
  split at h
  · rename_i found hfind
    cases h
    exact .inl ⟨hfind, rfl⟩
  · rename_i hfind
    unfold Users.insert at h
    split_ifs at h with hlong htaken
    cases h
    push Not at hlong htaken
    exact .inr ⟨hfind, rfl, hlong, fun u hu => htaken u.toUser (List.mem_map_of_mem hu), rfl⟩

/-- The account that log ins find afterwards. -/
theorem ensureUser_found {now : Date} {salt email password : String} {id : UUID} {role : UserRole}
    {user : SavedUser}
    (h : ensureUser passwords now salt id email password role store = .ok (store', user)) :
    store'.rows.find? (·.email = email) = some user := by
  obtain ⟨hfind, rfl⟩ | ⟨hnone, hemail, -, -, rfl⟩ := ensureUser_cases h
  · exact hfind
  · rw [List.find?_append, hnone, Option.none_or, List.find?_cons_of_pos (by simpa using hemail)]

theorem ensureProduct_cases {data : ProductData} {p : Product}
    (h : ensureProduct ch data store = .ok (store', p)) :
    (p ∈ store.db.products ∧ store.others.title p.id = data.title ∧ store' = store) ∨
    ((∀ q ∈ store.db.products, store.others.title q.id ≠ data.title) ∧
      p = { id := ch.productId data, stock := data.stock, price := data.price } ∧
      (∀ q ∈ store.db.products, q.id ≠ p.id) ∧
      store' = { store with
        others := withProduct store.others p.id data
        db := { store.db with products := store.db.products ++ [p] } }) := by
  have hscan : ∀ q, q ∈ ch.scan.order (store.db.products.filter
      (store.others.title ·.id = data.title)) ↔
        q ∈ store.db.products ∧ store.others.title q.id = data.title := fun q => by
    rw [(ch.scan.perm _).mem_iff, List.mem_filter, decide_eq_true_eq]
  unfold ensureProduct at h
  split at h
  · rename_i q hhead
    cases h
    exact .inl ⟨((hscan _).mp (List.mem_of_mem_head? hhead)).1,
      ((hscan _).mp (List.mem_of_mem_head? hhead)).2, rfl⟩
  · rename_i hhead
    dsimp only at h
    split_ifs at h with htaken
    cases h
    have hnil := List.head?_eq_none_iff.mp hhead
    refine .inr ⟨fun q hq htitle => ?_, rfl, fun q hq hid => ?_, rfl⟩
    · have hmem := (hscan q).mpr ⟨hq, htitle⟩
      rw [hnil] at hmem
      cases hmem
    · exact htaken (List.mem_map.mpr ⟨q, hq, hid⟩)

theorem ensureOrder_cases {user : SavedUser} {o : Order}
    (h : ensureOrder ch user store = .ok (store', o)) :
    (existingOrder user.id store.db = some o ∧ store' = store) ∨
    (mine user.id store.db = [] ∧ o.userId = user.id ∧ o.status = .created ∧
      o.processedAt = none ∧ o.id = ch.orderId ∧
      (∀ p ∈ store.db.orders, p.id ≠ o.id ∧ p.key ≠ o.key) ∧
      store' = { store with db := { store.db with orders := store.db.orders ++ [o] } }) := by
  unfold ensureOrder at h
  split at h
  · rename_i order hexists
    cases h
    exact .inl ⟨hexists, rfl⟩
  · rename_i hnone
    dsimp only at h
    split_ifs at h with htaken
    cases h
    push Not at htaken
    refine .inr ⟨?_, rfl, rfl, rfl, rfl, htaken, rfl⟩
    by_contra hne
    obtain ⟨o, -, hsome, -⟩ := existingOrder_some hne
    rw [hnone] at hsome
    cases hsome

/-- The order that is looked up afterwards. -/
theorem ensureOrder_found {user : SavedUser} {o : Order}
    (h : ensureOrder ch user store = .ok (store', o)) :
    existingOrder user.id store'.db = some o := by
  obtain ⟨hexists, rfl⟩ | ⟨hnil, howner, hstatus, -, -, -, rfl⟩ := ensureOrder_cases h
  · exact hexists
  · have hmine : mine user.id { store.db with orders := store.db.orders ++ [o] } = [o] := by
      show (store.db.orders ++ [o]).filter _ = [o]
      rw [List.filter_append, show store.db.orders.filter _ = [] from hnil, List.nil_append,
        List.filter_cons_of_pos (by simp [howner, hstatus]), List.filter_nil]
    obtain ⟨o', ho', heq, -⟩ := existingOrder_some (by rw [hmine]; exact List.cons_ne_nil _ _)
    rw [hmine, List.mem_singleton] at ho'
    rw [heq, ho']

theorem ensureItems_cases {o : Order} {products : List Product}
    (h : ensureItems o products store = .ok store') :
    (store.db.itemsOf o.id ≠ [] ∧ store' = store) ∨
    (store.db.itemsOf o.id = [] ∧ ∃ p q rest, products = p :: q :: rest ∧ p.id ≠ q.id ∧
      store' = { store with db := { store.db with
        orderItems := store.db.orderItems ++
          [{ orderId := o.id, productId := p.id, qty := 1, purchasePrice := p.price },
            { orderId := o.id, productId := q.id, qty := 2, purchasePrice := q.price }] } }) := by
  unfold ensureItems at h
  split_ifs at h with hnone
  · split at h
    · rename_i p q rest
      dsimp only at h
      split_ifs at h with heq
      cases h
      exact .inr ⟨List.length_eq_zero_iff.mp hnone, p, q, rest, rfl, heq, rfl⟩
    · cases h
  · cases h
    exact .inl ⟨fun hnil => hnone (by rw [hnil]; rfl), rfl⟩

/-- The parts of a seeding that commits. -/
theorem seed_parts (h : seed passwords ch store = .ok store') :
    ∃ store₁ store₂ store₃ store₄ admin user products order,
      ensureUser passwords ch.now ch.adminSalt ch.adminId adminEmail adminPass .admin store =
        .ok (store₁, admin) ∧
      ensureUser passwords ch.now ch.userSalt ch.userId userEmail userPass .user store₁ =
        .ok (store₂, user) ∧
      ensureProducts ch productData store₂ = .ok (store₃, products) ∧
      ensureOrder ch user store₃ = .ok (store₄, order) ∧
      ensureItems order products store₄ = .ok store' := by
  obtain ⟨⟨store₁, admin⟩, h₁, h⟩ := bind_ok h
  obtain ⟨⟨store₂, user⟩, h₂, h⟩ := bind_ok h
  obtain ⟨⟨store₃, products⟩, h₃, h⟩ := bind_ok h
  obtain ⟨⟨store₄, order⟩, h₄, h⟩ := bind_ok h
  exact ⟨store₁, store₂, store₃, store₄, admin, user, products, order, h₁, h₂, h₃, h₄, h⟩

/-! ## Rows are added only -/

structure Extends (store store' : Store) : Prop where
  rows : store.rows <+: store'.rows
  products : store.db.products <+: store'.db.products
  titles : ∀ p ∈ store.db.products, store'.others.title p.id = store.others.title p.id
  orders : store.db.orders <+: store'.db.orders
  orderItems : store.db.orderItems <+: store'.db.orderItems
  messages : store'.db.processedMessages = store.db.processedMessages

theorem Extends.refl (store : Store) : Extends store store :=
  ⟨List.prefix_rfl, List.prefix_rfl, fun _ _ => rfl, List.prefix_rfl, List.prefix_rfl, rfl⟩

theorem Extends.trans {store'' : Store} (h : Extends store store') (h' : Extends store' store'') :
    Extends store store'' where
  rows := h.rows.trans h'.rows
  products := h.products.trans h'.products
  titles p hp := (h'.titles p (h.products.subset hp)).trans (h.titles p hp)
  orders := h.orders.trans h'.orders
  orderItems := h.orderItems.trans h'.orderItems
  messages := h'.messages.trans h.messages

theorem ensureUser_extends {now : Date} {salt email password : String} {id : UUID}
    {role : UserRole} {user : SavedUser}
    (h : ensureUser passwords now salt id email password role store = .ok (store', user)) :
    Extends store store' := by
  obtain ⟨-, rfl⟩ | ⟨-, -, -, -, rfl⟩ := ensureUser_cases h
  · exact .refl _
  · exact { Extends.refl store with rows := List.prefix_append _ _ }

theorem ensureProduct_extends {data : ProductData} {p : Product}
    (h : ensureProduct ch data store = .ok (store', p)) : Extends store store' := by
  obtain ⟨-, -, rfl⟩ | ⟨-, -, hfree, rfl⟩ := ensureProduct_cases h
  · exact .refl _
  · exact { Extends.refl store with
      products := List.prefix_append _ _
      titles := fun q hq => Function.update_of_ne (hfree q hq) _ _ }

theorem ensureProducts_extends {datas : List ProductData} {products : List Product}
    (h : ensureProducts ch datas store = .ok (store', products)) : Extends store store' := by
  induction datas generalizing store products with
  | nil =>
    cases h
    exact .refl _
  | cons data rest ih =>
    obtain ⟨⟨store₁, product⟩, h₁, h⟩ := bind_ok h
    obtain ⟨⟨store₂, others⟩, h₂, h⟩ := bind_ok h
    cases h
    exact (ensureProduct_extends h₁).trans (ih h₂)

theorem ensureOrder_extends {user : SavedUser} {o : Order}
    (h : ensureOrder ch user store = .ok (store', o)) : Extends store store' := by
  obtain ⟨-, rfl⟩ | ⟨-, -, -, -, -, -, rfl⟩ := ensureOrder_cases h
  · exact .refl _
  · exact { Extends.refl store with orders := List.prefix_append _ _ }

theorem ensureItems_extends {o : Order} {products : List Product}
    (h : ensureItems o products store = .ok store') : Extends store store' := by
  obtain ⟨-, rfl⟩ | ⟨-, p, q, rest, -, -, rfl⟩ := ensureItems_cases h
  · exact .refl _
  · exact { Extends.refl store with orderItems := List.prefix_append _ _ }

/-- The row is a product with the title of the data. -/
def Titled (store : Store) (data : ProductData) (p : Product) : Prop :=
  p ∈ store.db.products ∧ store.others.title p.id = data.title

theorem Titled.extends {data : ProductData} {p : Product} (h : Titled store data p)
    (hextends : Extends store store') : Titled store' data p :=
  ⟨hextends.products.subset h.1, (hextends.titles p h.1).trans h.2⟩

/-- The products that are returned have the titles of the data, in this order. -/
theorem ensureProducts_titles {datas : List ProductData} {products : List Product}
    (h : ensureProducts ch datas store = .ok (store', products)) :
    List.Forall₂ (Titled store') datas products := by
  induction datas generalizing store products with
  | nil =>
    cases h
    exact .nil
  | cons data rest ih =>
    obtain ⟨⟨store₁, p⟩, h₁, h⟩ := bind_ok h
    obtain ⟨⟨store₂, others⟩, h₂, h⟩ := bind_ok h
    cases h
    have hp : Titled store₁ data p := by
      obtain ⟨hp, htitle, rfl⟩ | ⟨-, -, -, rfl⟩ := ensureProduct_cases h₁
      · exact ⟨hp, htitle⟩
      · exact ⟨List.mem_append_right _ (List.mem_singleton_self _), Function.update_self _ _ _⟩
    exact .cons (hp.extends (ensureProducts_extends h₂)) (ih h₂)

/-! ## The demo data are there -/

/-- Nothing that the seed looks for is missing. -/
structure Settled (store : Store) : Prop where
  admin : ∃ u ∈ store.rows, u.email = adminEmail
  products : ∀ data ∈ productData, ∃ p, Titled store data p
  order : ∃ user order, store.rows.find? (·.email = userEmail) = some user ∧
    existingOrder user.id store.db = some order ∧ store.db.itemsOf order.id ≠ []

theorem Extends.find {email : String} {u : SavedUser} (h : Extends store store')
    (hfind : store.rows.find? (·.email = email) = some u) :
    store'.rows.find? (·.email = email) = some u := by
  obtain ⟨rest, heq⟩ := h.rows
  rw [← heq, List.find?_append, hfind, Option.some_or]

theorem ensureItems_found {o : Order} {products : List Product}
    (h : ensureItems o products store = .ok store') :
    store'.db.orders = store.db.orders ∧ store'.db.itemsOf o.id ≠ [] := by
  obtain ⟨hitems, rfl⟩ | ⟨-, p, q, rest, -, -, rfl⟩ := ensureItems_cases h
  · exact ⟨rfl, hitems⟩
  · refine ⟨rfl, fun hnil => ?_⟩
    have hnone := List.filter_eq_nil_iff.mp hnil
      { orderId := o.id, productId := p.id, qty := 1, purchasePrice := p.price } (by simp)
    simp at hnone

theorem existingOrder_congr {userId : UUID} {db db' : Db} (h : db'.orders = db.orders) :
    existingOrder userId db' = existingOrder userId db := by
  unfold existingOrder
  rw [h]

theorem seed_settles (h : seed passwords ch store = .ok store') : Settled store' := by
  obtain ⟨store₁, store₂, store₃, store₄, admin, user, products, order, h₁, h₂, h₃, h₄, h₅⟩ :=
    seed_parts h
  have hlast := (ensureOrder_extends h₄).trans (ensureItems_extends h₅)
  have hafter := (ensureProducts_extends h₃).trans hlast
  obtain ⟨horders, hitems⟩ := ensureItems_found h₅
  refine ⟨⟨admin, ?_, ?_⟩, fun data hdata => ?_, user, order, ?_, ?_, hitems⟩
  · have hadmin := List.mem_of_find?_eq_some (ensureUser_found h₁)
    exact ((ensureUser_extends h₂).trans hafter).rows.subset hadmin
  · simpa using List.find?_some (ensureUser_found h₁)
  · obtain ⟨p, -, hp⟩ := Query.exists_of_forall₂ (ensureProducts_titles h₃).flip hdata
    have hp : Titled store₃ data p := hp
    exact ⟨p, hp.extends hlast⟩
  · exact hafter.find (ensureUser_found h₂)
  · rw [existingOrder_congr horders]
    exact ensureOrder_found h₄

/-! ## A second seeding -/

theorem ensureUser_settled {now : Date} {salt email password : String} {id : UUID} {role : UserRole}
    {user : SavedUser} (h : store.rows.find? (·.email = email) = some user) :
    ensureUser passwords now salt id email password role store = .ok (store, user) := by
  unfold ensureUser
  rw [h]

theorem ensureProducts_settled (ch : Choices) {datas : List ProductData}
    (h : ∀ data ∈ datas, ∃ p, Titled store data p) :
    ∃ products, ensureProducts ch datas store = .ok (store, products) := by
  induction datas with
  | nil => exact ⟨[], rfl⟩
  | cons data rest ih =>
    obtain ⟨p, hp, htitle⟩ := h data List.mem_cons_self
    obtain ⟨products, hrest⟩ := ih fun d hd => h d (List.mem_cons_of_mem _ hd)
    have hmem : p ∈ ch.scan.order (store.db.products.filter
        (store.others.title ·.id = data.title)) := by
      rw [(ch.scan.perm _).mem_iff, List.mem_filter, decide_eq_true_eq]
      exact ⟨hp, htitle⟩
    have hhead := List.head?_eq_some_head (List.ne_nil_of_mem hmem)
    generalize List.head _ _ = q at hhead
    refine ⟨q :: products, ?_⟩
    have hfirst : ensureProduct ch data store = .ok (store, q) := by
      unfold ensureProduct
      rw [hhead]
    simp only [ensureProducts, hfirst, hrest, bind, Except.bind, pure, Except.pure]

/-- Where the demo data are there, the seed commits and changes nothing. -/
theorem seed_settled (h : Settled store) : seed passwords ch store = .ok store := by
  obtain ⟨admin, hadmin, hemail⟩ := h.admin
  have hsome : (store.rows.find? (·.email = adminEmail)).isSome = true :=
    List.find?_isSome.mpr ⟨admin, hadmin, by simpa using hemail⟩
  obtain ⟨first, hfirst⟩ := Option.isSome_iff_exists.mp hsome
  obtain ⟨user, order, huser, horder, hitems⟩ := h.order
  obtain ⟨products, hproducts⟩ := ensureProducts_settled ch h.products
  have hordered : ensureOrder ch user store = .ok (store, order) := by
    unfold ensureOrder
    rw [horder]
  have hfilled : ensureItems order products store = .ok store :=
    if_neg fun hlength => hitems (List.length_eq_zero_iff.mp hlength)
  simp only [seed, ensureUser_settled hfirst, ensureUser_settled huser, hproducts, hordered, hfilled,
    bind, Except.bind]

theorem seed_settled_iff : seed passwords ch store = .ok store ↔ Settled store :=
  ⟨seed_settles, seed_settled⟩

/-! ## The constraints -/

theorem nodup_concat {α κ : Type} {f : α → κ} {as : List α} {a : α} (h : (as.map f).Nodup)
    (hnew : ∀ b ∈ as, f b ≠ f a) : ((as ++ [a]).map f).Nodup := by
  rw [List.map_append]
  refine List.nodup_append.mpr ⟨h, List.nodup_singleton _, ?_⟩
  simpa using hnew

theorem ensureUser_stored {now : Date} {salt email password : String} {id : UUID}
    {role : UserRole} {user : SavedUser} (hs : store.Stored)
    (h : ensureUser passwords now salt id email password role store = .ok (store', user)) :
    store'.Stored := by
  obtain ⟨-, rfl⟩ | ⟨-, -, hlength, hfree, rfl⟩ := ensureUser_cases h
  · exact hs
  · exact { hs with
      userIds := nodup_concat hs.userIds fun u hu => (hfree u hu).1
      emails := nodup_concat hs.emails fun u hu => (hfree u hu).2
      texts := fun u hu => by
        rcases List.mem_append.mp hu with hu | hu
        · exact hs.texts u hu
        · rw [List.mem_singleton.mp hu]
          exact hlength
      owners := fun o ho => by
        obtain ⟨u, hu, hid⟩ := hs.owners o ho
        exact ⟨u, List.mem_append_left _ hu, hid⟩ }

theorem ensureProduct_stored {data : ProductData} {p : Product} (hs : store.Stored)
    (hdata : data.title.length ≤ 200 ∧ IsInteger data.stock)
    (h : ensureProduct ch data store = .ok (store', p)) : store'.Stored := by
  have hextends := ensureProduct_extends h
  obtain ⟨-, -, rfl⟩ | ⟨-, rfl, hfree, rfl⟩ := ensureProduct_cases h
  · exact hs
  · exact { hs with
      productIds := nodup_concat hs.productIds hfree
      titles := fun q hq => by
        rcases List.mem_append.mp hq with hq | hq
        · rw [hextends.titles q hq]
          exact hs.titles q hq
        · rw [List.mem_singleton.mp hq]
          have htitle : (withProduct store.others (ch.productId data) data).title
              (ch.productId data) = data.title := Function.update_self _ _ _
          show ((withProduct store.others (ch.productId data) data).title
            (ch.productId data)).length ≤ 200
          rw [htitle]
          exact hdata.1
      stocks := fun q hq => by
        rcases List.mem_append.mp hq with hq | hq
        · exact hs.stocks q hq
        · rw [List.mem_singleton.mp hq]
          exact hdata.2
      itemProducts := fun i hi => by
        obtain ⟨q, hq, hid⟩ := hs.itemProducts i hi
        exact ⟨q, List.mem_append_left _ hq, hid⟩ }

theorem ensureProducts_stored {datas : List ProductData} {products : List Product}
    (hs : store.Stored) (hdatas : ∀ data ∈ datas, data.title.length ≤ 200 ∧ IsInteger data.stock)
    (h : ensureProducts ch datas store = .ok (store', products)) : store'.Stored := by
  induction datas generalizing store products with
  | nil =>
    cases h
    exact hs
  | cons data rest ih =>
    obtain ⟨⟨store₁, p⟩, h₁, h⟩ := bind_ok h
    obtain ⟨⟨store₂, others⟩, h₂, h⟩ := bind_ok h
    cases h
    exact ih (ensureProduct_stored hs (hdatas data List.mem_cons_self) h₁)
      (fun d hd => hdatas d (List.mem_cons_of_mem _ hd)) h₂

theorem ensureOrder_stored {user : SavedUser} {o : Order} (hs : store.Stored)
    (huser : user ∈ store.rows) (h : ensureOrder ch user store = .ok (store', o)) :
    store'.Stored := by
  obtain ⟨-, rfl⟩ | ⟨-, howner, -, -, -, hfree, rfl⟩ := ensureOrder_cases h
  · exact hs
  · exact { hs with
      orderIds := nodup_concat hs.orderIds fun p hp => (hfree p hp).1
      orderKeys := nodup_concat hs.orderKeys fun p hp => (hfree p hp).2
      owners := fun p hp => by
        rcases List.mem_append.mp hp with hp | hp
        · exact hs.owners p hp
        · rw [List.mem_singleton.mp hp]
          exact ⟨user, huser, howner.symm⟩
      itemOrders := fun i hi => by
        obtain ⟨p, hp, hid⟩ := hs.itemOrders i hi
        exact ⟨p, List.mem_append_left _ hp, hid⟩ }

theorem ensureItems_stored {o : Order} {products : List Product} (hs : store.Stored)
    (ho : o ∈ store.db.orders) (hproducts : ∀ p ∈ products, p ∈ store.db.products)
    (h : ensureItems o products store = .ok store') : store'.Stored := by
  obtain ⟨-, rfl⟩ | ⟨hnone, p, q, rest, rfl, hne, rfl⟩ := ensureItems_cases h
  · exact hs
  · have hold : ∀ i ∈ store.db.orderItems, i.orderId ≠ o.id := fun i hi => by
      simpa using List.filter_eq_nil_iff.mp hnone i hi
    exact { hs with
      itemKeys := by
        rw [List.map_append]
        refine List.nodup_append.mpr ⟨hs.itemKeys, ?_, ?_⟩
        · simpa using hne
        · intro a ha b hb hab
          obtain ⟨i, hi, rfl⟩ := List.mem_map.mp ha
          simp only [List.map_cons, List.map_nil, List.mem_cons, List.not_mem_nil, or_false] at hb
          refine hold i hi ?_
          rcases hb with rfl | rfl <;> exact congrArg Prod.fst hab
      itemOrders := fun i hi => by
        rcases List.mem_append.mp hi with hi | hi
        · exact hs.itemOrders i hi
        · refine ⟨o, ho, ?_⟩
          rcases List.mem_pair.mp hi with rfl | rfl <;> rfl
      itemProducts := fun i hi => by
        rcases List.mem_append.mp hi with hi | hi
        · exact hs.itemProducts i hi
        · rcases List.mem_pair.mp hi with rfl | rfl
          · exact ⟨p, hproducts p List.mem_cons_self, rfl⟩
          · exact ⟨q, hproducts q (List.mem_cons_of_mem _ List.mem_cons_self), rfl⟩
      qtys := fun i hi => by
        rcases List.mem_append.mp hi with hi | hi
        · exact hs.qtys i hi
        · rcases List.mem_pair.mp hi with rfl | rfl
          · exact (by decide : -2 ^ 31 ≤ ((1 : Nat) : Int) ∧ ((1 : Nat) : Int) < 2 ^ 31)
          · exact (by decide : -2 ^ 31 ≤ ((2 : Nat) : Int) ∧ ((2 : Nat) : Int) < 2 ^ 31) }

theorem productData_fits : ∀ data ∈ productData,
    data.title.length ≤ 200 ∧ IsInteger data.stock := by
  unfold IsInteger
  decide

/-- What a seeding commits, the schema admits. -/
theorem seed_stored (hs : store.Stored) (h : seed passwords ch store = .ok store') :
    store'.Stored := by
  obtain ⟨store₁, store₂, store₃, store₄, admin, user, products, order, h₁, h₂, h₃, h₄, h₅⟩ :=
    seed_parts h
  have hs₃ := ensureProducts_stored (ensureUser_stored (ensureUser_stored hs h₁) h₂)
    productData_fits h₃
  have huser : user ∈ store₃.rows :=
    (ensureProducts_extends h₃).rows.subset (List.mem_of_find?_eq_some (ensureUser_found h₂))
  have horder : order ∈ store₄.db.orders :=
    (mem_mine.mp (existingOrder_eq_some (ensureOrder_found h₄)).1).1
  have hproducts : ∀ p ∈ products, p ∈ store₄.db.products := by
    intro p hp
    obtain ⟨data, -, hp₃⟩ := Query.exists_of_forall₂ (ensureProducts_titles h₃) hp
    exact (hp₃.extends (ensureOrder_extends h₄)).1
  exact ensureItems_stored (ensureOrder_stored hs₃ huser h₄) horder hproducts h₅

theorem seed_extends (h : seed passwords ch store = .ok store') : Extends store store' := by
  obtain ⟨store₁, store₂, store₃, store₄, admin, user, products, order, h₁, h₂, h₃, h₄, h₅⟩ :=
    seed_parts h
  exact (ensureUser_extends h₁).trans ((ensureUser_extends h₂).trans
    ((ensureProducts_extends h₃).trans ((ensureOrder_extends h₄).trans (ensureItems_extends h₅))))

/-! ## Seeding succeeds -/

/-- The ids that are made up are new. -/
structure Fresh (ch : Choices) (store : Store) : Prop where
  admin : ∀ u ∈ store.rows, u.id ≠ ch.adminId
  user : ∀ u ∈ store.rows, u.id ≠ ch.userId
  users : ch.adminId ≠ ch.userId
  products : ∀ p ∈ store.db.products, ∀ data ∈ productData, p.id ≠ ch.productId data
  distinct : (productData.map ch.productId).Nodup
  order : ∀ o ∈ store.db.orders, o.id ≠ ch.orderId ∧ o.idempotencyKey ≠ ch.idempotencyKey

theorem ensureUser_succeeds (passwords : PasswordService) (now : Date) (salt password : String)
    (role : UserRole) {id : UUID} {email : String} (hemail : email.length ≤ maxLength)
    (hfree : ∀ u ∈ store.rows, u.id ≠ id) :
    ∃ store' user,
      ensureUser passwords now salt id email password role store = .ok (store', user) ∧
      (∀ u ∈ store'.rows, u ∈ store.rows ∨ u.id = id) ∧ store'.db = store.db := by
  unfold ensureUser
  split
  · rename_i user hfind
    exact ⟨store, user, rfl, fun u hu => .inl hu, rfl⟩
  · rename_i hfind
    have hshort : ¬ (maxLength < email.length ∨
        maxLength < (passwords.hash salt password).length) := by
      rw [passwords.hash_length]
      unfold maxLength at *
      omega
    have huntaken : ¬ ∃ u ∈ accounts store.rows, u.id = id ∨ u.email = email := by
      rintro ⟨u, hu, htaken⟩
      obtain ⟨row, hrow, rfl⟩ := List.mem_map.mp hu
      refine htaken.elim (hfree row hrow) fun hequal => ?_
      simpa [hequal] using List.find?_eq_none.mp hfind row hrow
    rw [Users.insert, if_neg hshort, if_neg huntaken]
    refine ⟨_, _, rfl, fun u hu => ?_, rfl⟩
    refine (List.mem_append.mp hu).imp_right fun hnew => ?_
    rw [List.mem_singleton.mp hnew]

theorem ensureProduct_succeeds {data : ProductData}
    (hfree : ∀ p ∈ store.db.products, p.id ≠ ch.productId data) :
    ∃ store' p, ensureProduct ch data store = .ok (store', p) ∧
      (∀ q ∈ store'.db.products, q ∈ store.db.products ∨ q.id = ch.productId data) ∧
      store'.db.orders = store.db.orders := by
  unfold ensureProduct
  split
  · rename_i p hhead
    exact ⟨store, p, rfl, fun q hq => .inl hq, rfl⟩
  · have huntaken : ¬ ch.productId data ∈ store.db.products.map (·.id) := by
      rintro hmem
      obtain ⟨p, hp, hid⟩ := List.mem_map.mp hmem
      exact hfree p hp hid
    rw [if_neg huntaken]
    refine ⟨_, _, rfl, fun q hq => ?_, rfl⟩
    refine (List.mem_append.mp hq).imp_right fun hnew => ?_
    rw [List.mem_singleton.mp hnew]

theorem ensureProducts_succeeds {datas : List ProductData}
    (hfree : ∀ p ∈ store.db.products, ∀ data ∈ datas, p.id ≠ ch.productId data)
    (hdistinct : (datas.map ch.productId).Nodup) :
    ∃ store' products, ensureProducts ch datas store = .ok (store', products) ∧
      store'.db.orders = store.db.orders := by
  induction datas generalizing store with
  | nil => exact ⟨store, [], rfl, rfl⟩
  | cons data rest ih =>
    rw [List.map_cons, List.nodup_cons] at hdistinct
    obtain ⟨store₁, p, h₁, hproducts, horders⟩ :=
      ensureProduct_succeeds fun p hp => hfree p hp data List.mem_cons_self
    have hfree₁ : ∀ q ∈ store₁.db.products, ∀ d ∈ rest, q.id ≠ ch.productId d := by
      intro q hq d hd
      obtain hold | hnew := hproducts q hq
      · exact hfree q hold d (List.mem_cons_of_mem _ hd)
      · rw [hnew]
        exact fun heq => hdistinct.1 (heq ▸ List.mem_map_of_mem hd)
    obtain ⟨store₂, products, h₂, horders₂⟩ := ih hfree₁ hdistinct.2
    refine ⟨store₂, p :: products, ?_, horders₂.trans horders⟩
    simp only [ensureProducts, h₁, h₂, bind, Except.bind, pure, Except.pure]

theorem ensureOrder_succeeds (user : SavedUser)
    (hfree : ∀ o ∈ store.db.orders, o.id ≠ ch.orderId ∧ o.idempotencyKey ≠ ch.idempotencyKey) :
    ∃ store' o, ensureOrder ch user store = .ok (store', o) := by
  unfold ensureOrder
  split
  · exact ⟨_, _, rfl⟩
  · rw [if_neg]
    · exact ⟨_, _, rfl⟩
    · rintro ⟨o, ho, hid | hkey⟩
      · exact (hfree o ho).1 hid
      · exact (hfree o ho).2 (congrArg Prod.snd hkey)

/-- Two products of different titles are two rows. -/
theorem ensureItems_succeeds {o : Order} {products : List Product}
    (h : List.Forall₂ (Titled store) productData products) :
    ∃ store', ensureItems o products store = .ok store' := by
  unfold ensureItems
  split
  · match products, h with
    | p :: q :: rest, .cons ⟨_, hp⟩ (.cons ⟨_, hq⟩ _) =>
      have hne : ¬ p.id = q.id := by
        intro heq
        rw [heq, hq] at hp
        exact absurd hp (by decide)
      simp only [if_neg hne]
      exact ⟨_, rfl⟩
  · exact ⟨store, rfl⟩

/-- Seeding succeeds on every database that the schema admits, whatever of the demo data is already
there.  It only adds rows, the schema admits the tables afterwards, and from then on seeding changes
nothing. -/
theorem seed_completes (hs : store.Stored) (hf : Fresh ch store) :
    ∃ store', seed passwords ch store = .ok store' ∧ Extends store store' ∧ store'.Stored ∧
      ∀ ch', seed passwords ch' store' = .ok store' := by
  obtain ⟨store₁, admin, h₁, hrows₁, hdb₁⟩ := ensureUser_succeeds passwords ch.now ch.adminSalt
    adminPass .admin (by decide : adminEmail.length ≤ maxLength) hf.admin
  have huser : ∀ u ∈ store₁.rows, u.id ≠ ch.userId := fun u hu =>
    (hrows₁ u hu).elim (hf.user u) fun hid => hid ▸ hf.users
  obtain ⟨store₂, user, h₂, -, hdb₂⟩ := ensureUser_succeeds passwords ch.now ch.userSalt userPass
    .user (by decide : userEmail.length ≤ maxLength) huser
  have hdb : store₂.db = store.db := hdb₂.trans hdb₁
  obtain ⟨store₃, products, h₃, horders⟩ := ensureProducts_succeeds
    (by rw [hdb]; exact hf.products) hf.distinct
  obtain ⟨store₄, order, h₄⟩ := ensureOrder_succeeds user
    (by rw [horders, hdb]; exact hf.order)
  have htitles := (ensureProducts_titles h₃).imp fun data p hp =>
    hp.extends (ensureOrder_extends h₄)
  obtain ⟨store', h₅⟩ := ensureItems_succeeds (o := order) htitles
  have hseed : seed passwords ch store = .ok store' := by
    simp only [seed, h₁, h₂, h₃, h₄, h₅, bind, Except.bind]
  exact ⟨store', hseed, seed_extends hseed, seed_stored hs hseed,
    fun ch' => seed_settled (seed_settles hseed)⟩

/-! ### The first deployment -/

def emptyStore : Store where
  rows := []
  others := {
    userUpdatedAt := fun _ => 0, title := fun _ => "", description := fun _ => ""
    productTimes := fun _ => (0, 0), itemTimes := fun _ _ => (0, 0)
    rowId := fun m => m.messageId, processedAt := fun _ => 0 }
  db := { products := [], orders := [], orderItems := [], processedMessages := [] }

def firstChoices : Choices where
  now := 0
  adminSalt := ""
  userSalt := ""
  adminId := .ofNat 1
  userId := .ofNat 2
  productId data := .ofNat (10 + productData.idxOf data)
  orderId := .ofNat 20
  idempotencyKey := .ofNat 30
  scan := ⟨id, fun _ => .refl _⟩

theorem emptyStore_stored : emptyStore.Stored where
  userIds := List.nodup_nil
  emails := List.nodup_nil
  texts := fun _ hu => nomatch hu
  productIds := List.nodup_nil
  titles := fun _ hp => nomatch hp
  stocks := fun _ hp => nomatch hp
  orderIds := List.nodup_nil
  orderKeys := List.nodup_nil
  owners := fun _ ho => nomatch ho
  itemKeys := List.nodup_nil
  itemOrders := fun _ hi => nomatch hi
  itemProducts := fun _ hi => nomatch hi
  qtys := fun _ hi => nomatch hi
  rowIds := List.nodup_nil
  messages := List.nodup_nil

/-! ### A database with some of the demo data -/

/-- The demo user has an order without items, and one of the products is there. -/
def partStore : Store where
  rows := [{
    id := .ofNat 3, email := userEmail, password := "hash", role := .user, createdAt := 5 }]
  others := { emptyStore.others with
    title := fun id => if id = .ofNat 40 then "Laptop" else "" }
  db := {
    products := [⟨.ofNat 40, 3, "1100.00"⟩]
    orders := [⟨.ofNat 21, .ofNat 3, .created, .ofNat 31, 5, 5, none⟩]
    orderItems := []
    processedMessages := [] }

theorem partStore_stored : partStore.Stored where
  userIds := List.nodup_singleton _
  emails := List.nodup_singleton _
  texts := by decide +kernel
  productIds := List.nodup_singleton _
  titles := by decide +kernel
  stocks := by
    unfold IsInteger
    decide +kernel
  orderIds := List.nodup_singleton _
  orderKeys := List.nodup_singleton _
  owners := by decide +kernel
  itemKeys := List.nodup_nil
  itemOrders := fun _ hi => nomatch hi
  itemProducts := fun _ hi => nomatch hi
  qtys := fun _ hi => nomatch hi
  rowIds := List.nodup_nil
  messages := List.nodup_nil

theorem firstChoices_fresh : Fresh firstChoices partStore where
  admin := by decide +kernel
  user := by decide +kernel
  users := by decide +kernel
  products := by decide +kernel
  distinct := by decide +kernel
  order := by decide +kernel

/-- What is missing is added: the administrator, two products and the items. -/
theorem seed_completes_part : ∃ store', seed truncatingPasswords firstChoices partStore = .ok store' ∧
    Extends partStore store' ∧ store'.Stored ∧
      ∀ ch', seed truncatingPasswords ch' store' = .ok store' :=
  seed_completes partStore_stored firstChoices_fresh

end Seed

end Ecommerce
