import Ecommerce.Orders.Idempotency
import Ecommerce.Orders.OrdersController

/-!
# Isolation — nobody sees the orders of anybody else

Two databases `AgreeFor` a user when they hold the same orders of that user with the same items.  All
the queries of the user's requests filter by the owner, so what one of the databases may answer the
other may answer too.
-/

namespace Ecommerce.Orders

open Query Auth Transition

/-- The same orders of the user, with the same items; other users' orders may differ. -/
structure AgreeFor (u : UUID) (db db' : Db) : Prop where
  orders : (db.orders.filter (·.userId = u)).Perm (db'.orders.filter (·.userId = u))
  items : ∀ o ∈ db.orders, o.userId = u → (db.itemsOf o.id).Perm (db'.itemsOf o.id)

/-- The database may answer the request with `r`, visiting its rows in some order. -/
def CanRespond {α : Type} (request : Scan OrderRow → Db → α) (db : Db) (r : α) : Prop :=
  ∃ scan, request scan db = r

theorem AgreeFor.symm {u : UUID} {db db' : Db} (h : AgreeFor u db db') : AgreeFor u db' db where
  orders := h.orders.symm
  items := by
    intro o ho hown
    have hmem : o ∈ db.orders.filter (·.userId = u) :=
      h.orders.mem_iff.mpr (List.mem_filter.mpr ⟨ho, by simpa using hown⟩)
    exact (h.items o (List.mem_filter.mp hmem).1 hown).symm

/-- A query that compares the owner reads the same rows from both databases. -/
theorem AgreeFor.rows {u : UUID} {db db' : Db} (h : AgreeFor u db db') {p : Order → Bool}
    (hp : ∀ o, p o = true → o.userId = u) :
    ((orderRows db).filter fun r => p r.1).Perm ((orderRows db').filter fun r => p r.1) := by
  have hfilter : ∀ os : List Order, os.filter p = (os.filter (·.userId = u)).filter p := by
    intro os
    rw [List.filter_filter]
    refine List.filter_congr fun o _ => ?_
    cases hpo : p o
    · rfl
    · simp [hp o hpo]
  unfold orderRows
  rw [leftJoin_filter, leftJoin_filter]
  refine leftJoin_perm ?_ fun o ho => ?_
  · rw [hfilter, hfilter db'.orders]
    exact h.orders.filter p
  · obtain ⟨ho, hpo⟩ := List.mem_filter.mp ho
    exact h.items o ho (hp o hpo)

section Owner

variable {u : UUID} {db db' : Db}

/-- `findOne` of an owner answers from the owner's rows. -/
theorem AgreeFor.findOne (h : AgreeFor u db db') (scan : Scan OrderRow) (id : String) :
    ∃ scan', TypeOrmOrdersRepository.findOne scan' { id := some id, userId := some u.text } db' =
      TypeOrmOrdersRepository.findOne scan { id := some id, userId := some u.text } db := by
  unfold TypeOrmOrdersRepository.findOne
  rw [uuidParam_text]
  cases uuidParam (some id) with
  | error e => exact ⟨scan, show Except.error e = Except.error e from rfl⟩
  | ok key =>
    have hrows := h.rows (p := TypeOrmOrdersRepository.whereOne key (some u)) fun o ho => by
      simp only [TypeOrmOrdersRepository.whereOne, Option.all_some, Bool.and_eq_true,
        decide_eq_true_eq] at ho
      exact ho.2
    obtain ⟨scan', heq⟩ := firstOrder_perm scan hrows
    exact ⟨scan', congrArg Except.ok heq⟩

theorem AgreeFor.find (h : AgreeFor u db db') (scan : Scan OrderRow) (options : LocalFindOptions)
    (hu : options.userId = some u.text) :
    ∃ scan', TypeOrmOrdersRepository.find scan' options db' =
      TypeOrmOrdersRepository.find scan options db := by
  unfold TypeOrmOrdersRepository.find
  rw [owner_filter hu, uuidParam_text]
  have hrows := h.rows (p := TypeOrmOrdersRepository.whereMany options (some u)) fun o ho => by
    simp only [TypeOrmOrdersRepository.whereMany, Option.all_some, Bool.and_eq_true,
      decide_eq_true_eq] at ho
    exact ho.1.1.2
  exact listOrders_perm scan _ _ hrows

end Owner

/-! ## The requests of one user -/

section Requests

variable {Token : Type} {jwt : JwtService Token} {config : JwtConfig} {u : User} {token : Token}
  {db db' : Db}

/-- A request that can always be answered from the other database as well. -/
theorem canRespond_iff {α : Type} {request : Scan OrderRow → Db → α}
    (h : ∀ scan, ∃ scan', request scan' db' = request scan db)
    (h' : ∀ scan, ∃ scan', request scan' db = request scan db') (r : α) :
    CanRespond request db r ↔ CanRespond request db' r := by
  constructor
  · rintro ⟨scan, rfl⟩
    exact h scan
  · rintro ⟨scan, rfl⟩
    exact h' scan

theorem AgreeFor.getOrder (hjwt : jwt.CarriesPayload) (hissued : Issued jwt config u token)
    (h : AgreeFor u.id db db') (now : Nat) (id : String) (scan : Scan OrderRow) :
    ∃ scan', getOrder jwt config now token id scan' db' =
      getOrder jwt config now token id scan db := by
  unfold Orders.getOrder
  cases hauth : authenticate jwt config now (some token) with
  | error e => exact ⟨scan, show Except.error e = Except.error e from rfl⟩
  | ok payload =>
    obtain ⟨scan', heq⟩ := h.findOne scan id
    refine ⟨scan', ?_⟩
    show OrdersController.findById _ payload.sub id db' = OrdersController.findById _ _ _ db
    simp only [hissued.sub_eq hjwt hauth, OrdersController.findById, OrdersService.findById, heq]

theorem AgreeFor.getOrders (hjwt : jwt.CarriesPayload) (hissued : Issued jwt config u token)
    (h : AgreeFor u.id db db') (now : Nat) (query : OrdersController.ListQuery)
    (scan : Scan OrderRow) :
    ∃ scan', getOrders jwt config now token query scan' db' =
      getOrders jwt config now token query scan db := by
  unfold Orders.getOrders
  cases hauth : authenticate jwt config now (some token) with
  | error e => exact ⟨scan, show Except.error e = Except.error e from rfl⟩
  | ok payload =>
    obtain ⟨scan', heq⟩ := h.find scan {
      status := query.status, userId := some u.id.text, page := query.page, limit := query.limit
      fromDate := query.fromDate, toDate := query.toDate } rfl
    refine ⟨scan', ?_⟩
    show OrdersController.list _ payload.sub query db' = OrdersController.list _ _ _ db
    simp only [hissued.sub_eq hjwt hauth, OrdersController.list, OrdersService.list, heq]

theorem postOrder_ok {now : Nat} {payload : JwtPayloadDto}
    (hauth : authenticate jwt config now (some token) = .ok payload) (dto : CreateOrderDto)
    (key : Option String) : postOrder jwt config now token dto key =
      OrdersController.create payload.sub dto key := by
  rw [postOrder, hauth]
  rfl

/-- A call that a user's request leads to is a call of that user. -/
theorem postOrder_userId (hjwt : jwt.CarriesPayload) (hissued : Issued jwt config u token)
    {now : Nat} {dto : CreateOrderDto} {key : Option String} {req : Request}
    (h : postOrder jwt config now token dto key = .ok req) : req.userId = u.id := by
  cases hauth : authenticate jwt config now (some token) with
  | error e =>
    rw [postOrder, hauth] at h
    cases h
  | ok payload =>
    have hcreate : OrdersController.create u.id.text dto key = .ok req := by
      rw [← hissued.sub_eq hjwt hauth, ← postOrder_ok hauth]
      exact h
    unfold OrdersController.create at hcreate
    rw [UUID.ofText_text] at hcreate
    split at hcreate
    · cases hcreate
    · cases hcreate
      rfl

end Requests

/-- The order a call has returned is an order of the caller. -/
theorem Reachable.returned_owner {ι : Type} [DecidableEq ι] {env : Env ι} {n : Nat} {db₀ : Db}
    {s : Sys ι} (hr : Reachable env n db₀ s) (hv : db₀.Valid) (hf : FreshIds env db₀) {c : ι}
    {order : OrderView} (hc : (s.calls c).returned? = some order) :
    (∃ o ∈ s.db.orders, o.id = order.id) ∧
      ∀ o ∈ s.db.orders, o.id = order.id → o.userId = (env.request c).userId := by
  obtain ⟨pair, hpair, o, ho, hkey, hid, -⟩ := (hr.results hv hf).result c order (returned_result hc)
  obtain ⟨key, -, rfl⟩ := pair_eq_some hpair
  refine ⟨⟨o, ho, hid.symm⟩, fun o' ho' hid' => ?_⟩
  have heq : o' = o := List.inj_on_of_nodup_map (hr.inv hv hf).valid.orderIds ho' ho (hid'.trans hid)
  rw [heq]
  exact congrArg Prod.fst hkey

/-- Whoever uses a token issued to `u` learns nothing about the orders of others: reads answer the
same from every two databases that agree for `u`, and `createOrder` returns orders of `u` only. -/
theorem orders_isolated {Token ι : Type} [DecidableEq ι] {jwt : JwtService Token}
    (hjwt : jwt.CarriesPayload) {config : JwtConfig} {u : User} {token : Token}
    (hissued : Issued jwt config u token) :
    (∀ now db db', AgreeFor u.id db db' →
      (∀ id r, CanRespond (getOrder jwt config now token id) db r ↔
        CanRespond (getOrder jwt config now token id) db' r) ∧
      ∀ query r, CanRespond (getOrders jwt config now token query) db r ↔
        CanRespond (getOrders jwt config now token query) db' r) ∧
    ∀ (env : Env ι) n db₀ s, db₀.Valid → FreshIds env db₀ → Reachable env n db₀ s →
      ∀ c now dto key order, postOrder jwt config now token dto key = .ok (env.request c) →
        (s.calls c).returned? = some order →
        (∃ o ∈ s.db.orders, o.id = order.id) ∧
          ∀ o ∈ s.db.orders, o.id = order.id → o.userId = u.id := by
  refine ⟨fun now db db' h => ⟨fun id r => ?_, fun query r => ?_⟩, ?_⟩
  · exact canRespond_iff (h.getOrder hjwt hissued now id) (h.symm.getOrder hjwt hissued now id) r
  · exact canRespond_iff (h.getOrders hjwt hissued now query)
      (h.symm.getOrders hjwt hissued now query) r
  · intro env n db₀ s hv hf hr c now dto key order hpost hc
    rw [← postOrder_userId hjwt hissued hpost]
    exact hr.returned_owner hv hf hc

/-- A token library whose tokens are what was signed, for the example. -/
def plainJwt : JwtService (String × Nat × Nat × JwtPayloadDto) where
  sign secret expiresIn now dto := (secret, now, now + expiresIn, dto)
  verify secret now token :=
    if token.1 = secret ∧ now < token.2.2.1 then
      some { sub := token.2.2.2.sub, iat := token.2.1, exp := token.2.2.1
             email := token.2.2.2.email, roles := some token.2.2.2.roles }
    else none

theorem plainJwt_carriesPayload : plainJwt.CarriesPayload := by
  intro secret secret' expiresIn now now' dto payload h
  simp only [plainJwt] at h
  split at h
  · rw [← Option.some.inj h]
    exact ⟨rfl, rfl, rfl⟩
  · cases h

/-- Two users submit with one key.  Both calls return an order, the first user's call an order of
that user, who reads the same without the orders of anybody else. -/
theorem orders_isolated_same_key :
    ∃ (db : Db) (first second : OrderView), db.orders.length = 2 ∧ first.id ≠ second.id ∧
      (∀ o ∈ db.orders, o.id = first.id → o.userId = .ofNat 50) ∧
      ∃ request : Scan OrderRow → Db → Except HttpError OrderResponseDto, ∀ r,
        CanRespond request db r ↔
          CanRespond request { db with orders := db.orders.filter (·.userId = .ofNat 50) } r := by
  let config : JwtConfig :=
    { atSecret := "at", atMaxAgeS := 900, rtSecret := "rt", rtMaxAgeS := 9000 }
  let env := shopEnv (fun _ => false) fun c => shopRequest (50 + c) 60 [1]
  let user : User := {
    id := (env.request 0).userId, email := "first@example.com", password := "", role := .user }
  let token := (prepareTokenResponse plainJwt config 0 user).accessToken
  let p : Sys (Fin 2) → Bool := fun s =>
    (s.calls 0).returned?.any (·.id = .ofNat 100) &&
      ((s.calls 1).returned?.any (·.id = .ofNat 101) && (s.db.orders.length = 2 : Bool))
  -- both calls begin before either inserts
  obtain ⟨s, hr, hs⟩ := reach_of_run env 3 shop
    ([0, 1] ++ List.replicate 10 0 ++ List.replicate 10 1)
    (show Option.any p _ = true by decide +kernel)
  simp only [p, Bool.and_eq_true, decide_eq_true_eq, Option.any_eq_true] at hs
  obtain ⟨⟨first, hfirst, hid⟩, ⟨second, -, hid'⟩, hlen⟩ := hs
  have hfresh : FreshIds env shop := freshIds_shop _ _
  have hissued : Issued plainJwt config user token := ⟨0, .inl rfl⟩
  have hpost : postOrder plainJwt config 1 token (env.request 0).dto
      (some (env.request 0).idempotencyKey) = .ok (env.request 0) := by
    have hauth : authenticate plainJwt config 1 (some token) =
        .ok { sub := user.id.text, email := user.email, roles := [user.role] } := rfl
    rw [postOrder_ok hauth]
    exact create_text (env.request 0).userId _ (UUID.text_ne_empty (.ofNat 60))
  obtain ⟨hread, hcreate⟩ := orders_isolated (ι := Fin 2) plainJwt_carriesPayload hissued
  -- dropping the orders of the others changes nothing that this user reads
  have hagree : AgreeFor user.id s.db
      { s.db with orders := s.db.orders.filter (·.userId = .ofNat 50) } := {
    orders := by
      have hid : user.id = .ofNat 50 := rfl
      rw [List.filter_filter, hid]
      simp
    items := fun _ _ _ => .refl _ }
  refine ⟨s.db, first, second, hlen, ?_, ?_, _, (hread 1 _ _ hagree).1 first.id.text⟩
  · rw [hid, hid']
    decide
  · exact (hcreate env 3 shop s (by decide) hfresh hr.any 0 1 _ _ first hpost hfirst).2

end Ecommerce.Orders
