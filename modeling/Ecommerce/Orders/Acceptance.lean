import Ecommerce.Auth.AuthController
import Ecommerce.Orders.CreateOrderBody
import Ecommerce.Orders.OrdersController

/-!
# Acceptance — which accepted requests end in an internal error

The pipe, the service and the columns each take their own set of values.  What the first lets through
and one of the others refuses ends with status 500.
-/

namespace Ecommerce.Orders

open Auth Users

/-- What the handler makes of the end of a call; nothing when the process is gone. -/
def Outcome.response : Outcome → Option (Except Exception OrderView)
  | .created o => some (.ok o)
  | .duplicate o => some (.ok o)
  | .rejected e => some (.error (.ofFailure e))
  | .stopped => none

section Status

variable (toText : Json → String) (correlationId : String)

/-- The status `POST /orders` of this user is answered with. -/
def createStatus (userId : String) (dto : CreateOrderDto) (idempotencyKey : Option String)
    (ch : Choices) (db : Db) : Option Nat :=
  match OrdersController.create userId dto idempotencyKey with
  | .error e => some (HttpExceptionFilter.catchException toText correlationId e.toException).status
  | .ok req => (createOrder req ch db).2.response.map (responseStatus toText correlationId 201)

/-- The request is answered, and not with an internal error. -/
def BelowInternal (status : Option Nat) : Prop := ∃ n, status = some n ∧ n < 500

variable {toText correlationId}

theorem belowInternal_some (n : Nat) : BelowInternal (some n) ↔ n < 500 := by
  constructor
  · rintro ⟨m, hm, hlt⟩
    rwa [Option.some.inj hm]
  · exact fun hlt => ⟨n, rfl, hlt⟩

/-- Whether the failure is answered as an internal error. -/
def failsInternally : Failure → Bool
  | .domain e => 500 ≤ e.httpStatus
  | _ => true

theorem rejected_below (e : Failure) :
    BelowInternal ((Outcome.rejected e).response.map (responseStatus toText correlationId 201)) ↔
      failsInternally e = false := by
  rw [Outcome.response, Option.map_some, belowInternal_some]
  cases e with
  | domain e =>
    show e.httpStatus < 500 ↔ decide (500 ≤ e.httpStatus) = false
    rw [decide_eq_false_iff_not]
    omega
  | query _ | typeError | entityNotFound | channel =>
    exact iff_of_false (lt_irrefl 500) Bool.true_eq_false_eq_False

theorem txOutcome_below (db : Db) (r : Except Failure (Tx × OrderView)) :
    BelowInternal ((txOutcome db r).2.response.map (responseStatus toText correlationId 201)) ↔
      ∀ e, r = .error e → failsInternally e = false := by
  cases r with
  | ok filled =>
    apply iff_of_true
    · exact ⟨201, rfl, by decide⟩
    · intro e he
      cases he
  | error e =>
    rw [txOutcome, rejected_below]
    simp

end Status

/-! ## The lines of an accepted body -/

/-- An object among the elements. -/
def ItemValue.item? : ItemValue → Option OrderItemDto
  | .item dto => some dto
  | _ => none

theorem lines_of_missing {elems : List ItemValue} (h : .missing ∈ elems) :
    ItemValue.lines elems = .error .typeError := by
  cases hlines : ItemValue.lines elems with
  | error e => rw [ItemValue.lines_error hlines]
  | ok ls =>
    exfalso
    induction elems generalizing ls with
    | nil => cases h
    | cons v vs ih =>
      rw [ItemValue.lines] at hlines
      rcases List.mem_cons.mp h with rfl | hrest
      · cases hlines
      · split at hlines
        · next hvs => exact ih hrest _ hvs
        · cases hlines
        · cases hlines

-- Without `null` and `undefined` there is a line for each element, and only objects have ids.
theorem lines_of_present {elems : List ItemValue} (h : .missing ∉ elems) :
    ∃ ls, ItemValue.lines elems = .ok ls ∧ ls.length = elems.length ∧
      ls.filterMap (·.id) = (elems.filterMap ItemValue.item?).map (·.id) := by
  induction elems with
  | nil => exact ⟨[], rfl, rfl, rfl⟩
  | cons v vs ih =>
    obtain ⟨ls, hls, hlength, hids⟩ := ih fun hmem => h (List.mem_cons_of_mem _ hmem)
    cases v with
    | missing => exact absurd List.mem_cons_self h
    | nested =>
      refine ⟨{ id := none, qty := none } :: ls, ?_, ?_, ?_⟩
      · simp only [ItemValue.lines, ItemValue.line, hls]
      · rw [List.length_cons, List.length_cons, hlength]
      · exact hids
    | item dto =>
      refine ⟨dto.line :: ls, ?_, ?_, ?_⟩
      · simp only [ItemValue.lines, ItemValue.line, hls]
        rfl
      · rw [List.length_cons, List.length_cons, hlength]
      · simp only [List.filterMap_cons, ItemValue.item?, OrderItemDto.line, List.map_cons, hids]

theorem items_of_present {elems : List ItemValue} (hmissing : .missing ∉ elems)
    (hnested : .nested ∉ elems) : elems = (elems.filterMap ItemValue.item?).map .item := by
  induction elems with
  | nil => rfl
  | cons v vs ih =>
    have hrest := ih (fun hmem => hmissing (List.mem_cons_of_mem _ hmem))
      (fun hmem => hnested (List.mem_cons_of_mem _ hmem))
    cases v with
    | missing => exact absurd List.mem_cons_self hmissing
    | nested => exact absurd List.mem_cons_self hnested
    | item dto => simp only [List.filterMap_cons, ItemValue.item?, List.map_cons, ← hrest]

/-! ## From the locked read to the COMMIT -/

section Fill

variable {req : Request} {ch : Choices} {db : Db} {order : Order} {elems : List ItemValue}

/-- An array inside `items` is a line without a product: the lengths differ. -/
theorem fillOrder_nested (hv : db.Valid) (hitems : req.dto.items = .array elems)
    (hmissing : .missing ∉ elems) (hnested : .nested ∈ elems)
    (hok : ∀ i, .item i ∈ elems → i.accepted = true) :
    ∃ n, fillOrder req ch db order = .error (.domain (.cannotFindProducts n)) := by
  obtain ⟨ls, hls, hlength, hids⟩ := lines_of_present hmissing
  have hlines : req.dto.lines = .ok ls := by
    simp only [CreateOrderDto.lines, hitems, hls]
  let items := elems.filterMap ItemValue.item?
  have haccepted : ∀ i ∈ items, i.accepted = true := by
    intro i hi
    obtain ⟨v, hv, hitem⟩ := List.mem_filterMap.mp hi
    cases v with
    | missing | nested => cases hitem
    | item dto =>
      cases hitem
      exact hok i hv
  -- a nested array is a line but names no product
  have hfewer : items.length < ls.length := by
    rw [hlength, List.length_filterMap_lt_length_iff_exists]
    exact ⟨.nested, hnested, rfl⟩
  have hparams : req.ids = .ok (items.map OrderItemDto.uuid) := by
    have hne : ls.isEmpty = false := by
      cases ls with
      | nil => exact absurd hfewer (Nat.not_lt_zero _)
      | cons l ls => rfl
    rw [Request.ids, hlines]
    simp only [idParams, hne, Bool.false_eq_true, if_false, hids]
    rw [mapM_ofItems haccepted]
  -- at most one row for each distinct id
  have hrows : (findByIds ch db (items.map OrderItemDto.uuid)).length ≤ items.length := by
    have hcount := findByIds_length ch (items.map OrderItemDto.uuid) hv.productIds
    have hdedup := (items.map OrderItemDto.uuid).dedup_sublist.length_le
    rw [List.length_map] at hdedup
    omega
  refine ⟨(ls.length : Int) - (findByIds ch db (items.map OrderItemDto.uuid)).length, ?_⟩
  simp only [fillOrder, hparams, bind, Except.bind, fillRows, Request.check, hlines, checkProducts]
  rw [if_pos (by omega)]

/-- Every line is an object for a product of its own, nothing is short under a lower-case id, and
some id has an upper-case letter: under the text the database returns for it there is no quantity. -/
structure Unmatched (db : Db) (items : List OrderItemDto) : Prop where
  distinct : (items.map OrderItemDto.uuid).Nodup
  found : missingIds db (items.map OrderItemDto.uuid) = []
  enough : ¬ ∃ i ∈ items, ShortLower db i
  upper : ∃ i ∈ items, UUID.hasUpper i.id = true

/-- With objects only, all that can fail inside is the insert of an item without a quantity. -/
theorem fillRows_internal_iff (hv : db.Valid) {items : List OrderItemDto}
    (hitems : req.dto = .ofItems items) (hok : ∀ i ∈ items, i.accepted = true) :
    (∀ e, fillRows req ch db order (lockedRows ch db items) = .error e →
      failsInternally e = false) ↔ ¬ Unmatched db items := by
  -- the lengths, then the stock, then the quantities: the first check that fails answers
  by_cases hlen : (lockedRows ch db items).length = items.length
  · obtain ⟨hnodup, hnone⟩ := (lockedRows_length hv.productIds).mp hlen
    cases hloop : fillItems (items.map OrderItemDto.line) order.id (lockedRows ch db items) with
    | error e =>
      apply iff_of_true
      · intro e' he'
        rw [fillRows_stops hitems hlen hloop] at he'
        obtain ⟨p, -, q, -, -, rfl⟩ := fillItems_stops hloop
        rw [← Except.error.inj he']
        rfl
      · exact fun h => h.enough ((loop_stops_iff hv.productIds hok hnodup order.id).mp ⟨e, hloop⟩)
    | ok filled =>
      have henough : ¬ ∃ i ∈ items, ShortLower db i := passed_enough hv.productIds hok hnodup hloop
      by_cases hupper : ∃ i ∈ items, UUID.hasUpper i.id = true
      · apply iff_of_false
        · intro h
          have hwrong := h _ (fillRows_upper hv hitems hok hlen hloop hupper)
          cases hwrong
        · exact fun h => h ⟨hnodup, hnone, henough, hupper⟩
      · apply iff_of_true
        · intro e he
          have hlower : ∀ i ∈ items, UUID.hasUpper i.id = false := fun i hi =>
            Bool.eq_false_iff.mpr fun hup => hupper ⟨i, hi, hup⟩
          obtain ⟨tx, v, hfilled⟩ := fillRows_lower hv hitems hok hlen hloop hlower
          rw [hfilled] at he
          cases he
        · exact fun h => hupper h.upper
  · apply iff_of_true
    · intro e he
      rw [fillRows_missing hitems hlen] at he
      rw [← Except.error.inj he]
      rfl
    · exact fun h => hlen ((lockedRows_length hv.productIds).mpr ⟨h.distinct, h.found⟩)

end Fill

/-! ## The two requests -/

/-- What an accepted body and a key need for their answer to be no internal error: the key is a uuid,
and the order is there already, or `items` is an array of objects and arrays, not empty, in which the
service matches every quantity. -/
def Served (db : Db) (owner : UUID) (key : String) (dto : CreateOrderDto) : Prop :=
  ∃ k, UUID.ofText key = some k ∧ (db.orderByKey (owner, k) ≠ none ∨
    ∃ elems, dto.items = .array elems ∧ elems ≠ [] ∧ .missing ∉ elems ∧
      ¬ ∃ items, elems = items.map .item ∧ Unmatched db items)

section Requests

variable {toText : Json → String} {correlationId : String}

theorem fillOrder_typeError {req : Request} {ch : Choices} {db : Db} {order : Order}
    (h : req.dto.lines = .error .typeError) : fillOrder req ch db order = .error .typeError := by
  simp only [fillOrder, Request.ids, h, bind, Except.bind]

/-- An error inside stands against an answer below it. -/
theorem internal_of_error {req : Request} {ch : Choices} {db : Db} {order : Order} {e : Failure}
    (he : fillOrder req ch db order = .error e) (hint : failsInternally e = true) :
    ¬ ∀ e, fillOrder req ch db order = .error e → failsInternally e = false := by
  intro h
  rw [h e he] at hint
  cases hint

/-- With objects only, the list of them may be empty or lead to an insert that is refused. -/
theorem fillOrder_items_iff {req : Request} {ch : Choices} {db : Db} {order : Order} (hv : db.Valid)
    {items : List OrderItemDto} (hdto : req.dto = .ofItems items)
    (hok : ∀ i ∈ items, i.accepted = true) :
    (∀ e, fillOrder req ch db order = .error e → failsInternally e = false) ↔
      items ≠ [] ∧ ¬ Unmatched db items := by
  by_cases hne : items = []
  · subst hne
    apply iff_of_false
    · refine internal_of_error (e := .query .syntaxError) ?_ rfl
      simp only [fillOrder, Request.ids, hdto, lines_ofItems]
      rfl
    · exact fun h => h.1 rfl
  · have hids : req.ids = .ok (items.map OrderItemDto.uuid) := by
      rw [Request.ids, hdto, lines_ofItems]
      exact idParams_ofItems hok hne
    have hfill : fillOrder req ch db order =
        fillRows req ch db order (lockedRows ch db items) := by
      simp only [fillOrder, hids, bind, Except.bind, lockedRows]
    rw [hfill, fillRows_internal_iff hv hdto hok, and_iff_right hne]

/-- On a new pair the answer depends on the body alone, and on the products it names. -/
theorem fillOrder_internal_iff {req : Request} {ch : Choices} {db : Db} {order : Order}
    (hv : db.Valid) (hok : ∀ elems, req.dto.items = .array elems →
      ∀ i, .item i ∈ elems → i.accepted = true) :
    (∀ e, fillOrder req ch db order = .error e → failsInternally e = false) ↔
      ∃ elems, req.dto.items = .array elems ∧ elems ≠ [] ∧ .missing ∉ elems ∧
        ¬ ∃ items, elems = items.map .item ∧ Unmatched db items := by
  cases hitems : req.dto.items with
  | missing | object =>
    apply iff_of_false
    · exact internal_of_error (fillOrder_typeError (by simp only [CreateOrderDto.lines, hitems])) rfl
    · rintro ⟨elems, hwrong, -⟩
      cases hwrong
  | array elems =>
    have hread : (∃ es, ItemsValue.array elems = .array es ∧ es ≠ [] ∧ .missing ∉ es ∧
        ¬ ∃ items, es = items.map .item ∧ Unmatched db items) ↔
        elems ≠ [] ∧ .missing ∉ elems ∧
          ¬ ∃ items, elems = items.map .item ∧ Unmatched db items := by
      constructor
      · rintro ⟨es, heq, h⟩
        cases heq
        exact h
      · exact fun h => ⟨elems, rfl, h⟩
    rw [hread]
    by_cases hmissing : .missing ∈ elems
    · apply iff_of_false
      · refine internal_of_error (fillOrder_typeError ?_) rfl
        simp only [CreateOrderDto.lines, hitems, lines_of_missing hmissing]
      · exact fun h => h.2.1 hmissing
    rw [and_iff_right hmissing]
    by_cases hnested : .nested ∈ elems
    · -- the array inside is a line that no product matches
      obtain ⟨n, hn⟩ : ∃ n, fillOrder req ch db order = .error (.domain (.cannotFindProducts n)) :=
        fillOrder_nested hv hitems hmissing hnested (hok elems hitems)
      apply iff_of_true
      · intro e he
        rw [hn] at he
        rw [← Except.error.inj he]
        rfl
      · refine ⟨List.ne_nil_of_mem hnested, ?_⟩
        rintro ⟨items, rfl, -⟩
        obtain ⟨i, -, hi⟩ := List.mem_map.mp hnested
        cases hi
    · obtain ⟨items, rfl⟩ : ∃ items : List OrderItemDto, elems = items.map .item :=
        ⟨_, items_of_present hmissing hnested⟩
      have haccepted : ∀ i ∈ items, i.accepted = true := fun i hi =>
        hok _ hitems i (List.mem_map_of_mem hi)
      have hdto : req.dto = .ofItems items := by
        rw [CreateOrderDto.ofItems, ← hitems]
      have hsame : (∃ items' : List OrderItemDto, items.map ItemValue.item = items'.map .item ∧
          Unmatched db items') ↔ Unmatched db items := by
        constructor
        · rintro ⟨items', heq, hunmatched⟩
          have hinj := List.map_injective_iff.mpr fun _ _ h => ItemValue.item.inj h
          rwa [hinj heq]
        · exact fun hunmatched => ⟨items, rfl, hunmatched⟩
      rw [fillOrder_items_iff hv hdto haccepted, hsame, ne_eq, ne_eq, List.map_eq_nil_iff]

theorem createStatus_below_iff {owner : UUID} {key : String} {dto : CreateOrderDto} {ch : Choices}
    {db : Db} (hv : db.Valid) (hkey : key ≠ "")
    (hok : ∀ elems, dto.items = .array elems → ∀ i, .item i ∈ elems → i.accepted = true) :
    BelowInternal (createStatus toText correlationId owner.text dto (some key) ch db) ↔
      Served db owner key dto := by
  simp only [createStatus, create_text owner dto hkey, createOrder, Served]
  cases hread : UUID.ofText key with
  | none =>
    apply iff_of_false
    · rw [rejected_below]
      exact Bool.true_eq_false_eq_False
    · rintro ⟨k, hk, -⟩
      cases hk
  | some k =>
    simp only [Option.some.injEq, exists_eq_left']
    cases hexists : db.orderByKey (owner, k) with
    | some o => exact iff_of_true ⟨201, rfl, by decide⟩ (.inl (Option.some_ne_none o))
    | none =>
      rw [txOutcome_below, fillOrder_internal_iff hv hok, or_iff_right (not_not.mpr rfl)]

theorem signUp_below_iff {v : Validator} {passwords : PasswordService} {salt : String} {id : UUID}
    {createdAt : Date} {body : Json} {dto : SignUpDto} {users : List User}
    (hbody : SignUpDto.ofJson v body = .ok dto) :
    responseStatus toText correlationId 201 (signUp v passwords salt id createdAt body users) < 500 ↔
      dto.email.length ≤ maxLength := by
  have hhash : (passwords.hash salt dto.password).length ≤ maxLength := by
    rw [passwords.hash_length]
    decide
  simp only [signUp, hbody, bind, Except.bind, pure, Except.pure, AuthService.signUp]
  obtain ⟨hlong, hcreate⟩ | ⟨hfits, -, hcreate⟩ | ⟨hfits, saved, hcreate⟩ :=
    UsersService.create_cases id createdAt dto hhash users
  · rw [hcreate]
    exact iff_of_false (lt_irrefl 500) (not_le.mpr hlong)
  · rw [hcreate]
    exact iff_of_true (by decide : 409 < 500) hfits
  · rw [hcreate]
    exact iff_of_true (by decide : 201 < 500) hfits

end Requests

/-- An accepted order or sign-up is answered below 500 exactly when the service and the columns take
it too: for an order, the key is a uuid and `items` is an array that the service can go through and
match, unless the order is there already; for a sign-up, the email fits its column. -/
theorem accepted_below_internal_iff (toText : Json → String) (correlationId : String) :
    (∀ body dto owner key ch db, CreateOrderDto.ofJson body = some dto → key ≠ "" → db.Valid →
      (BelowInternal (createStatus toText correlationId owner.text dto (some key) ch db) ↔
        Served db owner key dto)) ∧
    (∀ v passwords salt id createdAt body dto users, SignUpDto.ofJson v body = .ok dto →
      (responseStatus toText correlationId 201
          (signUp v passwords salt id createdAt body users) < 500 ↔
        dto.email.length ≤ maxLength)) := by
  constructor
  · intro body dto owner key ch db hbody hkey hv
    exact createStatus_below_iff hv hkey fun elems => CreateOrderDto.ofJson_accepted hbody
  · intro v passwords salt id createdAt body dto users hbody
    exact signUp_below_iff hbody

/-- The body `{}` passes the pipe, and `dto.items.map` then throws. -/
theorem empty_body_fails_internally :
    ∃ dto, CreateOrderDto.ofJson (.obj []) = some dto ∧ docShop.Valid ∧
      createStatus (fun _ => "") "1" (UUID.ofNat 1).text dto
        (some "7d444840-9dc0-11d1-b245-5ffdce74fad2") (shopChoices false 0) docShop = some 500 := by
  refine ⟨⟨.missing⟩, rfl, by decide +kernel, ?_⟩
  have hkey : UUID.ofText "7d444840-9dc0-11d1-b245-5ffdce74fad2" =
      some (.ofNat 0x7d4448409dc011d1b2455ffdce74fad2) := by
    decide +kernel
  rw [createStatus, create_text _ _ (by decide)]
  simp only [createOrder, hkey]
  rfl

end Ecommerce.Orders
