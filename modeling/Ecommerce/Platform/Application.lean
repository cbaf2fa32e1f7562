import Ecommerce.Auth.Sessions
import Ecommerce.Orders.CreateOrderBody
import Ecommerce.Orders.Isolation
import Ecommerce.Orders.PageRequests
import Ecommerce.Platform.OrderLifecycle

/-!
# Application — clients who log in, and the orders they place

The sessions and the platform side by side.  A call of `createOrder` takes its first step after its
request has passed the guard, with any token a client can show at that time.  What is known of the
two parts meets here: who has placed an order, and who gets to see it.
-/

namespace Ecommerce.Application

open Transition Users Auth Auth.Sessions Orders Platform

variable {ι π : Type} [DecidableEq ι] [DecidableEq π]

/-- The time and the token of a request that the guard let through. -/
structure Posting where
  now : Nat
  token : String

structure State (ι π : Type) where
  sessions : Sessions.State
  platform : Platform.State ι π
  posted : ι → Option Posting

inductive Label (ι π : Type) where
  | auth (l : Sessions.Label)
  | post (c : ι) (token : String) (body : Json) (idempotencyKey : Option String)
  | platform (l : Platform.Label ι π)

/-- The call whose step this is. -/
def call? : Platform.Label ι π → Option ι
  | .calls (.advance c) => some c
  | .calls (.fault c) => some c
  | .calls (.sendThrows c) => some c
  | .calls (.kill c) => some c
  | _ => none

section System

variable (v : Validator) (passwords : PasswordService) (jwt : JwtService String)
variable (config : JwtConfig) (rows : List SavedUser)
variable (env : Env ι) (n : Nat) (maxRetries : Number) (db₀ : Db)

inductive Step : State ι π → Label ι π → State ι π → Prop
  | auth {s : State ι π} {a : Sessions.State} (l : Sessions.Label)
      (h : (Sessions.system v passwords jwt config rows).step s.sessions l a) :
      Step s (.auth l) { s with sessions := a }
  -- `POST /orders`, up to its call of `createOrder`
  | post {s : State ι π} (c : ι) (token : String) (body : Json) (dto : CreateOrderDto)
      (idempotencyKey : Option String) (hnew : s.posted c = none)
      (hshown : Presentable jwt config s.sessions.grants token)
      (hbody : CreateOrderDto.ofJson body = some dto)
      (hpost : postOrder jwt config s.sessions.now token dto idempotencyKey = .ok (env.request c)) :
      Step s (.post c token body idempotencyKey)
        { s with posted := Function.update s.posted c (some ⟨s.sessions.now, token⟩) }
  | platform {s : State ι π} {p : Platform.State ι π} (l : Platform.Label ι π)
      (hposted : ∀ c, call? l = some c → s.posted c ≠ none)
      (h : Platform.Step env maxRetries s.platform l p) :
      Step s (.platform l) { s with platform := p }

/-- The runs from a table of users and a database, before any request. -/
def system : System (State ι π) (Label ι π) where
  init s := (Sessions.system v passwords jwt config rows).init s.sessions ∧
    s.platform = .initial n db₀ ∧ s.posted = fun _ => none
  step := Step v passwords jwt config rows env maxRetries

/-- The request has come with an access token of a running session of the user. -/
def PostedBy (s : State ι π) (user : User) (p : Posting) : Prop :=
  ∃ g, Session v passwords jwt config s.sessions.grants user g ∧
    p.token = g.response.accessToken ∧ g.now ≤ p.now ∧ p.now < g.now + config.atMaxAgeS

/-- An order of the user, there from the start or placed by a request of his own. -/
def PlacedBy (s : State ι π) (user : User) (o : Order) : Prop :=
  o.userId = user.id ∧ ((∃ o₀ ∈ db₀.orders, o₀.key = o.key) ∨
    ∃ c p, s.posted c = some p ∧ (env.request c).pair = some o.key ∧
      PostedBy v passwords jwt config s user p)

/-- The order with this id has been shown to whoever has the token. -/
inductive Shown (s : State ι π) (token : String) : UUID → Prop
  -- `GET /orders/:id`
  | one {id : String} {scan : Query.Scan OrderRow} {dto : OrderResponseDto}
      (h : getOrder jwt config s.sessions.now token id scan s.platform.orders.db = .ok dto) :
      Shown s token dto.id
  -- `GET /orders`
  | listed {query : OrdersController.ListQuery} {scan : Query.Scan OrderRow}
      {page : List ListedOrderDto} {dto : ListedOrderDto}
      (h : getOrders jwt config s.sessions.now token query scan s.platform.orders.db = .ok page)
      (hdto : dto ∈ page) : Shown s token dto.id
  -- the answer to `POST /orders`
  | returned {c : ι} {p : Posting} {order : OrderView} (hp : s.posted c = some p)
      (htoken : p.token = token) (h : (s.platform.orders.calls c).returned? = some order) :
      Shown s token order.id

end System

/-! ## The two parts of a run -/

section Projections

variable {v : Validator} {passwords : PasswordService} {jwt : JwtService String}
variable {config : JwtConfig} {rows : List SavedUser}
variable {env : Env ι} {n : Nat} {maxRetries : Number} {db₀ : Db} {s s' : State ι π}
variable {l : Label ι π} {ok : State ι π → Label ι π → Prop}

theorem Reach.sessions (hr : (system v passwords jwt config rows env n maxRetries db₀).Reach ok s) :
    (Sessions.system v passwords jwt config rows).Reach System.anyStep s.sessions := by
  refine hr.project State.sessions (fun s h0 => h0.1) fun s l s' _ _ hs => ?_
  cases hs with
  | auth l h => exact .inr ⟨l, trivial, h⟩
  | _ => exact .inl rfl

theorem Reach.platform (hr : (system v passwords jwt config rows env n maxRetries db₀).Reach ok s) :
    (Platform.system env n maxRetries db₀).Reach System.anyStep s.platform := by
  refine hr.project State.platform (fun s h0 => h0.2.1) fun s l s' _ _ hs => ?_
  cases hs with
  | platform l hposted h => exact .inr ⟨l, trivial, h⟩
  | _ => exact .inl rfl

/-- Users and responses are added only. -/
theorem after_grows (a : Sessions.State) (l : Sessions.Label) :
    (∀ u ∈ a.users, u ∈ (a.after v passwords jwt config l).users) ∧
      ∀ g ∈ a.grants, g ∈ (a.after v passwords jwt config l).grants := by
  cases l with
  | signUp salt id createdAt body =>
    unfold Sessions.State.after
    dsimp only
    split
    · refine ⟨fun u hu => ?_, fun _ hg => hg⟩
      rw [users_append]
      exact List.mem_append_left _ hu
    · exact ⟨fun _ hu => hu, fun _ hg => hg⟩
  | logIn body =>
    unfold Sessions.State.after
    dsimp only
    split
    · exact ⟨fun _ => id, fun _ => List.mem_cons_of_mem _⟩
    · exact ⟨fun _ => id, fun _ => id⟩
  | refresh cookie =>
    cases cookie with
    | none => exact ⟨fun _ => id, fun _ => id⟩
    | some token =>
      unfold Sessions.State.after
      dsimp only
      split
      · exact ⟨fun _ => id, fun _ => List.mem_cons_of_mem _⟩
      · exact ⟨fun _ => id, fun _ => id⟩
  | wait seconds => exact ⟨fun _ => id, fun _ => id⟩

/-- A request that passes the guard is one of a user with a running session. -/
theorem session_of_authenticate (hjwt : jwt.Signs) (hsecrets : config.atSecret ≠ config.rtSecret)
    {a : Sessions.State} (hinv : Sessions.Inv v passwords jwt config rows a) {token : String}
    (hshown : Presentable jwt config a.grants token) {payload : JwtPayloadDto}
    (hauth : authenticate jwt config a.now (some token) = .ok payload) :
    ∃ user ∈ a.users, payload.sub = user.id.text ∧ ∃ g,
      Session v passwords jwt config a.grants user g ∧ token = g.response.accessToken ∧
        g.now ≤ a.now ∧ a.now < g.now + config.atMaxAgeS := by
  unfold authenticate at hauth
  rw [Option.bind_some] at hauth
  split at hauth
  · rename_i verified hverify
    obtain ⟨user, huser, g, hsession, ⟨-, htoken, halive, rfl⟩ | ⟨heq, -⟩⟩ :=
      hinv.shown hjwt hsecrets hshown (.inl rfl) hverify
    · refine ⟨user, huser, ?_, g, hsession, htoken, hinv.past g hsession.mem, halive⟩
      rw [← Except.ok.inj hauth]
      rfl
    · exact absurd heq hsecrets
  · cases hauth

theorem authenticate_accessToken (hjwt : jwt.Signs) (user : User) {signedAt now : Nat}
    (halive : now < signedAt + config.atMaxAgeS) :
    authenticate jwt config now (some (prepareTokenResponse jwt config signedAt user).accessToken) =
      .ok (dtoOf user) := by
  simp only [authenticate, Option.bind_some, prepareTokenResponse, hjwt.verify_sign, if_pos halive]
  rfl

theorem create_owner {userId : String} {u : UUID} {dto : CreateOrderDto} {key : Option String}
    {req : Orders.Request} (hsub : userId = u.text)
    (h : OrdersController.create userId dto key = .ok req) : req.userId = u := by
  unfold OrdersController.create at h
  rw [hsub, UUID.ofText_text] at h
  split at h
  · cases h
  · cases h
    rfl

/-- A call waits until its request is posted, and then it is a call of the user who posted it. -/
structure Inv (v : Validator) (passwords : PasswordService) (jwt : JwtService String)
    (config : JwtConfig) (env : Env ι) (s : State ι π) : Prop where
  waiting : ∀ c, s.posted c = none → s.platform.orders.calls c = .waiting
  posted : ∀ c p, s.posted c = some p → ∃ user ∈ s.sessions.users,
    (env.request c).userId = user.id ∧ PostedBy v passwords jwt config s user p

/-- The calls that a step of the platform is not a step of stay where they are. -/
theorem platform_others {p p' : Platform.State ι π} {l : Platform.Label ι π}
    (hs : Platform.Step env maxRetries p l p') {c : ι} (hc : call? l ≠ some c) :
    p'.orders.calls c = p.orders.calls c := by
  cases hs with
  | worker l hl h => rfl
  | calls l hl h =>
    cases h with
    | advance d hadv => exact (advance_cases hadv).others c fun heq => hc (by rw [heq]; rfl)
    | fault d hd => exact (quiet_fault _ d).others c fun heq => hc (by rw [heq]; rfl)
    | sendThrows d result hd => exact setPhase_of_ne _ _ fun heq => hc (by rw [heq]; rfl)
    | kill d hd => exact (quiet_kill _ d).others c fun heq => hc (by rw [heq]; rfl)
    | worker db hw => rfl

theorem Inv.step (hi : Inv v passwords jwt config env s) (hjwt : jwt.Signs)
    (hsecrets : config.atSecret ≠ config.rtSecret)
    (hsessions : Sessions.Inv v passwords jwt config rows s.sessions)
    (hs : Step v passwords jwt config rows env maxRetries s l s') :
    Inv v passwords jwt config env s' := by
  cases hs with
  | auth l h =>
    obtain ⟨-, rfl⟩ := h
    obtain ⟨husers, hgrants⟩ := after_grows (v := v) s.sessions l
    refine ⟨hi.waiting, fun c p hp => ?_⟩
    obtain ⟨user, huser, hid, g, hsession, htoken⟩ := hi.posted c p hp
    exact ⟨user, husers user huser, hid, g, hsession.mono hgrants, htoken⟩
  | post c token body dto key hnew hshown hbody hpost =>
    refine ⟨fun d hd => ?_, fun d p hp => ?_⟩
    · by_cases hdc : d = c
      · rw [hdc]
        exact hi.waiting c hnew
      · simp only [Function.update_of_ne hdc] at hd
        exact hi.waiting d hd
    · by_cases hdc : d = c
      · subst hdc
        simp only [Function.update_self, Option.some.injEq] at hp
        rw [← hp]
        cases hauth : authenticate jwt config s.sessions.now (some token) with
        | error e =>
          rw [postOrder, hauth] at hpost
          cases hpost
        | ok payload =>
          rw [postOrder_ok hauth] at hpost
          obtain ⟨user, huser, hsub, hsession⟩ :=
            session_of_authenticate hjwt hsecrets hsessions hshown hauth
          exact ⟨user, huser, create_owner hsub hpost, hsession⟩
      · simp only [Function.update_of_ne hdc] at hp
        exact hi.posted d p hp
  | platform l hposted h =>
    refine ⟨fun c hc => ?_, hi.posted⟩
    show _ = _
    rw [platform_others h fun hl => hposted c hl hc]
    exact hi.waiting c hc

theorem reachable_inv (hjwt : jwt.Signs) (hsecrets : config.atSecret ≠ config.rtSecret)
    (hids : ((accounts rows).map (·.id)).Nodup)
    (hr : (system v passwords jwt config rows env n maxRetries db₀).Reach ok s) :
    Inv v passwords jwt config env s := by
  refine hr.invariant (fun s h0 => ?_) fun s l s' hr hi _ hs => hi.step hjwt hsecrets
    (Sessions.reachable_inv hjwt hsecrets hids (Reach.sessions hr)) hs
  obtain ⟨-, hplatform, hposted⟩ := h0
  refine ⟨fun c _ => by rw [hplatform]; rfl, fun c p hp => ?_⟩
  rw [hposted] at hp
  cases hp

end Projections

/-! ## Whose orders there are, and who sees them -/

section Orders

variable {v : Validator} {passwords : PasswordService} {jwt : JwtService String}
variable {config : JwtConfig} {rows : List SavedUser}
variable {env : Env ι} {n : Nat} {maxRetries : Number} {db₀ : Db} {s : State ι π}

omit [DecidableEq π] in
/-- A new order is one of a call that has been posted. -/
theorem origin_posted (hi : Inv v passwords jwt config env s) (hv : db₀.Valid)
    (hf : FreshIds env db₀) (hr : Reachable env n db₀ s.platform.orders) {o : Order}
    (ho : o ∈ s.platform.orders.db.orders) :
    (∃ o₀ ∈ db₀.orders, o₀.key = o.key) ∨ ∃ c p, s.posted c = some p ∧
      (env.request c).pair = some o.key ∧ (env.request c).userId = o.userId := by
  obtain hold | ⟨c, tx, hcommitted, hkey⟩ := (hr.log hv hf).origin o ho
  · exact .inl hold
  · obtain ⟨hafter, hopened, -⟩ := (hr.log hv hf).committed c tx hcommitted
    have hpair : (env.request c).pair = some o.key := hkey ▸ hopened.pair
    cases hp : s.posted c with
    | none =>
      rw [hi.waiting c hp] at hafter
      cases hafter
    | some p =>
      refine .inr ⟨c, p, hp, hpair, ?_⟩
      obtain ⟨key, -, heq⟩ := pair_eq_some hpair
      exact (congrArg Prod.fst heq).symm

omit [DecidableEq π] in
/-- An order that a user's request shows is the user's. -/
theorem placedBy_of_owner (hi : Inv v passwords jwt config env s)
    (hsessions : Sessions.Inv v passwords jwt config rows s.sessions) (hv : db₀.Valid)
    (hf : FreshIds env db₀) (hr : Reachable env n db₀ s.platform.orders) {o : Order}
    (ho : o ∈ s.platform.orders.db.orders) {user : User} (huser : user ∈ s.sessions.users)
    (howner : o.userId = user.id) : PlacedBy v passwords jwt config env db₀ s user o := by
  refine ⟨howner, ?_⟩
  obtain hold | ⟨c, p, hp, hpair, hcaller⟩ := origin_posted hi hv hf hr ho
  · exact .inl hold
  · obtain ⟨user', huser', hid, hposted⟩ := hi.posted c p hp
    have heq : user' = user :=
      hsessions.user_unique huser' huser (hid.symm.trans (hcaller.trans howner))
    exact .inr ⟨c, p, hp, hpair, heq ▸ hposted⟩

theorem authenticated_of_getOrder {db : Db} {now : Nat} {token id : String}
    {scan : Query.Scan OrderRow} {dto : OrderResponseDto}
    (h : getOrder jwt config now token id scan db = .ok dto) :
    ∃ payload, authenticate jwt config now (some token) = .ok payload := by
  cases hauth : authenticate jwt config now (some token) with
  | error e =>
    rw [getOrder, hauth] at h
    cases h
  | ok payload => exact ⟨payload, rfl⟩

theorem authenticated_of_getOrders {db : Db} {now : Nat} {token : String}
    {query : OrdersController.ListQuery} {scan : Query.Scan OrderRow} {page : List ListedOrderDto}
    (h : getOrders jwt config now token query scan db = .ok page) :
    ∃ payload, authenticate jwt config now (some token) = .ok payload := by
  cases hauth : authenticate jwt config now (some token) with
  | error e =>
    rw [getOrders, hauth] at h
    cases h
  | ok payload => exact ⟨payload, rfl⟩

theorem getOrder_owner {db : Db} (hids : (db.orders.map (·.id)).Nodup) {now : Nat}
    {token id : String} {scan : Query.Scan OrderRow} {dto : OrderResponseDto}
    {payload : JwtPayloadDto} {u : UUID}
    (hauth : authenticate jwt config now (some token) = .ok payload) (hsub : payload.sub = u.text)
    (h : getOrder jwt config now token id scan db = .ok dto) :
    ∃ o ∈ db.orders, o.id = dto.id ∧ o.userId = u := by
  rw [← getOrderOver_self] at h
  obtain ⟨u', i, -, o, hu, -, -, hown, w, rfl, hview⟩ := getOrderOver_ok hids hids hauth h
  obtain ⟨ho, -, howner⟩ := ownOrder_eq_some hown
  rw [hsub, UUID.ofText_text] at hu
  exact ⟨o, ho, hview.id, howner.trans (Option.some.inj hu).symm⟩

theorem getOrders_owner {db : Db} {now : Nat} {token : String}
    {query : OrdersController.ListQuery} {scan : Query.Scan OrderRow}
    {page : List ListedOrderDto} {dto : ListedOrderDto} {payload : JwtPayloadDto} {u : UUID}
    (hauth : authenticate jwt config now (some token) = .ok payload) (hsub : payload.sub = u.text)
    (h : getOrders jwt config now token query scan db = .ok page) (hdto : dto ∈ page) :
    ∃ o ∈ db.orders, o.id = dto.id ∧ o.userId = u := by
  simp only [getOrders, hauth, bind, Except.bind, hsub, controller_list_eq] at h
  split at h
  · rename_i orders hfind
    cases h
    obtain ⟨l, hl, rfl⟩ := List.mem_map.mp hdto
    exact Orders.find_owner (query.options u) rfl hfind hl
  · cases h

/-- Every order that was not there from the start was placed by an account of the table, with an
access token of a session that was running then. -/
theorem orders_placed_in_sessions (hjwt : jwt.Signs) (hsecrets : config.atSecret ≠ config.rtSecret)
    (hids : ((accounts rows).map (·.id)).Nodup) (hv : db₀.Valid) (hf : FreshIds env db₀)
    (hr : (system v passwords jwt config rows env n maxRetries db₀ :
      System (State ι π) (Label ι π)).Reach System.anyStep s) {o : Order}
    (ho : o ∈ s.platform.orders.db.orders) :
    (∃ o₀ ∈ db₀.orders, o₀.key = o.key) ∨
      ∃ user ∈ s.sessions.users, PlacedBy v passwords jwt config env db₀ s user o := by
  have hi := reachable_inv hjwt hsecrets hids hr
  obtain hold | ⟨c, p, hp, hpair, hcaller⟩ :=
    origin_posted hi hv hf (Platform.Reach.orders (Reach.platform hr)) ho
  · exact .inl hold
  · obtain ⟨user, huser, hid, hposted⟩ := hi.posted c p hp
    exact .inr ⟨user, huser, hcaller.symm.trans hid, .inr ⟨c, p, hp, hpair, hposted⟩⟩

/-- Whatever order a client is shown belongs to the account whose session the client's token is of,
and is there from the start or was placed in a session of that account. -/
theorem orders_shown_to_owner (hjwt : jwt.Signs) (hsecrets : config.atSecret ≠ config.rtSecret)
    (hids : ((accounts rows).map (·.id)).Nodup) (hv : db₀.Valid) (hf : FreshIds env db₀)
    (hr : (system v passwords jwt config rows env n maxRetries db₀ :
      System (State ι π) (Label ι π)).Reach System.anyStep s) {token : String} {id : UUID}
    (hpresentable : Presentable jwt config s.sessions.grants token)
    (hshown : Shown jwt config s token id) :
    ∃ user ∈ s.sessions.users, (∃ g, Session v passwords jwt config s.sessions.grants user g ∧
        token = g.response.accessToken) ∧
      ∃ o ∈ s.platform.orders.db.orders, o.id = id ∧
        PlacedBy v passwords jwt config env db₀ s user o := by
  have hi := reachable_inv hjwt hsecrets hids hr
  have hsessions := Sessions.reachable_inv hjwt hsecrets hids (Reach.sessions hr)
  have hcalls := Platform.Reach.orders (Reach.platform hr)
  have horders := (hcalls.inv hv hf).valid.orderIds
  have placed {user : User} (huser : user ∈ s.sessions.users)
      (howned : ∃ o ∈ s.platform.orders.db.orders, o.id = id ∧ o.userId = user.id) :
      ∃ o ∈ s.platform.orders.db.orders, o.id = id ∧
        PlacedBy v passwords jwt config env db₀ s user o := by
    obtain ⟨o, ho, hid, howner⟩ := howned
    exact ⟨o, ho, hid, placedBy_of_owner hi hsessions hv hf hcalls ho huser howner⟩
  cases hshown with
  | @one text scan dto h =>
    obtain ⟨payload, hauth⟩ := authenticated_of_getOrder h
    obtain ⟨user, huser, hsub, g, hsession, htoken, -⟩ :=
      session_of_authenticate hjwt hsecrets hsessions hpresentable hauth
    exact ⟨user, huser, ⟨g, hsession, htoken⟩,
      placed huser (getOrder_owner horders hauth hsub h)⟩
  | @listed query scan page dto h hdto =>
    obtain ⟨payload, hauth⟩ := authenticated_of_getOrders h
    obtain ⟨user, huser, hsub, g, hsession, htoken, -⟩ :=
      session_of_authenticate hjwt hsecrets hsessions hpresentable hauth
    exact ⟨user, huser, ⟨g, hsession, htoken⟩,
      placed huser (getOrders_owner hauth hsub h hdto)⟩
  | @returned c p order hp htoken h =>
    obtain ⟨user, huser, hid, g, hsession, hgrant, -⟩ := hi.posted c p hp
    obtain ⟨⟨o, ho, hoid⟩, howner⟩ := hcalls.returned_owner hv hf h
    exact ⟨user, huser, ⟨g, hsession, htoken ▸ hgrant⟩,
      placed huser ⟨o, ho, hoid, (howner o ho hoid).trans hid⟩⟩

end Orders

/-! ## The administrator buys something -/

section Purchase

variable {v : Validator} {passwords : PasswordService} {jwt : JwtService String}
variable {config : JwtConfig} {rows : List SavedUser}
variable {env : Env ι} {n : Nat} {maxRetries : Number} {db₀ : Db} {s : State ι π}

/-- A run of sessions before the first order. -/
theorem reach_of_sessions {a : Sessions.State}
    (hr : (Sessions.system v passwords jwt config rows).Reach System.anyStep a) :
    (system v passwords jwt config rows env n maxRetries db₀ :
      System (State ι π) (Label ι π)).Reach System.anyStep
        ⟨a, .initial n db₀, fun _ => none⟩ := by
  induction hr with
  | init h0 => exact .init ⟨h0, rfl, rfl⟩
  | step hr hok hs ih => exact .step ih trivial (.auth _ hs)

/-- A run of calls that have been posted. -/
theorem reach_of_steps
    (hr : (system v passwords jwt config rows env n maxRetries db₀).Reach System.anyStep s)
    {p : Platform.State ι π}
    (hs : (Platform.system env n maxRetries db₀).Steps
      (fun _ l => ∀ c, call? l = some c → s.posted c ≠ none) s.platform p) :
    (system v passwords jwt config rows env n maxRetries db₀).Reach System.anyStep
      { s with platform := p } := by
  induction hs with
  | refl => exact hr
  | tail _ hnext ih =>
    obtain ⟨l, hposted, hstep⟩ := hnext
    exact .step ih trivial (.platform l hposted hstep)

def docItems : List OrderItemDto := [⟨"0e8fd161-5c56-4dba-8c7a-6f422ea4d8ee", 2⟩]

/-- Two pieces of the product of the interface documentation. -/
def docBody : Json :=
  .obj [("items", .arr [.obj [("id", .str "0e8fd161-5c56-4dba-8c7a-6f422ea4d8ee"),
    ("qty", .num (.finite 2))]])]

def purchaseEnv : Env (Fin 2) :=
  shopEnv (fun _ => false) fun _ => { docRequest docItems with userId := administrator.id }

/-- The administrator's order has been returned, and it waits for the worker. -/
def purchased (p : Platform.State (Fin 2) Unit) : Bool :=
  (p.orders.calls ⟨0, Nat.two_pos⟩).returned?.isSome && !p.orders.db.orders.isEmpty &&
    p.orders.db.processedMessages.isEmpty

theorem docBody_accepted : CreateOrderDto.ofJson docBody = some (.ofItems docItems) := by
  decide +kernel

theorem administrator_posts :
    postOrder textJwt docConfig loggedIn.now administratorToken (.ofItems docItems)
      (some "7d444840-9dc0-11d1-b245-5ffdce74fad2") = .ok (purchaseEnv.request 0) := by
  have halive : loggedIn.now < 0 + docConfig.atMaxAgeS := by decide
  rw [administratorToken,
    postOrder_ok (authenticate_accessToken textJwt_signs administrator.toUser halive)]
  exact create_text administrator.id (.ofItems docItems) (by decide)

theorem purchase_reach : ∃ (s : State (Fin 2) Unit) (order : OrderView) (o : Order),
    (system strongValidator truncatingPasswords textJwt docConfig [administrator] purchaseEnv 3
      (.ofInt 3) docShop).Reach System.anyStep s ∧
    s.posted 0 = some ⟨10, administratorToken⟩ ∧ s.sessions = loggedIn ∧
    (s.platform.orders.calls 0).returned? = some order ∧ o ∈ s.platform.orders.db.orders ∧
    s.platform.orders.db.processedMessages = [] := by
  have hstart : (system strongValidator truncatingPasswords textJwt docConfig [administrator]
      purchaseEnv 3 (.ofInt 3) docShop).Reach System.anyStep
        (⟨loggedIn, .initial 3 docShop, fun _ => none⟩ : State (Fin 2) Unit) :=
    reach_of_sessions (loggedIn_reach fun _ _ _ => trivial)
  have hposted := hstart.step trivial (.post 0 administratorToken docBody _ _ rfl
    administratorToken_shown docBody_accepted administrator_posts)
  obtain ⟨p, hrun, hp⟩ : ∃ p, (Platform.State.initial 3 docShop : Platform.State (Fin 2) Unit).run
      purchaseEnv (List.replicate 11 (.advance 0)) = some p ∧ purchased p = true :=
    (Option.any_eq_true _ _).mp (by decide +kernel)
  have hreach := reach_of_steps hposted (System.Steps.of_run (fun _ => rfl) (fun _ _ _ => rfl)
    (fun _ _ _ => Platform.step_of_exec) _ (fun l hl _ c hc => by
      rw [(List.mem_replicate.mp hl).2] at hc
      cases hc
      simp) hrun)
  rw [purchased, Bool.and_eq_true, Bool.and_eq_true] at hp
  obtain ⟨⟨hreturned, horders⟩, hnone⟩ := hp
  obtain ⟨order, horder⟩ := Option.isSome_iff_exists.mp hreturned
  obtain ⟨o, ho⟩ := List.exists_mem_of_ne_nil p.orders.db.orders (by simpa using horders)
  exact ⟨_, order, o, hreach, by simp [loggedIn], rfl, horder, ho, List.isEmpty_iff.mp hnone⟩

theorem purchaseEnv_fresh : FreshIds purchaseEnv docShop := fun _ _ ho => by cases ho

/-- The administrator's order is there, and it was placed in the session. -/
theorem orders_placed_in_sessions_purchase :
    ∃ (s : State (Fin 2) Unit) (o : Order), o ∈ s.platform.orders.db.orders ∧
      ((∃ o₀ ∈ docShop.orders, o₀.key = o.key) ∨ ∃ user ∈ s.sessions.users,
        PlacedBy strongValidator truncatingPasswords textJwt docConfig purchaseEnv docShop s user
          o) := by
  obtain ⟨s, order, o, hr, -, -, -, ho, -⟩ := purchase_reach
  exact ⟨s, o, ho, orders_placed_in_sessions textJwt_signs (by decide) administrator_ids
    (by decide +kernel) purchaseEnv_fresh hr ho⟩

/-- The administrator sees the order in the answer. -/
theorem orders_shown_to_owner_purchase :
    ∃ (s : State (Fin 2) Unit) (id : UUID), Shown textJwt docConfig s administratorToken id ∧
      ∃ user ∈ s.sessions.users,
        (∃ g, Session strongValidator truncatingPasswords textJwt docConfig s.sessions.grants user g ∧
          administratorToken = g.response.accessToken) ∧
        ∃ o ∈ s.platform.orders.db.orders, o.id = id ∧
          PlacedBy strongValidator truncatingPasswords textJwt docConfig purchaseEnv docShop s user
            o := by
  obtain ⟨s, order, o, hr, hposted, hsessions, horder, -, -⟩ := purchase_reach
  have hshown : Shown textJwt docConfig s administratorToken order.id :=
    .returned hposted rfl horder
  have hpresentable : Presentable textJwt docConfig s.sessions.grants administratorToken :=
    hsessions ▸ administratorToken_shown
  exact ⟨s, order.id, hshown, orders_shown_to_owner textJwt_signs (by decide) administrator_ids
    (by decide +kernel) purchaseEnv_fresh hr hpresentable hshown⟩

end Purchase

end Ecommerce.Application
