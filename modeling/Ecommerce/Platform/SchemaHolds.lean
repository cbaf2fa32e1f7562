import Ecommerce.Database.Tables
import Ecommerce.Platform.Application

/-!
# SchemaHolds — the constraints of the migrations at run time

The model of the service lets a statement fail on the keys it depends on, and leaves the other
constraints of the schema to this module.  They hold in every state the service reaches, so nothing
that it commits was ever in danger of a foreign key, of a NULL or of the range of an integer.
-/

namespace Ecommerce

open Sql Transition

/-! ## Items and stocks -/

namespace Orders

variable {ι : Type} [DecidableEq ι] {env : Env ι} {db₀ db : Db} {n : Nat} {s s' : Sys ι}
  {l : Label ι} {c : ι} {tx : Tx}

/-- What the schema demands of items and stocks. -/
structure ItemsStored (db : Db) : Prop where
  keys : (db.orderItems.map fun i => (i.orderId, i.productId)).Nodup
  products : ∀ i ∈ db.orderItems, ∃ p ∈ db.products, p.id = i.productId
  qtys : ∀ i ∈ db.orderItems, IsInteger i.qty
  stocks : ∀ p ∈ db.products, IsInteger p.stock

omit [DecidableEq ι] in
/-- What is asked of a product is no more than its stock. -/
theorem Filled.item_cases (htx : Filled env db₀ c tx) {i : OrderItem} (hi : i ∈ tx.items) :
    ∃ r ∈ tx.rows, i.productId = r.id ∧ (i.qty : Int) ≤ r.stock := by
  obtain ⟨lines, -, -, -, hitems, -, hle⟩ := htx.writes_eq
  rw [hitems] at hi
  obtain ⟨r, hr, rfl⟩ := List.mem_map.mp hi
  exact ⟨r, hr, rfl, hle r hr⟩

omit [DecidableEq ι] in
theorem Filled.newStock_cases (htx : Filled env db₀ c tx) (p : Product) :
    (tx.newStock p).stock = p.stock ∨
      ∃ r ∈ tx.rows, 0 ≤ (tx.newStock p).stock ∧ (tx.newStock p).stock ≤ r.stock := by
  obtain ⟨lines, -, -, -, -, hstocks, hle⟩ := htx.writes_eq
  cases hlookup : tx.stocks.lookup p.id with
  | none => exact .inl (by rw [Db.newStock_of_not_written hlookup])
  | some m =>
    have hstock : (tx.newStock p).stock = m := by
      unfold Tx.newStock
      rw [hlookup]
    have hmem : (p.id, m) ∈ tx.stocks := by
      obtain ⟨l₁, l₂, heq, -⟩ := List.lookup_eq_some_iff.mp hlookup
      rw [heq]
      exact List.mem_append_right _ List.mem_cons_self
    rw [hstocks] at hmem
    obtain ⟨r, hr, heq⟩ := List.mem_map.mp hmem
    have hm : r.stock - askedQty lines r = m := congrArg Prod.snd heq
    have hqty := hle r hr
    exact .inr ⟨r, hr, by omega, by omega⟩

omit [DecidableEq ι] in
theorem ItemsStored.commit (h : ItemsStored db) (hv : db.Valid) (htx : Filled env db₀ c tx)
    (hids : (db₀.products.map (·.id)).Nodup) (hcur : ∀ r ∈ tx.rows, r ∈ db.products)
    (hfresh : ∀ o ∈ db.orders, o.id ≠ tx.order.id) : ItemsStored (db.apply tx) where
  keys := by
    obtain ⟨lines, -, -, -, hitems, -, -⟩ := htx.writes_eq
    have hnew : (tx.items.map fun i => (i.orderId, i.productId)).Nodup := by
      have hkeys : (tx.items.map fun i => (i.orderId, i.productId)) =
          tx.lockedIds.map fun id => (tx.order.id, id) := by
        rw [hitems, Tx.lockedIds, List.map_map, List.map_map]
        rfl
      rw [hkeys]
      exact (htx.lockedIds_nodup hids).map fun a b hab => congrArg Prod.snd hab
    show ((db.orderItems ++ tx.items).map _).Nodup
    rw [List.map_append]
    refine List.nodup_append.mpr ⟨h.keys, hnew, ?_⟩
    intro a ha b hb hab
    obtain ⟨i, hi, rfl⟩ := List.mem_map.mp ha
    obtain ⟨j, hj, rfl⟩ := List.mem_map.mp hb
    -- an item of before belongs to an order of before
    obtain ⟨o, ho, hid⟩ := hv.itemOrders i hi
    exact hfresh o ho (hid.trans ((congrArg Prod.fst hab).trans (htx.items_orderId j hj)))
  products := by
    intro i hi
    have hkept : ∀ p ∈ db.products, ∃ p' ∈ (db.apply tx).products, p'.id = p.id := fun p hp =>
      ⟨tx.newStock p, List.mem_map_of_mem hp, Db.newStock_id tx p⟩
    rcases List.mem_append.mp hi with hi | hi
    · obtain ⟨p, hp, hid⟩ := h.products i hi
      obtain ⟨p', hp', hid'⟩ := hkept p hp
      exact ⟨p', hp', hid'.trans hid⟩
    · obtain ⟨r, hr, hid, -⟩ := htx.item_cases hi
      obtain ⟨p', hp', hid'⟩ := hkept r (hcur r hr)
      exact ⟨p', hp', hid'.trans hid.symm⟩
  qtys := by
    intro i hi
    rcases List.mem_append.mp hi with hi | hi
    · exact h.qtys i hi
    · obtain ⟨r, hr, -, hle⟩ := htx.item_cases hi
      have hstock := h.stocks r (hcur r hr)
      unfold IsInteger at *
      omega
  stocks := by
    intro p' hp'
    obtain ⟨p, hp, rfl⟩ := List.mem_map.mp hp'
    obtain heq | ⟨r, hr, hpos, hle⟩ := htx.newStock_cases p
    · rw [heq]
      exact h.stocks p hp
    · have hstock := h.stocks r (hcur r hr)
      unfold IsInteger at *
      omega

theorem Reachable.itemsStored (hr : Reachable env n db₀ s) (hv : db₀.Valid)
    (hf : FreshIds env db₀) (h₀ : ItemsStored db₀) : ItemsStored s.db := by
  refine hr.invariant (I := fun s => ItemsStored s.db) (fun s h0 => by rw [h0]; exact h₀) ?_
  intro s l s' hr h _ hs
  have hinv := Reachable.inv hr hv hf
  rcases hs.db_cases with heq | ⟨c, tx, result, hc, heq⟩ | ⟨-, hw⟩
  · rwa [heq]
  · obtain ⟨htx, -, hfresh⟩ := hinv.reread_fresh hf hc
    have hcur := hinv.current c
    rw [hc] at hcur
    rw [heq]
    exact h.commit hinv.valid htx hv.productIds hcur hfresh
  · exact ⟨by rw [hw.orderItems]; exact h.keys,
      by rw [hw.orderItems, hw.products]; exact h.products,
      by rw [hw.orderItems]; exact h.qtys, by rw [hw.products]; exact h.stocks⟩

end Orders

/-! ## Processed messages -/

namespace Worker

variable {π : Type} [DecidableEq π] {maxRetries : Number} {db₀ : Db} {s : State π}
  {ok : State π → Label π → Prop}

/-- No message is recorded twice. -/
theorem messages_nodup (hr : (system maxRetries db₀).Reach ok s)
    (h₀ : (db₀.processedMessages.map fun m => (m.messageId, m.handler)).Nodup) :
    (s.db.processedMessages.map fun m => (m.messageId, m.handler)).Nodup := by
  refine hr.invariant
    (I := fun s => (s.db.processedMessages.map fun m => (m.messageId, m.handler)).Nodup)
    (fun s h0 => by rw [h0]; exact h₀) ?_
  intro s l s' hr h _ hs
  cases hs.effect with
  | nothing hdb hhistory => rwa [hdb]
  | shop hl hshop hhistory => rwa [hshop.processedMessages]
  | published c hdb hbroker hhistory => rwa [hdb]
  | duplicate tag h hh hdb hhistory => rwa [hdb]
  | committed tag hd update hh hph hself hothers hdb hhistory =>
    have hnew := (reachable_inv hr).uncommitted tag hd hh (by rw [hph]; rfl)
    rw [hdb]
    show ((s.db.processedMessages ++ [dedupRow hd.copy.message]).map _).Nodup
    rw [List.map_append]
    refine List.nodup_append.mpr ⟨h, List.nodup_singleton _, ?_⟩
    intro a ha b hb hab
    obtain ⟨row, hrow, rfl⟩ := List.mem_map.mp ha
    rw [List.map_singleton, List.mem_singleton] at hb
    refine hnew ?_
    have heq : row = dedupRow hd.copy.message := by
      cases row
      obtain ⟨hid, hhandler⟩ := Prod.mk.inj (hab.trans hb)
      exact congrArg₂ ProcessedMessage.mk hid hhandler
    unfold Processed
    rw [← heq]
    exact hrow

end Worker

/-! ## Users -/

namespace Auth.Sessions

open Users

variable {v : Validator} {passwords : PasswordService} {jwt : JwtService String}
variable {config : JwtConfig} {rows : List SavedUser} {s : State} {ok : State → Label → Prop}

/-- What the schema demands of users. -/
structure UsersStored (rows : List SavedUser) : Prop where
  ids : (rows.map (·.id)).Nodup
  emails : (rows.map (·.email)).Nodup
  texts : ∀ u ∈ rows, u.email.length ≤ maxLength ∧ u.password.length ≤ maxLength

theorem insert_stored {users users' : List User} {row saved : SavedUser}
    (h : Users.insert users row = .ok (users', saved)) :
    (saved.email.length ≤ maxLength ∧ saved.password.length ≤ maxLength) ∧
      ∀ u ∈ users, u.id ≠ saved.id ∧ u.email ≠ saved.email := by
  unfold Users.insert at h
  split at h
  · cases h
  · rename_i hlong
    split at h
    · cases h
    · rename_i htaken
      cases h
      push Not at hlong htaken
      exact ⟨hlong, htaken⟩

theorem create_stored {id : UUID} {createdAt : Date} {dto : SignUpDto} {hashed : String}
    {users users' : List User} {saved : SavedUser}
    (h : UsersService.create id createdAt dto hashed users = .ok (users', saved)) :
    (saved.email.length ≤ maxLength ∧ saved.password.length ≤ maxLength) ∧
      ∀ u ∈ users, u.id ≠ saved.id ∧ u.email ≠ saved.email := by
  unfold UsersService.create at h
  dsimp only at h
  split at h
  · rename_i hinsert
    cases h
    exact insert_stored hinsert
  · split at h <;> cases h

/-- A sign-up inserts a row that the constraints allow. -/
theorem signUpRow_stored {salt : String} {id : UUID} {createdAt : Date} {body : Json}
    {users : List User} {saved : SavedUser}
    (h : signUpRow v passwords salt id createdAt body users = .ok saved) :
    (saved.email.length ≤ maxLength ∧ saved.password.length ≤ maxLength) ∧
      ∀ u ∈ users, u.id ≠ saved.id ∧ u.email ≠ saved.email := by
  unfold signUpRow at h
  cases hread : SignUpDto.ofJson v body with
  | error e =>
    rw [hread] at h
    cases h
  | ok dto =>
    rw [hread] at h
    simp only [bind, Except.bind, pure, Except.pure] at h
    cases hsignUp : AuthService.signUp passwords salt id createdAt dto users with
    | error e =>
      rw [hsignUp] at h
      cases h
    | ok result =>
      obtain ⟨users', saved'⟩ := result
      rw [hsignUp] at h
      cases h
      exact create_stored (hsignUp : UsersService.create id createdAt dto _ _ = _)

theorem UsersStored.append (h : UsersStored rows) {saved : SavedUser}
    (htexts : saved.email.length ≤ maxLength ∧ saved.password.length ≤ maxLength)
    (hfree : ∀ u ∈ accounts rows, u.id ≠ saved.id ∧ u.email ≠ saved.email) :
    UsersStored (rows ++ [saved]) := by
  have hrow : ∀ u ∈ rows, u.id ≠ saved.id ∧ u.email ≠ saved.email := fun u hu =>
    hfree u.toUser (List.mem_map_of_mem hu)
  refine ⟨?_, ?_, ?_⟩
  · rw [List.map_append]
    refine List.nodup_append.mpr ⟨h.ids, List.nodup_singleton _, ?_⟩
    simpa using fun u hu => (hrow u hu).1
  · rw [List.map_append]
    refine List.nodup_append.mpr ⟨h.emails, List.nodup_singleton _, ?_⟩
    simpa using fun u hu => (hrow u hu).2
  · intro u hu
    rcases List.mem_append.mp hu with hu | hu
    · exact h.texts u hu
    · rw [List.mem_singleton.mp hu]
      exact htexts

/-- Sign-ups add rows, and nothing else changes the table. -/
theorem usersStored (hr : (system v passwords jwt config rows).Reach ok s) (h₀ : UsersStored rows) :
    UsersStored s.rows ∧ rows ⊆ s.rows := by
  refine hr.invariant (I := fun s => UsersStored s.rows ∧ rows ⊆ s.rows)
    (fun s h0 => by rw [h0.1]; exact ⟨h₀, List.Subset.refl _⟩) ?_
  intro s l s' _ ⟨h, hsub⟩ _ hs
  obtain ⟨-, rfl⟩ := hs
  cases l with
  | signUp salt id createdAt body =>
    unfold State.after
    dsimp only
    split
    · rename_i saved hsignUp
      obtain ⟨htexts, hfree⟩ := signUpRow_stored hsignUp
      exact ⟨h.append htexts hfree, List.subset_append_of_subset_left _ hsub⟩
    · exact ⟨h, hsub⟩
  | logIn body =>
    unfold State.after
    dsimp only
    split <;> exact ⟨h, hsub⟩
  | refresh cookie =>
    cases cookie with
    | none => exact ⟨h, hsub⟩
    | some token =>
      unfold State.after
      dsimp only
      split <;> exact ⟨h, hsub⟩
  | wait seconds => exact ⟨h, hsub⟩

end Auth.Sessions

/-! ## The whole service -/

namespace Application

open Users Auth Auth.Sessions Orders Platform

variable {ι π : Type} [DecidableEq ι] [DecidableEq π]
variable {v : Validator} {passwords : PasswordService} {jwt : JwtService String}
variable {config : JwtConfig} {rows : List SavedUser}
variable {env : Env ι} {n : Nat} {maxRetries : Number} {db₀ : Db} {s : State ι π}
variable {others₀ others : OtherColumns}

/-- In every state that the service reaches from a database the migrations' schema admits, the schema
admits the tables, whatever stands in the columns the service does not write: types and ranges, NOT
NULL, primary keys, unique and foreign keys. -/
theorem schema_holds (hjwt : jwt.Signs) (hsecrets : config.atSecret ≠ config.rtSecret)
    (h₀ : Admits lastSchema (others₀.tables rows db₀)) (hf : FreshIds env db₀)
    (hrows : FreshRows env db₀) (hp : Worker.Paired db₀)
    (hr : (system v passwords jwt config rows env n maxRetries db₀ :
      System (State ι π) (Label ι π)).Reach System.anyStep s)
    (htitles : others.title = others₀.title)
    (hrowIds : (s.platform.orders.db.processedMessages.map others.rowId).Nodup) :
    Admits lastSchema (others.tables s.sessions.rows s.platform.orders.db) := by
  have hstored := admits_tables_iff.mp h₀
  have hv := hstored.valid
  have hids : ((accounts rows).map (·.id)).Nodup := by
    rw [accounts, List.map_map]
    exact hstored.userIds
  obtain ⟨husers, hgrown⟩ := usersStored (Reach.sessions hr)
    ⟨hstored.userIds, hstored.emails, hstored.texts⟩
  have hplatform := Reach.platform hr
  have hcalls := Platform.Reach.orders hplatform
  have hinv := hcalls.inv hv hf
  have hitems := hcalls.itemsStored hv hf
    ⟨hstored.itemKeys, hstored.itemProducts, hstored.qtys, hstored.stocks⟩
  have hmessages := Worker.messages_nodup (Platform.Reach.worker hplatform hv hf hrows hp)
    hstored.messages
  rw [← Platform.sync hplatform] at hmessages
  have hi := reachable_inv hjwt hsecrets hids hr
  have howners : ∀ o ∈ s.platform.orders.db.orders, ∃ u ∈ s.sessions.rows, u.id = o.userId := by
    intro o ho
    obtain ⟨o₀, ho₀, hkey⟩ | ⟨c, p, hp, hpair, hcaller⟩ := origin_posted hi hv hf hcalls ho
    · obtain ⟨u, hu, hid⟩ := hstored.owners o₀ ho₀
      exact ⟨u, hgrown hu, hid.trans (congrArg Prod.fst hkey)⟩
    · obtain ⟨user, huser, hid, -⟩ := hi.posted c p hp
      obtain ⟨row, hrow, rfl⟩ := List.mem_map.mp huser
      exact ⟨row, hrow, hid.symm.trans hcaller⟩
  have htitle : ∀ p ∈ s.platform.orders.db.products, (others.title p.id).length ≤ 200 := by
    intro p hp
    have hid : p.id ∈ db₀.products.map (·.id) := by
      rw [← hinv.productIds]
      exact List.mem_map_of_mem hp
    obtain ⟨p₀, hp₀, heq⟩ := List.mem_map.mp hid
    rw [htitles, ← heq]
    exact hstored.titles p₀ hp₀
  exact admits_tables_iff.mpr
    { userIds := husers.ids
      emails := husers.emails
      texts := husers.texts
      productIds := hinv.valid.productIds
      titles := htitle
      stocks := hitems.stocks
      orderIds := hinv.valid.orderIds
      orderKeys := hinv.valid.orderKeys
      owners := howners
      itemKeys := hitems.keys
      itemOrders := hinv.valid.itemOrders
      itemProducts := hitems.products
      qtys := hitems.qtys
      rowIds := hrowIds
      messages := hmessages }

/-! ### The administrator's order -/

def docColumns : OtherColumns where
  userUpdatedAt _ := 0
  title _ := "Laptop"
  description _ := "Piece of tech"
  productTimes _ := (0, 0)
  itemTimes _ _ := (0, 0)
  rowId m := m.messageId
  processedAt _ := 0

theorem docShop_stored : Stored docColumns [administrator] docShop where
  userIds := List.nodup_singleton _
  emails := List.nodup_singleton _
  texts := by decide +kernel
  productIds := List.nodup_singleton _
  titles := by decide +kernel
  stocks := by
    unfold IsInteger
    decide
  orderIds := List.nodup_nil
  orderKeys := List.nodup_nil
  owners := fun o ho => nomatch ho
  itemKeys := List.nodup_nil
  itemOrders := fun i hi => nomatch hi
  itemProducts := fun i hi => nomatch hi
  qtys := fun i hi => nomatch hi
  rowIds := List.nodup_nil
  messages := List.nodup_nil

/-- The tables with the order that the administrator has placed. -/
theorem schema_holds_purchase :
    ∃ s : State (Fin 2) Unit, s.platform.orders.db.orders ≠ [] ∧
      Admits lastSchema (docColumns.tables s.sessions.rows s.platform.orders.db) := by
  obtain ⟨s, order, o, hr, -, -, -, ho, hnone⟩ := purchase_reach
  exact ⟨s, List.ne_nil_of_mem ho, schema_holds textJwt_signs (by decide)
    (admits_tables_iff.mpr docShop_stored) purchaseEnv_fresh (fun c row hrow => nomatch hrow)
    (fun o ho => nomatch ho) hr rfl (by rw [hnone]; exact List.nodup_nil)⟩

end Application

end Ecommerce
