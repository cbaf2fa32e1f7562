import Ecommerce.Database.Seed
import Ecommerce.Platform.SchemaHolds

/-!
# Seeding — the seed is run again while the shop is in use

The queues are empty at the start and the order of the demo user is never published, so no worker
touches it, and every order that is created later has items of its own.  So the order that a second
run of the seed looks up has items, whatever the shop has done in between.
-/

namespace Ecommerce

open Transition

/-! ## New orders have items -/

namespace Orders

variable {ι : Type} [DecidableEq ι] {env : Env ι} {db₀ : Db} {n : Nat} {s : Sys ι} {c : ι} {tx : Tx}

omit [DecidableEq ι] in
/-- Without lines the query for the products is a syntax error. -/
theorem Filled.items_ne_nil (htx : Filled env db₀ c tx) : tx.items ≠ [] := by
  obtain ⟨lines, hlines, hlength, -, hitems, -, -⟩ := htx.writes_eq
  obtain ⟨ids, hids, -⟩ := htx.scanned
  have hne : lines ≠ [] := by
    rintro rfl
    simp [Request.ids, hlines, idParams] at hids
  intro hnil
  rw [hitems, List.map_eq_nil_iff] at hnil
  rw [hnil] at hlength
  exact hne (List.length_eq_zero_iff.mp hlength.symm)

/-- An order has the items it had in the beginning, or it is new and has some. -/
theorem Reachable.items_cases (hr : Reachable env n db₀ s) (hv : db₀.Valid)
    (hf : FreshIds env db₀) : ∀ o ∈ s.db.orders,
      (∃ o₀ ∈ db₀.orders, o₀.id = o.id ∧ s.db.itemsOf o.id = db₀.itemsOf o.id) ∨
        s.db.itemsOf o.id ≠ [] := by
  refine hr.invariant (I := fun s => ∀ o ∈ s.db.orders,
    (∃ o₀ ∈ db₀.orders, o₀.id = o.id ∧ s.db.itemsOf o.id = db₀.itemsOf o.id) ∨
      s.db.itemsOf o.id ≠ [])
    (fun s h0 => by rw [h0]; exact fun o ho => .inl ⟨o, ho, rfl, rfl⟩) ?_
  intro s l s' hr h _ hs o ho
  have hinv := Reachable.inv hr hv hf
  rcases hs.db_cases with heq | ⟨c, tx, result, hc, heq⟩ | ⟨-, hw⟩
  · rw [heq] at ho ⊢
    exact h o ho
  · obtain ⟨htx, -, hfresh⟩ := hinv.reread_fresh hf hc
    rw [heq] at ho ⊢
    rcases List.mem_append.mp ho with hold | hnew
    · rw [Db.itemsOf_apply_of_ne (hfresh o hold) htx.items_orderId]
      exact h o hold
    · rw [List.mem_singleton.mp hnew, Db.itemsOf_apply_self hinv.valid hfresh htx.items_orderId]
      exact .inr htx.items_ne_nil
  · obtain ⟨f, horders, hkept⟩ := hw.orders
    rw [horders] at ho
    obtain ⟨o₁, ho₁, rfl⟩ := List.mem_map.mp ho
    have hitems : s'.db.itemsOf (f o₁).id = s.db.itemsOf o₁.id := by
      rw [Db.itemsOf, hw.orderItems, (hkept o₁).1]
      rfl
    rw [hitems, (hkept o₁).1]
    exact h o₁ ho₁

end Orders

/-! ## Orders that nobody publishes -/

namespace Platform

open Orders Worker

variable {ι π : Type} [DecidableEq ι] [DecidableEq π] {env : Env ι} {n : Nat}
  {maxRetries : Number} {db₀ : Db} {s : State ι π}

/-- The messages are about orders of the run. -/
theorem copies_of_run (hr : (system env n maxRetries db₀).Reach System.anyStep s) (hv : db₀.Valid)
    (hf : FreshIds env db₀) :
    Carried (fun c => ∀ o ∈ db₀.orders, o.id ≠ c.message.orderId) s.worker := by
  refine hr.invariant (I := fun s : State ι π =>
    Carried (fun c => ∀ o ∈ db₀.orders, o.id ≠ c.message.orderId) s.worker)
    (fun s h0 => ?_) fun s l s' hr h _ hs => ?_
  · rw [h0]
    exact ⟨Amqp.Broker.all_initial, fun t h hh => (by cases hh)⟩
  · cases hs with
    | @calls o' l hl hstep =>
      -- nobody but a send puts a message on the queue
      rcases calls_cases hstep hl with ⟨hnone, -⟩ | ⟨c, result, rfl, hc, rfl, hsome⟩
      · unfold State.afterCalls
        simp only [hnone]
        exact ⟨h.broker, h.handlers⟩
      · have hnew := unsentFresh (Reach.orders hr) hv hf c result (by rw [hc]; rfl)
        have hsent : Worker.Step maxRetries s.worker _ _ :=
          .publish (.new result.id result.id (env.choices c).sentAt)
        have hcarried := h.step hsent (fun m hm => by
          rw [← Worker.Label.publish.inj hm]
          show ∀ o ∈ db₀.orders, o.id ≠ result.id
          rw [hnew.id]
          exact hf c) fun _ h => h
        unfold State.afterCalls
        simp only [hsome]
        exact ⟨hcarried.broker, hcarried.handlers⟩
    | worker l hl hstep =>
      exact h.step hstep (fun m hm => by rw [hm] at hl; cases hl) fun _ h => h

/-- An order that was there in the beginning stays as it is: no message is about it. -/
theorem initial_orders_stay (hr : (system env n maxRetries db₀).Reach System.anyStep s)
    (hv : db₀.Valid) (hf : FreshIds env db₀) : ∀ o ∈ db₀.orders, o ∈ s.orders.db.orders := by
  refine hr.invariant (I := fun s : State ι π => ∀ o ∈ db₀.orders, o ∈ s.orders.db.orders)
    (fun s h0 => by rw [h0]; exact fun o ho => ho) fun s l s' hr h _ hs o ho => ?_
  have hstays := h o ho
  cases hs with
  | @calls o' l hl hstep =>
    show o ∈ o'.db.orders
    obtain heq | ⟨c, tx, result, hc, heq⟩ | ⟨rfl, -⟩ := hstep.db_cases
    · rwa [heq]
    · rw [heq]
      exact List.mem_append_left _ hstays
    · cases hl
  | @worker w l hl hstep =>
    have hdb := sync hr
    have unchanged : w.db = s.worker.db → o ∈ w.db.orders := by
      intro heq
      rwa [heq, ← hdb]
    cases hstep.effect with
    | nothing heq hhistory => exact unchanged heq
    | shop hshop hchange hhistory =>
      rw [hshop] at hl
      cases hl
    | published c heq hbroker hhistory => exact unchanged heq
    | duplicate tag h hh heq hhistory => exact unchanged heq
    | committed tag handler update hh hph hself hothers heq hhistory =>
      have hne := (copies_of_run hr hv hf).handlers tag handler hh o ho
      show o ∈ w.db.orders
      rw [heq, ← hdb]
      cases update with
      | none => exact hstays
      | some u => exact List.mem_map.mpr ⟨o, hstays, if_neg hne⟩

end Platform

/-! ## The second seeding -/

namespace Application

open Users Auth Auth.Sessions Orders Platform Worker Seed

section Again

variable {ι π : Type} [DecidableEq ι] [DecidableEq π]
variable {v : Validator} {passwords : PasswordService} {jwt : JwtService String}
variable {config : JwtConfig} {rows : List SavedUser}
variable {env : Env ι} {n : Nat} {maxRetries : Number} {s : State ι π}
variable {ch : Seed.Choices} {store store' : Store} {others : OtherColumns}

theorem find_email {rows rows' : List SavedUser} (h : (rows'.map (·.email)).Nodup)
    (hsub : rows ⊆ rows') {email : String} {u : SavedUser}
    (hfind : rows.find? (·.email = email) = some u) :
    rows'.find? (·.email = email) = some u := by
  have hu : u.email = email := by simpa using List.find?_some hfind
  have hmem := hsub (List.mem_of_find?_eq_some hfind)
  have hsome : (rows'.find? (·.email = email)).isSome = true :=
    List.find?_isSome.mpr ⟨u, hmem, by simpa using hu⟩
  obtain ⟨u', hu'⟩ := Option.isSome_iff_exists.mp hsome
  have hemail : u'.email = email := by simpa using List.find?_some hu'
  rw [hu', List.inj_on_of_nodup_map h (List.mem_of_find?_eq_some hu') hmem (hemail.trans hu.symm)]

/-- The database is settled in every state that the service reaches from a settled one. -/
theorem settled_reach (hs : store.Stored) (hsettled : Settled store) (hf : FreshIds env store.db)
    (hr : (system v passwords jwt config store.rows env n maxRetries store.db :
      System (State ι π) (Label ι π)).Reach System.anyStep s)
    (htitles : others.title = store.others.title) :
    Settled { rows := s.sessions.rows, others, db := s.platform.orders.db } := by
  have hv : store.db.Valid := Stored.valid hs
  obtain ⟨husers, hgrown⟩ := usersStored (Reach.sessions hr) ⟨hs.userIds, hs.emails, hs.texts⟩
  have hplatform := Reach.platform hr
  have hcalls := Platform.Reach.orders hplatform
  have hinv := hcalls.inv hv hf
  have hstay := initial_orders_stay hplatform hv hf
  have hids := hinv.valid.orderIds
  obtain ⟨user, order, huser, horder, hitems⟩ := hsettled.order
  obtain ⟨hmine, hleast⟩ := existingOrder_eq_some horder
  have hmine' : ∀ {o}, o ∈ mine user.id store.db → o ∈ mine user.id s.platform.orders.db :=
    fun ho => mem_mine.mpr ⟨hstay _ (mem_mine.mp ho).1, (mem_mine.mp ho).2⟩
  refine ⟨?_, fun data hdata => ?_, ?_⟩
  · obtain ⟨admin, hadmin, hemail⟩ := hsettled.admin
    exact ⟨admin, hgrown hadmin, hemail⟩
  · obtain ⟨p, hp, htitle⟩ := hsettled.products data hdata
    have hid : p.id ∈ s.platform.orders.db.products.map (·.id) := by
      rw [hinv.productIds]
      exact List.mem_map_of_mem hp
    obtain ⟨p', hp', heq⟩ := List.mem_map.mp hid
    refine ⟨p', hp', ?_⟩
    show others.title p'.id = data.title
    rw [htitles, heq]
    exact htitle
  · obtain ⟨o, ho, hsome, hleast'⟩ := existingOrder_some
      (List.ne_nil_of_mem (hmine' hmine))
    refine ⟨user, o, find_email husers.emails hgrown huser, hsome, ?_⟩
    have horders := (mem_mine.mp ho).1
    obtain ⟨o₀, ho₀, hid, hkept⟩ | hnew := hcalls.items_cases hv hf o horders
    · -- an order from the beginning, so the least of them
      have heq : o₀ = o := List.inj_on_of_nodup_map hids (hstay o₀ ho₀) horders hid
      subst heq
      have hmine₀ : o₀ ∈ mine user.id store.db := mem_mine.mpr ⟨ho₀, (mem_mine.mp ho).2⟩
      have hsame : o₀.id = order.id :=
        UUID.le_antisymm (hleast' order (hmine' hmine)) (hleast o₀ hmine₀)
      rw [hkept, hsame]
      exact hitems
    · exact hnew

/-- Once the database has been seeded and no message is on the queues, the seed may be run again at
any time: whatever accounts and orders there are by then, it commits and changes nothing. -/
theorem seed_once (hs : store.Stored) (hseed : seed passwords ch store = .ok store')
    (hf : FreshIds env store'.db)
    (hr : (system v passwords jwt config store'.rows env n maxRetries store'.db :
      System (State ι π) (Label ι π)).Reach System.anyStep s)
    (htitles : others.title = store'.others.title) (ch' : Seed.Choices) :
    seed passwords ch' { rows := s.sessions.rows, others, db := s.platform.orders.db } =
      .ok { rows := s.sessions.rows, others, db := s.platform.orders.db } :=
  seed_settled (settled_reach (seed_stored hs hseed) (seed_settles hseed) hf hr htitles)

end Again

/-- The seeded database, ten seconds later. -/
theorem seed_once_empty : ∃ (store : Store) (s : State (Fin 2) Unit),
    seed truncatingPasswords firstChoices emptyStore = .ok store ∧ s.sessions.now = 10 ∧
    ∀ ch', seed truncatingPasswords ch' { store with
      rows := s.sessions.rows, db := s.platform.orders.db } = .ok { store with
        rows := s.sessions.rows, db := s.platform.orders.db } := by
  have hids : (seed truncatingPasswords firstChoices emptyStore).toOption.map
      (·.db.orders.map (·.id)) = some [.ofNat 20] := by decide +kernel
  cases hseed : seed truncatingPasswords firstChoices emptyStore with
  | error e =>
    rw [hseed] at hids
    cases hids
  | ok store =>
    rw [hseed] at hids
    have hfresh : FreshIds singleEnv store.db := by
      intro c o ho
      have horders : store.db.orders.map (·.id) = [.ofNat 20] := Option.some.inj hids
      have hid : o.id ∈ store.db.orders.map (·.id) := List.mem_map_of_mem ho
      rw [horders, List.mem_singleton] at hid
      rw [hid]
      revert c
      decide +kernel
    have hstart : (system strongValidator truncatingPasswords textJwt docConfig store.rows singleEnv 3
        (.ofInt 3) store.db).Reach System.anyStep
          (⟨{ rows := store.rows, now := 0, grants := [] }, .initial 3 store.db, fun _ => none⟩ :
            State (Fin 2) Unit) := .init ⟨⟨rfl, rfl⟩, rfl, rfl⟩
    have hwait := hstart.step trivial (.auth (.wait 10) ⟨(by intro cookie h; cases h), rfl⟩)
    exact ⟨store, _, rfl, rfl, seed_once emptyStore_stored hseed hfresh hwait rfl⟩

end Application

end Ecommerce
