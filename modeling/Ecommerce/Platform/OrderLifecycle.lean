import Ecommerce.Platform.Platform
import Ecommerce.Orders.SplitReads
import Ecommerce.Auth.Guards

/-!
# OrderLifecycle — what becomes of an order, and what its owner sees of it

An order keeps its id, its owner, its key, its creation time and its items.  Only the worker writes
to it, once, and only if it was created by a call of the run.  So what a user has seen of an order
stays true, or the order has been processed since.
-/

namespace Ecommerce.Platform

open Transition Orders Worker Auth

variable {ι π : Type} [DecidableEq ι] [DecidableEq π] {env : Env ι} {n : Nat}
  {maxRetries : Number} {db₀ : Db}

/-! ## The orders of two states -/

/-- Created, and nothing since. -/
def Fresh (o : Order) : Prop := o.status = .created ∧ o.processedAt = none

/-- What has become of an order: it is as it was, or it was fresh and has been processed. -/
structure Becomes (o o' : Order) : Prop where
  id : o'.id = o.id
  key : o'.key = o.key
  createdAt : o'.createdAt = o.createdAt
  moved : o' = o ∨ Fresh o ∧ Done o'

/-- No order is lost, and each keeps its items. -/
def Grows (db db' : Db) : Prop :=
  ∀ o ∈ db.orders, ∃ o' ∈ db'.orders, Becomes o o' ∧ db'.itemsOf o'.id = db.itemsOf o.id

/-- The order with this id is fresh, or it has been processed. -/
def Open (db : Db) (id : UUID) : Prop := ∃ o ∈ db.orders, o.id = id ∧ (Fresh o ∨ Done o)

theorem Becomes.refl (o : Order) : Becomes o o := ⟨rfl, rfl, rfl, .inl rfl⟩

theorem not_fresh_of_done {o : Order} (h : Done o) : ¬ Fresh o := fun hf => h.2 hf.2

theorem Becomes.trans {o₁ o₂ o₃ : Order} (h : Becomes o₁ o₂) (h' : Becomes o₂ o₃) :
    Becomes o₁ o₃ where
  id := h'.id.trans h.id
  key := h'.key.trans h.key
  createdAt := h'.createdAt.trans h.createdAt
  moved := by
    obtain rfl | ⟨hfresh, hdone⟩ := h.moved
    · exact h'.moved
    · obtain rfl | ⟨hfresh', -⟩ := h'.moved
      · exact .inr ⟨hfresh, hdone⟩
      · exact absurd hfresh' (not_fresh_of_done hdone)

theorem Grows.refl (db : Db) : Grows db db := fun o ho => ⟨o, ho, .refl o, rfl⟩

theorem Grows.trans {db₁ db₂ db₃ : Db} (h : Grows db₁ db₂) (h' : Grows db₂ db₃) :
    Grows db₁ db₃ := by
  intro o ho
  obtain ⟨o', ho', hbecomes, hitems⟩ := h o ho
  obtain ⟨o'', ho'', hbecomes', hitems'⟩ := h' o' ho'
  exact ⟨o'', ho'', hbecomes.trans hbecomes', hitems'.trans hitems⟩

theorem Open.grows {db db' : Db} {id : UUID} (h : Open db id) (hg : Grows db db') : Open db' id := by
  obtain ⟨o, ho, hid, hopen⟩ := h
  obtain ⟨o', ho', hbecomes, -⟩ := hg o ho
  refine ⟨o', ho', hbecomes.id.trans hid, ?_⟩
  obtain rfl | ⟨-, hdone⟩ := hbecomes.moved
  · exact hopen
  · exact .inr hdone

/-- A COMMIT of order creation. -/
theorem grows_apply {db : Db} {tx : Tx} (hnew : ∀ o ∈ db.orders, o.id ≠ tx.order.id)
    (hitems : ∀ i ∈ tx.items, i.orderId = tx.order.id) : Grows db (db.apply tx) := by
  intro o ho
  exact ⟨o, List.mem_append_left _ ho, .refl o, Db.itemsOf_apply_of_ne (hnew o ho) hitems⟩

/-- A COMMIT of the worker, for a message that has not been processed. -/
theorem grows_applyMessage {db : Db} {m : ProcessOrderMessage} {u : OrderUpdate} (hv : db.Valid)
    (hp : Paired db) (hid : m.messageId = m.orderId) (hopen : Open db m.orderId)
    (hnew : ¬ Processed db m) : Grows db (State.applyMessage db m (some u)) := by
  intro o ho
  refine ⟨State.updateOrder m.orderId u o, List.mem_map_of_mem ho, ?_, ?_⟩
  · unfold State.updateOrder
    split
    · rename_i heq
      refine ⟨rfl, rfl, rfl, .inr ⟨?_, rfl, fun h => by cases h⟩⟩
      obtain ⟨o', ho', hid', hfresh | hdone⟩ := hopen
      · rwa [List.inj_on_of_nodup_map hv.orderIds ho ho' (heq.trans hid'.symm)]
      · -- the row of a processed order is there already
        refine absurd ?_ hnew
        have hrow := (hp o' ho').mpr hdone
        unfold Processed dedupRow
        rwa [hid, ← hid']
    · exact .refl o
  · unfold State.updateOrder
    split <;> rfl

/-! ## What a call has in hand -/

/-- The order as the database has it, with its items. -/
def storedView (db : Db) (o : Order) : OrderView where
  id := o.id
  status := o.status
  idempotencyKey := o.idempotencyKey
  createdAt := o.createdAt
  updatedAt := o.updatedAt
  processedAt := o.processedAt
  items := db.itemsOf o.id

/-- Two views of one order, the second as early as the first or later. -/
structure ViewBecomes (v w : OrderView) : Prop where
  id : w.id = v.id
  idempotencyKey : w.idempotencyKey = v.idempotencyKey
  createdAt : w.createdAt = v.createdAt
  items : w.items.Perm v.items
  moved : (w.status = v.status ∧ w.updatedAt = v.updatedAt ∧ w.processedAt = v.processedAt) ∨
    ((v.status = .created ∧ v.processedAt = none) ∧ w.status = .processed ∧ w.processedAt ≠ none)

theorem ViewBecomes.trans {v₁ v₂ v₃ : OrderView} (h : ViewBecomes v₁ v₂) (h' : ViewBecomes v₂ v₃) :
    ViewBecomes v₁ v₃ where
  id := h'.id.trans h.id
  idempotencyKey := h'.idempotencyKey.trans h.idempotencyKey
  createdAt := h'.createdAt.trans h.createdAt
  items := h'.items.trans h.items
  moved := by
    obtain ⟨hstatus, hupdated, hprocessed⟩ | ⟨hfresh, hdone⟩ := h.moved
    · obtain ⟨hstatus', hupdated', hprocessed'⟩ | ⟨hfresh', hdone'⟩ := h'.moved
      · exact .inl ⟨hstatus'.trans hstatus, hupdated'.trans hupdated, hprocessed'.trans hprocessed⟩
      · exact .inr ⟨⟨hstatus ▸ hfresh'.1, hprocessed ▸ hfresh'.2⟩, hdone'⟩
    · obtain ⟨hstatus', -, hprocessed'⟩ | ⟨hfresh', -⟩ := h'.moved
      · exact .inr ⟨hfresh, hstatus'.trans hdone.1, by rw [hprocessed']; exact hdone.2⟩
      · exact absurd hfresh'.2 hdone.2

theorem viewBecomes_stored {db db' : Db} {o o' : Order} (h : Becomes o o')
    (hitems : db'.itemsOf o'.id = db.itemsOf o.id) :
    ViewBecomes (storedView db o) (storedView db' o') where
  id := h.id
  idempotencyKey := congrArg Prod.snd h.key
  createdAt := h.createdAt
  items := .of_eq hitems
  moved := by
    obtain rfl | ⟨hfresh, hdone⟩ := h.moved
    · exact .inl ⟨rfl, rfl, rfl⟩
    · exact .inr ⟨hfresh, hdone⟩

/-- The same columns, and the items in any order. -/
theorem viewBecomes_items {db : Db} {o : Order} {v : OrderView} {items : List OrderItem}
    (hv : v = { storedView db o with items }) (hitems : items.Perm (db.itemsOf o.id)) :
    ViewBecomes v (storedView db o) ∧ ViewBecomes (storedView db o) v := by
  subst hv
  exact ⟨⟨rfl, rfl, rfl, hitems.symm, .inl ⟨rfl, rfl, rfl⟩⟩,
    ⟨rfl, rfl, rfl, hitems, .inl ⟨rfl, rfl, rfl⟩⟩⟩

/-- The view is one of the order of this owner and key, as it is or was. -/
def Seen (db : Db) (pair : Option (UUID × UUID)) (v : OrderView) : Prop :=
  ∃ o ∈ db.orders, pair = some o.key ∧ ViewBecomes v (storedView db o)

theorem Seen.grows {db db' : Db} {pair : Option (UUID × UUID)} {v : OrderView} (h : Seen db pair v)
    (hg : Grows db db') : Seen db' pair v := by
  obtain ⟨o, ho, hpair, hview⟩ := h
  obtain ⟨o', ho', hbecomes, hitems⟩ := hg o ho
  exact ⟨o', ho', by rw [hpair, hbecomes.key], hview.trans (viewBecomes_stored hbecomes hitems)⟩

/-! ## Every step -/

/-- The order of a message still to be sent. -/
def unsent? : Orders.Phase → Option OrderView
  | .committed v => some v
  | .publishing v => some v
  | _ => none

/-- The order of a call, as the call has created it. -/
structure NewView (env : Env ι) (c : ι) (v : OrderView) : Prop where
  id : v.id = (env.choices c).newId
  status : v.status = .created
  processedAt : v.processedAt = none

/-- What a call still has to send is its new order. -/
def UnsentFresh (env : Env ι) (o : Sys ι) : Prop :=
  ∀ c v, unsent? (o.calls c) = some v → NewView env c v

theorem unsentFresh_advance {o o' : Sys ι} {c : ι} (hi : Orders.Inv env db₀ o)
    (hf : FreshIds env db₀) (hu : UnsentFresh env o) (h : Orders.Advance env o c o')
    {v : OrderView} (hv : unsent? (o'.calls c) = some v) : NewView env c v := by
  cases h with
  | throws tx e why =>
    rw [throwing_phase] at hv
    cases hv
  | commit tx result hc =>
    have heq : result = v := by simpa [Sys.commit, unsent?] using hv
    obtain ⟨htx, hresult, -⟩ := hi.reread_fresh hf hc
    obtain ⟨key, -, horder⟩ := htx.opened
    rw [← heq, hresult, txView, horder]
    exact ⟨rfl, rfl, rfl⟩
  | release result hc =>
    have heq : result = v := by simpa [unsent?] using hv
    exact hu c v (by rw [hc, ← heq]; rfl)
  | send result hc => simp [Sys.send, unsent?] at hv
  | _ => simp [unsent?] at hv

theorem unsentFresh {o : Sys ι} (hr : Reachable env n db₀ o) (hv : db₀.Valid)
    (hf : FreshIds env db₀) : UnsentFresh env o := by
  refine hr.invariant (fun o h0 => by rw [h0]; exact fun c v h => by cases h) ?_
  intro o l o' hr' hu _ hs c v hc
  have hi := Reachable.inv hr' hv hf
  -- a call that does not move keeps what it has
  have other : ∀ d, (∀ e, e ≠ d → o'.calls e = o.calls e) → unsent? (o'.calls d) = none →
      NewView env c v := by
    intro d hothers hd
    have hcd : c ≠ d := by
      rintro rfl
      rw [hd] at hc
      cases hc
    rw [hothers c hcd] at hc
    exact hu c v hc
  cases hs with
  | advance d hadv =>
    have hcases := advance_cases hadv
    by_cases hcd : c = d
    · subst hcd
      exact unsentFresh_advance hi hf hu hcases hc
    · rw [hcases.others c hcd] at hc
      exact hu c v hc
  | fault d hd =>
    refine other d (quiet_fault o d).others ?_
    rw [fault_phase]
    split <;> rfl
  | sendThrows d result hd =>
    exact other d (fun e he => setPhase_of_ne o _ he) (by simp [Sys.sendThrows, unsent?])
  | kill d hd => exact other d (quiet_kill o d).others (by simp [Sys.kill, unsent?])
  | worker db hw => exact hu c v hc

/-- What every reachable state of the platform has. -/
structure Lifecycle (env : Env ι) (s : State ι π) : Prop where
  seen : ∀ c v, (s.orders.calls c).result? = some v → Seen s.orders.db (env.request c).pair v
  copies : Carried (fun c => Open s.worker.db c.message.orderId) s.worker

section Steps

variable {s s' : State ι π} {l : Label ι π}

/-- Every step of the platform lets the orders grow. -/
theorem grows_step (hr : (system env n maxRetries db₀).Reach System.anyStep s) (hv : db₀.Valid)
    (hf : FreshIds env db₀) (hrows : FreshRows env db₀) (hp : Paired db₀)
    (hlife : Lifecycle env s) (hs : Step env maxRetries s l s') :
    Grows s.orders.db s'.orders.db := by
  have hi := (Reach.orders hr).inv hv hf
  cases hs with
  | calls l hl h =>
    obtain heq | ⟨c, tx, result, hc, heq⟩ | ⟨rfl, -⟩ := h.db_cases
    · exact heq ▸ Grows.refl _
    · obtain ⟨htx, -, hnew⟩ := hi.reread_fresh hf hc
      exact heq ▸ grows_apply hnew htx.items_orderId
    · cases hl
  | @worker w l hl h =>
    have hdb := sync hr
    have unchanged : w.db = s.worker.db → Grows s.orders.db w.db := by
      intro heq
      rw [heq, hdb]
      exact .refl _
    have hw := Reach.worker hr hv hf hrows hp
    cases h.effect with
    | nothing heq hhistory => exact unchanged heq
    | shop hshop hchange hhistory =>
      rw [hshop] at hl
      cases hl
    | published c heq hbroker hhistory => exact unchanged heq
    | duplicate tag h hh heq hhistory => exact unchanged heq
    | committed tag h update hh hph hself hothers heq hhistory =>
      have he := reachable_effects hw hp
      obtain ⟨u, rfl⟩ := he.updates tag h update hh hph
      show Grows s.orders.db w.db
      rw [heq, hdb]
      exact grows_applyMessage (hdb ▸ hi.valid) he.paired (he.copies.handlers tag h hh).id
        (hlife.copies.handlers tag h hh)
        ((Worker.reachable_inv hw).uncommitted tag h hh (by rw [hph]; rfl))

/-- What a call has in hand was in its hand before, or comes from its COMMIT or its look-up. -/
theorem result_cases {o o' : Sys ι} {l : Orders.Label ι} {c : ι} {v : OrderView}
    (hs : Orders.Step env o l o') (hv : (o'.calls c).result? = some v) :
    (o.calls c).result? = some v ∨ (∃ tx, o.calls c = .reread tx v ∧ o'.db = o.db.apply tx) ∨
      ∃ pair order, (env.request c).pair = some pair ∧ o.db.orderByKey pair = some order ∧
        v = viewOrder (env.choices c) o.db order ∧ o'.db = o.db := by
  have other : ∀ d, (∀ e, e ≠ d → o'.calls e = o.calls e) → (o'.calls d).result? = none →
      (o.calls c).result? = some v := by
    intro d hothers hd
    have hcd : c ≠ d := by
      rintro rfl
      rw [hd] at hv
      cases hv
    rwa [hothers c hcd] at hv
  cases hs with
  | advance d hadv =>
    have hcases := advance_cases hadv
    by_cases hcd : c = d
    · subst hcd
      exact hcases.result hv
    · rw [hcases.others c hcd] at hv
      exact .inl hv
  | fault d hd =>
    refine .inl (other d (quiet_fault o d).others ?_)
    rw [fault_phase]
    split <;> rfl
  | sendThrows d result hd =>
    exact .inl (other d (fun e he => setPhase_of_ne o _ he)
      (by simp [Sys.sendThrows, Orders.Phase.result?]))
  | kill d hd =>
    exact .inl (other d (quiet_kill o d).others (by simp [Sys.kill, Orders.Phase.result?]))
  | worker db hw => exact .inl hv

/-- A call that has committed, or looked up, an order has seen it. -/
theorem seen_calls {o o' : Sys ι} {l : Orders.Label ι} (hi : Orders.Inv env db₀ o)
    (hf : FreshIds env db₀) (hs : Orders.Step env o l o') (hg : Grows o.db o'.db)
    (hseen : ∀ c v, (o.calls c).result? = some v → Seen o.db (env.request c).pair v) (c : ι)
    (v : OrderView) (hv : (o'.calls c).result? = some v) : Seen o'.db (env.request c).pair v := by
  obtain hold | ⟨tx, hc, hdb⟩ | ⟨pair, order, hpair, horder, rfl, hdb⟩ := result_cases hs hv
  · exact (hseen c v hold).grows hg
  · obtain ⟨htx, rfl, hnew⟩ := hi.reread_fresh hf hc
    have hitems := Db.itemsOf_apply_self hi.valid hnew htx.items_orderId
    rw [hdb]
    refine ⟨tx.order, List.mem_append_right _ (List.mem_singleton_self _), htx.opened.pair,
      (viewBecomes_items rfl ?_).1⟩
    rw [hitems]
    exact (env.choices c).joined_perm _
  · obtain ⟨hmem, hkey⟩ := Db.mem_of_orderByKey horder
    rw [hdb]
    exact ⟨order, hmem, by rw [hpair, hkey],
      (viewBecomes_items rfl ((env.choices c).joined_perm _)).1⟩

/-- A new order that has been seen is fresh, or has been processed. -/
theorem Seen.open {db : Db} {pair : Option (UUID × UUID)} {v : OrderView} (h : Seen db pair v)
    (hfresh : v.status = .created ∧ v.processedAt = none) : Open db v.id := by
  obtain ⟨o, ho, -, hview⟩ := h
  refine ⟨o, ho, hview.id, ?_⟩
  obtain ⟨hstatus, -, hprocessed⟩ | ⟨-, hdone⟩ := hview.moved
  · exact .inl ⟨hstatus.trans hfresh.1, hprocessed.trans hfresh.2⟩
  · exact .inr hdone

theorem lifecycle_step (hr : (system env n maxRetries db₀).Reach System.anyStep s)
    (hv : db₀.Valid) (hf : FreshIds env db₀) (hrows : FreshRows env db₀) (hp : Paired db₀)
    (hlife : Lifecycle env s) (hs : Step env maxRetries s l s') : Lifecycle env s' := by
  have hg := grows_step hr hv hf hrows hp hlife hs
  have ho := Reach.orders hr
  have hdb := sync hr
  have hdb' := sync (hr.step trivial hs)
  have hopen : ∀ c : Copy, Open s.worker.db c.message.orderId →
      Open s'.worker.db c.message.orderId := by
    intro c hc
    rw [← hdb] at hc
    rw [← hdb']
    exact hc.grows hg
  cases hs with
  | @calls o' l hl h =>
    refine ⟨seen_calls (ho.inv hv hf) hf h hg hlife.seen, ?_⟩
    -- nobody but a send puts a message on the queue
    rcases calls_cases h hl with ⟨hnone, -⟩ | ⟨c, result, rfl, hc, rfl, hsome⟩
    · have hcarried := hlife.copies.mono hopen
      unfold State.afterCalls at hcarried ⊢
      simp only [hnone] at hcarried ⊢
      exact ⟨hcarried.broker, hcarried.handlers⟩
    · have hnew := unsentFresh ho hv hf c result (by rw [hc]; rfl)
      have hmessage : Open s.worker.db result.id := by
        rw [← hdb]
        exact (hlife.seen c result (by rw [hc]; rfl)).open ⟨hnew.status, hnew.processedAt⟩
      have hsent : Worker.Step maxRetries s.worker _ _ :=
        .publish (.new result.id result.id (env.choices c).sentAt)
      have hcarried := (hlife.copies.step hsent (fun m hm => by
        rw [← Worker.Label.publish.inj hm]
        exact hmessage) fun _ h => h).mono hopen
      unfold State.afterCalls at hcarried ⊢
      simp only [hsome] at hcarried ⊢
      exact ⟨hcarried.broker, hcarried.handlers⟩
  | worker l hl h =>
    refine ⟨fun c v hc => (hlife.seen c v hc).grows hg, ?_⟩
    exact (hlife.copies.step h (fun m hm => by rw [hm] at hl; cases hl) fun _ h => h).mono hopen

theorem lifecycle (hr : (system env n maxRetries db₀).Reach System.anyStep s) (hv : db₀.Valid)
    (hf : FreshIds env db₀) (hrows : FreshRows env db₀) (hp : Paired db₀) : Lifecycle env s := by
  refine hr.invariant (fun s h0 => ?_) fun s l s' hr hlife _ hs =>
    lifecycle_step hr hv hf hrows hp hlife hs
  rw [h0]
  exact ⟨fun c v hc => (by cases hc), ⟨Amqp.Broker.all_initial, fun t h hh => (by cases hh)⟩⟩

/-- Along every run of the platform the orders grow. -/
theorem grows_run (hr : (system env n maxRetries db₀).Reach System.anyStep s) (hv : db₀.Valid)
    (hf : FreshIds env db₀) (hrows : FreshRows env db₀) (hp : Paired db₀)
    (hsteps : (system env n maxRetries db₀).Steps System.anyStep s s') :
    Grows s.orders.db s'.orders.db :=
  System.Steps.preserves (R := fun a b : State ι π => Grows a.orders.db b.orders.db) hsteps hr
    (fun _ => .refl _) (fun _ _ _ h h' => h.trans h')
    fun _ _ _ hr _ hs => grows_step hr hv hf hrows hp (lifecycle hr hv hf hrows hp) hs

end Steps

/-! ## What a user sees over time -/

section Reads

variable {s s₁ s₂ s₃ s₄ : State ι π} {Token : Type} {jwt : JwtService Token} {config : JwtConfig}

/-- Between two states of a run no order is lost, and none is changed but by being processed: the same
id, owner, key, creation time and items, and as a whole the same unless it had been created and
nothing else before. -/
theorem orders_only_processed (hv : db₀.Valid) (hf : FreshIds env db₀) (hrows : FreshRows env db₀)
    (hp : Paired db₀) (hr : (system env n maxRetries db₀).Reach System.anyStep s)
    (hsteps : (system env n maxRetries db₀).Steps System.anyStep s s₁) :
    ∀ o ∈ s.orders.db.orders, ∃ o' ∈ s₁.orders.db.orders,
      (∀ p ∈ s₁.orders.db.orders, p.id = o.id → p = o') ∧
      s₁.orders.db.itemsOf o.id = s.orders.db.itemsOf o.id ∧
      (o' = o ∨ o.status = .created ∧ o.processedAt = none ∧
        ∃ at' updatedAt, o' = { o with status := .processed, processedAt := some at', updatedAt }) := by
  intro o ho
  obtain ⟨o', ho', hbecomes, hitems⟩ := grows_run hr hv hf hrows hp hsteps o ho
  have hids := ((Reach.orders (hr.steps hsteps)).inv hv hf).valid.orderIds
  refine ⟨o', ho', fun p hp hid => ?_, by rw [← hitems, hbecomes.id], ?_⟩
  · exact List.inj_on_of_nodup_map hids hp ho' (hid.trans hbecomes.id.symm)
  · refine hbecomes.moved.imp_right ?_
    rintro ⟨⟨hstatus, hnone⟩, hdone, hat⟩
    obtain ⟨t, ht⟩ := Option.ne_none_iff_exists'.mp hat
    refine ⟨hstatus, hnone, t, o'.updatedAt, ?_⟩
    obtain ⟨hid, hkey, hcreated, -⟩ := hbecomes
    obtain ⟨howner, hidem⟩ := Prod.mk.inj hkey
    cases o'
    simp_all

/-- Where a read of one order gets its answer from. -/
theorem getOrderOver_ok {now : Nat} {token : Token} {payload : JwtPayloadDto} {id : String}
    {scan : Query.Scan OrderRow} {db db' : Db} {dto : OrderResponseDto}
    (hids : (db.orders.map (·.id)).Nodup) (hids' : (db'.orders.map (·.id)).Nodup)
    (hauth : authenticate jwt config now (some token) = .ok payload)
    (hread : getOrderOver jwt config now token id scan db db' = .ok dto) :
    ∃ u i o o', UUID.ofText payload.sub = some u ∧ UUID.ofText id = some i ∧
      ownOrder u i db = some o ∧ ownOrder u i db' = some o' ∧
      ∃ v, dto = v.toDto ∧ ViewBecomes v (storedView db' o') := by
  simp only [getOrderOver, hauth, bind, Except.bind] at hread
  cases hi : UUID.ofText id with
  | none =>
    simp [TypeOrmOrdersRepository.findOneOver, uuidParam, hi, bind, Except.bind] at hread
  | some i =>
    cases hu : UUID.ofText payload.sub with
    | none =>
      simp [TypeOrmOrdersRepository.findOneOver, uuidParam, hi, hu, bind, Except.bind] at hread
    | some u =>
      have missing : ¬ (ownOrder u i db = none ∨ ownOrder u i db' = none) := by
        intro hnone
        rw [findOneOver_missing scan hids hids' hnone hi hu] at hread
        cases hread
      obtain ⟨hsome, hsome'⟩ := not_or.mp missing
      obtain ⟨o, ho⟩ := Option.ne_none_iff_exists'.mp hsome
      obtain ⟨o', ho'⟩ := Option.ne_none_iff_exists'.mp hsome'
      obtain ⟨items, hitems, heq⟩ := findOneOver_found scan hids hids' ho ho' hi hu
      rw [heq] at hread
      exact ⟨u, i, o, o', rfl, rfl, ho, ho', _, (Except.ok.inj hread).symm,
        (viewBecomes_items rfl hitems).1⟩

/-- An order that has been seen in one state is read in the next two. -/
theorem read_after {db₁ db₂ db₃ : Db} (hg : Grows db₁ db₂) (hg' : Grows db₂ db₃)
    (hids : (db₂.orders.map (·.id)).Nodup) (hids' : (db₃.orders.map (·.id)).Nodup) {u i : UUID}
    {o : Order} (ho : o ∈ db₁.orders) (hid : o.id = i) (howner : o.userId = u) {v : OrderView}
    (hview : ViewBecomes v (storedView db₁ o)) {now : Nat} {token : Token} {payload : JwtPayloadDto}
    (hauth : authenticate jwt config now (some token) = .ok payload)
    (hsub : UUID.ofText payload.sub = some u) {id : String} (htext : UUID.ofText id = some i)
    (scan : Query.Scan OrderRow) :
    ∃ w, getOrderOver jwt config now token id scan db₂ db₃ = .ok w.toDto ∧ ViewBecomes v w := by
  obtain ⟨o₂, ho₂, hbecomes, hitems₂⟩ := hg o ho
  obtain ⟨o₃, ho₃, hbecomes', hitems₃⟩ := hg' o₂ ho₂
  have howner₂ : o₂.userId = u := (congrArg Prod.fst hbecomes.key).trans howner
  have howner₃ : o₃.userId = u := (congrArg Prod.fst hbecomes'.key).trans howner₂
  have hown₂ := ownOrder_of_mem hids ho₂ howner₂
  have hown₃ := ownOrder_of_mem hids' ho₃ howner₃
  rw [hbecomes.id, hid] at hown₂
  rw [hbecomes'.id, hbecomes.id, hid] at hown₃
  obtain ⟨items, hperm, heq⟩ := findOneOver_found scan hids hids' hown₂ hown₃ htext hsub
  have hstored := viewBecomes_stored (hbecomes.trans hbecomes') (hitems₃.trans hitems₂)
  refine ⟨_, ?_, (hview.trans hstored).trans (viewBecomes_items rfl hperm).2⟩
  simp only [getOrderOver, hauth, bind, Except.bind, heq]
  rfl

/-- Whoever has created an order, or was answered with it, reads it from then on: after any steps of
calls and workers, also between the two queries, `GET /orders/:id` answers the owner with the order
that was returned, in the status it had or processed. -/
theorem returned_order_read_back (hv : db₀.Valid) (hf : FreshIds env db₀)
    (hrows : FreshRows env db₀) (hp : Paired db₀)
    (hr : (system env n maxRetries db₀).Reach System.anyStep s)
    (h₁ : (system env n maxRetries db₀).Steps System.anyStep s s₁)
    (h₂ : (system env n maxRetries db₀).Steps System.anyStep s₁ s₂) {c : ι} {v : OrderView}
    (hreturned : (s.orders.calls c).returned? = some v) {now : Nat} {token : Token}
    {payload : JwtPayloadDto} (hauth : authenticate jwt config now (some token) = .ok payload)
    (howner : UUID.ofText payload.sub = some (env.request c).userId)
    (scan : Query.Scan OrderRow) :
    ∃ w, getOrderOver jwt config now token v.id.text scan s₁.orders.db s₂.orders.db = .ok w.toDto ∧
      ViewBecomes v w := by
  obtain ⟨o, ho, hpair, hview⟩ :=
    (lifecycle hr hv hf hrows hp).seen c v (returned_result hreturned)
  obtain ⟨key, -, hkey⟩ := pair_eq_some hpair
  have hr₁ := hr.steps h₁
  exact read_after (grows_run hr hv hf hrows hp h₁) (grows_run hr₁ hv hf hrows hp h₂)
    ((Reach.orders hr₁).inv hv hf).valid.orderIds
    ((Reach.orders (hr₁.steps h₂)).inv hv hf).valid.orderIds ho hview.id
    (congrArg Prod.fst hkey) hview hauth howner (UUID.ofText_text _) scan

/-- What a user has read once, a later read of the same order shows again, in the same status or
processed: a read never goes back. -/
theorem reads_never_go_back (hv : db₀.Valid) (hf : FreshIds env db₀) (hrows : FreshRows env db₀)
    (hp : Paired db₀) (hr : (system env n maxRetries db₀).Reach System.anyStep s₁)
    (h₂ : (system env n maxRetries db₀).Steps System.anyStep s₁ s₂)
    (h₃ : (system env n maxRetries db₀).Steps System.anyStep s₂ s₃)
    (h₄ : (system env n maxRetries db₀).Steps System.anyStep s₃ s₄) {now now' : Nat}
    {token token' : Token} {payload payload' : JwtPayloadDto}
    (hauth : authenticate jwt config now (some token) = .ok payload)
    (hauth' : authenticate jwt config now' (some token') = .ok payload')
    (hsame : UUID.ofText payload'.sub = UUID.ofText payload.sub) {id : String}
    {scan : Query.Scan OrderRow} {dto : OrderResponseDto}
    (hread : getOrderOver jwt config now token id scan s₁.orders.db s₂.orders.db = .ok dto)
    (scan' : Query.Scan OrderRow) :
    ∃ v w, dto = v.toDto ∧
      getOrderOver jwt config now' token' id scan' s₃.orders.db s₄.orders.db = .ok w.toDto ∧
      ViewBecomes v w := by
  have hr₂ := hr.steps h₂
  have hr₃ := hr₂.steps h₃
  have hids : ∀ {s : State ι π}, (system env n maxRetries db₀).Reach System.anyStep s →
      (s.orders.db.orders.map (·.id)).Nodup :=
    fun hr => ((Reach.orders hr).inv hv hf).valid.orderIds
  obtain ⟨u, i, -, o, hu, hi, -, hown, v, rfl, hview⟩ :=
    getOrderOver_ok (hids hr) (hids hr₂) hauth hread
  obtain ⟨ho, hid, howner⟩ := ownOrder_eq_some hown
  obtain ⟨w, hagain, hbecomes⟩ := read_after (grows_run hr₂ hv hf hrows hp h₃)
    (grows_run hr₃ hv hf hrows hp h₄) (hids hr₃) (hids (hr₃.steps h₄)) ho hid howner hview hauth'
    (hsame.trans hu) hi scan'
  exact ⟨v, w, rfl, hagain, hbecomes⟩

/-- The orders of a window that still match later are those that are still as they were. -/
theorem window_still {options : LocalFindOptions} {offset : Nat} {u : UUID} {db db' : Db}
    (hg : Grows db db') (hids : (db.orders.map (·.id)).Nodup)
    (hids' : (db'.orders.map (·.id)).Nodup) :
    ((matching options u db').filter (·.id ∈ (window options offset u db).map (·.id))).Perm
      ((window options offset u db).filter (· ∈ db'.orders)) := by
  have hwindow : (window options offset u db).Sublist (newestOrders (matching options u db)) :=
    (List.take_sublist _ _).trans (List.drop_sublist _ _)
  have hmem : ∀ o ∈ window options offset u db, o ∈ matching options u db := fun o ho =>
    (newestOrders_arranges _).perm.mem_iff.mp (hwindow.subset ho)
  have hnodup : (window options offset u db).Nodup :=
    ((newestOrders_arranges _).perm.nodup_iff.mpr
      ((List.Nodup.of_map _ hids).filter _)).sublist hwindow
  refine (List.perm_ext_iff_of_nodup (((List.Nodup.of_map _ hids').filter _).filter _)
    (hnodup.filter _)).mpr fun o => ?_
  constructor
  · intro h
    obtain ⟨hmatch, hlisted⟩ := List.mem_filter.mp h
    obtain ⟨o₁, ho₁, hid⟩ := List.mem_map.mp (of_decide_eq_true hlisted)
    have hmatch₁ := mem_matching.mp (hmem o₁ ho₁)
    have hmatch := mem_matching.mp hmatch
    obtain ⟨o', ho', hbecomes, -⟩ := hg o₁ hmatch₁.1
    have heq : o' = o := List.inj_on_of_nodup_map hids' ho' hmatch.1 (hbecomes.id.trans hid)
    obtain heq' | ⟨hfresh, hdone⟩ := hbecomes.moved
    · rw [heq'] at ho' heq
      rw [← heq]
      exact List.mem_filter.mpr ⟨ho₁, decide_eq_true ho'⟩
    · -- one status is asked for, so a processed order matches no more
      have hstatus : o.status = o₁.status := hmatch.2.2.1.trans hmatch₁.2.2.1.symm
      rw [← heq, hdone.1, hfresh.1] at hstatus
      cases hstatus
  · intro h
    obtain ⟨ho, hin⟩ := List.mem_filter.mp h
    have hmatch := mem_matching.mp (hmem o ho)
    exact List.mem_filter.mpr ⟨mem_matching.mpr ⟨of_decide_eq_true hin, hmatch.2⟩,
      decide_eq_true (List.mem_map_of_mem ho)⟩

/-- A page lists the orders of its window that are at the second query as they were at the first. -/
theorem page_shows {db db' : Db} (hg : Grows db db') (hids : (db.orders.map (·.id)).Nodup)
    (hids' : (db'.orders.map (·.id)).Nodup) {now : Nat} {token : Token} {payload : JwtPayloadDto}
    (hauth : authenticate jwt config now (some token) = .ok payload) {u : UUID}
    (howner : payload.sub = u.text) {query : OrdersController.ListQuery}
    (hlimit : 0 < query.limit ∧ query.limit < 2 ^ 63)
    {offset : Nat} (hskip : rowCount (pageSkip query.page query.limit) = .ok offset)
    (scan : Query.Scan OrderRow) :
    ∃ orders arranged,
      getOrdersOver jwt config now token query scan db db' = .ok (orders.map ListedOrder.toDto) ∧
      Query.Arranges newer ((window (query.options u) offset u db).filter (· ∈ db'.orders)) arranged ∧
      List.Forall₂ (Shows db') arranged orders := by
  obtain ⟨orders, arranged, hfind, harranged, hshows⟩ :=
    findOver_page (query.options u) hids hids' rfl scan hlimit hskip
  refine ⟨orders, arranged, ?_, ⟨harranged.perm.trans (window_still hg hids hids'),
    harranged.sorted⟩, hshows⟩
  have hoptions : TypeOrmOrdersRepository.findOver scan
      { status := query.status, userId := some payload.sub, page := query.page
        limit := query.limit, fromDate := query.fromDate, toDate := query.toDate } db db' =
          .ok orders := by
    rw [howner]
    exact hfind
  simp only [getOrdersOver, hauth, bind, Except.bind, hoptions]

theorem mem_matching_of_window {options : LocalFindOptions} {offset : Nat} {u : UUID} {db : Db}
    {o : Order} (h : o ∈ window options offset u db) : o ∈ matching options u db :=
  (newestOrders_arranges _).perm.mem_iff.mp (List.mem_of_mem_drop (List.mem_of_mem_take h))

/-- An order of another status than `created` stays as it is. -/
theorem stays_of_status {db db' : Db} (hg : Grows db db') {o : Order} (ho : o ∈ db.orders)
    (hstatus : o.status ≠ .created) : o ∈ db'.orders := by
  obtain ⟨o', ho', hbecomes, -⟩ := hg o ho
  obtain rfl | ⟨hfresh, -⟩ := hbecomes.moved
  · exact ho'
  · exact absurd hfresh.1 hstatus

/-- A page whose two queries fall on two states of a run is the page of the first one, less exactly
the orders that have been processed in between; the others are on it as they were, and with a status
other than `created` it has them all. -/
theorem page_over_run (hv : db₀.Valid) (hf : FreshIds env db₀) (hrows : FreshRows env db₀)
    (hp : Paired db₀) (hr : (system env n maxRetries db₀).Reach System.anyStep s₁)
    (h₂ : (system env n maxRetries db₀).Steps System.anyStep s₁ s₂) {now : Nat} {token : Token}
    {payload : JwtPayloadDto} (hauth : authenticate jwt config now (some token) = .ok payload)
    {u : UUID} (howner : payload.sub = u.text) {query : OrdersController.ListQuery}
    (hlimit : 0 < query.limit ∧ query.limit < 2 ^ 63)
    {offset : Nat} (hskip : rowCount (pageSkip query.page query.limit) = .ok offset)
    (scan : Query.Scan OrderRow) :
    ∃ orders arranged,
      getOrdersOver jwt config now token query scan s₁.orders.db s₂.orders.db =
        .ok (orders.map ListedOrder.toDto) ∧
      Query.Arranges newer ((window (query.options u) offset u s₁.orders.db).filter
        (· ∈ s₂.orders.db.orders)) arranged ∧
      List.Forall₂ (Shows s₂.orders.db) arranged orders ∧
      (query.status ≠ .created →
        ∀ o ∈ window (query.options u) offset u s₁.orders.db, o ∈ s₂.orders.db.orders) := by
  have hids := ((Reach.orders hr).inv hv hf).valid.orderIds
  have hids' := ((Reach.orders (hr.steps h₂)).inv hv hf).valid.orderIds
  have hg := grows_run hr hv hf hrows hp h₂
  obtain ⟨orders, arranged, hpage, harranged, hshows⟩ :=
    page_shows hg hids hids' hauth howner hlimit hskip scan
  refine ⟨orders, arranged, hpage, harranged, hshows, fun hstatus o ho => ?_⟩
  have hmatch := mem_matching.mp (mem_matching_of_window ho)
  exact stays_of_status hg hmatch.1 fun h => hstatus (hmatch.2.2.1.symm.trans h)

end Reads

/-! ## An order is placed and processed -/

section Run

/-- The step with this label, as the calls or the worker execute it. -/
def State.perform (env : Env ι) (maxRetries : Number) (u : OrderUpdate) (s : State ι π) :
    Label ι π → Option (State ι π)
  | .calls l => s.exec env l
  | .worker l =>
    if foreign (.worker l : Label ι π) then none
    else (s.worker.exec maxRetries u l).map s.afterWorker

theorem step_of_perform {u : OrderUpdate} {s s' : State ι π} {l : Label ι π}
    (h : s.perform env maxRetries u l = some s') : Step env maxRetries s l s' := by
  cases l with
  | calls l => exact step_of_exec h
  | worker l =>
    by_cases hl : foreign (.worker l : Label ι π) = true
    · simp [State.perform, hl] at h
    · rw [State.perform, if_neg hl] at h
      obtain ⟨w, hexec, rfl⟩ := Option.map_eq_some_iff.mp h
      exact .worker l (by simpa using hl) (Worker.step_of_exec hexec)

def State.performAll (env : Env ι) (maxRetries : Number) (u : OrderUpdate) (s : State ι π) :
    List (Label ι π) → Option (State ι π)
  | [] => some s
  | l :: ls => (s.perform env maxRetries u l).bind fun s' => s'.performAll env maxRetries u ls

/-- A user's order for two pieces of one product. -/
def singleEnv : Env (Fin 2) := shopEnv (fun _ => false) fun _ => shopRequest 50 60 [1]

def placedOrder : Order := ⟨.ofNat 100, .ofNat 50, .created, .ofNat 60, 0, 0, none⟩

def processedOrder : Order := ⟨.ofNat 100, .ofNat 50, .processed, .ofNat 60, 0, 3, some 2⟩

/-- The first call returns its order, and then a worker processes the message. -/
theorem placed_then_processed : ∃ (s s' : State (Fin 2) Unit) (v : OrderView),
    (system singleEnv 3 (.ofInt 3) shop).Reach System.anyStep s ∧
    (system singleEnv 3 (.ofInt 3) shop).Steps System.anyStep s s' ∧
    (s.orders.calls 0).returned? = some v ∧ v.id = .ofNat 100 ∧
    s.orders.db.orders = [placedOrder] ∧ s'.orders.db.orders = [processedOrder] := by
  let later : List (Label (Fin 2) Unit) := [.worker (.start ()), .worker (.deliver ()),
    .worker (.advance 0 .none), .worker (.advance 0 .none), .worker (.advance 0 .none)]
  let placed : State (Fin 2) Unit → Bool := fun s =>
    (s.orders.calls 0).returned?.any (·.id = .ofNat 100) &&
      decide (s.orders.db.orders = [placedOrder]) &&
      (s.performAll singleEnv (.ofInt 3) ⟨2, 3⟩ later).any
        fun s' => s'.orders.db.orders = [processedOrder]
  have hinit : (system singleEnv 3 (.ofInt 3) shop).Reach System.anyStep
      (State.initial 3 shop : State (Fin 2) Unit) := .init rfl
  obtain ⟨s, hr, hs⟩ := reach_of_run hinit (List.replicate 11 (.advance 0))
    (fun _ _ _ => trivial) (p := placed) (by decide +kernel)
  simp only [placed, Bool.and_eq_true, decide_eq_true_eq, Option.any_eq_true] at hs
  obtain ⟨⟨⟨v, hv, hid⟩, horders⟩, s', hrun, horders'⟩ := hs
  exact ⟨s, s', v, hr, System.Steps.of_run (fun _ => rfl) (fun _ _ _ => rfl)
    (fun _ _ _ => step_of_perform) later (fun _ _ _ => trivial) hrun, hv, hid, horders, horders'⟩

end Run

section Witnesses

def buyer : User where
  id := .ofNat 50
  email := "buyer@mail.com"
  password := ""
  role := .user

def buyerToken : String × Nat × JwtPayloadDto :=
  (prepareTokenResponse Auth.plainJwt docConfig 0 buyer).accessToken

theorem buyer_authenticates : authenticate Auth.plainJwt docConfig 1 (some buyerToken) =
    .ok { sub := buyer.id.text, email := buyer.email, roles := [.user] } := rfl

def tableScan : Query.Scan OrderRow := ⟨id, fun _ => .refl _⟩

theorem singleEnv_fresh : FreshIds singleEnv shop ∧ FreshRows singleEnv shop :=
  ⟨freshIds_shop _ _, fun _ _ hrow => by cases hrow⟩

/-- The order was `created`, and it is there processed. -/
theorem orders_only_processed_placed : ∃ s s' : State (Fin 2) Unit,
    placedOrder ∈ s.orders.db.orders ∧ processedOrder ∈ s'.orders.db.orders ∧
    ∃ o' ∈ s'.orders.db.orders, (∀ p ∈ s'.orders.db.orders, p.id = placedOrder.id → p = o') ∧
      s'.orders.db.itemsOf placedOrder.id = s.orders.db.itemsOf placedOrder.id ∧
      (o' = placedOrder ∨ placedOrder.status = .created ∧ placedOrder.processedAt = none ∧
        ∃ at' updatedAt, o' =
          { placedOrder with status := .processed, processedAt := some at', updatedAt }) := by
  obtain ⟨s, s', v, hr, hsteps, -, -, horders, horders'⟩ := placed_then_processed
  have hmem : placedOrder ∈ s.orders.db.orders := by rw [horders]; exact List.mem_singleton_self _
  exact ⟨s, s', hmem, by rw [horders']; exact List.mem_singleton_self _,
    orders_only_processed (by decide) singleEnv_fresh.1 singleEnv_fresh.2
      (fun o ho => by cases ho) hr hsteps placedOrder hmem⟩

/-- The buyer reads the order while a worker processes it. -/
theorem returned_order_read_back_placed : ∃ (s s' : State (Fin 2) Unit) (v w : OrderView),
    s.orders.db.orders = [placedOrder] ∧ s'.orders.db.orders = [processedOrder] ∧
    getOrderOver Auth.plainJwt docConfig 1 buyerToken v.id.text tableScan s.orders.db
      s'.orders.db = .ok w.toDto ∧ ViewBecomes v w := by
  obtain ⟨s, s', v, hr, hsteps, hv, hid, horders, horders'⟩ := placed_then_processed
  obtain ⟨w, hread, hbecomes⟩ := returned_order_read_back (by decide) singleEnv_fresh.1
    singleEnv_fresh.2 (fun o ho => by cases ho) hr .refl hsteps hv buyer_authenticates
    (UUID.ofText_text _) tableScan
  exact ⟨s, s', v, w, horders, horders', hread, hbecomes⟩

theorem placed_mem {s : State (Fin 2) Unit} (h : s.orders.db.orders = [placedOrder]) :
    placedOrder ∈ s.orders.db.orders := by
  rw [h]
  exact List.mem_singleton_self _

/-- Read once before and once after the order is processed. -/
theorem reads_never_go_back_placed : ∃ (s s' : State (Fin 2) Unit) (v w : OrderView),
    s.orders.db.orders = [placedOrder] ∧ s'.orders.db.orders = [processedOrder] ∧
    getOrderOver Auth.plainJwt docConfig 1 buyerToken (UUID.ofNat 100).text tableScan s.orders.db
      s.orders.db = .ok v.toDto ∧
    getOrderOver Auth.plainJwt docConfig 1 buyerToken (UUID.ofNat 100).text tableScan s'.orders.db
      s'.orders.db = .ok w.toDto := by
  obtain ⟨s, s', -, hr, hsteps, -, -, horders, horders'⟩ := placed_then_processed
  have hids : (s.orders.db.orders.map (·.id)).Nodup := by
    rw [horders]
    exact List.nodup_singleton _
  obtain ⟨first, hread, -⟩ := read_after (.refl s.orders.db) (.refl _) hids hids
    (placed_mem horders) rfl rfl (viewBecomes_items rfl (.refl _)).1 buyer_authenticates
    (UUID.ofText_text _) (UUID.ofText_text (.ofNat 100)) tableScan
  obtain ⟨v, w, heq, hagain, -⟩ := reads_never_go_back (by decide) singleEnv_fresh.1
    singleEnv_fresh.2 (fun o ho => by cases ho) hr .refl hsteps .refl buyer_authenticates
    buyer_authenticates rfl hread tableScan
  exact ⟨s, s', v, w, horders, horders', heq ▸ hread, hagain⟩

/-- The first ten orders that are still `created`. -/
def createdQuery : OrdersController.ListQuery where
  status := .created
  page := 1
  limit := 10
  fromDate := none
  toDate := none

/-- The order is in the window when the ids are read, and off the page when the rows are. -/
theorem page_over_run_placed : ∃ s s' : State (Fin 2) Unit,
    window (createdQuery.options (.ofNat 50)) 0 (.ofNat 50) s.orders.db = [placedOrder] ∧
    getOrdersOver Auth.plainJwt docConfig 1 buyerToken createdQuery tableScan s.orders.db
      s'.orders.db = .ok [] := by
  obtain ⟨s, s', -, hr, hsteps, -, -, horders, horders'⟩ := placed_then_processed
  have hskip : rowCount (pageSkip createdQuery.page createdQuery.limit) = .ok 0 :=
    (congrArg rowCount (pageSkip_first createdQuery.limit)).trans (rowCount_ok (by decide))
  have hwindow : window (createdQuery.options (.ofNat 50)) 0 (.ofNat 50) s.orders.db =
      [placedOrder] := by
    unfold window matching
    rw [horders]
    decide +kernel
  obtain ⟨orders, arranged, hpage, harranged, hshows, -⟩ := page_over_run (by decide)
    singleEnv_fresh.1 singleEnv_fresh.2 (fun o ho => by cases ho) hr hsteps buyer_authenticates
    (show buyer.id.text = (UUID.ofNat 50).text from rfl) (by decide : 0 < createdQuery.limit ∧ _)
    hskip tableScan
  have hnone : (window (createdQuery.options (.ofNat 50)) 0 (.ofNat 50) s.orders.db).filter
      (· ∈ s'.orders.db.orders) = [] := by
    rw [hwindow, horders']
    decide +kernel
  rw [hnone] at harranged
  rw [List.perm_nil.mp harranged.perm, List.forall₂_nil_left_iff] at hshows
  rw [hshows] at hpage
  exact ⟨s, s', hwindow, hpage⟩

end Witnesses

end Ecommerce.Platform
