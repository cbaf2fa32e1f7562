import Ecommerce.Orders.Idempotency
import Ecommerce.Worker.ExactlyOnce
import Ecommerce.Worker.NoLoss

/-!
# Platform — order creation and the worker on one database

The calls of `createOrder` and the worker share the database, and what a call sends is put on
`orders.process`.  Seen from the calls the worker is somebody who changes committed orders; seen
from the worker the calls are somebody who adds orders and publishes their messages.
-/

namespace Ecommerce.Platform

open Transition Orders Worker

/-- The two parts; their databases are the same one.  The worker runs in processes of its own, whose
pool has a connection for each delivery, so the pool of the calls does not hold it up. -/
structure State (ι π : Type) where
  orders : Sys ι
  worker : Worker.State π

/-- The message a step of the calls sends. -/
def message? {ι : Type} (env : Env ι) (s : Sys ι) : Orders.Label ι → Option ProcessOrderMessage
  | .advance c =>
    match s.calls c with
    | .publishing result => some (.new result.id result.id (env.choices c).sentAt)
    | _ => none
  | _ => none

variable {ι π : Type} [DecidableEq ι] [DecidableEq π]

namespace State

def initial (n : Nat) (db : Db) : State ι π := ⟨.initial n db, .initial db⟩

/-- The calls have moved to `s'`. -/
def afterCalls (env : Env ι) (s : State ι π) (l : Orders.Label ι) (s' : Sys ι) : State ι π where
  orders := s'
  worker :=
    let w := { s.worker with db := s'.db }
    match message? env s.orders l with
    | some m => w.publish m
    | none => w

def afterWorker (s : State ι π) (w : Worker.State π) : State ι π where
  orders := { s.orders with db := w.db }
  worker := w

end State

inductive Label (ι π : Type) where
  | calls (l : Orders.Label ι)
  | worker (l : Worker.Label π)

/-- The steps that stand for the other part. -/
def foreign : Label ι π → Bool
  | .calls .worker => true
  | .worker (.publish _) => true
  | .worker .shop => true
  | _ => false

inductive Step (env : Env ι) (maxRetries : Number) :
    State ι π → Label ι π → State ι π → Prop
  | calls {s : State ι π} {s' : Sys ι} (l : Orders.Label ι)
      (hl : foreign (.calls l : Label ι π) = false) (h : Orders.Step env s.orders l s') :
      Step env maxRetries s (.calls l) (s.afterCalls env l s')
  | worker {s : State ι π} {w : Worker.State π} (l : Worker.Label π)
      (hl : foreign (.worker l : Label ι π) = false) (h : Worker.Step maxRetries s.worker l w) :
      Step env maxRetries s (.worker l) (s.afterWorker w)

def system (env : Env ι) (n : Nat) (maxRetries : Number) (db : Db) :
    System (State ι π) (Label ι π) where
  init s := s = .initial n db
  step := Step env maxRetries

/-- A generated id is not the id of a message that has been processed before. -/
def FreshRows (env : Env ι) (db : Db) : Prop :=
  ∀ c, ∀ row ∈ db.processedMessages, row.messageId ≠ (env.choices c).newId

/-! ## The two projections -/

section Projections

variable {env : Env ι} {n : Nat} {maxRetries : Number} {db₀ : Db} {s s' : State ι π}
  {l : Label ι π} {ok : State ι π → Label ι π → Prop}

omit [DecidableEq ι] [DecidableEq π] in
theorem afterCalls_db (l : Orders.Label ι) (s' : Sys ι) :
    (s.afterCalls env l s').worker.db = s'.db := by
  unfold State.afterCalls
  simp only
  split <;> rfl

theorem sync (hr : (system env n maxRetries db₀).Reach ok s) : s.orders.db = s.worker.db :=
  System.Reach.invariant (I := fun s => s.orders.db = s.worker.db) hr
    (fun _ h0 => by rw [h0]; rfl) fun s l s' _ _ _ hs => by
      cases hs with
      | calls l hl h => exact (afterCalls_db l _).symm
      | worker l hl h => rfl

omit [DecidableEq ι] in
/-- The worker's own steps change status and times of orders only. -/
theorem workerChange {w w' : Worker.State π} {l : Worker.Label π}
    (hs : Worker.Step maxRetries w l w') (hl : foreign (.worker l : Label ι π) = false) :
    WorkerChange w.db w'.db := by
  -- nothing changes, or one transaction commits
  have unchanged : w'.db = w.db → WorkerChange w.db w'.db := by
    intro heq
    rw [heq]
    exact ⟨rfl, rfl, id, (List.map_id _).symm, fun o => ⟨rfl, rfl, rfl⟩⟩
  cases hs.effect with
  | nothing hdb hhistory => exact unchanged hdb
  | shop hshop hchange hhistory =>
    rw [hshop] at hl
    cases hl
  | published c hdb hbroker hhistory => exact unchanged hdb
  | duplicate tag h hh hdb hhistory => exact unchanged hdb
  | committed tag h update hh hph hself hothers hdb hhistory =>
    rw [hdb]
    refine ⟨rfl, rfl, ?_⟩
    cases update with
    | none => exact ⟨id, (List.map_id _).symm, fun o => ⟨rfl, rfl, rfl⟩⟩
    | some u =>
      refine ⟨Worker.State.updateOrder h.copy.message.orderId u, rfl, fun o => ?_⟩
      unfold Worker.State.updateOrder
      split <;> exact ⟨rfl, rfl, rfl⟩

/-- The calls of a platform run are a run of order creation. -/
theorem Reach.orders (hr : (system env n maxRetries db₀).Reach ok s) :
    Reachable env n db₀ s.orders := by
  refine hr.project (N := Orders.system env n db₀) State.orders (fun s h0 => by rw [h0]; rfl) ?_
  intro s l s' hreach _ hs
  refine .inr ?_
  cases hs with
  | calls l hl h => exact ⟨l, trivial, h⟩
  | worker l hl h =>
    refine ⟨.worker, trivial, .worker _ ?_⟩
    rw [sync hreach]
    exact workerChange h hl

/-! ### The worker's side -/

omit [DecidableEq π] in
/-- A step of the calls sends nothing and leaves the tables, or commits, or sends one message. -/
theorem calls_cases {o o' : Sys ι} {l : Orders.Label ι} (hs : Orders.Step env o l o')
    (hl : foreign (.calls l : Label ι π) = false) :
    (message? env o l = none ∧ (o'.db = o.db ∨
      ∃ c tx result, o.calls c = .reread tx result ∧ o'.db = o.db.apply tx)) ∨
    ∃ c result, l = .advance c ∧ o.calls c = .publishing result ∧ o' = o.send env c result ∧
      message? env o l = some (.new result.id result.id (env.choices c).sentAt) := by
  have hdb : o'.db = o.db ∨ ∃ c tx result, o.calls c = .reread tx result ∧ o'.db = o.db.apply tx := by
    rcases hs.db_cases with heq | hcommit | ⟨rfl, -⟩
    · exact .inl heq
    · exact .inr hcommit
    · cases hl
  cases hs with
  | advance c hadv =>
    cases hc : o.calls c with
    | publishing result =>
      refine .inr ⟨c, result, rfl, hc, ?_, by simp only [message?, hc]⟩
      rw [Sys.advance, hc] at hadv
      exact (Option.some.inj hadv).symm
    | _ => exact .inl ⟨by simp only [message?, hc], hdb⟩
  | worker db hw => cases hl
  | _ => exact .inl ⟨rfl, hdb⟩

omit [DecidableEq ι] in
/-- What a call is about to send is the message of an order. -/
theorem publishing_order {o : Sys ι} (hres : Results env o) {c : ι} {result : OrderView}
    (hc : o.calls c = .publishing result) : ∃ order ∈ o.db.orders, order.id = result.id := by
  obtain ⟨pair, -, order, horder, -, hid, -⟩ := hres.result c result (by rw [hc]; rfl)
  exact ⟨order, horder, hid.symm⟩

omit [DecidableEq ι] [DecidableEq π] in
theorem shopChange_commit {o : Sys ι} {w : Worker.State π} (hi : Orders.Inv env db₀ o)
    (hf : FreshIds env db₀) (hrows : FreshRows env db₀) (he : Effects db₀ w) (hdb : o.db = w.db)
    {c : ι} {tx : Tx} {result : OrderView} (hc : o.calls c = .reread tx result) :
    ShopChange w.db (o.db.apply tx) := by
  obtain ⟨htx, -, hid⟩ := hi.reread_fresh hf hc
  obtain ⟨key, -, horder⟩ := htx.opened
  rw [hdb] at hid ⊢
  refine ⟨rfl, [tx.order], rfl, fun order hmem => ?_⟩
  rw [List.mem_singleton.mp hmem]
  refine ⟨by rw [horder]; rfl, by rw [horder]; rfl, fun hrow => ?_⟩
  rcases he.rows _ hrow with h0 | ⟨order', horder', hid'⟩
  · exact hrows c _ h0 htx.opened.order_id
  · exact hid order' horder' hid'

/-- What the worker sees of a step: its own steps, changes of the shop, and messages of orders. -/
inductive WorkerSees : Label ι π → Worker.Label π → Prop
  | own (l : Worker.Label π) (hl : foreign (.worker l : Label ι π) = false) :
      WorkerSees (.worker l) l
  | shop (l : Orders.Label ι) : WorkerSees (.calls l) .shop
  | sent (l : Orders.Label ι) (id : UUID) (sentAt : Date) :
      WorkerSees (.calls l) (.publish (.new id id sentAt))

theorem Step.worker_step (hr : (system env n maxRetries db₀).Reach ok s) (hv : db₀.Valid)
    (hf : FreshIds env db₀) (hrows : FreshRows env db₀) (hp : Paired db₀)
    (hw : (Worker.system maxRetries db₀).Reach FromCreateOrder s.worker)
    (hs : Step env maxRetries s l s') :
    ∃ m, FromCreateOrder s.worker m ∧ Worker.Step maxRetries s.worker m s'.worker ∧
      WorkerSees l m := by
  have hdb := sync hr
  have ho := Reach.orders hr
  cases hs with
  | worker l hl h => exact ⟨l, (fun m hm => by rw [hm] at hl; cases hl), h, .own l hl⟩
  | @calls o' l hl h =>
    unfold State.afterCalls
    rcases calls_cases h hl with ⟨hnone, hor⟩ | ⟨c, result, rfl, hc, rfl, hsome⟩
    · -- a COMMIT of order creation is a change the worker does not make
      have hchange : ShopChange s.worker.db o'.db := by
        rcases hor with heq | ⟨c, tx, result, hc, heq⟩
        · rw [heq, hdb]
          exact ⟨rfl, [], (List.append_nil _).symm, fun o ho => by cases ho⟩
        · rw [heq]
          exact shopChange_commit (ho.inv hv hf) hf hrows (reachable_effects hw hp) hdb hc
      simp only [hnone]
      exact ⟨.shop, (fun m hm => by cases hm), .shop _ hchange, .shop l⟩
    · have hsame : { s.worker with db := (s.orders.send env c result).db } = s.worker := by
        rw [show (s.orders.send env c result).db = s.worker.db from hdb]
      obtain ⟨order, horder, hid⟩ := publishing_order (ho.results hv hf) hc
      simp only [hsome, hsame]
      refine ⟨_, fun m hm => ⟨order, hdb ▸ horder, (env.choices c).sentAt, ?_⟩, .publish _,
        .sent _ _ _⟩
      rw [hid]
      exact (Label.publish.inj hm).symm

/-- The worker of a platform run runs on messages that come from `createOrder`. -/
theorem Reach.worker (hr : (system env n maxRetries db₀).Reach ok s) (hv : db₀.Valid)
    (hf : FreshIds env db₀) (hrows : FreshRows env db₀) (hp : Paired db₀) :
    (Worker.system maxRetries db₀).Reach FromCreateOrder s.worker := by
  refine System.Reach.invariant
    (I := fun s => (Worker.system maxRetries db₀).Reach FromCreateOrder s.worker) hr
    (fun s h0 => by rw [h0]; exact .init rfl) ?_
  intro s l s' hreach hw _ hs
  obtain ⟨m, hm, hstep, -⟩ := hs.worker_step hreach hv hf hrows hp hw
  exact hw.step hm hstep

end Projections

/-! ## Runs given by the steps of the calls -/

section Run

/-- The step of the calls with this label, where it is an own step or a send that throws. -/
def State.exec (env : Env ι) (s : State ι π) (l : Orders.Label ι) : Option (State ι π) :=
  match l with
  | .advance c => (s.orders.advance env c).map (s.afterCalls env l)
  | .sendThrows c =>
    match s.orders.calls c with
    | .publishing _ => some (s.afterCalls env l (s.orders.sendThrows c))
    | _ => none
  | _ => none

theorem step_of_exec {env : Env ι} {maxRetries : Number} {s s' : State ι π} {l : Orders.Label ι}
    (h : s.exec env l = some s') : Step env maxRetries s (.calls l) s' := by
  unfold State.exec at h
  split at h
  · obtain ⟨o', hadv, rfl⟩ := Option.map_eq_some_iff.mp h
    exact .calls _ rfl (.advance _ hadv)
  · split at h
    · rename_i result hc
      rw [← Option.some.inj h]
      exact .calls _ rfl (.sendThrows _ result hc)
    · cases h
  · cases h

def State.run (env : Env ι) (s : State ι π) : List (Orders.Label ι) → Option (State ι π)
  | [] => some s
  | l :: ls => (s.exec env l).bind fun s' => s'.run env ls

theorem reach_of_run {env : Env ι} {n : Nat} {maxRetries : Number} {db : Db}
    {ok : State ι π → Label ι π → Prop} {s : State ι π}
    (hr : (system env n maxRetries db).Reach ok s) (ls : List (Orders.Label ι))
    (hok : ∀ l ∈ ls, ∀ s, ok s (.calls l)) {p : State ι π → Bool}
    (h : (s.run env ls).any p = true) :
    ∃ s', (system env n maxRetries db).Reach ok s' ∧ p s' = true :=
  hr.of_run (fun _ => rfl) (fun _ _ _ => rfl) (fun _ _ _ => step_of_exec) ls hok h

end Run

end Ecommerce.Platform
