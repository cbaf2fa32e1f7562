import Ecommerce.Worker.DedupRecords
import Ecommerce.Worker.FaultFree

/-!
# Recovery — an order without a message is processed by hand

Nothing consumes `orders.dlq`, and an order whose message was lost or dropped stays as it is.  What
is left is to put a message for it on `orders.process` at the broker, under a `messageId` that no
other order's message has: `POST /debug/orders/process` would send an empty object.  However the
order was left behind, that message processes it.
-/

namespace Ecommerce.Worker

open Amqp Locking Orders Transition

variable {π : Type} [DecidableEq π] {maxRetries : Number} {db₀ : Db} {m : ProcessOrderMessage}

/-- Messages under the `messageId` of this one are genuine and name its order. -/
def Names (m : ProcessOrderMessage) (m' : ProcessOrderMessage) : Prop :=
  m'.messageId = m.messageId → m'.simulateFailure = none ∧ m'.orderId = m.orderId

/-- The order of the message is there, and a record of the message stands for it. -/
structure Vouches (m : ProcessOrderMessage) (db : Db) : Prop where
  order : ∃ o ∈ db.orders, o.id = m.orderId
  record : Processed db m → StandsFor db m

section Steps

variable {s s' : State π} {l : Label π} {db db' : Db}

theorem Vouches.shop (h : Vouches m db) (hshop : ShopChange db db') : Vouches m db' where
  order := by
    obtain ⟨o, ho, hid⟩ := h.order
    obtain ⟨new, heq, -⟩ := hshop.orders
    exact ⟨o, by rw [heq]; exact List.mem_append_left _ ho, hid⟩
  record := by
    unfold Processed
    rw [hshop.processedMessages]
    exact fun hrow => (h.record hrow).shop hshop

/-- The COMMIT for a message of the same `messageId` is the one that processes the order. -/
theorem Vouches.applyMessage (h : Vouches m db) {m' : ProcessOrderMessage} {u : OrderUpdate}
    {update : Option OrderUpdate} (hok : State.processOrderMessage m' u = .ok update)
    (hnames : Names m m') : Vouches m (State.applyMessage db m' update) where
  order := by
    obtain ⟨o, ho, hid⟩ := h.order
    cases update with
    | none => exact ⟨o, ho, hid⟩
    | some u => exact ⟨_, List.mem_map_of_mem ho, (updateOrder_id ..).trans hid⟩
  record := by
    intro hrow
    by_cases hid : m'.messageId = m.messageId
    · obtain ⟨hgenuine, horder⟩ := hnames hid
      have hstands : StandsFor (State.applyMessage db m' update) m' :=
        (standsFor_applyMessage hok).mpr (by
          obtain ⟨o, ho, hoid⟩ := h.order
          exact ⟨o, ho, hoid.trans horder.symm, .inl hgenuine⟩)
      unfold StandsFor at hstands ⊢
      rwa [horder] at hstands
    · -- the new row is another message's
      refine (h.record ?_).applyMessage
      rcases List.mem_append.mp hrow with hold | hnew
      · exact hold
      · exact absurd (congrArg ProcessedMessage.messageId (List.mem_singleton.mp hnew)).symm hid

theorem Vouches.step (h : Vouches m s.db) (hup : Updates s)
    (hcarried : Carried (fun c => Names m c.message) s) (hs : Step maxRetries s l s') :
    Vouches m s'.db := by
  rcases hs.commit_or_quiet with ⟨tag, f, hd, update, -, hh, hph, rfl⟩ | ⟨-, hquiet⟩
  · obtain ⟨u, hok⟩ := hup tag hd update hh hph
    exact h.applyMessage hok (hcarried.handlers tag hd hh)
  · exact h.shop hquiet.shop

end Steps

section Runs

variable {r : System.Run (system maxRetries db₀ : System (State π) (Label π)) System.anyStep}
  {n k : Nat}

theorem carried_names (hnames : ∀ j m', r.label j = .publish m' → Names m m') (k : Nat) :
    Carried (fun c => Names m c.message) (r.state k) := by
  have hr : (system maxRetries db₀).Reach
      (fun _ l => ∀ m', l = .publish m' → Names m m') (r.state k) :=
    System.Run.reach_of (fun j m' hl => hnames j m' hl) k
  apply hr.invariant
  · rintro s rfl
    exact ⟨Broker.all_initial, fun t h hh => by cases hh⟩
  · intro s l s' _ hc hok hs
    exact hc.step hs (fun m' hl => hok m' hl) fun c hc => hc

/-- A message that is put on the queue for an order, under a `messageId` that stands for nothing else,
processes the order: in every run whose failures come to an end and in which none of them is in a
transaction of the message, whatever has become of the order's other messages. -/
theorem queued_message_processes_order (hc : Calms r m.messageId n)
    (hfair : ∀ duty, r.Fair (Serves duty))
    (hfree : ∀ j tag h, r.label j = .fault tag → (r.state j).handlers tag = some h →
      h.copy.message.messageId ≠ m.messageId)
    (hpub : r.label k = .publish m)
    (hsame : ∀ j m', r.label j = .publish m' → m'.messageId = m.messageId →
      m'.orderId = m.orderId)
    (horder : ∃ o ∈ (r.state k).db.orders, o.id = m.orderId)
    (hrecord : Processed (r.state k).db m → StandsFor (r.state k).db m) :
    ∃ M, ∀ j, M ≤ j → StandsFor (r.state j).db m := by
  have hnames : ∀ j m', r.label j = .publish m' → Names m m' := fun j m' hl hid =>
    ⟨(hl ▸ hc.genuine j : Genuine m.messageId (r.state j) (.publish m')) hid, hsame j m' hl hid⟩
  have hvouches : ∀ j, k ≤ j → Vouches m (r.state j).db := by
    intro j hj
    refine r.persists (P := fun s => Vouches m s.db) ⟨horder, hrecord⟩ ?_ hj
    intro i _ hi
    exact hi.step (reachable_updates (r.reach i)) (carried_names hnames i) (r.step i)
  -- the copy that the broker got
  obtain ⟨c, hcopy, hcm⟩ : ∃ c, .published c ∈ (r.state (k + 1)).history ∧ c.message = m := by
    have hs := r.step k
    rw [hpub] at hs
    generalize r.state (k + 1) = s' at hs
    cases hs with
    | publish m =>
      refine ⟨_, List.mem_append_right _ (List.mem_singleton_self _), rfl⟩
  subst hcm
  obtain ⟨M, hM⟩ := settled_eventually hc hfair hcopy
  have hspared (j : Nat) : Spared c.message.messageId (r.state j) :=
    reachable_spared (System.Run.reach_of (fun i => ⟨hc.genuine i, fun tag h hl hh =>
      hfree i tag h hl hh⟩) j)
  refine ⟨max M k, fun j hj => (hvouches j (le_of_max_le_right hj)).record ?_⟩
  exact (hM j (le_of_max_le_left hj)).processed (hspared j)

end Runs

/-! ## An order that was left behind -/

/-- A message of its own for the order of `orderedShop`. -/
def recoveryMessage : ProcessOrderMessage where
  messageId := .ofNat 200
  orderId := .ofNat 100
  createdAt := 0
  attempt := .ofInt 1
  simulateFailure := none

/-- A simulated success takes the place of the order's message, and then comes the new one. -/
def recoveryLabels : List (Label Unit) :=
  [.start (), .publish simulatedMessage, .deliver (), .advance 0 .none, .advance 0 .none,
    .advance 0 .none, .advance 0 .none, .take (), .publish recoveryMessage, .deliver (),
    .advance 1 .none, .advance 1 .none, .advance 1 .none, .advance 1 .none, .take ()]

def recoveryRun : System.Run
    (system (.ofInt (3 : Nat)) orderedShop : System (State Unit) (Label Unit)) System.anyStep where
  state := State.after (.ofInt (3 : Nat)) ⟨2, 3⟩ (.initial orderedShop) recoveryLabels
  label n := recoveryLabels.getD n .shop
  init := rfl
  allowed _ := trivial
  step := step_after (by decide +kernel)

/-- A step that fails nothing and ends nothing, with one of the two messages if it publishes any. -/
def tidy : Label Unit → Bool
  | .advance _ f => !(f.ack || f.send || f.ackAfterSend || f.reject)
  | .publish m => m = simulatedMessage || m = recoveryMessage
  | .die _ => false
  | .fault _ => false
  | .close _ => false
  | _ => true

theorem recoveryRun_tidy (k : Nat) : tidy (recoveryRun.label k) = true := by
  have hall : ∀ l ∈ recoveryLabels, tidy l = true := by decide +kernel
  show tidy (recoveryLabels.getD k .shop) = true
  rw [List.getD_eq_getElem?_getD]
  cases hl : recoveryLabels[k]? with
  | none => rfl
  | some l => exact hall l (List.mem_of_getElem? hl)

theorem recoveryRun_publishes {k : Nat} {m : ProcessOrderMessage}
    (hl : recoveryRun.label k = .publish m)
    (hid : m.messageId = recoveryMessage.messageId) : m = recoveryMessage := by
  have htidy := recoveryRun_tidy k
  rw [hl, tidy, Bool.or_eq_true, decide_eq_true_iff, decide_eq_true_iff] at htidy
  refine htidy.resolve_left ?_
  rintro rfl
  exact absurd hid (by decide)

theorem recoveryRun_ends {k : Nat} (hk : 15 ≤ k) : Rested (recoveryRun.state k) := by
  obtain ⟨s, hs⟩ := Option.isSome_iff_exists.mp (show (State.run (.ofInt (3 : Nat)) ⟨2, 3⟩
    (.initial orderedShop) recoveryLabels).isSome = true by decide +kernel)
  have hstate : ∀ {j}, 15 ≤ j → recoveryRun.state j = s := fun hj => run_eq_after hs hj
  rw [hstate hk, ← hstate (Nat.le_refl 15)]
  refine ⟨fun t h hh => ?_, by decide +kernel, by decide +kernel, by decide +kernel⟩
  have hnext : (recoveryRun.state 15).broker.nextTag = 2 := by decide +kernel
  have htag : t < 2 := hnext ▸ (reachable_inv (recoveryRun.reach 15)).tags t h hh
  have hall : ∀ t < 2, ((recoveryRun.state 15).handlers t).all (·.phase = .finished) = true := by
    decide +kernel
  simpa [hh] using hall t htag

theorem recoveryRun_calms : Calms recoveryRun recoveryMessage.messageId 0 where
  genuine := by
    intro k
    have htidy := recoveryRun_tidy k
    have hpublishes {m : ProcessOrderMessage} := recoveryRun_publishes (k := k) (m := m)
    generalize recoveryRun.label k = l at htidy hpublishes
    cases l with
    | advance tag f =>
      obtain ⟨ack, send, ackAfterSend, reject⟩ := f
      cases ack <;> cases send <;> cases ackAfterSend <;> cases reject <;>
        first | rfl | cases htidy
    | publish m => exact fun hid => by rw [hpublishes rfl hid]; rfl
    | _ => trivial
  calm := by
    intro k _
    have htidy := recoveryRun_tidy k
    generalize recoveryRun.label k = l at htidy
    cases l <;> trivial
  up := fun o hrun => by cases hrun
  serving := ⟨15, (), Nat.zero_le 15, (recoveryRun_ends (Nat.le_refl 15)).running ()⟩

theorem recoveryRun_fair (duty : Duty Unit) : recoveryRun.Fair (Serves duty) := by
  intro k hpossible
  obtain ⟨l, s', -, hs, hserves⟩ := hpossible (max k 15) (Nat.le_max_left k 15)
  exact absurd hserves ((recoveryRun_ends (Nat.le_max_right k 15)).not_serves duty hs)

/-- The order of a simulated success is processed after all. -/
theorem queued_message_processes_order_blocked :
    .committed 0 ⟨simulatedMessage, 0⟩ ∈ (recoveryRun.state 8).history ∧
      (recoveryRun.state 8).db.orders = orderedShop.orders ∧
      ∃ M, ∀ j, M ≤ j → StandsFor (recoveryRun.state j).db recoveryMessage := by
  refine ⟨by decide +kernel, by decide +kernel, ?_⟩
  refine queued_message_processes_order (k := 8) recoveryRun_calms recoveryRun_fair ?_ rfl ?_ ?_ ?_
  · intro j tag h hl
    have htidy := recoveryRun_tidy j
    rw [hl] at htidy
    cases htidy
  · exact fun j m hl hid => by rw [recoveryRun_publishes hl hid]
  · exact ⟨⟨.ofNat 100, .ofNat 7, .created, .ofNat 50, 0, 0, none⟩, by decide +kernel, rfl⟩
  · exact fun hrow => absurd hrow (by unfold Processed; decide +kernel)

end Ecommerce.Worker
