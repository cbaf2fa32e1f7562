import Ecommerce.Platform.Platform

/-!
# MessageCoverage — a committed order and its message

The call that commits an order sends its message afterwards, and nobody else ever does.  Where no
fault falls between the two, every order that still waits for the worker has its message.
-/

namespace Ecommerce.Platform

open Transition Orders Worker

variable {ι π : Type} [DecidableEq ι] [DecidableEq π] {env : Env ι} {n : Nat}
  {maxRetries : Number} {db₀ : Db}

/-- A message for the order is in a queue, or delivered and unsettled. -/
def HasMessage (s : State ι π) (id : UUID) : Prop :=
  (∃ q, ∃ c ∈ s.worker.broker.queues q, c.message.orderId = id) ∨
    ∃ d ∈ s.worker.broker.unsettled, d.message.message.orderId = id

/-- The order of this COMMIT is no longer `created`, or has a message, or its call is still running
and will attempt the send. -/
def CoveredCommit (s : State ι π) (c : ι) (tx : Tx) : Prop :=
  ∀ o ∈ s.orders.db.orders, o.id = tx.order.id → o.status = .created →
    HasMessage s o.id ∨ (s.orders.calls c).toSend = true

/-- Every order committed by a call is covered. -/
def Covered (s : State ι π) : Prop :=
  ∀ c tx, .committed c tx ∈ s.orders.history → CoveredCommit s c tx

instance (s : State ι π) (id : UUID) : Decidable (HasMessage s id) :=
  inferInstanceAs (Decidable (_ ∨ _))

instance (s : State ι π) (c : ι) (tx : Tx) : Decidable (CoveredCommit s c tx) :=
  inferInstanceAs (Decidable (∀ o ∈ s.orders.db.orders, _))

instance (s : State ι π) : Decidable (Covered s) :=
  decidable_of_iff (s.orders.history.all (fun e => match e with
      | .committed c tx => CoveredCommit s c tx
      | .sent _ _ => true) = true) <| by
    rw [List.all_eq_true]
    constructor
    · exact fun h c tx hc => of_decide_eq_true (h _ hc)
    · intro h e he
      cases e with
      | committed c tx => exact decide_eq_true (h c tx he)
      | sent c m => rfl

/-- No send throws, and no call is stopped between its COMMIT and its send. -/
def SendsSucceed (s : State ι π) : Label ι π → Prop
  | .calls (.sendThrows _) => False
  | .calls (.kill c) => (s.orders.calls c).toSend = false
  | _ => True

/-! ## Calls on the way to their send -/

section Calls

variable {o o' : Sys ι} {l : Orders.Label ι} {c : ι} {tx : Tx}

theorem toSend_advance (h : Orders.Advance env o c o') (hc : (o.calls c).toSend = true) :
    (o'.calls c).toSend = true ∨ ∃ result, o.calls c = .publishing result := by
  cases h with
  | throws tx e why =>
    generalize o.calls c = ph at why hc
    cases why <;> cases hc
  | release result hph => exact .inl (by simp [Orders.Phase.toSend])
  | send result hph => exact .inr ⟨result, hph⟩
  | _ => simp_all [Orders.Phase.toSend]

/-- A COMMIT that is new is followed by a send. -/
theorem committed_before (hs : Orders.Step env o l o') (hc : .committed c tx ∈ o'.history) :
    .committed c tx ∈ o.history ∨ ((o'.calls c).toSend = true ∧
      ∃ result, o.calls c = .reread tx result ∧ o'.db = o.db.apply tx) := by
  cases hs with
  | advance d hadv =>
    rcases (Orders.advance_cases hadv).writes with ⟨tx', result, hph, rfl⟩ | ⟨result, -, rfl⟩ | hquiet
    · refine (List.mem_append.mp hc).imp_right fun hnew => ?_
      cases List.mem_singleton.mp hnew
      exact ⟨by simp [Sys.commit, Orders.Phase.toSend], result, hph, rfl⟩
    · refine .inl ((List.mem_append.mp hc).resolve_right fun hnew => ?_)
      cases List.mem_singleton.mp hnew
    · exact .inl (hquiet.history ▸ hc)
  | fault d hd => exact .inl ((quiet_fault o d).history ▸ hc)
  | _ => exact .inl hc

omit [DecidableEq ι] in
/-- A call in another phase than the one that moves stays where it is. -/
theorem calls_of_others {p : Orders.Phase → Bool} {d : ι}
    (hothers : ∀ e, e ≠ d → o'.calls e = o.calls e) (hc : p (o.calls c) = true)
    (hd : p (o.calls d) = false) : o'.calls c = o.calls c := by
  apply hothers
  rintro rfl
  rw [hc] at hd
  cases hd

/-- A call stays on its way until it sends. -/
theorem toSend_step (hs : Orders.Step env o l o') (hthrow : ∀ d, l ≠ .sendThrows d)
    (hkill : ∀ d, l = .kill d → (o.calls d).toSend = false) (hc : (o.calls c).toSend = true) :
    (o'.calls c).toSend = true ∨ ∃ result, l = .advance c ∧ o.calls c = .publishing result := by
  -- a step of a call that has nothing to send is not a step of c
  have moved : ∀ d, (∀ e, e ≠ d → o'.calls e = o.calls e) → (o.calls d).toSend = false →
      (o'.calls c).toSend = true := by
    intro d hothers hd
    rwa [calls_of_others hothers hc hd]
  cases hs with
  | advance d hadv =>
    have hcases := Orders.advance_cases hadv
    by_cases hcd : c = d
    · subst hcd
      refine (toSend_advance hcases hc).imp_right ?_
      rintro ⟨result, hph⟩
      exact ⟨result, rfl, hph⟩
    · rw [hcases.others c hcd]
      exact .inl hc
  | fault d hd =>
    refine .inl (moved d (quiet_fault o d).others ?_)
    generalize o.calls d = ph at hd
    cases ph <;> first | rfl | cases hd
  | sendThrows d result hd => exact absurd rfl (hthrow d)
  | kill d hd => exact .inl (moved d (quiet_kill o d).others (hkill d rfl))
  | worker db hw => exact .inl hc

omit [DecidableEq ι] in
/-- The message a call sends is the one of the order it has committed. -/
theorem publishing_id (hi : Orders.Inv env db₀ o) (hl : Log env db₀ o) (hres : Results env o)
    {result : OrderView} (hc : o.calls c = .publishing result)
    (htx : .committed c tx ∈ o.history) : result.id = tx.order.id := by
  obtain ⟨-, hopen, o₁, ho₁, hid₁, hkey₁⟩ := hl.committed c tx htx
  obtain ⟨pair, hpair, o₂, ho₂, hkey₂, hid₂, -⟩ := hres.result c result (by rw [hc]; rfl)
  have hpair' : pair = tx.order.key := Option.some.inj (hpair.symm.trans hopen.pair)
  have heq : o₂ = o₁ :=
    List.inj_on_of_nodup_map hi.valid.orderKeys ho₂ ho₁ (hkey₂.trans (hpair'.trans hkey₁.symm))
  rw [hid₂, heq, hid₁]

end Calls

/-! ## The law of a run -/

section Run

variable {s s' : State ι π} {l : Label ι π}

/-- Every call that has committed is on its way to its send, or its message has been published. -/
def Sent (s : State ι π) : Prop :=
  ∀ c tx, .committed c tx ∈ s.orders.history → (s.orders.calls c).toSend = true ∨
    ∃ copy, .published copy ∈ s.worker.history ∧ copy.ids = (tx.order.id, tx.order.id)

omit [DecidableEq ι] [DecidableEq π] in
theorem history_afterCalls (s : State ι π) (l : Orders.Label ι) (o' : Sys ι) :
    s.worker.history ⊆ (s.afterCalls env l o').worker.history := by
  unfold State.afterCalls
  simp only
  split
  · exact List.subset_append_left ..
  · exact List.Subset.refl _

theorem Sent.step (h : Sent s) (hi : Orders.Inv env db₀ s.orders) (hl : Log env db₀ s.orders)
    (hres : Results env s.orders) (hok : SendsSucceed s l) (hs : Step env maxRetries s l s') :
    Sent s' := by
  intro c tx hc
  cases hs with
  | worker l hf hw =>
    refine (h c tx hc).imp_right ?_
    rintro ⟨copy, hcopy, hids⟩
    exact ⟨copy, hw.effect.history hcopy, hids⟩
  | @calls o' l hf ho =>
    rcases committed_before ho hc with hold | hnew
    · rcases h c tx hold with hsend | ⟨copy, hcopy, hids⟩
      · refine (toSend_step ho ?_ ?_ hsend).imp_right ?_
        · rintro d rfl
          exact hok
        · rintro d rfl
          exact hok
        · -- the send: its message is published in this step
          rintro ⟨result, rfl, hph⟩
          have hid := publishing_id hi hl hres hph hold
          refine ⟨{ message := .new result.id result.id (env.choices c).sentAt
                    pub := s.worker.nextPub }, ?_, by rw [← hid]; rfl⟩
          simp only [State.afterCalls, message?, hph]
          exact List.mem_append_right _ (List.mem_singleton_self _)
      · exact .inr ⟨copy, history_afterCalls s l o' hcopy, hids⟩
    · exact .inl hnew.1

theorem reachable_sent (hv : db₀.Valid) (hf : FreshIds env db₀)
    (hr : (system env n maxRetries db₀).Reach SendsSucceed s) : Sent s := by
  refine hr.invariant (fun s h0 c tx hc => by rw [h0] at hc; cases hc) ?_
  intro s l s' hreach h hok hs
  have ho := Reach.orders hreach
  exact h.step (ho.inv hv hf) (ho.log hv hf) (ho.results hv hf) hok hs

theorem Reach.covered (hv : db₀.Valid) (hf : FreshIds env db₀)
    (hrows : FreshRows env db₀) (hp : Paired db₀)
    (hr : (system env n maxRetries db₀).Reach SendsSucceed s) : Covered s := by
  have hsent := reachable_sent hv hf hr
  have hw := Reach.worker hr hv hf hrows hp
  intro c tx hc o ho hid hstatus
  refine (hsent c tx hc).symm.imp_left ?_
  rintro ⟨copy, hcopy, hids⟩
  have hids' : copy.message.messageId = o.id ∧ copy.message.orderId = o.id := by
    rw [hid]
    exact Prod.mk.inj hids
  -- an order that is still `created` has no row, so the message is not processed
  have hrow : ¬ Processed s.worker.db copy.message := by
    intro hproc
    rw [sync hr] at ho
    have hdone := ((reachable_effects hw hp).paired o ho).mp (by
      unfold orderRow
      rw [← hids'.1]
      exact hproc)
    exact absurd (hstatus.symm.trans hdone.1) (by decide)
  have orderId : ∀ c' : Copy, c'.ids = copy.ids → c'.message.orderId = o.id :=
    fun c' hc' => (congrArg Prod.snd hc').trans hids'.2
  rcases (reachable_kept hw).noLoss.kept copy hcopy with hproc | ⟨q, c', hc', hsame⟩ | ⟨d, hd, hsame⟩
  · exact absurd hproc hrow
  · exact .inl ⟨q, c', hc', orderId c' hsame⟩
  · exact .inr ⟨d, hd, orderId d.message hsame⟩

end Run

/-! ## A fault between COMMIT and send -/

section Faults

variable {s s' : State ι π} {l : Label ι π}

theorem done_step {o o' : Sys ι} {l : Orders.Label ι} {c : ι} (hs : Orders.Step env o l o')
    (hc : (o.calls c).isDone = true) : (o'.calls c).isDone = true := by
  have moved : ∀ d, (∀ e, e ≠ d → o'.calls e = o.calls e) → (o.calls d).isDone = false →
      (o'.calls c).isDone = true := by
    intro d hothers hd
    rwa [calls_of_others hothers hc hd]
  cases hs with
  | advance d hadv =>
    have hcases := Orders.advance_cases hadv
    exact moved d hcases.others hcases.not_done
  | fault d hd => exact moved d (quiet_fault o d).others (beforeCommit_not_after hd).2
  | sendThrows d result hd =>
    exact moved d (fun e he => setPhase_of_ne o _ he) (by rw [hd]; rfl)
  | kill d hd => exact moved d (quiet_kill o d).others hd
  | worker db hw => exact hc

/-- A call that has not sent yet has its order still `created`, and no message is about it. -/
structure Unsent (env : Env ι) (s : State ι π) : Prop where
  copies : Carried (fun copy => ∃ d, (s.orders.calls d).isDone = true ∧
    copy.message.orderId = (env.choices d).newId) s.worker
  created : ∀ c tx, .committed c tx ∈ s.orders.history → (s.orders.calls c).toSend = true →
    ∃ o ∈ s.orders.db.orders, o.id = tx.order.id ∧ o.status = .created

/-- A call past its COMMIT that is not finished is about to send. -/
theorem toSend_of_afterCommit {ph : Orders.Phase} (hafter : ph.afterCommit = true)
    (hdone : ph.isDone = false) : ph.toSend = true := by
  cases ph <;> first | rfl | cases hafter | cases hdone

theorem toSend_not_done {ph : Orders.Phase} (h : ph.toSend = true) : ph.isDone = false := by
  cases ph <;> first | rfl | cases h

theorem Unsent.copies_step (h : Unsent env s) (hi : Orders.Inv env db₀ s.orders)
    (hl : Log env db₀ s.orders) (hres : Results env s.orders)
    (hs : Step env maxRetries s l s') :
    Carried (fun copy => ∃ d, (s'.orders.calls d).isDone = true ∧
      copy.message.orderId = (env.choices d).newId) s'.worker := by
  cases hs with
  | worker l hf hw =>
    exact h.copies.step hw (fun m hm => by rw [hm] at hf; cases hf) fun copy hcopy => hcopy
  | @calls o' l hf ho =>
    have hold : Carried (fun copy => ∃ d, (o'.calls d).isDone = true ∧
        copy.message.orderId = (env.choices d).newId) s.worker := by
      refine h.copies.mono fun copy hcopy => ?_
      obtain ⟨d, hdone, hid⟩ := hcopy
      exact ⟨d, done_step ho hdone, hid⟩
    unfold State.afterCalls
    rcases calls_cases ho hf with ⟨hnone, -⟩ | ⟨c, result, rfl, hph, rfl, hsome⟩
    · simp only [hnone]
      exact ⟨hold.broker, hold.handlers⟩
    · simp only [hsome]
      refine ⟨hold.broker.put .process ⟨c, by simp [Sys.send, Orders.Phase.isDone], ?_⟩,
        hold.handlers⟩
      -- the message that is sent is that of the order the call has committed
      obtain ⟨tx, htx⟩ := hl.toSend c (by rw [hph]; rfl)
      show result.id = _
      rw [publishing_id hi hl hres hph htx, (hl.committed c tx htx).2.1.order_id]

theorem Unsent.created_step (h : Unsent env s) (hi : Orders.Inv env db₀ s.orders)
    (hl : Log env db₀ s.orders) (hdb : s.orders.db = s.worker.db)
    (hs : Step env maxRetries s l s') :
    ∀ c tx, .committed c tx ∈ s'.orders.history → (s'.orders.calls c).toSend = true →
      ∃ o ∈ s'.orders.db.orders, o.id = tx.order.id ∧ o.status = .created := by
  intro c tx hc hsend
  cases hs with
  | worker l hf hw =>
    change (s.orders.calls c).toSend = true at hsend
    obtain ⟨o, ho, hid, hstatus⟩ := h.created c tx hc hsend
    cases hw.effect with
    | nothing heq hhistory => exact ⟨o, by rw [hdb, ← heq] at ho; exact ho, hid, hstatus⟩
    | shop hshop hchange hhistory =>
      rw [hshop] at hf
      cases hf
    | published copy heq hbroker hhistory =>
      exact ⟨o, by rw [hdb, ← heq] at ho; exact ho, hid, hstatus⟩
    | duplicate tag hd hh heq hhistory =>
      exact ⟨o, by rw [hdb, ← heq] at ho; exact ho, hid, hstatus⟩
    | committed tag hd update hh hph hself hothers heq hhistory =>
      -- the handler's message is about another order
      obtain ⟨d, hdone, hord⟩ := h.copies.handlers tag hd hh
      have hne : o.id ≠ hd.copy.message.orderId := by
        intro heq'
        rw [hid, (hl.committed c tx hc).2.1.order_id, hord] at heq'
        rw [← env.newId_injective heq', toSend_not_done hsend] at hdone
        cases hdone
      refine ⟨o, ?_, hid, hstatus⟩
      show o ∈ Db.orders _
      rw [show (s.afterWorker _).orders.db = _ from heq]
      rw [hdb] at ho
      cases update with
      | none => exact ho
      | some u => exact List.mem_map.mpr ⟨o, ho, if_neg hne⟩
  | @calls o' l hf ho =>
    change (o'.calls c).toSend = true at hsend
    -- the call had committed before, or it commits now
    rcases committed_before ho hc with hold | ⟨-, result, hph, heq⟩
    · have hnot : (s.orders.calls c).isDone = false := by
        by_contra hne
        have hdone := done_step ho (Bool.eq_true_of_not_eq_false hne)
        rw [toSend_not_done hsend] at hdone
        cases hdone
      obtain ⟨o, hmem, hid, hstatus⟩ :=
        h.created c tx hold (toSend_of_afterCommit (hl.committed c tx hold).1 hnot)
      refine ⟨o, ?_, hid, hstatus⟩
      show o ∈ o'.db.orders
      rcases calls_cases ho hf with ⟨-, heq | ⟨d, tx', result, -, heq⟩⟩ | ⟨d, result, -, -, rfl, -⟩
      · rwa [heq]
      · rw [heq]
        exact List.mem_append_left _ hmem
      · exact hmem
    · obtain ⟨key, -, horder⟩ := ((hi.phases c).opened (by rw [hph]; rfl))
      refine ⟨tx.order, ?_, rfl, by rw [horder]; rfl⟩
      show tx.order ∈ o'.db.orders
      rw [heq]
      exact List.mem_append_right _ (List.mem_singleton_self _)

theorem reachable_unsent {ok : State ι π → Label ι π → Prop} (hv : db₀.Valid)
    (hf : FreshIds env db₀) (hr : (system env n maxRetries db₀).Reach ok s) : Unsent env s := by
  refine hr.invariant (fun s h0 => ?_) fun s l s' hreach h _ hs => ?_
  · rw [h0]
    exact ⟨⟨Amqp.Broker.all_initial, fun t hd hh => by cases hh⟩, fun c tx hc => by cases hc⟩
  · have ho := Reach.orders hreach
    have hi := ho.inv hv hf
    have hl := ho.log hv hf
    exact ⟨h.copies_step hi hl (ho.results hv hf) hs, h.created_step hi hl (sync hreach) hs⟩

omit [DecidableEq ι] [DecidableEq π] in
/-- A call that ends between its COMMIT and its send leaves its order without a message. -/
theorem Unsent.uncovered (h : Unsent env s) (hl : Log env db₀ s.orders) (o' : Sys ι) {c : ι}
    (hsend : (s.orders.calls c).toSend = true) (hdone : (o'.calls c).isDone = true)
    (hdb : o'.db = s.orders.db) (hhistory : o'.history = s.orders.history) {l : Orders.Label ι}
    (hl' : message? env s.orders l = none) : ¬ Covered (s.afterCalls env l o') := by
  obtain ⟨tx, htx⟩ := hl.toSend c hsend
  obtain ⟨o, ho, hid, hstatus⟩ := h.created c tx htx hsend
  -- messages are about the orders of calls that have ended, and this one has not
  have hnone : ∀ copy : Copy, (∃ d, (s.orders.calls d).isDone = true ∧
      copy.message.orderId = (env.choices d).newId) → copy.message.orderId ≠ o.id := by
    rintro copy ⟨d, hd, hord⟩ heq
    rw [hid, (hl.committed c tx htx).2.1.order_id, hord] at heq
    rw [env.newId_injective heq, toSend_not_done hsend] at hd
    cases hd
  intro hcov
  have hcovered := hcov c tx (by
    show _ ∈ o'.history
    rwa [hhistory]) o (by
    show o ∈ o'.db.orders
    rwa [hdb]) hid hstatus
  simp only [State.afterCalls, hl'] at hcovered
  rcases hcovered with (⟨q, copy, hcopy, heq⟩ | ⟨d, hd, heq⟩) | hsend'
  · exact hnone copy (h.copies.broker.queues q copy hcopy) heq
  · exact hnone d.message (h.copies.broker.unsettled d hd) heq
  · rw [toSend_not_done hsend'] at hdone
    cases hdone

/-- As long as no fault falls between a COMMIT and its send, no committed order is left without a
processing message; the first such fault leaves one. -/
theorem committed_orders_covered (hv : db₀.Valid) (hf : FreshIds env db₀)
    (hrows : FreshRows env db₀) (hp : Paired db₀)
    (hr : (system env n maxRetries db₀).Reach SendsSucceed s) :
    Covered s ∧ ∀ l s', Step env maxRetries s l s' → (Covered s' ↔ SendsSucceed s l) := by
  refine ⟨Reach.covered hv hf hrows hp hr, fun l s' hs => ⟨fun hcov => ?_, fun hok => ?_⟩⟩
  · have hl := (Reach.orders hr).log hv hf
    have hunsent := reachable_unsent hv hf hr
    -- the steps the condition excludes are a throwing send and a kill after the COMMIT
    by_contra hnot
    cases hs with
    | worker l hf hw => exact hnot trivial
    | calls l hf ho =>
      cases ho with
      | sendThrows c result hc =>
        refine hunsent.uncovered (c := c) hl (s.orders.sendThrows c) (by rw [hc]; rfl) ?_ rfl rfl rfl
          hcov
        simp [Sys.sendThrows, Orders.Phase.isDone]
      | kill c hc =>
        have hsend : (s.orders.calls c).toSend = true := by
          simpa [SendsSucceed] using hnot
        refine hunsent.uncovered hl (s.orders.kill c) hsend ?_ rfl rfl rfl hcov
        simp [Sys.kill, Orders.Phase.isDone]
      | _ => exact hnot trivial
  · exact Reach.covered hv hf hrows hp (hr.step hok hs)

end Faults

/-! ## A repeat after a send that threw -/

/-- The first call commits and its send throws; its repeat returns the order, and nobody has a
message for it. -/
theorem committed_order_uncovered : ∃ (env : Env (Fin 2)) (s : State (Fin 2) Unit),
    (system env 3 (.ofInt 3) shop).Reach System.anyStep s ∧ FreshIds env shop ∧
      (s.orders.calls 1).returned?.isSome = true ∧ ¬ Covered s := by
  let env := shopEnv (fun _ => false) fun _ => shopRequest 50 60 [1]
  have hinit : (system env 3 (.ofInt 3) shop).Reach System.anyStep
      (State.initial 3 shop : State (Fin 2) Unit) := .init rfl
  obtain ⟨s, hr, hs⟩ := reach_of_run hinit
    (List.replicate 10 (.advance 0) ++ [.sendThrows 0] ++ List.replicate 5 (.advance 1))
    (fun _ _ _ => trivial)
    (p := fun s => decide ((s.orders.calls 1).returned?.isSome = true ∧ ¬ Covered s))
    (by decide +kernel)
  obtain ⟨hreturned, huncovered⟩ := of_decide_eq_true hs
  exact ⟨env, s, hr, freshIds_shop _ _, hreturned, huncovered⟩

/-- Where the send goes through, the message is in the queue. -/
theorem committed_orders_covered_sent : ∃ (env : Env (Fin 2)) (s : State (Fin 2) Unit),
    (s.worker.broker.queues .process).length = 1 ∧ Covered s ∧
      ∀ l s', Step env (.ofInt 3) s l s' → (Covered s' ↔ SendsSucceed s l) := by
  let env := shopEnv (fun _ => false) fun _ => shopRequest 50 60 [1]
  have hinit : (system env 3 (.ofInt 3) shop).Reach SendsSucceed
      (State.initial 3 shop : State (Fin 2) Unit) := .init rfl
  obtain ⟨s, hr, hs⟩ := reach_of_run hinit (List.replicate 11 (.advance 0))
    (fun l hl s => by rw [List.eq_of_mem_replicate hl]; trivial)
    (p := fun s => decide ((s.worker.broker.queues .process).length = 1)) (by decide +kernel)
  have hfresh : FreshIds env shop := freshIds_shop _ _
  exact ⟨env, s, of_decide_eq_true hs, committed_orders_covered (by decide) hfresh
    (fun c row hrow => by cases hrow) (fun o ho => by cases ho) hr⟩

end Ecommerce.Platform
