import Ecommerce.Orders.Atomicity
import Ecommerce.Platform.OrderLifecycle
import Ecommerce.Platform.MessageCoverage
import Ecommerce.Worker.FaultFree

/-!
# OrdersSettle — every committed order comes to an end

The platform runs for ever, or pauses for good.  Once its failures have come to an end, and as long
as nothing that stays possible is put off for ever, a committed order whose message is not kept from
being sent is processed, or its message is on `orders.dlq`.
-/

namespace Ecommerce.Platform

open Transition Orders Worker

variable {ι π : Type} [DecidableEq ι] [DecidableEq π] {env : Env ι} {n : Nat}
  {maxRetries : Number} {db₀ : Db}

section Runs

variable (r : System.Run (system env n maxRetries db₀ : System (State ι π) (Label ι π)).idling
  System.anyStep)

/-- Every send of a call succeeds, and broker calls of the worker throw on closed channels only. -/
structure SendsReach : Prop where
  calls : ∀ k l, r.label k = some l → SendsSucceed (r.state k) l
  worker : ∀ k tag f, r.label k = some (.worker (.advance tag f)) → f = .none

/-- From step `N` on nothing fails in the worker, and at some time a process of it is up. -/
structure Subsides (N : Nat) : Prop where
  calm : ∀ k l, N ≤ k → r.label k = some (.worker l) → Worker.Calm (r.state k).worker l
  up : Worker.Up (r.state N).worker
  serving : ∃ k o, N ≤ k ∧ (r.state k).worker.running o = true

/-- No step that stays possible is put off for ever. -/
structure Fairly : Prop where
  worker : ∀ duty, r.Fair fun s l s' =>
    ∃ w, l = some (.worker w) ∧ Serves duty s.worker w s'.worker
  calls : ∀ c, r.Fair fun _ l _ => l = some (.calls (.advance c))

variable {r} {k N : Nat} {c : ι} {tx : Tx}

theorem reach_platform (k : Nat) :
    (system env n maxRetries db₀).Reach System.anyStep (r.state k) :=
  (r.reach k).of_idling fun _ _ _ => trivial

theorem reach_sendsSucceed (hs : SendsReach r) (k : Nat) :
    (system env n maxRetries db₀).Reach SendsSucceed (r.state k) := by
  have hr : (system env n maxRetries db₀).idling.Reach
      (fun s l => ∀ l', l = some l' → SendsSucceed s l') (r.state k) :=
    System.Run.reach_of (fun k l hl => hs.calls k l hl) k
  exact hr.of_idling fun _ _ h => h _ rfl

/-! ## The worker's side of a run -/

omit [DecidableEq ι] [DecidableEq π] in
/-- No duty is that of another part of the platform. -/
theorem own_of_serves {duty : Duty π} {s s' : Worker.State π} {l : Worker.Label π}
    (h : Serves duty s l s') : foreign (.worker l : Label ι π) = false := by
  cases duty with
  | handler tag =>
    obtain ⟨f, rfl⟩ := h
    rfl
  | channel o => obtain rfl | rfl := h <;> rfl
  | closing o =>
    obtain ⟨rfl, -⟩ := h
    rfl
  | delivery ids =>
    obtain ⟨o, hd, rfl, -⟩ := h
    rfl

/-- What the worker sees of a step or of a pause. -/
def SeenAs (l : Option (Label ι π)) (m : Worker.Label π) : Prop :=
  match l with
  | some l => WorkerSees l m
  | none => m = .shop

theorem exists_workerRun (r : System.Run
    (system env n maxRetries db₀ : System (State ι π) (Label ι π)).idling System.anyStep)
    (hv : db₀.Valid) (hf : FreshIds env db₀) (hrows : FreshRows env db₀) (hp : Paired db₀) :
    ∃ w : System.Run (Worker.system maxRetries db₀ : System (Worker.State π) (Worker.Label π))
      System.anyStep, (∀ k, w.state k = (r.state k).worker) ∧ ∀ k, SeenAs (r.label k) (w.label k) := by
  refine r.project State.worker SeenAs (fun s h0 => by rw [h0]; rfl) ?_
  intro s l s' hr _ hs
  have hr' : (system env n maxRetries db₀).Reach System.anyStep s :=
    hr.of_idling fun _ _ _ => trivial
  cases l with
  | none =>
    rw [show s' = s from hs]
    exact ⟨.shop, trivial, .shop _ ⟨rfl, [], (List.append_nil _).symm, fun o ho => by cases ho⟩, rfl⟩
  | some l =>
    obtain ⟨m, -, hstep, hsees⟩ := Step.worker_step hr' hv hf hrows hp
      (Reach.worker hr' hv hf hrows hp) hs
    exact ⟨m, trivial, hstep, hsees⟩

variable {w : System.Run (Worker.system maxRetries db₀ : System (Worker.State π) (Worker.Label π))
  System.anyStep}

theorem Fairly.workerRun (hfair : Fairly r) (hstate : ∀ k, w.state k = (r.state k).worker)
    (hlabel : ∀ k, SeenAs (r.label k) (w.label k)) (duty : Duty π) : w.Fair (Serves duty) := by
  intro k hpossible
  obtain ⟨j, hj, l, hl, hserves⟩ := hfair.worker duty k fun j hj => by
    obtain ⟨l, s', -, hs, hserves⟩ := hpossible j hj
    rw [hstate] at hs hserves
    exact ⟨some (.worker l), (r.state j).afterWorker s', trivial, .worker l (own_of_serves hserves) hs,
      l, rfl, hserves⟩
  refine ⟨j, hj, ?_⟩
  have hsees := hlabel j
  rw [hl] at hsees
  generalize hm : w.label j = m at hsees
  cases hsees with
  | own l hown =>
    unfold System.Run.Takes
    rw [hstate, hstate, hm]
    exact hserves

theorem calms_of_subsides (hs : SendsReach r) (hsub : Subsides r N)
    (hstate : ∀ k, w.state k = (r.state k).worker)
    (hlabel : ∀ k, SeenAs (r.label k) (w.label k)) (messageId : UUID) : Calms w messageId N where
  genuine := by
    intro k
    have hsees := hlabel k
    generalize hl : r.label k = l at hsees
    generalize w.label k = m at hsees ⊢
    cases l with
    | none =>
      rw [show m = .shop from hsees]
      trivial
    | some l =>
      cases hsees with
      | own m hown =>
        cases m with
        | advance tag f => exact hs.worker k tag f hl
        | publish m => cases hown
        | _ => trivial
      | shop l => trivial
      -- the message of an order simulates nothing
      | sent l id sentAt => exact fun _ => rfl
  calm := by
    intro k hk
    have hsees := hlabel k
    generalize hl : r.label k = l at hsees
    generalize w.label k = m at hsees ⊢
    rw [hstate]
    cases l with
    | none =>
      rw [show m = .shop from hsees]
      trivial
    | some l =>
      cases hsees with
      | own m hown => exact hsub.calm k m hk hl
      | shop l => trivial
      | sent l id sentAt => trivial
  up := by
    rw [hstate]
    exact hsub.up
  serving := by
    obtain ⟨k, o, hk, hrun⟩ := hsub.serving
    exact ⟨k, o, hk, by rw [hstate]; exact hrun⟩

/-! ## Sends -/

/-- Only a step of the call itself moves it on from its COMMIT. -/
theorem toSend_waits {o o' : Sys ι} {l : Orders.Label ι} (hs : Orders.Step env o l o')
    (hl : l ≠ .advance c) (hthrow : ∀ d, l ≠ .sendThrows d)
    (hkill : ∀ d, l = .kill d → (o.calls d).toSend = false) (hc : (o.calls c).toSend = true) :
    o'.calls c = o.calls c := by
  cases hs with
  | advance d hadv => exact (Orders.advance_cases hadv).others c fun heq => hl (heq ▸ rfl)
  | fault d hd =>
    refine calls_of_others (quiet_fault o d).others hc ?_
    generalize o.calls d = ph at hd
    cases ph <;> first | rfl | cases hd
  | sendThrows d result hd => exact absurd rfl (hthrow d)
  | kill d hd => exact calls_of_others (quiet_kill o d).others hc (hkill d rfl)
  | worker db hw => rfl

/-- A call that has committed takes its next step. -/
theorem Fairly.call_turn (hfair : Fairly r) (hs : SendsReach r)
    (hc : ((r.state k).orders.calls c).toSend = true) :
    ∃ j o', k ≤ j ∧ (r.state j).orders.calls c = (r.state k).orders.calls c ∧
      (r.state j).orders.advance env c = some o' ∧
      r.state (j + 1) = (r.state j).afterCalls env (.advance c) o' := by
  by_contra hnone
  have hwaits : ∀ j, k ≤ j → (r.state j).orders.calls c = (r.state k).orders.calls c := by
    intro j hj
    refine r.persists (P := fun s => s.orders.calls c = (r.state k).orders.calls c) rfl ?_ hj
    intro i hi heq
    have hstep := r.step i
    generalize hl : r.label i = l at hstep
    generalize hafter : r.state (i + 1) = s' at hstep
    cases l with
    | none =>
      rw [show s' = r.state i from hstep]
      exact heq
    | some l =>
      have hsend := hs.calls i l hl
      cases hstep with
      | worker l hown hw => exact heq
      | calls l hown ho =>
        by_cases hadv : l = .advance c
        · subst hadv
          cases ho with
          | advance _ hadv => exact absurd ⟨i, _, hi, heq, hadv, hafter⟩ hnone
        · rw [← heq] at hc ⊢
          refine toSend_waits ho hadv (fun d hd => ?_) (fun d hd => ?_) hc
          · rw [hd] at hsend
            exact hsend
          · rw [hd] at hsend
            exact hsend
  have hpossible : ∀ j, k ≤ j → ∃ o', (r.state j).orders.advance env c = some o' := by
    intro j hj
    rw [← hwaits j hj] at hc
    generalize hph : (r.state j).orders.calls c = ph at hc
    cases ph with
    | committed result | publishing result =>
      unfold Sys.advance
      rw [hph]
      exact ⟨_, rfl⟩
    | _ => cases hc
  obtain ⟨j, hj, hl⟩ := hfair.calls c k fun j hj => by
    obtain ⟨o', hadv⟩ := hpossible j hj
    exact ⟨some (.calls (.advance c)), (r.state j).afterCalls env (.advance c) o', trivial,
      .calls (.advance c) rfl (.advance c hadv), rfl⟩
  have hstep := r.step j
  rw [hl] at hstep
  generalize hafter : r.state (j + 1) = s' at hstep
  cases hstep with
  | calls _ hown ho =>
    cases ho with
    | advance _ hadv => exact hnone ⟨j, _, hj, hwaits j hj, hadv, hafter⟩

theorem history_grows (r : System.Run
    (system env n maxRetries db₀ : System (State ι π) (Label ι π)).idling System.anyStep) {j : Nat}
    (hj : k ≤ j) : (r.state k).orders.history ⊆ (r.state j).orders.history := by
  refine r.persists (P := fun s => (r.state k).orders.history ⊆ s.orders.history)
    (List.Subset.refl _) ?_ hj
  intro i _ hsub
  have hstep := r.step i
  generalize r.label i = l at hstep
  generalize r.state (i + 1) = s' at hstep ⊢
  cases l with
  | none =>
    rw [show s' = r.state i from hstep]
    exact hsub
  | some l =>
    cases hstep with
    | worker l hown hw => exact hsub
    | calls l hown ho => exact fun _ h => ho.history (hsub h)

/-- The message of a committed order is published. -/
theorem Fairly.published (hfair : Fairly r) (hs : SendsReach r) (hv : db₀.Valid)
    (hf : FreshIds env db₀) (hc : .committed c tx ∈ (r.state k).orders.history) :
    ∃ j copy, k ≤ j ∧ .published copy ∈ (r.state j).worker.history ∧
      copy.ids = (tx.order.id, tx.order.id) := by
  have hsent {j : Nat} (hj : k ≤ j) :=
    reachable_sent hv hf (reach_sendsSucceed hs j) c tx (history_grows r hj hc)
  have hsend {j : Nat} (hj : k ≤ j) {result : OrderView}
      (hph : (r.state j).orders.calls c = .publishing result) :
      ∃ i copy, k ≤ i ∧ .published copy ∈ (r.state i).worker.history ∧
        copy.ids = (tx.order.id, tx.order.id) := by
    obtain ⟨i, o', hi, hph', hadv, hafter⟩ := hfair.call_turn hs (k := j) (c := c) (by rw [hph]; rfl)
    rw [hph] at hph'
    rw [Sys.advance, hph'] at hadv
    -- after the send the call is done
    have hdone : (r.state (i + 1)).orders.calls c = .done (.created result) := by
      rw [hafter]
      show o'.calls c = _
      rw [← Option.some.inj hadv]
      exact Orders.setPhase_self ..
    rcases hsent (j := i + 1) (by omega) with hleft | ⟨copy, hcopy, hids⟩
    · rw [hdone] at hleft
      cases hleft
    · exact ⟨i + 1, copy, by omega, hcopy, hids⟩
  rcases hsent (Nat.le_refl k) with hleft | ⟨copy, hcopy, hids⟩
  · cases hph : (r.state k).orders.calls c with
    | publishing result => exact hsend (Nat.le_refl k) hph
    | committed result =>
      obtain ⟨j, o', hj, hph', hadv, hafter⟩ := hfair.call_turn hs hleft
      rw [hph] at hph'
      rw [Sys.advance, hph'] at hadv
      have hpublishing : (r.state (j + 1)).orders.calls c = .publishing result := by
        rw [hafter]
        show o'.calls c = _
        rw [← Option.some.inj hadv]
        exact Orders.setPhase_self ..
      exact hsend (by omega) hpublishing
    | _ =>
      rw [hph] at hleft
      cases hleft
  · exact ⟨k, copy, Nat.le_refl k, hcopy, hids⟩

/-! ## The end of an order -/

theorem done_of_processed (hv : db₀.Valid) (hf : FreshIds env db₀) (hrows : FreshRows env db₀)
    (hp : Paired db₀) (hc : .committed c tx ∈ (r.state k).orders.history) {m : ProcessOrderMessage}
    (hid : m.messageId = tx.order.id) (hrow : Processed (r.state k).worker.db m) :
    ∃ o ∈ (r.state k).orders.db.orders, o.id = tx.order.id ∧ Done o := by
  have hr := reach_platform (r := r) k
  obtain ⟨-, -, o, ho, hoid, -⟩ := ((Reach.orders hr).log hv hf).committed c tx hc
  refine ⟨o, ho, hoid, ?_⟩
  rw [sync hr] at ho
  refine ((reachable_effects (Reach.worker hr hv hf hrows hp) hp).paired o ho).mp ?_
  unfold orderRow
  rw [hoid, ← hid]
  exact hrow

/-- In a fair run whose failures come to an end every committed order is at last processed, or has
its message on `orders.dlq`, and stays so. -/
theorem orders_settle (hv : db₀.Valid) (hf : FreshIds env db₀) (hrows : FreshRows env db₀)
    (hp : Paired db₀) (hs : SendsReach r) (hsub : Subsides r N) (hfair : Fairly r)
    (hc : .committed c tx ∈ (r.state k).orders.history) :
    ∃ M, ∀ j, M ≤ j →
      (∃ o ∈ (r.state j).orders.db.orders, o.id = tx.order.id ∧ Done o) ∨
        ∃ copy ∈ (r.state j).worker.broker.queues .dlq, copy.ids = (tx.order.id, tx.order.id) := by
  obtain ⟨w, hstate, hlabel⟩ := exists_workerRun r hv hf hrows hp
  obtain ⟨i, copy, hi, hpub, hids⟩ := hfair.published hs hv hf hc
  rw [← hstate] at hpub
  obtain ⟨M, hM⟩ := settled_eventually (calms_of_subsides hs hsub hstate hlabel _)
    (hfair.workerRun hstate hlabel) hpub
  refine ⟨max M k, fun j hj => ?_⟩
  have hsettled := hM j (le_of_max_le_left hj)
  unfold Settled at hsettled
  rw [hstate] at hsettled
  rcases hsettled with hrow | ⟨c', hc', hsame⟩
  · exact .inl (done_of_processed hv hf hrows hp
      (history_grows r (le_of_max_le_right hj) hc) (congrArg Prod.fst hids) hrow)
  · exact .inr ⟨c', hc', hsame.trans hids⟩

/-- And where no statement fails in a transaction of its message, the order is processed, whatever
processes have crashed and channels have closed. -/
theorem orders_processed_despite_crashes (hv : db₀.Valid) (hf : FreshIds env db₀)
    (hrows : FreshRows env db₀) (hp : Paired db₀) (hs : SendsReach r) (hsub : Subsides r N)
    (hfair : Fairly r) (hc : .committed c tx ∈ (r.state k).orders.history)
    (hfree : ∀ j tag h, r.label j = some (.worker (.fault tag)) →
      (r.state j).worker.handlers tag = some h → h.copy.message.messageId ≠ tx.order.id) :
    ∃ M, ∀ j, M ≤ j → ∃ o ∈ (r.state j).orders.db.orders, o.id = tx.order.id ∧ Done o := by
  obtain ⟨w, hstate, hlabel⟩ := exists_workerRun r hv hf hrows hp
  obtain ⟨i, copy, hi, hpub, hids⟩ := hfair.published hs hv hf hc
  have hid : copy.message.messageId = tx.order.id := congrArg Prod.fst hids
  rw [← hstate] at hpub
  have hcalms := calms_of_subsides hs hsub hstate hlabel copy.message.messageId
  obtain ⟨M, hM⟩ := settled_eventually hcalms (hfair.workerRun hstate hlabel) hpub
  have hspared (j : Nat) : Spared copy.message.messageId (w.state j) := by
    refine reachable_spared (System.Run.reach_of (fun i => ⟨hcalms.genuine i, ?_⟩) j)
    intro tag h hl hh
    rw [hstate] at hh
    rw [hid]
    have hsees := hlabel i
    rw [hl] at hsees
    generalize hlab : r.label i = l at hsees
    cases l with
    | none => cases hsees
    | some l =>
      cases hsees with
      | own m hown => exact hfree i tag h hlab hh
  refine ⟨max M k, fun j hj => ?_⟩
  have hrow := (hM j (le_of_max_le_left hj)).processed (hspared j)
  rw [hstate] at hrow
  exact done_of_processed hv hf hrows hp (history_grows r (le_of_max_le_right hj) hc) hid hrow

end Runs

/-! ## A process that crashes -/

section Crash

/-- A user submits an order twice.  The first worker dies after its insert, and another one starts. -/
def crashLabels : List (Label (Fin 2) Unit) :=
  List.replicate 11 (.calls (.advance ⟨0, Nat.two_pos⟩)) ++
    List.replicate 5 (.calls (.advance ⟨1, Nat.one_lt_two⟩)) ++
    [.worker (.start ()), .worker (.deliver ()), .worker (.advance 0 .none), .worker (.die ()),
      .worker (.close ()), .worker (.start ()), .worker (.deliver ()), .worker (.advance 1 .none),
      .worker (.advance 1 .none), .worker (.advance 1 .none), .worker (.advance 1 .none),
      .worker (.take ())]

def crashRun : System.Run
    (system singleEnv 3 (.ofInt 3) shop : System (State (Fin 2) Unit) (Label (Fin 2) Unit)).idling
    System.anyStep :=
  .ofList
    (fun s l s' (h : s.perform singleEnv (.ofInt 3) ⟨2, 3⟩ l = some s') => step_of_perform h) rfl
    crashLabels (by decide +kernel)

/-- The calls are answered, and the worker has nothing left to do. -/
structure Rested (s : State (Fin 2) Unit) : Prop where
  calls : ∀ c, (s.orders.calls c).isDone = true
  worker : Worker.Rested s.worker

theorem crashRun_rests {k : Nat} (hk : 28 ≤ k) : Rested (crashRun.state k) := by
  have hlength : crashLabels.length = 28 := rfl
  have hend : crashRun.state k = crashRun.state 28 := by
    unfold crashRun System.Run.ofList
    simp only
    rw [System.trace_end (hlength ▸ hk), hlength]
  rw [hend]
  have hr := Reach.worker (reach_platform (r := crashRun) 28) (by decide) singleEnv_fresh.1
    singleEnv_fresh.2 fun o ho => by cases ho
  refine ⟨by decide +kernel, fun t h hh => ?_, by decide +kernel, by decide +kernel,
    by decide +kernel⟩
  have hnext : (crashRun.state 28).worker.broker.nextTag = 2 := by decide +kernel
  have htag : t < 2 := hnext ▸ (reachable_inv hr).tags t h hh
  have hall : ∀ t < 2, ((crashRun.state 28).worker.handlers t).all (·.phase = .finished) = true := by
    decide +kernel
  simpa [hh] using hall t htag

theorem crashRun_label {k : Nat} {l : Label (Fin 2) Unit} (hl : crashRun.label k = some l) :
    l ∈ crashLabels := List.mem_of_getElem? hl

/-- No label is one of a failing call, and no broker call of the worker throws. -/
def careful : Label (Fin 2) Unit → Bool
  | .calls (.advance _) => true
  | .worker (.advance _ f) => !(f.ack || f.send || f.ackAfterSend || f.reject)
  | .worker (.fault _) => false
  | .worker _ => true
  | _ => false

theorem crashRun_careful {k : Nat} {l : Label (Fin 2) Unit} (hl : crashRun.label k = some l) :
    careful l = true :=
  List.all_eq_true.mp (by decide : crashLabels.all careful = true) l (crashRun_label hl)

theorem crashRun_sends : SendsReach crashRun where
  calls k l hl := by
    have hl := crashRun_careful hl
    cases l with
    | calls l => cases l <;> trivial
    | worker l => trivial
  worker k tag f hl := by
    have hl := crashRun_careful hl
    obtain ⟨ack, send, ackAfterSend, reject⟩ := f
    cases ack <;> cases send <;> cases ackAfterSend <;> cases reject <;> first | rfl | cases hl

/-- A label that is neither of a crash nor of a lost channel. -/
def steady : Label (Fin 2) Unit → Bool
  | .worker (.die _) => false
  | .worker (.close _) => false
  | _ => true

theorem crashRun_subsides : Subsides crashRun 21 where
  calm k l hk hl := by
    have hsteady : steady (.worker l) = true := by
      refine List.all_eq_true.mp (by decide : (crashLabels.drop 21).all steady = true) _ ?_
      refine List.mem_of_getElem? (i := k - 21) ?_
      rw [List.getElem?_drop, Nat.add_sub_cancel' hk]
      exact hl
    have hcareful := crashRun_careful hl
    cases l <;> trivial
  up := by
    intro o hrun
    have hstopped : ∀ o, (crashRun.state 21).worker.running o = false := by decide +kernel
    rw [hstopped] at hrun
    cases hrun
  serving := ⟨28, (), by decide, (crashRun_rests (Nat.le_refl 28)).worker.running ()⟩

theorem crashRun_fairly : Fairly crashRun where
  worker duty k hpossible := by
    have hrest := crashRun_rests (Nat.le_max_right k 28)
    obtain ⟨l, s', -, hs, w, rfl, hserves⟩ := hpossible (max k 28) (Nat.le_max_left k 28)
    generalize crashRun.state (max k 28) = s at hrest hs hserves
    cases hs with
    | worker w hown hs => exact absurd hserves (hrest.worker.not_serves duty hs)
  calls c k hpossible := by
    have hrest := crashRun_rests (Nat.le_max_right k 28)
    obtain ⟨l, s', -, hs, rfl⟩ := hpossible (max k 28) (Nat.le_max_left k 28)
    generalize crashRun.state (max k 28) = s at hrest hs
    refine False.elim ?_
    cases hs with
    | calls l hown hs =>
      cases hs with
      | advance c hadv =>
        obtain ⟨outcome, hdone⟩ := Orders.Phase.isDone_iff.mp (hrest.calls c)
        simp [Sys.advance, hdone] at hadv

theorem crashRun_commits :
    ∃ tx, .committed 0 tx ∈ (crashRun.state 28).orders.history ∧ tx.order.id = .ofNat 100 := by
  have hany : (crashRun.state 28).orders.history.any (fun e => match e with
      | .committed c tx => c = 0 ∧ tx.order.id = .ofNat 100
      | .sent _ _ => false) = true := by decide +kernel
  obtain ⟨e, he, hmatch⟩ := List.any_eq_true.mp hany
  cases e with
  | committed c tx =>
    obtain ⟨rfl, hid⟩ := of_decide_eq_true hmatch
    exact ⟨tx, he, hid⟩
  | sent c m => cases hmatch

/-- The order comes to an end. -/
theorem orders_settle_crash : ∃ M, ∀ j, M ≤ j →
    (∃ o ∈ (crashRun.state j).orders.db.orders, o.id = .ofNat 100 ∧ Done o) ∨
      ∃ copy ∈ (crashRun.state j).worker.broker.queues .dlq,
        copy.ids = (.ofNat 100, .ofNat 100) := by
  obtain ⟨tx, hc, hid⟩ := crashRun_commits
  rw [← hid]
  exact orders_settle (by decide) singleEnv_fresh.1 singleEnv_fresh.2 (fun o ho => by cases ho)
    crashRun_sends crashRun_subsides crashRun_fairly hc

/-- The second worker processes it. -/
theorem orders_processed_despite_crashes_restart :
    ∃ M, ∀ j, M ≤ j → ∃ o ∈ (crashRun.state j).orders.db.orders, o.id = .ofNat 100 ∧ Done o := by
  obtain ⟨tx, hc, hid⟩ := crashRun_commits
  rw [← hid]
  refine orders_processed_despite_crashes (by decide) singleEnv_fresh.1 singleEnv_fresh.2
    (fun o ho => by cases ho) crashRun_sends crashRun_subsides crashRun_fairly hc ?_
  intro j tag h hl hh
  cases crashRun_careful hl

end Crash

end Ecommerce.Platform
