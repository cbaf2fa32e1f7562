import Ecommerce.Lib.Fairness
import Ecommerce.Orders.Idempotency
import Ecommerce.Orders.Serializability

/-!
# Linearizability — a call as one operation on the database

The specification of the service knows no transactions, locks or connections.  A call is decided in
one step, which is `createOrder` on the database of that moment, and answered later.  It may also
fail without a trace, lose its answer when the message cannot be sent, or be stopped.  Every run of
the interleaved calls, with failures anywhere and the worker at work, is a run of the specification,
step by step and with the same database.
-/

namespace Ecommerce.Orders

open Transition

variable {ι : Type} [DecidableEq ι] {env : Env ι} {db₀ : Db} {n : Nat}

/-- What has become of a call. -/
inductive Progress where
  | undecided
  | decided (outcome : Outcome)
  | returned (outcome : Outcome)
deriving DecidableEq

/-- The service of the specification. -/
@[ext]
structure Service (ι : Type) where
  db : Db
  calls : ι → Progress

namespace Service

inductive Label (ι : Type) where
  | call (c : ι)
  | answer (c : ι)
  | refuse (c : ι)
  | fail (c : ι)
  | unsent (c : ι)
  | stop (c : ι)
  | worker

def setCall (a : Service ι) (c : ι) (p : Progress) : Service ι :=
  { a with calls := Function.update a.calls c p }

inductive Step (env : Env ι) : Service ι → Label ι → Service ι → Prop
  -- the whole of `createOrder` at once
  | call {a : Service ι} (c : ι) (h : a.calls c = .undecided) :
      Step env a (.call c) { a.setCall c (.decided (env.outcome c a.db).2) with
        db := (env.outcome c a.db).1 }
  | answer {a : Service ι} (c : ι) (outcome : Outcome) (h : a.calls c = .decided outcome) :
      Step env a (.answer c) (a.setCall c (.returned outcome))
  -- no connection: nothing to roll back
  | refuse {a : Service ι} (c : ι) (h : a.calls c = .undecided) :
      Step env a (.refuse c) (a.setCall c (.returned (.rejected (.query .other))))
  | fail {a : Service ι} (c : ι) (h : a.calls c = .undecided) :
      Step env a (.fail c) (a.setCall c (.decided (.rejected (.query .other))))
  -- the order is created, and its message is lost
  | unsent {a : Service ι} (c : ι) (order : OrderView) (h : a.calls c = .decided (.created order)) :
      Step env a (.unsent c) (a.setCall c (.returned (.rejected .channel)))
  | stop {a : Service ι} (c : ι) (h : ∀ outcome, a.calls c ≠ .returned outcome) :
      Step env a (.stop c) (a.setCall c (.returned .stopped))
  | worker {a : Service ι} (db : Db) (h : WorkerChange a.db db) :
      Step env a .worker { a with db := db }

end Service

def service (env : Env ι) (db : Db) : System (Service ι) (Service.Label ι) where
  init a := a = ⟨db, fun _ => .undecided⟩
  step := Service.Step env

/-! ## The code's states as states of the specification -/

def Phase.progress : Phase → Progress
  | .done outcome => .returned outcome
  | ph => match ph.decided with
    | some outcome => .decided outcome
    | none => .undecided

def Sys.service (s : Sys ι) : Service ι where
  db := s.db
  calls c := (s.calls c).progress

/-- A label of the code and the one it has in the specification. -/
inductive Mirrors : Option (Label ι) → Option (Service.Label ι) → Prop
  | idle : Mirrors none none
  -- a statement that decides nothing
  | silent (c : ι) : Mirrors (some (.advance c)) none
  | call (c : ι) : Mirrors (some (.advance c)) (some (.call c))
  | answer (c : ι) : Mirrors (some (.advance c)) (some (.answer c))
  | refuse (c : ι) : Mirrors (some (.fault c)) (some (.refuse c))
  | fail (c : ι) : Mirrors (some (.fault c)) (some (.fail c))
  | unsent (c : ι) : Mirrors (some (.sendThrows c)) (some (.unsent c))
  | stop (c : ι) : Mirrors (some (.kill c)) (some (.stop c))
  | worker : Mirrors (some .worker) (some .worker)

section Progress

variable {ph : Phase} {outcome : Outcome}

theorem Phase.progress_of_none (h : ph.decided = none) : ph.progress = .undecided := by
  cases ph <;> first | rfl | cases h

theorem Phase.progress_of_some (h : ph.decided = some outcome) (hdone : ph.isDone = false) :
    ph.progress = .decided outcome := by
  cases ph with
  | done o => cases hdone
  | committed result => exact congrArg Progress.decided (Option.some.inj h)
  | publishing result => exact congrArg Progress.decided (Option.some.inj h)
  | found result => exact congrArg Progress.decided (Option.some.inj h)
  | failing tx e => exact congrArg Progress.decided (Option.some.inj h)
  | _ => cases h

theorem Phase.progress_congr {ph' : Phase} (h : ph'.decided = ph.decided)
    (hdone : ph.isDone = false) (hdone' : ph'.isDone = false) : ph'.progress = ph.progress := by
  cases hdec : ph.decided with
  | none => rw [progress_of_none hdec, progress_of_none (h.trans hdec)]
  | some outcome => rw [progress_of_some hdec hdone, progress_of_some (h.trans hdec) hdone']

theorem Phase.isDone_of_returned (h : ph.progress = .returned outcome) : ph.isDone = true := by
  cases ph <;> first | rfl | cases h

theorem Phase.undecided_of_beforeCommit (h : ph.beforeCommit = true) : ph.decided = none := by
  cases ph <;> first | rfl | cases h

end Progress

/-! ## The steps of the code -/

section Steps

variable {s s' : Sys ι} {c : ι}

theorem service_of_others (hothers : ∀ d, d ≠ c → s'.calls d = s.calls d) :
    s'.service = { s.service.setCall c (s'.calls c).progress with db := s'.db } := by
  refine Service.ext rfl (funext fun d => ?_)
  show (s'.calls d).progress = Function.update s.service.calls c (s'.calls c).progress d
  by_cases hd : d = c
  · rw [hd, Function.update_self]
  · rw [Function.update_of_ne hd, hothers d hd]
    rfl

theorem service_of_others_same (hothers : ∀ d, d ≠ c → s'.calls d = s.calls d)
    (hdb : s'.db = s.db) : s'.service = s.service.setCall c (s'.calls c).progress := by
  rw [service_of_others hothers, hdb]
  rfl

/-- A call returns only what is decided. -/
theorem Advance.decided_of_isDone (h : Advance env s c s') (hdone : (s'.calls c).isDone = true) :
    (s.calls c).decided ≠ none := by
  cases h with
  | throws tx e why =>
    rw [throwing_phase] at hdone
    cases hdone
  | commit tx result hc =>
    simp [Sys.commit, Phase.isDone] at hdone
  | send result hc => simp [hc, Phase.decided]
  | dispose result hc => simp [hc, Phase.decided]
  | rollback tx e hc => simp [hc, Phase.decided]
  | _ => simp [Phase.isDone] at hdone

theorem Advance.isDone_before (h : Advance env s c s') : (s.calls c).isDone = false := by
  cases h with
  | throws tx e why =>
    generalize s.calls c = ph at why
    cases why <;> rfl
  | _ => simp_all [Phase.isDone]

/-- A statement of a call decides it, or answers it, or is not seen. -/
theorem Advance.mirrors (h : Advance env s c s') (hi : Inv env db₀ s) (hres : Results env s)
    (hf : FreshIds env db₀) :
    ∃ m, (service env db₀).idling.step s.service m s'.service ∧ Mirrors (some (.advance c)) m := by
  have hbefore := h.isDone_before
  rcases h.decides hi hres hf with ⟨hsame, hdb⟩ | ⟨hnone, hdec, hdb, -⟩
  · rw [service_of_others_same h.others hdb]
    cases hdone : (s'.calls c).isDone with
    | true =>
      obtain ⟨outcome, hph⟩ := Phase.isDone_iff.mp hdone
      have hdecided : (s.calls c).decided = some outcome := by
        rw [← hsame, hph]
        rfl
      refine ⟨some (.answer c), ?_, .answer c⟩
      rw [hph]
      exact Service.Step.answer c outcome (Phase.progress_of_some hdecided hbefore)
    | false =>
      refine ⟨none, ?_, .silent c⟩
      rw [Phase.progress_congr hsame hbefore hdone]
      show s.service.setCall c (s.service.calls c) = s.service
      unfold Service.setCall
      rw [Function.update_eq_self]
  · have hdone : (s'.calls c).isDone = false := by
      cases hdone : (s'.calls c).isDone with
      | true => exact absurd hnone (h.decided_of_isDone hdone)
      | false => rfl
    refine ⟨some (.call c), ?_, .call c⟩
    rw [service_of_others h.others, hdb, Phase.progress_of_some hdec hdone]
    exact Service.Step.call c (Phase.progress_of_none hnone)

theorem fault_mirrors (h : (s.calls c).beforeCommit = true) :
    ∃ m, (service env db₀).idling.step s.service m (s.fault c).service ∧
      Mirrors (some (.fault c)) m := by
  have hundecided := Phase.progress_of_none (Phase.undecided_of_beforeCommit h)
  have hdb : (s.fault c).db = s.db := (quiet_fault s c).db
  rw [service_of_others_same (quiet_fault s c).others hdb, fault_phase]
  split
  · exact ⟨some (.refuse c), Service.Step.refuse c hundecided, .refuse c⟩
  · exact ⟨some (.fail c), Service.Step.fail c hundecided, .fail c⟩

/-- Every step of the code is a step of the specification, or is not seen there. -/
theorem Step.mirrors {l : Label ι} (hs : Step env s l s') (hi : Inv env db₀ s)
    (hres : Results env s) (hf : FreshIds env db₀) :
    ∃ m, (service env db₀).idling.step s.service m s'.service ∧ Mirrors (some l) m := by
  cases hs with
  | advance c hadv => exact (advance_cases hadv).mirrors hi hres hf
  | fault c hc => exact fault_mirrors hc
  | sendThrows c result hc =>
    have hothers : ∀ d, d ≠ c → (s.sendThrows c).calls d = s.calls d :=
      fun d hd => setPhase_of_ne s _ hd
    refine ⟨some (.unsent c), ?_, .unsent c⟩
    rw [service_of_others_same hothers rfl, Sys.sendThrows, setPhase_self]
    exact Service.Step.unsent c result (congrArg Phase.progress hc)
  | kill c hc =>
    refine ⟨some (.stop c), ?_, .stop c⟩
    rw [service_of_others_same (quiet_kill s c).others (quiet_kill s c).db]
    have hstopped : ((s.kill c).calls c).progress = .returned .stopped := by
      simp [Sys.kill, Phase.progress]
    rw [hstopped]
    refine Service.Step.stop c fun outcome hreturned => ?_
    rw [Phase.isDone_of_returned hreturned] at hc
    cases hc
  | worker db hw => exact ⟨some .worker, Service.Step.worker db hw, .worker⟩

end Steps

/-! ## Whole runs -/

/-- Every run of the calls is a run of the specification: at some moment between its first statement
and its answer each call is `createOrder` on the committed database of that moment. -/
theorem createOrder_linearizable (hv : db₀.Valid) (hf : FreshIds env db₀)
    (r : System.Run (system env n db₀).idling System.anyStep) :
    ∃ a : System.Run (service env db₀).idling System.anyStep,
      (∀ k, a.state k = (r.state k).service) ∧ ∀ k, Mirrors (r.label k) (a.label k) := by
  refine r.project Sys.service Mirrors (fun s h0 => by rw [h0]; rfl) ?_
  intro s l s' hr _ hs
  have hreach : Reachable env n db₀ s := hr.of_idling fun _ _ _ => trivial
  cases l with
  | none =>
    rw [show s' = s from hs]
    exact ⟨none, trivial, rfl, .idle⟩
  | some l =>
    obtain ⟨m, hstep, hm⟩ := Step.mirrors hs (hreach.inv hv hf) (hreach.results hv hf) hf
    exact ⟨m, trivial, hstep, hm⟩

/-! ## A process that stops after a COMMIT -/

/-- The first call stops between its COMMIT and its answer, and its repeat finds the order. -/
theorem createOrder_linearizable_stopped :
    ∃ (env : Env (Fin 2)) (r : System.Run (system env 3 shop).idling System.anyStep),
      (r.state 16).calls 0 = .done .stopped ∧
        ((r.state 16).calls 1).returned?.isSome = true ∧
          ∃ a : System.Run (service env shop).idling System.anyStep,
            (∀ k, a.state k = (r.state k).service) ∧ ∀ k, Mirrors (r.label k) (a.label k) := by
  let env := shopEnv (fun _ => false) fun _ => shopRequest 50 60 [1]
  let labels : List (Label (Fin 2)) :=
    List.replicate 10 (.advance 0) ++ [.kill 0] ++ List.replicate 5 (.advance 1)
  let r : System.Run (system env 3 shop).idling System.anyStep :=
    .ofList (fun s l s' (h : s.perform env l = some s') => step_of_perform h) rfl labels
      (by decide +kernel)
  have hends : (r.state 16).calls 0 = .done .stopped ∧
      ((r.state 16).calls 1).returned?.isSome = true := by decide +kernel
  exact ⟨env, r, hends.1, hends.2, createOrder_linearizable (by decide) (freshIds_shop _ _) r⟩

end Ecommerce.Orders
