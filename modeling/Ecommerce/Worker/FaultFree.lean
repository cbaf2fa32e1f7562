import Ecommerce.Worker.EventualSettlement

/-!
# FaultFree — messages whose transactions do not fail

Crashes and lost channels alone send no message to `orders.dlq`: a handler gives up only after its
transaction was rolled back.
-/

namespace Ecommerce.Worker

open Amqp Locking Orders Transition

variable {π : Type} [DecidableEq π] {maxRetries : Number} {db₀ : Db} {messageId : UUID}
  {s s' : State π} {l : Label π} {c : Copy} {h : Handler π}

/-- No statement fails in a transaction of the message. -/
def FaultFree (messageId : UUID) (s : State π) (l : Label π) : Prop :=
  Genuine messageId s l ∧
    ∀ tag h, l = .fault tag → s.handlers tag = some h → h.copy.message.messageId ≠ messageId

/-- No handler of the message has failed, and no copy is on `orders.dlq` or on its way there. -/
structure Spared (messageId : UUID) (s : State π) : Prop where
  handlers : ∀ t h, s.handlers t = some h → h.copy.message.messageId = messageId →
    h.phase ≠ .aborting ∧ h.phase ≠ .rejected
  wires : ∀ o t c, .publish t .dlq c ∈ s.broker.wire o → c.message.messageId ≠ messageId
  dlq : ∀ c ∈ s.broker.queues .dlq, c.message.messageId ≠ messageId
  queue : ∀ d ∈ s.broker.unsettled, d.queue = .process

theorem Spared.take (hsp : Spared messageId s) {o : π} {b : Broker π Queue Copy}
    (hok : s.broker.Ok) (ht : s.broker.take o = some b) :
    Spared messageId { s with broker := b } := by
  have hrest {f : Frame Queue Copy} {fs : List (Frame Queue Copy)} (hw : s.broker.wire o = f :: fs)
      {o' : π} {t : Nat} {c : Copy}
      (hmem : .publish t .dlq c ∈ Function.update s.broker.wire o fs o') :
      c.message.messageId ≠ messageId := by
    by_cases ho : o' = o
    · rw [ho, Function.update_self] at hmem
      exact hsp.wires o t c (by rw [hw]; exact List.mem_cons_of_mem _ hmem)
    · rw [Function.update_of_ne ho] at hmem
      exact hsp.wires o' t c hmem
  cases hok.take_cases ht with
  | publish tag q c fs hw =>
    refine ⟨hsp.handlers, fun o' t c' => hrest hw, fun c' hc' => ?_, hsp.queue⟩
    change c' ∈ Function.update s.broker.queues q (s.broker.queues q ++ [c]) .dlq at hc'
    by_cases hq : .dlq = q
    · subst hq
      rw [Function.update_self] at hc'
      rcases List.mem_append.mp hc' with hc' | hc'
      · exact hsp.dlq c' hc'
      · rw [List.mem_singleton.mp hc']
        exact hsp.wires o tag c (by rw [hw]; exact List.mem_cons_self)
    · rw [Function.update_of_ne hq] at hc'
      exact hsp.dlq c' hc'
  | ack d fs hd hp hw =>
    exact ⟨hsp.handlers, fun o' t c' => hrest hw, hsp.dlq,
      fun d' hd' => hsp.queue d' (List.mem_of_mem_filter hd')⟩
  | reject d fs hd hp hw =>
    refine ⟨hsp.handlers, fun o' t c' => hrest hw, fun c' hc' => ?_,
      fun d' hd' => hsp.queue d' (List.mem_of_mem_filter hd')⟩
    -- a rejected delivery goes back to `orders.process`
    change c' ∈ Function.update s.broker.queues d.queue _ .dlq at hc'
    rw [hsp.queue d hd, Function.update_of_ne (by decide)] at hc'
    exact hsp.dlq c' hc'

/-- A genuine message does not make its callback throw. -/
theorem advance_of_inserted {tag : Nat} {u : OrderUpdate} {f : Faults}
    (hadv : s.advance maxRetries tag u f = some s') (hh : s.handlers tag = some h)
    (hph : h.phase = .inserted) (hgenuine : h.copy.message.simulateFailure = none) :
    s' = s.setPhase tag h (.processed (some u)) := by
  simp only [State.advance, hh, hph, State.process, State.processOrderMessage, hgenuine] at hadv
  exact (Option.some.inj hadv).symm

theorem Spared.handlers_step (hsp : Spared messageId s) (hff : FaultFree messageId s l)
    (hgenuine : Carried (fun c => c.message.messageId = messageId →
      c.message.simulateFailure = none) s)
    (hs : Step maxRetries s l s') {t : Nat} {h' : Handler π} (hh' : s'.handlers t = some h')
    (hid : h'.copy.message.messageId = messageId) : h'.phase ≠ .aborting ∧ h'.phase ≠ .rejected := by
  -- a handler keeps its phase, or moves to this one
  have moved {tag : Nat} {h₀ : Handler π} {ph : Phase}
      (hne : h₀.copy.message.messageId = messageId → ph ≠ .aborting ∧ ph ≠ .rejected)
      (hor : (s.handlers t = some h' ∧ t ≠ tag) ∨ (t = tag ∧ h' = { h₀ with phase := ph })) :
      h'.phase ≠ .aborting ∧ h'.phase ≠ .rejected := by
    rcases hor with ⟨hold, -⟩ | ⟨-, rfl⟩
    · exact hsp.handlers t h' hold hid
    · exact hne hid
  cases hs with
  | start p hstart =>
    obtain ⟨-, -, rfl⟩ := start_cases hstart
    exact hsp.handlers t h' hh' hid
  | die p hp => exact hsp.handlers t h' (die_handlers hh').1 hid
  | deliver p i hd =>
    obtain ⟨-, b, c, -, rfl⟩ := deliver_cases hd
    by_cases ht : t = s.broker.nextTag
    · rw [ht] at hh'
      simp only [Function.update_self, Option.some.injEq] at hh'
      rw [← hh']
      exact ⟨fun heq => (by cases heq), fun heq => (by cases heq)⟩
    · simp only [Function.update_of_ne ht] at hh'
      exact hsp.handlers t h' hh' hid
  | take p ht =>
    obtain ⟨b, -, rfl⟩ := Option.map_eq_some_iff.mp ht
    exact hsp.handlers t h' hh' hid
  | takePair p ht =>
    obtain ⟨-, b, b', -, -, rfl⟩ := takePair_cases ht
    exact hsp.handlers t h' hh' hid
  | advance tag u f hadv =>
    cases advance_cases hadv with
    | duplicate h hh hph hrow => exact moved (fun _ => by decide) (setPhase_handlers hh')
    | insert h hh hph hrow hlock => exact moved (fun _ => by decide) (setPhase_handlers hh')
    | process h update hh hph hok => exact moved (fun _ => by simp) (setPhase_handlers hh')
    | throws h hh hph =>
      refine moved (fun hid => ?_) (setPhase_handlers hh')
      -- the callback of a genuine message does not throw
      have heq := advance_of_inserted hadv hh hph (hgenuine.handlers tag h hh hid)
      have hphase := congrArg (fun s => (s.handlers tag).map (·.phase)) heq
      simp [State.setPhase] at hphase
    | commit h update hh hph => exact moved (fun _ => by decide) (setPhase_handlers hh')
    | rollback h hh hph =>
      exact moved (fun hid => absurd hph (hsp.handlers tag h hh hid).1) (setPhase_handlers hh')
    | resolve h hh hph => exact moved (fun _ => by decide) (setPhase_handlers hh')
    | finish h resolved hh hph =>
      rcases finish_cases maxRetries s tag h f resolved with ⟨heq, -⟩ | heq <;> rw [heq] at hh' <;>
        exact moved (fun _ => by decide) (setPhase_handlers hh')
    | fire h hh hph => exact moved (fun _ => by decide) (fire_handlers hh')
  | fault tag h hh hph =>
    exact moved (fun hid => absurd hid (hff.2 tag h rfl hh)) (setPhase_handlers hh')
  | _ => exact hsp.handlers t h' hh' hid

theorem Spared.step (hsp : Spared messageId s) (hff : FaultFree messageId s l) (hk : Attached s)
    (hgenuine : Carried (fun c => c.message.messageId = messageId →
      c.message.simulateFailure = none) s)
    (hs : Step maxRetries s l s') : Spared messageId s' := by
  have hhandlers (t : Nat) (h : Handler π) (hh : s'.handlers t = some h) :=
    hsp.handlers_step hff hgenuine hs hh
  -- as long as the broker stays as it is there is nothing else to show
  have same (hb : s'.broker = s.broker) : Spared messageId s' :=
    ⟨hhandlers, by rw [hb]; exact hsp.wires, by rw [hb]; exact hsp.dlq, by rw [hb]; exact hsp.queue⟩
  cases hs with
  | start p hstart =>
    obtain ⟨-, -, rfl⟩ := start_cases hstart
    exact ⟨hhandlers, hsp.wires, hsp.dlq, hsp.queue⟩
  | die p hp => exact same rfl
  | close p hp =>
    refine ⟨hhandlers, fun o t c hmem => ?_, fun c hc => ?_,
      fun d hd => hsp.queue d (List.mem_of_mem_filter hd)⟩
    · change _ ∈ Function.update s.broker.wire p [] o at hmem
      by_cases ho : o = p
      · rw [ho, Function.update_self] at hmem
        cases hmem
      · rw [Function.update_of_ne ho] at hmem
        exact hsp.wires o t c hmem
    · rcases List.mem_append.mp hc with hc | hc
      · exact hsp.dlq c hc
      · -- what goes back goes to `orders.process`
        obtain ⟨d, hd, rfl⟩ := List.mem_map.mp hc
        obtain ⟨hd, hdlq⟩ := List.mem_filter.mp hd
        have hqueue := hsp.queue d hd
        simp [hqueue] at hdlq
  | deliver p i hd =>
    obtain ⟨-, b, c, hb, rfl⟩ := deliver_cases hd
    obtain ⟨-, -, rfl⟩ := Broker.deliver_cases hb
    refine ⟨hhandlers, hsp.wires, fun c' hc' => ?_, fun d hd => ?_⟩
    · change c' ∈ Function.update s.broker.queues .process
        ((s.broker.queues .process).eraseIdx i) .dlq at hc'
      rw [Function.update_of_ne (by decide)] at hc'
      exact hsp.dlq c' hc'
    · rcases List.mem_append.mp hd with hd | hd
      · exact hsp.queue d hd
      · rw [List.mem_singleton.mp hd]
  | take p ht =>
    obtain ⟨b, hb, rfl⟩ := Option.map_eq_some_iff.mp ht
    exact hsp.take hk.ok hb
  | takePair p ht =>
    obtain ⟨-, b, b', hb, hb', rfl⟩ := takePair_cases ht
    exact (hsp.take hk.ok hb).take (hk.ok.take hb) hb'
  | advance tag u f hadv =>
    obtain rfl : f = .none := hff.1
    obtain ⟨h, resolved, fs, hout⟩ := (advance_cases hadv).output
    have hwritten : ∀ t c, .publish t .dlq c ∈ fs → c.message.messageId ≠ messageId := by
      intro t c hmem hid
      have hopen := hout.isOpen (List.ne_nil_of_mem hmem)
      obtain ⟨h', ph, fs', hturn⟩ := turned_of_advance hadv fun h' hh' => by
        rwa [Option.some.inj (hh'.symm.trans hout.handler)]
      obtain rfl := Option.some.inj (hturn.handler.symm.trans hout.handler)
      have hfs : fs' = fs := by
        have hwire := congrArg (fun b => b.wire h'.owner) (hturn.broker.symm.trans hout.broker)
        simpa [write_wire] using hwire
      subst hfs
      -- only a handler that has failed gives up
      cases hturn.turns with
      | giveUp hph hge =>
        simp only [List.mem_cons, Frame.publish.injEq, reduceCtorEq, List.not_mem_nil, or_false,
          true_and] at hmem
        rw [hmem.2] at hid
        exact (hsp.handlers tag h' hout.handler hid).2 hph
      | _ => simp at hmem
    refine ⟨hhandlers, fun o t c hmem => ?_, by rw [hout.broker]; exact hsp.dlq,
      by rw [hout.broker]; exact hsp.queue⟩
    rw [hout.broker, write_wire] at hmem
    split at hmem
    · exact (List.mem_append.mp hmem).elim (hsp.wires o t c) (hwritten t c)
    · exact hsp.wires o t c hmem
  | fault tag h hh hph => exact same rfl
  | publish m =>
    refine ⟨hhandlers, hsp.wires, fun c hc => ?_, hsp.queue⟩
    simp only [State.publish, Broker.put, Function.update_of_ne (show Queue.dlq ≠ .process by decide)]
      at hc
    exact hsp.dlq c hc
  | shop db hshop => exact same rfl

theorem reachable_spared (hr : (system maxRetries db₀).Reach (FaultFree messageId) s) :
    Spared messageId s := by
  apply hr.invariant
  · rintro s rfl
    refine ⟨fun t h hh => ?_, fun o t c hmem => ?_, fun c hc => ?_, fun d hd => ?_⟩
    · cases hh
    · cases hmem
    · cases hc
    · cases hd
  · intro s l s' hr hsp hff hs
    exact hsp.step hff (reachable_kept hr).attached
      (reachable_genuine (hr.mono fun _ _ hff => hff.1)) hs

omit [DecidableEq π] in
/-- A message that is settled without a failure has its row committed. -/
theorem Settled.processed (hsettled : Settled c s) (hsp : Spared c.message.messageId s) :
    Processed s.db c.message := by
  rcases hsettled with hrow | ⟨c', hc', hsame⟩
  · exact hrow
  · exact absurd (congrArg Prod.fst hsame) (hsp.dlq c' hc')

end Ecommerce.Worker
