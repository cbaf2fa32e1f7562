import Ecommerce.Worker.Worker

/-!
# HandlerSteps — what one step of the worker can do

Three inversion lemmas say it once: `Step.handler` for the handlers, `Step.effect` for the tables
and the history, `Step.writes` for what is written to the channels.
-/

namespace Ecommerce.Worker

open Amqp Locking Orders Transition

variable {π : Type} [DecidableEq π] {maxRetries : Number}

/-- The row of a message is committed. -/
def Processed (db : Db) (m : ProcessOrderMessage) : Prop := dedupRow m ∈ db.processedMessages

theorem processed_congr {db : Db} {m m' : ProcessOrderMessage} (h : m.messageId = m'.messageId) :
    Processed db m ↔ Processed db m' := by
  unfold Processed dedupRow
  rw [h]

theorem processed_applyMessage {db : Db} {m m' : ProcessOrderMessage} {update : Option OrderUpdate} :
    Processed (State.applyMessage db m update) m' ↔
      Processed db m' ∨ m'.messageId = m.messageId := by
  unfold Processed State.applyMessage dedupRow
  simp

/-- The transaction of the handler has committed, or has found a duplicate. -/
def Ended (s : State π) (tag : Nat) (c : Copy) : Prop :=
  .committed tag c ∈ s.history ∨ .duplicate tag c ∈ s.history

namespace Phase

/-- The phases after a COMMIT; `backoff` and `finished` come after a failed attempt too. -/
def succeeded : Phase → Bool
  | .resolved => true
  | .backoff => true
  | .finished => true
  | _ => false

/-- The phases after a failed attempt. -/
def spent : Phase → Bool
  | .rejected => true
  | .backoff => true
  | .finished => true
  | _ => false

/-- The control flow of a handler. -/
inductive Next : Phase → Phase → Prop
  | duplicate : Next .started .refused
  | insert : Next .started .inserted
  | process (update : Option OrderUpdate) : Next .inserted (.processed update)
  | throws : Next .inserted .aborting
  | commit (update : Option OrderUpdate) : Next (.processed update) .resolved
  | rollback : Next .aborting .rejected
  | fault (ph : Phase) (h : ph.inTransaction = true) : Next ph .rejected
  | resolve : Next .refused .resolved
  | wait (resolved : Bool) : Next (if resolved then .resolved else .rejected) .backoff
  | finish (resolved : Bool) : Next (if resolved then .resolved else .rejected) .finished
  | fire : Next .backoff .finished

theorem Next.spent {ph ph' : Phase} (h : Next ph ph') (hspent : ph.spent = true) :
    ph'.spent = true := by
  cases h with
  | fault ph h => rfl
  | rollback => rfl
  | wait resolved => rfl
  | finish resolved => rfl
  | fire => rfl
  | _ => cases hspent

theorem Next.succeeded {ph ph' : Phase} (h : Next ph ph') (hsucc : ph.succeeded = true) :
    ph'.succeeded = true := by
  cases h with
  | fault ph h => cases ph <;> first | (cases h; done) | cases hsucc
  | wait resolved => rfl
  | finish resolved => rfl
  | fire => rfl
  | _ => first | rfl | cases hsucc

/-- A row is held from the insert on. -/
theorem Next.holdsRow {ph ph' : Phase} (h : Next ph ph') (hholds : ph'.holdsRow = true) :
    ph.holdsRow = true ∨ ph' = .inserted := by
  cases h with
  | insert => exact .inr rfl
  | process update => exact .inl rfl
  | throws => exact .inl rfl
  | _ => cases hholds

end Phase

/-! ## The steps of a handler -/

/-- The steps of the handler of delivery `tag`, each with its guard and its effect. -/
inductive Advance (maxRetries : Number) (s : State π) (tag : Nat) (u : OrderUpdate) (f : Faults) :
    State π → Prop
  | duplicate (h : Handler π) (hh : s.handlers tag = some h) (hph : h.phase = .started)
      (hrow : Processed s.db h.copy.message) :
      Advance maxRetries s tag u f
        { s.setPhase tag h .refused with history := s.history ++ [.duplicate tag h.copy] }
  | insert (h : Handler π) (hh : s.handlers tag = some h) (hph : h.phase = .started)
      (hrow : ¬ Processed s.db h.copy.message)
      (hlock : s.dedupLocks h.copy.message.messageId = none) :
      Advance maxRetries s tag u f
        { s.setPhase tag h .inserted with
          dedupLocks := s.dedupLocks.acquire h.copy.message.messageId tag }
  | process (h : Handler π) (update : Option OrderUpdate) (hh : s.handlers tag = some h)
      (hph : h.phase = .inserted) (hok : State.processOrderMessage h.copy.message u = .ok update) :
      Advance maxRetries s tag u f (s.setPhase tag h (.processed update))
  | throws (h : Handler π) (hh : s.handlers tag = some h) (hph : h.phase = .inserted) :
      Advance maxRetries s tag u f (s.setPhase tag h .aborting)
  | commit (h : Handler π) (update : Option OrderUpdate) (hh : s.handlers tag = some h)
      (hph : h.phase = .processed update) : Advance maxRetries s tag u f (s.commit tag h update)
  | rollback (h : Handler π) (hh : s.handlers tag = some h) (hph : h.phase = .aborting) :
      Advance maxRetries s tag u f (s.rollback tag h)
  | resolve (h : Handler π) (hh : s.handlers tag = some h) (hph : h.phase = .refused) :
      Advance maxRetries s tag u f (s.setPhase tag h .resolved)
  | finish (h : Handler π) (resolved : Bool) (hh : s.handlers tag = some h)
      (hph : h.phase = if resolved then .resolved else .rejected) :
      Advance maxRetries s tag u f (s.finish maxRetries tag h f resolved)
  | fire (h : Handler π) (hh : s.handlers tag = some h) (hph : h.phase = .backoff) :
      Advance maxRetries s tag u f (s.fire tag h f)

theorem advance_cases {s s' : State π} {tag : Nat} {u : OrderUpdate} {f : Faults}
    (h : s.advance maxRetries tag u f = some s') : Advance maxRetries s tag u f s' := by
  unfold State.advance at h
  split at h
  · cases h
  · rename_i hd hh
    split at h
    · rename_i hph
      unfold State.insertDedup at h
      split at h
      · rename_i hrow
        rw [← Option.some.inj h]
        exact .duplicate hd hh hph hrow
      · rename_i hrow
        split at h
        · rename_i hlock
          rw [← Option.some.inj h]
          exact .insert hd hh hph hrow hlock
        · cases h
    · rename_i hph
      rw [← Option.some.inj h]
      unfold State.process
      split
      · rename_i update hok
        exact .process hd update hh hph hok
      · exact .throws hd hh hph
    · rename_i update hph
      rw [← Option.some.inj h]
      exact .commit hd update hh hph
    · rename_i hph
      rw [← Option.some.inj h]
      exact .rollback hd hh hph
    · rename_i hph
      rw [← Option.some.inj h]
      exact .resolve hd hh hph
    · rename_i hph
      rw [← Option.some.inj h]
      exact .finish hd true hh hph
    · rename_i hph
      rw [← Option.some.inj h]
      exact .finish hd false hh hph
    · rename_i hph
      rw [← Option.some.inj h]
      exact .fire hd hh hph
    · cases h

/-! ## Handlers -/

section Steps

variable {s s' : State π} {l : Label π} {tag t : Nat} {h' : Handler π} {p : π}

theorem start_cases (hstart : s.start p = some s') :
    s.running p = false ∧ s.broker.isOpen p = false ∧ s' = { s with
      running := Function.update s.running p true
      broker := s.broker.openChannel p } := by
  unfold State.start at hstart
  split at hstart
  · rename_i hp
    exact ⟨hp.1, hp.2, (Option.some.inj hstart).symm⟩
  · cases hstart

omit [DecidableEq π] in
theorem deliver_cases {i : Nat} (hd : s.deliver p i = some s') :
    s.running p = true ∧ ∃ b c, s.broker.deliver p .process i = some (b, c) ∧
      s' = { s with
        broker := b
        handlers := Function.update s.handlers s.broker.nextTag
          (some { owner := p, copy := c, phase := .started }) } := by
  unfold State.deliver at hd
  split at hd
  · rename_i hrun
    split at hd
    · rename_i b c hb
      exact ⟨hrun, b, c, hb, (Option.some.inj hd).symm⟩
    · cases hd
  · cases hd

theorem takePair_cases (ht : s.takePair p = some s') :
    (∃ t q c t' fs, s.broker.wire p = .publish t q c :: .ack t' :: fs) ∧
      ∃ b b', s.broker.take p = some b ∧ b.take p = some b' ∧ s' = { s with broker := b' } := by
  unfold State.takePair at ht
  split at ht
  · rename_i t q c t' fs hw
    obtain ⟨s₁, h₁, h₂⟩ := Option.bind_eq_some_iff.mp ht
    obtain ⟨b, hb, rfl⟩ := Option.map_eq_some_iff.mp h₁
    obtain ⟨b', hb', rfl⟩ := Option.map_eq_some_iff.mp h₂
    exact ⟨⟨t, q, c, t', fs, hw⟩, b, b', hb, hb', rfl⟩
  · cases ht

theorem die_handlers (hh' : (s.die p).handlers t = some h') :
    s.handlers t = some h' ∧ h'.owner ≠ p := by
  simp only [State.die] at hh'
  split at hh'
  · rename_i h hh
    split at hh'
    · cases hh'
    · rename_i hne
      rw [← Option.some.inj hh']
      exact ⟨hh, hne⟩
  · cases hh'

omit [DecidableEq π] in
theorem setPhase_self (s : State π) (tag : Nat) (h : Handler π) (ph : Phase) :
    (s.setPhase tag h ph).handlers tag = some { h with phase := ph } := Function.update_self ..

omit [DecidableEq π] in
theorem setPhase_of_ne (s : State π) (h : Handler π) (ph : Phase) (ht : t ≠ tag) :
    (s.setPhase tag h ph).handlers t = s.handlers t := Function.update_of_ne ht ..

omit [DecidableEq π] in
theorem setPhase_handlers {h : Handler π} {ph : Phase}
    (hh' : (s.setPhase tag h ph).handlers t = some h') :
    (s.handlers t = some h' ∧ t ≠ tag) ∨ (t = tag ∧ h' = { h with phase := ph }) := by
  by_cases ht : t = tag
  · subst ht
    rw [setPhase_self, Option.some.injEq] at hh'
    exact .inr ⟨rfl, hh'.symm⟩
  · rw [setPhase_of_ne s h ph ht] at hh'
    exact .inl ⟨hh', ht⟩

/-- A timer that throws ends the process. -/
theorem fire_cases (s : State π) (tag : Nat) (h : Handler π) (f : Faults) :
    let s₁ := { s.setPhase tag h .finished with
      broker := s.broker.write h.owner (retry (s.faults h f) tag h.copy).exec.2 }
    s.fire tag h f = s₁ ∨ s.fire tag h f = s₁.die h.owner := by
  unfold State.fire
  simp only
  split
  · exact .inl rfl
  · exact .inr rfl

theorem fire_handlers {h : Handler π} {f : Faults} (hh' : (s.fire tag h f).handlers t = some h') :
    (s.handlers t = some h' ∧ t ≠ tag) ∨ (t = tag ∧ h' = { h with phase := .finished }) := by
  rcases fire_cases s tag h f with heq | heq
  · rw [heq] at hh'
    exact setPhase_handlers hh'
  · rw [heq] at hh'
    exact setPhase_handlers (die_handlers hh').1

/-- A handler that sets the timer has written nothing. -/
theorem finish_cases (maxRetries : Number) (s : State π) (tag : Nat) (h : Handler π) (f : Faults)
    (resolved : Bool) :
    let fs := (consume maxRetries (s.faults h f) tag h.copy resolved).exec.2
    (s.finish maxRetries tag h f resolved = { s.setPhase tag h .backoff with
        broker := s.broker.write h.owner fs } ∧ fs = []) ∨
      s.finish maxRetries tag h f resolved = { s.setPhase tag h .finished with
        broker := s.broker.write h.owner fs } := by
  unfold State.finish
  simp only
  split
  · rename_i hres
    exact .inl ⟨rfl, consume_waits hres⟩
  · exact .inr rfl

/-- A handler moves on with its delivery. -/
structure Moves (s s' : State π) (tag : Nat) (h h' : Handler π) : Prop where
  owner : h'.owner = h.owner
  copy : h'.copy = h.copy
  next : h.phase.Next h'.phase
  inserted : h'.phase = .inserted → ¬ Processed s.db h.copy.message
  update : ∀ update, h'.phase = .processed update →
    ∃ u, State.processOrderMessage h.copy.message u = .ok update
  ended : h'.phase = .refused ∨ h'.phase = .resolved → h.phase = .refused ∨
    (Processed s'.db h.copy.message ∧ Ended s' tag h.copy)

omit [DecidableEq π] in
/-- Phases that no other part of the state depends on. -/
theorem moves_plain {h : Handler π} {ph : Phase} (hnext : h.phase.Next ph)
    (hph : ph = .aborting ∨ ph.spent = true ∨ (h.phase = .refused ∧ ph = .resolved)) :
    Moves s s' tag h { h with phase := ph } := by
  have hne : ∀ ph', ph = ph' → ph' = .aborting ∨ ph'.spent = true ∨ ph' = .resolved := by
    rintro ph' rfl
    exact hph.imp_right (Or.imp_right And.right)
  refine ⟨rfl, rfl, hnext, fun heq => ?_, fun update heq => ?_, fun hor => ?_⟩
  · rcases hne _ heq with h | h | h <;> cases h
  · rcases hne _ heq with h | h | h <;> cases h
  · rcases hph with h | h | h
    · rcases hor with heq | heq <;> exact absurd (h.symm.trans heq) (by decide)
    · rcases hor with heq | heq <;> (change ph = _ at heq; rw [heq] at h; cases h)
    · exact .inl h.1

theorem Advance.handler {u : OrderUpdate} {f : Faults} (hadv : Advance maxRetries s tag u f s')
    (hh' : s'.handlers t = some h') :
    (s.handlers t = some h' ∧ t ≠ tag) ∨
      ∃ h, s.handlers t = some h ∧ t = tag ∧ Moves s s' t h h' := by
  -- a step changes the handler of `tag` only; what is left is that it moves as allowed
  have moved : ∀ (h : Handler π) (ph : Phase), s.handlers tag = some h →
      (s.handlers t = some h' ∧ t ≠ tag) ∨ (t = tag ∧ h' = { h with phase := ph }) →
      Moves s s' tag h { h with phase := ph } → (s.handlers t = some h' ∧ t ≠ tag) ∨
        ∃ h, s.handlers t = some h ∧ t = tag ∧ Moves s s' t h h' := by
    intro h ph hh hor hmoves
    rcases hor with hold | ⟨rfl, rfl⟩
    · exact .inl hold
    · exact .inr ⟨h, hh, rfl, hmoves⟩
  cases hadv with
  | duplicate h hh hph hrow =>
    refine moved h _ hh (setPhase_handlers hh') ⟨rfl, rfl, ?_, ?_, ?_, fun _ => .inr ⟨hrow, .inr ?_⟩⟩
    · rw [hph]
      exact .duplicate
    · intro heq
      cases heq
    · intro update heq
      cases heq
    · exact List.mem_append_right _ (List.mem_singleton_self _)
  | insert h hh hph hrow hlock =>
    refine moved h _ hh (setPhase_handlers hh') ⟨rfl, rfl, ?_, fun _ => hrow, ?_, ?_⟩
    · rw [hph]
      exact .insert
    · intro update heq
      cases heq
    · intro hor
      rcases hor with heq | heq <;> cases heq
  | process h update hh hph hok =>
    refine moved h _ hh (setPhase_handlers hh') ⟨rfl, rfl, ?_, ?_, fun update' heq => ⟨u, ?_⟩, ?_⟩
    · rw [hph]
      exact .process update
    · intro heq
      cases heq
    · rw [← Phase.processed.inj heq]
      exact hok
    · intro hor
      rcases hor with heq | heq <;> cases heq
  | throws h hh hph =>
    exact moved h _ hh (setPhase_handlers hh') (moves_plain (hph ▸ .throws) (.inl rfl))
  | commit h update hh hph =>
    refine moved h _ hh (setPhase_handlers hh') ⟨rfl, rfl, ?_, ?_, ?_,
      fun _ => .inr ⟨processed_applyMessage.mpr (.inr rfl), .inl ?_⟩⟩
    · rw [hph]
      exact .commit update
    · intro heq
      cases heq
    · intro update heq
      cases heq
    · exact List.mem_append_right _ (List.mem_singleton_self _)
  | rollback h hh hph =>
    exact moved h _ hh (setPhase_handlers hh') (moves_plain (hph ▸ .rollback) (.inr (.inl rfl)))
  | resolve h hh hph =>
    exact moved h _ hh (setPhase_handlers hh')
      (moves_plain (hph ▸ .resolve) (.inr (.inr ⟨hph, rfl⟩)))
  | finish h resolved hh hph =>
    rcases finish_cases maxRetries s tag h f resolved with ⟨heq, -⟩ | heq
    · rw [heq] at hh'
      exact moved h _ hh (setPhase_handlers hh') (moves_plain (hph ▸ .wait resolved) (.inr (.inl rfl)))
    · rw [heq] at hh'
      exact moved h _ hh (setPhase_handlers hh')
        (moves_plain (hph ▸ .finish resolved) (.inr (.inl rfl)))
  | fire h hh hph =>
    exact moved h _ hh (fire_handlers hh') (moves_plain (hph ▸ .fire) (.inr (.inl rfl)))

/-- A process that a step ends has no handlers after it. -/
theorem Advance.running {u : OrderUpdate} {f : Faults} (hadv : Advance maxRetries s tag u f s')
    (hh' : s'.handlers t = some h') (hrun : s.running h'.owner = true) :
    s'.running h'.owner = true := by
  cases hadv with
  | fire h hh hph =>
    -- a process that dies while it retries takes its handlers with it
    rcases fire_cases s tag h f with heq | heq
    · rw [heq]
      exact hrun
    · rw [heq] at hh' ⊢
      show Function.update s.running h.owner false h'.owner = true
      rwa [Function.update_of_ne (die_handlers hh').2]
  | _ => exact hrun

/-- A handler after a step is one from before, a new one, or one that has moved. -/
theorem Step.handler (hs : Step maxRetries s l s') (hh' : s'.handlers t = some h') :
    s.handlers t = some h' ∨
      (t = s.broker.nextTag ∧ t < s'.broker.nextTag ∧ h'.phase = .started ∧
        h'.copy ∈ s.broker.queues .process) ∨
      ∃ h, s.handlers t = some h ∧ Moves s s' t h h' := by
  cases hs with
  | start p hstart =>
    obtain ⟨-, -, rfl⟩ := start_cases hstart
    exact .inl hh'
  | die p hp => exact .inl (die_handlers hh').1
  | close p hp => exact .inl hh'
  | deliver p i hd =>
    obtain ⟨-, b, c, hb, rfl⟩ := deliver_cases hd
    obtain ⟨hi, -, rfl⟩ := Broker.deliver_cases hb
    by_cases ht : t = s.broker.nextTag
    · subst ht
      simp only [Function.update_self, Option.some.injEq] at hh'
      rw [← hh']
      exact .inr (.inl ⟨rfl, Nat.lt_succ_self _, rfl, List.mem_of_getElem? hi⟩)
    · simp only [Function.update_of_ne ht] at hh'
      exact .inl hh'
  | take p ht =>
    obtain ⟨b, -, rfl⟩ := Option.map_eq_some_iff.mp ht
    exact .inl hh'
  | takePair p ht =>
    obtain ⟨-, b, b', -, -, rfl⟩ := takePair_cases ht
    exact .inl hh'
  | advance tag u f hadv =>
    rcases (advance_cases hadv).handler hh' with ⟨hold, -⟩ | ⟨h, hh, -, hmoves⟩
    · exact .inl hold
    · exact .inr (.inr ⟨h, hh, hmoves⟩)
  | fault tag h hh hph =>
    rcases setPhase_handlers hh' with ⟨hold, -⟩ | ⟨rfl, rfl⟩
    · exact .inl hold
    · exact .inr (.inr ⟨h, hh, moves_plain (.fault _ hph) (.inr (.inl rfl))⟩)
  | publish m => exact .inl hh'
  | shop db hshop => exact .inl hh'

/-! ## Tables and history -/

/-- What a step does to the tables, and what it records. -/
inductive Effect (s : State π) (l : Label π) (s' : State π) : Prop
  | nothing (hdb : s'.db = s.db) (hhistory : s'.history = s.history)
  | shop (hl : l = .shop) (hshop : ShopChange s.db s'.db) (hhistory : s'.history = s.history)
  | published (c : Copy) (hdb : s'.db = s.db) (hbroker : s'.broker = s.broker.put .process c)
      (hhistory : s'.history = s.history ++ [.published c])
  | duplicate (tag : Nat) (h : Handler π) (hh : s.handlers tag = some h)
      (hdb : s'.db = s.db) (hhistory : s'.history = s.history ++ [.duplicate tag h.copy])
  | committed (tag : Nat) (h : Handler π) (update : Option OrderUpdate)
      (hh : s.handlers tag = some h) (hph : h.phase = .processed update)
      (hself : s'.handlers tag = some { h with phase := .resolved })
      (hothers : ∀ t, t ≠ tag → s'.handlers t = s.handlers t)
      (hdb : s'.db = State.applyMessage s.db h.copy.message update)
      (hhistory : s'.history = s.history ++ [.committed tag h.copy])

theorem Step.effect (hs : Step maxRetries s l s') : Effect s l s' := by
  cases hs with
  | start p hstart =>
    obtain ⟨-, -, rfl⟩ := start_cases hstart
    exact .nothing rfl rfl
  | die p hp => exact .nothing rfl rfl
  | close p hp => exact .nothing rfl rfl
  | deliver p i hd =>
    obtain ⟨-, b, c, -, rfl⟩ := deliver_cases hd
    exact .nothing rfl rfl
  | take p ht =>
    obtain ⟨b, -, rfl⟩ := Option.map_eq_some_iff.mp ht
    exact .nothing rfl rfl
  | takePair p ht =>
    obtain ⟨-, b, b', -, -, rfl⟩ := takePair_cases ht
    exact .nothing rfl rfl
  | advance tag u f hadv =>
    cases advance_cases hadv with
    | duplicate h hh hph hrow => exact .duplicate tag h hh rfl rfl
    | commit h update hh hph =>
      exact .committed tag h update hh hph (Function.update_self ..)
        (fun t ht => Function.update_of_ne ht ..) rfl rfl
    | fire h hh hph =>
      rcases fire_cases s tag h f with heq | heq <;> rw [heq] <;> exact .nothing rfl rfl
    | _ => exact .nothing rfl rfl
  | fault tag h hh hph => exact .nothing rfl rfl
  | publish m => exact .published _ rfl rfl rfl
  | shop db hshop => exact .shop rfl hshop rfl

omit [DecidableEq π] in
theorem Effect.history (he : Effect s l s') : s.history ⊆ s'.history := by
  cases he with
  | nothing hdb hhistory => rw [hhistory]; exact List.Subset.refl _
  | shop hl hshop hhistory => rw [hhistory]; exact List.Subset.refl _
  | published c hdb hbroker hhistory => rw [hhistory]; exact List.subset_append_left ..
  | duplicate tag h hh hdb hhistory => rw [hhistory]; exact List.subset_append_left ..
  | committed tag h update hh hph hself hothers hdb hhistory =>
    rw [hhistory]
    exact List.subset_append_left ..

omit [DecidableEq π] in
theorem Effect.processed (he : Effect s l s') {m : ProcessOrderMessage} (hm : Processed s.db m) :
    Processed s'.db m := by
  cases he with
  | nothing hdb hhistory => rwa [hdb]
  | shop hl hshop hhistory =>
    unfold Processed
    rwa [hshop.processedMessages]
  | published c hdb hbroker hhistory => rwa [hdb]
  | duplicate tag h hh hdb hhistory => rwa [hdb]
  | committed tag h update hh hph hself hothers hdb hhistory =>
    rw [hdb]
    exact processed_applyMessage.mpr (.inl hm)

omit [DecidableEq π] in
theorem Effect.ended (he : Effect s l s') {c : Copy} (hc : Ended s tag c) : Ended s' tag c :=
  hc.imp (he.history ·) (he.history ·)

omit [DecidableEq π] in
/-- A new COMMIT in the history is the one of this step. -/
theorem Effect.new_commit (he : Effect s l s') {c : Copy} (hc : .committed tag c ∈ s'.history) :
    .committed tag c ∈ s.history ∨ ∃ h update, s.handlers tag = some h ∧
      h.phase = .processed update ∧ s'.handlers tag = some { h with phase := .resolved } ∧
      s'.db = State.applyMessage s.db h.copy.message update ∧ c = h.copy := by
  cases he with
  | nothing hdb hhistory => exact .inl (hhistory ▸ hc)
  | shop hl hshop hhistory => exact .inl (hhistory ▸ hc)
  | published c' hdb hbroker hhistory =>
    rw [hhistory, List.mem_append, List.mem_singleton] at hc
    exact .inl (hc.resolve_right fun heq => by cases heq)
  | duplicate t h hh hdb hhistory =>
    rw [hhistory, List.mem_append, List.mem_singleton] at hc
    exact .inl (hc.resolve_right fun heq => by cases heq)
  | committed t h update hh hph hself hothers hdb hhistory =>
    rw [hhistory, List.mem_append, List.mem_singleton] at hc
    refine hc.imp_right fun heq => ?_
    obtain ⟨rfl, rfl⟩ := Event.committed.inj heq
    exact ⟨h, update, hh, hph, hself, hdb, rfl⟩

omit [DecidableEq π] in
theorem Effect.new_published (he : Effect s l s') {c : Copy} (hc : .published c ∈ s'.history) :
    .published c ∈ s.history ∨ s'.broker = s.broker.put .process c := by
  cases he with
  | nothing hdb hhistory => exact .inl (hhistory ▸ hc)
  | shop hl hshop hhistory => exact .inl (hhistory ▸ hc)
  | published c' hdb hbroker hhistory =>
    rw [hhistory, List.mem_append, List.mem_singleton] at hc
    refine hc.imp_right fun heq => ?_
    rw [Event.published.inj heq]
    exact hbroker
  | duplicate t h hh hdb hhistory =>
    rw [hhistory, List.mem_append, List.mem_singleton] at hc
    exact .inl (hc.resolve_right fun heq => by cases heq)
  | committed t h update hh hph hself hothers hdb hhistory =>
    rw [hhistory, List.mem_append, List.mem_singleton] at hc
    exact .inl (hc.resolve_right fun heq => by cases heq)

/-! ## Channels -/

theorem Step.nextTag_le (hs : Step maxRetries s l s') : s.broker.nextTag ≤ s'.broker.nextTag := by
  cases hs with
  | start p hstart =>
    obtain ⟨-, -, rfl⟩ := start_cases hstart
    exact Nat.le_refl _
  | deliver p i hd =>
    obtain ⟨-, b, c, hb, rfl⟩ := deliver_cases hd
    obtain ⟨-, -, rfl⟩ := Broker.deliver_cases hb
    exact Nat.le_succ _
  | take p ht =>
    obtain ⟨b, hb, rfl⟩ := Option.map_eq_some_iff.mp ht
    exact Nat.le_of_eq (Broker.take_nextTag hb).symm
  | takePair p ht =>
    obtain ⟨-, b, b', hb, hb', rfl⟩ := takePair_cases ht
    exact Nat.le_of_eq ((Broker.take_nextTag hb').trans (Broker.take_nextTag hb)).symm
  | advance tag u f hadv =>
    cases advance_cases hadv with
    | fire h hh hph =>
      rcases fire_cases s tag h f with heq | heq <;> rw [heq] <;> exact Nat.le_refl _
    | _ => exact Nat.le_refl _
  | _ => exact Nat.le_refl _

theorem Step.nextPub (hs : Step maxRetries s l s') :
    s.nextPub ≤ s'.nextPub ∧ ∀ m, l = .publish m → s.nextPub < s'.nextPub := by
  have unchanged : s'.nextPub = s.nextPub → (∀ m, l ≠ .publish m) →
      s.nextPub ≤ s'.nextPub ∧ ∀ m, l = .publish m → s.nextPub < s'.nextPub :=
    fun heq hne => ⟨Nat.le_of_eq heq.symm, fun m hm => absurd hm (hne m)⟩
  cases hs with
  | publish m => exact ⟨Nat.le_succ _, fun _ _ => Nat.lt_succ_self _⟩
  | start p hstart =>
    obtain ⟨-, -, rfl⟩ := start_cases hstart
    exact unchanged rfl fun m h => by cases h
  | deliver p i hd =>
    obtain ⟨-, b, c, -, rfl⟩ := deliver_cases hd
    exact unchanged rfl fun m h => by cases h
  | take p ht =>
    obtain ⟨b, -, rfl⟩ := Option.map_eq_some_iff.mp ht
    exact unchanged rfl fun m h => by cases h
  | takePair p ht =>
    obtain ⟨-, b, b', -, -, rfl⟩ := takePair_cases ht
    exact unchanged rfl fun m h => by cases h
  | advance tag u f hadv =>
    refine unchanged ?_ fun m h => by cases h
    cases advance_cases hadv with
    | fire h hh hph => rcases fire_cases s tag h f with heq | heq <;> rw [heq] <;> rfl
    | _ => rfl
  | _ => exact unchanged rfl fun m h => by cases h

/-- What a step of the handler of `tag` writes to its channel. -/
structure Output (s s' : State π) (tag : Nat) (f : Faults) (h : Handler π) (resolved : Bool)
    (fs : List (Frame Queue Copy)) : Prop where
  handler : s.handlers tag = some h
  unfinished : h.phase ≠ .finished
  writes : Writes resolved tag h.copy fs
  resolved : resolved = true → h.phase = .resolved
  isOpen : fs ≠ [] → s.broker.isOpen h.owner = true
  finished : fs ≠ [] → ∀ h', s'.handlers tag = some h' → h'.phase = .finished
  exchanges : f = .none → ∀ ds : List (Delivery π Queue Copy),
    (∀ d ∈ ds, d.tag = tag → d.message.pub = h.copy.pub) → Broker.Exchanges (·.pub) ds fs
  broker : s'.broker = s.broker.write h.owner fs

theorem output_nothing {f : Faults} {h : Handler π} (hh : s.handlers tag = some h)
    (hph : h.phase ≠ .finished) (hb : s'.broker = s.broker) : Output s s' tag f h false [] where
  handler := hh
  unfinished := hph
  writes := .nothing
  resolved := fun h => by cases h
  isOpen := fun h => absurd rfl h
  finished := fun h => absurd rfl h
  exchanges := fun _ _ _ => trivial
  broker := by rw [hb, Broker.write_nil]

theorem Advance.output {u : OrderUpdate} {f : Faults} (hadv : Advance maxRetries s tag u f s') :
    ∃ h resolved fs, Output s s' tag f h resolved fs := by
  -- only the end of a handler writes frames
  have plain : ∀ h, s.handlers tag = some h → h.phase ≠ .finished → s'.broker = s.broker →
      ∃ h resolved fs, Output s s' tag f h resolved fs :=
    fun h hh hph hb => ⟨h, false, [], output_nothing hh hph hb⟩
  cases hadv with
  | duplicate h hh hph hrow => exact plain h hh (by rw [hph]; decide) rfl
  | insert h hh hph hrow hlock => exact plain h hh (by rw [hph]; decide) rfl
  | process h update hh hph hok => exact plain h hh (by rw [hph]; decide) rfl
  | throws h hh hph => exact plain h hh (by rw [hph]; decide) rfl
  | commit h update hh hph => exact plain h hh (by rw [hph]; exact fun heq => by cases heq) rfl
  | rollback h hh hph => exact plain h hh (by rw [hph]; decide) rfl
  | resolve h hh hph => exact plain h hh (by rw [hph]; decide) rfl
  | finish h resolved hh hph =>
    have hunfinished : h.phase ≠ .finished := by
      rw [hph]
      cases resolved <;> decide
    rcases finish_cases maxRetries s tag h f resolved with ⟨heq, hnil⟩ | heq
    · refine plain h hh hunfinished ?_
      rw [heq, hnil]
      exact Broker.write_nil _ _
    · refine ⟨h, resolved, _, hh, hunfinished, writes_consume maxRetries (s.faults h f) tag h.copy
        resolved, fun hres => by rw [hph, if_pos hres], fun hne => ?_, fun _ h' hh' => ?_,
        fun hf ds hds => ?_, by rw [heq]⟩
      · -- on a closed channel the first call fails, and nothing is written
        by_contra hclosed
        rw [State.faults, if_neg hclosed] at hne
        exact hne consume_all
      · rw [heq] at hh'
        rcases setPhase_handlers hh' with ⟨-, hne⟩ | ⟨-, rfl⟩
        · exact absurd rfl hne
        · rfl
      · unfold State.faults
        split
        · rw [hf]
          exact exchanges_consume hds
        · rw [consume_all]
          trivial
  | fire h hh hph =>
    have hb : (s.fire tag h f).broker =
        s.broker.write h.owner (retry (s.faults h f) tag h.copy).exec.2 := by
      rcases fire_cases s tag h f with heq | heq
      · rw [heq]
      · rw [heq]
        rfl
    refine ⟨h, false, _, hh, by rw [hph]; decide, writes_retry (s.faults h f) tag h.copy,
      (fun hres => by cases hres), fun hne => ?_, fun _ h' hh' => ?_, fun hf ds hds => ?_, hb⟩
    · by_contra hclosed
      rw [State.faults, if_neg hclosed] at hne
      exact hne retry_all
    · rcases fire_handlers hh' with ⟨-, hne⟩ | ⟨-, rfl⟩
      · exact absurd rfl hne
      · rfl
    · unfold State.faults
      split
      · rw [hf]
        exact exchanges_retry hds
      · rw [retry_all]
        trivial

end Steps

/-! ## What every copy has in common -/

/-- Every copy of a message, wherever it is, has the property `P`. -/
structure Carried (P : Copy → Prop) (s : State π) : Prop where
  broker : s.broker.All P
  handlers : ∀ t h, s.handlers t = some h → P h.copy

section Carried

variable {s s' : State π} {l : Label π} {P Q : Copy → Prop}

omit [DecidableEq π] in
theorem Carried.mono (hc : Carried P s) (himp : ∀ c, P c → Q c) : Carried Q s :=
  ⟨hc.broker.mono himp, fun t h hh => himp _ (hc.handlers t h hh)⟩

theorem Carried.step (hc : Carried P s) (hs : Step maxRetries s l s')
    (hpub : ∀ m, l = .publish m → P { message := m, pub := s.nextPub })
    (hretry : ∀ c, P c → P c.retry) : Carried P s' := by
  refine ⟨?_, fun t h' hh' => ?_⟩
  · cases hs with
    | start p hstart =>
      obtain ⟨-, -, rfl⟩ := start_cases hstart
      exact ⟨hc.broker.queues, hc.broker.unsettled, hc.broker.wires⟩
    | die p hp => exact hc.broker
    | close p hp => exact hc.broker.close p
    | deliver p i hd =>
      obtain ⟨-, b, c, hb, rfl⟩ := deliver_cases hd
      exact (hc.broker.deliver hb).1
    | take p ht =>
      obtain ⟨b, hb, rfl⟩ := Option.map_eq_some_iff.mp ht
      exact hc.broker.take hb
    | takePair p ht =>
      obtain ⟨-, b, b', hb, hb', rfl⟩ := takePair_cases ht
      exact (hc.broker.take hb).take hb'
    | advance tag u f hadv =>
      obtain ⟨h, resolved, fs, hout⟩ := (advance_cases hadv).output
      rw [hout.broker]
      refine hc.broker.write fun t q c' hm => ?_
      -- the handler writes its own copy, or the retry of it
      rcases hout.writes.publish hm with rfl | rfl
      · exact hc.handlers tag h hout.handler
      · exact hretry _ (hc.handlers tag h hout.handler)
    | fault tag h hh hph => exact hc.broker
    | publish m => exact hc.broker.put .process (hpub m rfl)
    | shop db hshop => exact hc.broker
  · rcases hs.handler hh' with hold | ⟨-, -, -, hmem⟩ | ⟨h, hh, hmoves⟩
    · exact hc.handlers t h' hold
    · exact hc.broker.queues .process h'.copy hmem
    · rw [hmoves.copy]
      exact hc.handlers t h hh

end Carried

end Ecommerce.Worker
