import Ecommerce.Worker.ChainProgress

/-!
# CalmSteps — what a step does when nothing fails any more

Earlier steps may have failed in any way: processes may be gone, channels closed, transactions
rolled back.  Whatever is left of that, each unsettled delivery has a handler that still has a turn
to take, an ack on its way, or a channel that closes.
-/

namespace Ecommerce.Worker

open Amqp Locking Orders Transition

variable {π : Type} [DecidableEq π] {maxRetries : Number} {db₀ : Db} {messageId : UUID}

/-- Broker calls throw on closed channels only, and no message under this id simulates a failure. -/
def Genuine (messageId : UUID) (_ : State π) : Label π → Prop
  | .advance _ f => f = .none
  | .publish m => m.messageId = messageId → m.simulateFailure = none
  | _ => True

/-- Nothing fails any more: a channel closes only after its process. -/
def Calm (s : State π) : Label π → Prop
  | .die _ => False
  | .fault _ => False
  | .close o => s.running o = false
  | _ => True

/-- Every process has its channel. -/
def Up (s : State π) : Prop := ∀ o, s.running o = true → s.broker.isOpen o = true

/-- Each unsettled delivery of a process that is up has its handler, and one that is through has
written its ack. -/
def Watched (s : State π) : Prop :=
  ∀ d ∈ s.broker.unsettled, s.running d.owner = true → ∃ h, s.handlers d.tag = some h ∧
    h.owner = d.owner ∧ h.copy = d.message ∧ (h.phase = .finished → .ack d.tag ∈ s.broker.wire d.owner)

section Steps

variable {s s' : State π} {l : Label π} {t tag : Nat} {h h' : Handler π} {o : π} {c : Copy}

/-! ## Every step -/

theorem Advance.others {u : OrderUpdate} {f : Faults} (hadv : Advance maxRetries s tag u f s')
    (ht : t ≠ tag) (hh : s.handlers t = some h) (hrun : s'.running h.owner = true) :
    s'.handlers t = some h := by
  have plain (h₀ : Handler π) (ph : Phase) : (s.setPhase tag h₀ ph).handlers t = some h := by
    rw [setPhase_of_ne s h₀ ph ht, hh]
  cases hadv with
  | finish h₀ resolved hh₀ hph =>
    rcases finish_cases maxRetries s tag h₀ f resolved with ⟨heq, -⟩ | heq <;> rw [heq]
    · exact plain h₀ .backoff
    · exact plain h₀ .finished
  | fire h₀ hh₀ hph =>
    rcases fire_cases s tag h₀ f with heq | heq <;> rw [heq] at hrun ⊢
    · exact plain h₀ .finished
    · -- the process of this handler has not died
      have howner : h.owner ≠ h₀.owner := by
        intro howner
        rw [howner] at hrun
        simp [State.die] at hrun
      simp only [State.die]
      rw [plain h₀ .finished]
      exact if_neg howner
  | _ => exact plain _ _

theorem Advance.running_before {u : OrderUpdate} {f : Faults}
    (hadv : Advance maxRetries s tag u f s') (hrun : s'.running o = true) : s.running o = true := by
  cases hadv with
  | finish h resolved hh hph =>
    rcases finish_cases maxRetries s tag h f resolved with ⟨heq, -⟩ | heq <;> rw [heq] at hrun <;>
      exact hrun
  | fire h hh hph =>
    rcases fire_cases s tag h f with heq | heq <;> rw [heq] at hrun
    · exact hrun
    · change Function.update s.running h.owner false o = true at hrun
      by_cases ho : o = h.owner
      · rw [ho, Function.update_self] at hrun
        cases hrun
      · rwa [Function.update_of_ne ho] at hrun
  | _ => exact hrun

theorem Watched.take (hw : Watched s) (hok : s.broker.Ok) {b : Broker π Queue Copy}
    (ht : s.broker.take o = some b) : Watched { s with broker := b } := by
  -- a frame that is taken leaves the other acks on their way
  have hack {f : Frame Queue Copy} {fs : List (Frame Queue Copy)} (hwire : s.broker.wire o = f :: fs)
      {t : Nat} {o' : π} (hmem : .ack t ∈ s.broker.wire o') (hne : f ≠ .ack t) :
      .ack t ∈ Function.update s.broker.wire o fs o' := by
    by_cases ho : o' = o
    · rw [ho, hwire] at hmem
      rw [ho, Function.update_self]
      exact (List.mem_cons.mp hmem).resolve_left fun heq => hne heq.symm
    · rwa [Function.update_of_ne ho]
  cases hok.take_cases ht with
  | publish tag q c fs hwire =>
    intro d hd hrun
    obtain ⟨h, hh, howner, hcopy, hfinished⟩ := hw d hd hrun
    exact ⟨h, hh, howner, hcopy, fun hph => hack hwire (hfinished hph) (by simp)⟩
  | ack d₀ fs hd₀ hp hwire =>
    intro d hd hrun
    obtain ⟨hd, hne⟩ := List.mem_filter.mp hd
    obtain ⟨h, hh, howner, hcopy, hfinished⟩ := hw d hd hrun
    refine ⟨h, hh, howner, hcopy, fun hph => hack hwire (hfinished hph) ?_⟩
    simpa using Ne.symm (of_decide_eq_true hne)
  | reject d₀ fs hd₀ hp hwire =>
    intro d hd hrun
    obtain ⟨h, hh, howner, hcopy, hfinished⟩ := hw d (List.mem_of_mem_filter hd) hrun
    exact ⟨h, hh, howner, hcopy, fun hph => hack hwire (hfinished hph) (by simp)⟩

theorem Watched.turned (hw : Watched s) {ph : Phase} {fs : List (Frame Queue Copy)}
    (hturn : Turned maxRetries s s' tag h ph fs) : Watched s' := by
  intro d hd hrun
  rw [hturn.broker] at hd ⊢
  rw [hturn.running] at hrun
  obtain ⟨hd', hh, howner, hcopy, hfinished⟩ := hw d hd hrun
  by_cases ht : d.tag = tag
  · obtain rfl := Option.some.inj (hturn.handler.symm.trans (ht ▸ hh))
    refine ⟨{ h with phase := ph }, ?_, howner, hcopy, fun hph => ?_⟩
    · rw [hturn.handlers, ht, Function.update_self]
    · -- a handler that finishes writes the ack of its delivery
      rw [write_wire, if_pos howner.symm, ht]
      exact List.mem_append_right _ (hturn.turns.frames.2.2.1 hph)
  · refine ⟨hd', by rw [hturn.handlers, Function.update_of_ne ht, hh], howner, hcopy, fun hph => ?_⟩
    rw [write_wire]
    split
    · exact List.mem_append_left _ (hfinished hph)
    · exact hfinished hph

theorem Watched.step (hw : Watched s) (hk : Attached s) (hg : Genuine messageId s l)
    (hs : Step maxRetries s l s') : Watched s' := by
  cases hs with
  | start p hstart =>
    obtain ⟨-, hclosed, rfl⟩ := start_cases hstart
    intro d hd hrun
    -- what is unsettled is on an open channel, and the new one was closed
    have hne : d.owner ≠ p := by
      rintro rfl
      exact absurd ((hk.ok.ownerOpen d hd).symm.trans hclosed) (by decide)
    change Function.update s.running p true d.owner = true at hrun
    rw [Function.update_of_ne hne] at hrun
    exact hw d hd hrun
  | die p hp =>
    intro d hd hrun
    have hne : d.owner ≠ p := by
      rintro rfl
      simp [State.die] at hrun
    change Function.update s.running p false d.owner = true at hrun
    rw [Function.update_of_ne hne] at hrun
    obtain ⟨h, hh, howner, hrest⟩ := hw d hd hrun
    refine ⟨h, ?_, howner, hrest⟩
    simp only [State.die]
    rw [hh]
    exact if_neg (howner ▸ hne)
  | close p hp =>
    intro d hd hrun
    obtain ⟨hd, hne⟩ := List.mem_filter.mp hd
    obtain ⟨h, hh, howner, hcopy, hfinished⟩ := hw d hd hrun
    refine ⟨h, hh, howner, hcopy, fun hph => ?_⟩
    show _ ∈ Function.update s.broker.wire p [] d.owner
    rw [Function.update_of_ne (by simpa using hne)]
    exact hfinished hph
  | deliver p i hd =>
    obtain ⟨hrunning, b, c, hb, rfl⟩ := deliver_cases hd
    obtain ⟨-, -, rfl⟩ := Broker.deliver_cases hb
    intro d hd hrun
    rcases List.mem_append.mp hd with hd | hd
    · obtain ⟨h, hh, hrest⟩ := hw d hd hrun
      refine ⟨h, ?_, hrest⟩
      rw [← hh]
      exact Function.update_of_ne (Nat.ne_of_lt (hk.ok.fresh d hd)) ..
    · rw [List.mem_singleton.mp hd]
      exact ⟨_, Function.update_self .., rfl, rfl, fun hph => by cases hph⟩
  | take p ht =>
    obtain ⟨b, hb, rfl⟩ := Option.map_eq_some_iff.mp ht
    exact hw.take hk.ok hb
  | takePair p ht =>
    obtain ⟨-, b, b', hb, hb', rfl⟩ := takePair_cases ht
    exact (hw.take hk.ok hb).take (hk.ok.take hb) hb'
  | advance tag u f hadv =>
    obtain rfl : f = .none := hg
    have hcases := advance_cases hadv
    obtain ⟨h, resolved, fs, hout⟩ := hcases.output
    by_cases hopen : s.broker.isOpen h.owner = true
    · obtain ⟨h', ph, fs', hturn⟩ := turned_of_advance hadv fun h' hh' => by
        rwa [Option.some.inj (hh'.symm.trans hout.handler)]
      exact hw.turned hturn
    · -- on a closed channel nothing is written, and nothing is unsettled
      have hnil : fs = [] := by
        by_contra hne
        exact hopen (hout.isOpen hne)
      intro d hd hrun
      rw [hout.broker, hnil, Broker.write_nil] at hd ⊢
      obtain ⟨hd', hh, howner, hrest⟩ := hw d hd (hcases.running_before hrun)
      refine ⟨hd', hcases.others ?_ hh (howner ▸ hrun), howner, hrest⟩
      intro ht
      rw [ht, hout.handler] at hh
      rw [Option.some.inj hh, howner] at hopen
      exact hopen (hk.ok.ownerOpen d hd)
  | fault tag h hh hph =>
    intro d hd hrun
    obtain ⟨hd', hhd, howner, hcopy, hfinished⟩ := hw d hd hrun
    by_cases ht : d.tag = tag
    · rw [ht, hh] at hhd
      obtain rfl := Option.some.inj hhd
      refine ⟨{ h with phase := .rejected }, ?_, howner, hcopy, fun hph => by cases hph⟩
      rw [ht]
      exact setPhase_self s tag h .rejected
    · exact ⟨hd', (setPhase_of_ne s h .rejected ht).trans hhd, howner, hcopy, hfinished⟩
  | publish m => exact hw
  | shop db hshop => exact hw

theorem reachable_watched (hr : (system maxRetries db₀).Reach (Genuine messageId) s) : Watched s :=
  hr.invariant (fun s h0 => by rw [show s = _ from h0]; exact fun d hd => by cases hd)
    fun _ _ _ hr hw hg hs => hw.step (reachable_kept hr).attached hg hs

/-! ## Turns -/

omit [DecidableEq π] in
theorem Turns.of_inserted {ph : Phase} {fs : List (Frame Queue Copy)}
    (hturn : Turns maxRetries s tag h ph fs) (hph : h.phase = .inserted)
    (hgenuine : h.copy.message.simulateFailure = none) : ∃ update, ph = .processed update := by
  cases hturn with
  | process u update hph' hok => exact ⟨update, rfl⟩
  | throws u reason hph' herr => simp [State.processOrderMessage, hgenuine] at herr
  | _ => simp_all

omit [DecidableEq π] in
theorem Turns.of_aborting {ph : Phase} {fs : List (Frame Queue Copy)}
    (hturn : Turns maxRetries s tag h ph fs) (hph : h.phase = .aborting) : ph = .rejected := by
  cases hturn with
  | rollback hph' => rfl
  | _ => simp_all

omit [DecidableEq π] in
theorem Turns.of_started {ph : Phase} {fs : List (Frame Queue Copy)}
    (hturn : Turns maxRetries s tag h ph fs) (hph : h.phase = .started) :
    ph = .inserted ∨ ph = .refused := by
  cases hturn with
  | duplicate hph' hrow => exact .inr rfl
  | insert hph' hrow => exact .inl rfl
  | _ => simp_all

omit [DecidableEq π] in
theorem Turns.of_rejected {ph : Phase} {fs : List (Frame Queue Copy)}
    (hturn : Turns maxRetries s tag h ph fs) (hph : h.phase = .rejected) :
    ph = .finished ∨ ph = .backoff := by
  cases hturn with
  | giveUp hph' hge => exact .inl rfl
  | wait hph' hlt => exact .inr rfl
  | _ => simp_all

omit [DecidableEq π] in
theorem Turns.of_backoff {ph : Phase} {fs : List (Frame Queue Copy)}
    (hturn : Turns maxRetries s tag h ph fs) (hph : h.phase = .backoff) : ph = .finished := by
  cases hturn with
  | fire hph' => rfl
  | _ => simp_all

/-! ## Calm steps -/

/-- In a calm step a handler stays as it is, or takes its next turn. -/
theorem Up.handler (hup : Up s) (hi : Inv db₀ s) (hk : Attached s) (hg : Genuine messageId s l)
    (hq : Calm s l) (hs : Step maxRetries s l s') (hh : s.handlers t = some h) :
    (s'.handlers t = some h ∧ ∀ f, l ≠ .advance t f) ∨
      ∃ ph fs, Turned maxRetries s s' t h ph fs := by
  have same (heq : s'.handlers = s.handlers) (hne : ∀ f, l ≠ .advance t f) :
      (s'.handlers t = some h ∧ ∀ f, l ≠ .advance t f) ∨
        ∃ ph fs, Turned maxRetries s s' t h ph fs := .inl ⟨heq ▸ hh, hne⟩
  cases hs with
  | start p hstart =>
    obtain ⟨-, -, rfl⟩ := start_cases hstart
    exact same rfl fun f heq => by cases heq
  | die p hp => exact hq.elim
  | deliver p i hd =>
    obtain ⟨-, b, c, -, rfl⟩ := deliver_cases hd
    refine .inl ⟨?_, fun f heq => by cases heq⟩
    rw [← hh]
    exact Function.update_of_ne (Nat.ne_of_lt (hi.tags t h hh)) ..
  | take p ht =>
    obtain ⟨b, -, rfl⟩ := Option.map_eq_some_iff.mp ht
    exact same rfl fun f heq => by cases heq
  | takePair p ht =>
    obtain ⟨-, b, b', -, -, rfl⟩ := takePair_cases ht
    exact same rfl fun f heq => by cases heq
  | advance tag u f hadv =>
    obtain rfl : f = .none := hg
    obtain ⟨h', ph, fs, hturn⟩ := turned_of_advance hadv fun h' hh' =>
      hup h'.owner (hk.running tag h' hh')
    by_cases ht : t = tag
    · subst ht
      obtain rfl := Option.some.inj (hh.symm.trans hturn.handler)
      exact .inr ⟨ph, fs, hturn⟩
    · refine .inl ⟨by rw [hturn.handlers, Function.update_of_ne ht, hh], fun f heq => ht ?_⟩
      exact (Label.advance.inj heq).1.symm
  | fault tag h hh hph => exact hq.elim
  | _ => exact same rfl fun f heq => by cases heq

/-- Nobody stops, and nobody loses the channel. -/
theorem Up.step (hup : Up s) (hk : Attached s) (hg : Genuine messageId s l) (hq : Calm s l)
    (hs : Step maxRetries s l s') : Up s' ∧ ∀ o, s.running o = true → s'.running o = true := by
  cases hs with
  | start p hstart =>
    obtain ⟨-, -, rfl⟩ := start_cases hstart
    refine ⟨fun o hrun => ?_, fun o hrun => ?_⟩
    · show Function.update s.broker.isOpen p true o = true
      change Function.update s.running p true o = true at hrun
      by_cases ho : o = p
      · rw [ho, Function.update_self]
      · rw [Function.update_of_ne ho] at hrun ⊢
        exact hup o hrun
    · show Function.update s.running p true o = true
      by_cases ho : o = p
      · rw [ho, Function.update_self]
      · rwa [Function.update_of_ne ho]
  | die p hp => exact hq.elim
  | close p hp =>
    refine ⟨fun o hrun => ?_, fun _ => id⟩
    have hne : o ≠ p := by
      rintro rfl
      exact absurd (hrun.symm.trans hq) (by decide)
    show Function.update s.broker.isOpen p false o = true
    rw [Function.update_of_ne hne]
    exact hup o hrun
  | deliver p i hd =>
    obtain ⟨-, b, c, hb, rfl⟩ := deliver_cases hd
    obtain ⟨-, -, rfl⟩ := Broker.deliver_cases hb
    exact ⟨hup, fun _ => id⟩
  | take p ht =>
    obtain ⟨b, hb, rfl⟩ := Option.map_eq_some_iff.mp ht
    refine ⟨fun o hrun => ?_, fun _ => id⟩
    rw [hk.ok.take_isOpen hb]
    exact hup o hrun
  | takePair p ht =>
    obtain ⟨-, b, b', hb, hb', rfl⟩ := takePair_cases ht
    refine ⟨fun o hrun => ?_, fun _ => id⟩
    rw [(hk.ok.take hb).take_isOpen hb', hk.ok.take_isOpen hb]
    exact hup o hrun
  | advance tag u f hadv =>
    obtain rfl : f = .none := hg
    obtain ⟨h, ph, fs, hturn⟩ := turned_of_advance hadv fun h hh => hup h.owner (hk.running tag h hh)
    refine ⟨fun o hrun => ?_, fun o hrun => hturn.running ▸ hrun⟩
    rw [hturn.running] at hrun
    rw [hturn.broker]
    exact hup o hrun
  | fault tag h hh hph => exact hq.elim
  | _ => exact ⟨hup, fun _ => id⟩

/-- While its channel is open a process that is gone does not start. -/
theorem Step.stays_gone (hs : Step maxRetries s l s') (hopen : s.broker.isOpen o = true)
    (hgone : s.running o = false) : s'.running o = false := by
  cases hs with
  | start p hstart =>
    obtain ⟨-, hclosed, rfl⟩ := start_cases hstart
    show Function.update s.running p true o = false
    rw [Function.update_of_ne, hgone]
    rintro rfl
    exact absurd (hopen.symm.trans hclosed) (by decide)
  | die p hp =>
    show Function.update s.running p false o = false
    by_cases ho : o = p
    · rw [ho, Function.update_self]
    · rwa [Function.update_of_ne ho]
  | deliver p i hd =>
    obtain ⟨-, b, c, -, rfl⟩ := deliver_cases hd
    exact hgone
  | take p ht =>
    obtain ⟨b, -, rfl⟩ := Option.map_eq_some_iff.mp ht
    exact hgone
  | takePair p ht =>
    obtain ⟨-, b, b', -, -, rfl⟩ := takePair_cases ht
    exact hgone
  | advance tag u f hadv =>
    rw [← Bool.not_eq_true] at hgone ⊢
    exact fun hrun => hgone ((advance_cases hadv).running_before hrun)
  | _ => exact hgone

/-- What lies on `orders.dlq` stays there. -/
theorem Step.dlq (hs : Step maxRetries s l s') (hc : c ∈ s.broker.queues .dlq) :
    c ∈ s'.broker.queues .dlq := by
  have put (b : Broker π Queue Copy) (q : Queue) (c' : Copy) (hc : c ∈ b.queues .dlq) :
      c ∈ (b.put q c').queues .dlq := by
    show c ∈ Function.update b.queues q (b.queues q ++ [c']) .dlq
    by_cases hq : .dlq = q
    · rw [← hq, Function.update_self]
      exact List.mem_append_left _ hc
    · rwa [Function.update_of_ne hq]
  have take {o : π} {b b' : Broker π Queue Copy} (ht : b.take o = some b')
      (hc : c ∈ b.queues .dlq) : c ∈ b'.queues .dlq := by
    unfold Broker.take at ht
    split at ht
    · cases ht
    · rw [← Option.some.inj ht]
      exact put _ _ _ hc
    · split at ht <;> rw [← Option.some.inj ht]
      · exact hc
      · exact List.mem_append_left _ hc
    · split at ht <;> rw [← Option.some.inj ht]
      · exact put _ _ _ hc
      · exact List.mem_append_left _ hc
  cases hs with
  | start p hstart =>
    obtain ⟨-, -, rfl⟩ := start_cases hstart
    exact hc
  | die p hp => exact hc
  | close p hp => exact List.mem_append_left _ hc
  | deliver p i hd =>
    obtain ⟨-, b, c', hb, rfl⟩ := deliver_cases hd
    obtain ⟨-, -, rfl⟩ := Broker.deliver_cases hb
    show c ∈ Function.update s.broker.queues .process ((s.broker.queues .process).eraseIdx i) .dlq
    rwa [Function.update_of_ne (by decide)]
  | take p ht =>
    obtain ⟨b, hb, rfl⟩ := Option.map_eq_some_iff.mp ht
    exact take hb hc
  | takePair p ht =>
    obtain ⟨-, b, b', hb, hb', rfl⟩ := takePair_cases ht
    exact take hb' (take hb hc)
  | advance tag u f hadv =>
    obtain ⟨h, resolved, fs, hout⟩ := (advance_cases hadv).output
    rw [hout.broker]
    exact hc
  | fault tag h hh hph => exact hc
  | publish m => exact put _ _ _ hc
  | shop db hshop => exact hc

/-- An unsettled delivery was there before, or has just been made, to a process. -/
theorem Step.delivered (hs : Step maxRetries s l s') {d : Delivery π Queue Copy}
    (hd : d ∈ s'.broker.unsettled) : d ∈ s.broker.unsettled ∨
      s'.handlers d.tag = some { owner := d.owner, copy := d.message, phase := .started } := by
  cases hs with
  | start o hstart =>
    obtain ⟨-, -, rfl⟩ := start_cases hstart
    exact .inl hd
  | die o hrun => exact .inl hd
  | close o hopen => exact .inl (List.mem_of_mem_filter hd)
  | deliver o i h =>
    obtain ⟨-, b, c, hb, rfl⟩ := deliver_cases h
    obtain ⟨-, -, rfl⟩ := Broker.deliver_cases hb
    rcases List.mem_append.mp hd with hd | hd
    · exact .inl hd
    · rw [List.mem_singleton.mp hd]
      exact .inr (Function.update_self ..)
  | take o h =>
    obtain ⟨b, hb, rfl⟩ := Option.map_eq_some_iff.mp h
    exact .inl (Broker.mem_unsettled_of_take hb hd)
  | takePair o h =>
    obtain ⟨-, b, b', hb, hb', rfl⟩ := takePair_cases h
    exact .inl (Broker.mem_unsettled_of_take hb (Broker.mem_unsettled_of_take hb' hd))
  | advance tag u f hadv =>
    obtain ⟨h, resolved, fs, hout⟩ := (advance_cases hadv).output
    rw [hout.broker] at hd
    exact .inl hd
  | fault tag h hh hph => exact .inl hd
  | publish m => exact .inl hd
  | shop db hshop => exact .inl hd

/-! ## Acks on their way -/

theorem ackDepth_take (hok : s.broker.Ok) {b : Broker π Queue Copy} (ht : s.broker.take o = some b)
    {d : Delivery π Queue Copy} (hd : d ∈ b.unsettled)
    (hack : .ack d.tag ∈ s.broker.wire d.owner) : .ack d.tag ∈ b.wire d.owner ∧
      ackDepth d.tag (b.wire d.owner) ≤ ackDepth d.tag (s.broker.wire d.owner) ∧
      (o = d.owner → ackDepth d.tag (b.wire d.owner) < ackDepth d.tag (s.broker.wire d.owner)) := by
  have popped {f : Frame Queue Copy} {fs : List (Frame Queue Copy)} (hw : s.broker.wire o = f :: fs)
      (hwire : b.wire = Function.update s.broker.wire o fs) (hne : f ≠ .ack d.tag) :
      .ack d.tag ∈ b.wire d.owner ∧
      ackDepth d.tag (b.wire d.owner) ≤ ackDepth d.tag (s.broker.wire d.owner) ∧
      (o = d.owner → ackDepth d.tag (b.wire d.owner) < ackDepth d.tag (s.broker.wire d.owner)) := by
    rw [hwire]
    by_cases ho : d.owner = o
    · subst ho
      rw [hw] at hack ⊢
      rw [Function.update_self]
      have hmem := (List.mem_cons.mp hack).resolve_left fun heq => hne heq.symm
      obtain ⟨hle, hlt⟩ := ackDepth_cons fs hne
      exact ⟨hmem, hle, fun _ => hlt hack⟩
    · rw [Function.update_of_ne ho]
      exact ⟨hack, Nat.le_refl _, fun heq => absurd heq.symm ho⟩
  cases hok.take_cases ht with
  | publish tag q c fs hw => exact popped hw rfl (by simp)
  | ack d₀ fs hd₀ hp hw =>
    -- the delivery this frame acks is settled
    have hne := (List.mem_filter.mp hd).2
    exact popped hw rfl (by simpa using Ne.symm (of_decide_eq_true hne))
  | reject d₀ fs hd₀ hp hw => exact popped hw rfl (by simp)

/-- The ack of a delivery comes no later, and a step that takes frames of its channel brings it
closer. -/
theorem Up.ackDepth_step (hup : Up s) (hk : Attached s) (hk' : Attached s')
    (hg : Genuine messageId s l) (hq : Calm s l) (hs : Step maxRetries s l s')
    {d : Delivery π Queue Copy} (hd : d ∈ s'.broker.unsettled)
    (hack : .ack d.tag ∈ s.broker.wire d.owner) : .ack d.tag ∈ s'.broker.wire d.owner ∧
      ackDepth d.tag (s'.broker.wire d.owner) ≤ ackDepth d.tag (s.broker.wire d.owner) ∧
      (l = .take d.owner ∨ l = .takePair d.owner →
        ackDepth d.tag (s'.broker.wire d.owner) < ackDepth d.tag (s.broker.wire d.owner)) := by
  have same (hwire : s'.broker.wire d.owner = s.broker.wire d.owner)
      (hne : l ≠ .take d.owner ∧ l ≠ .takePair d.owner) : .ack d.tag ∈ s'.broker.wire d.owner ∧
      ackDepth d.tag (s'.broker.wire d.owner) ≤ ackDepth d.tag (s.broker.wire d.owner) ∧
      (l = .take d.owner ∨ l = .takePair d.owner →
        ackDepth d.tag (s'.broker.wire d.owner) < ackDepth d.tag (s.broker.wire d.owner)) := by
    rw [hwire]
    exact ⟨hack, Nat.le_refl _, fun hor => (hor.elim hne.1 hne.2).elim⟩
  cases hs with
  | start p hstart =>
    obtain ⟨-, -, rfl⟩ := start_cases hstart
    exact same rfl (by simp)
  | die p hp => exact hq.elim
  | close p hp =>
    have hne : d.owner ≠ p := by simpa using (List.mem_filter.mp hd).2
    exact same (Function.update_of_ne hne ..) (by simp)
  | deliver p i h =>
    obtain ⟨-, b, c, hb, rfl⟩ := deliver_cases h
    obtain ⟨-, -, rfl⟩ := Broker.deliver_cases hb
    exact same rfl (by simp)
  | take p ht =>
    obtain ⟨b, hb, rfl⟩ := Option.map_eq_some_iff.mp ht
    obtain ⟨hmem, hle, hlt⟩ := ackDepth_take hk.ok hb hd hack
    exact ⟨hmem, hle, fun hor => hlt (by simpa using hor)⟩
  | takePair p ht =>
    obtain ⟨-, b, b', hb, hb', rfl⟩ := takePair_cases ht
    obtain ⟨hmem, hle, hlt⟩ := ackDepth_take hk.ok hb (Broker.mem_unsettled_of_take hb' hd) hack
    obtain ⟨hmem', hle', -⟩ := ackDepth_take (s := { s with broker := b }) (hk.ok.take hb) hb' hd hmem
    exact ⟨hmem', hle'.trans hle, fun hor => hle'.trans_lt (hlt (by simpa using hor))⟩
  | advance tag u f hadv =>
    obtain rfl : f = .none := hg
    obtain ⟨h, ph, fs, hturn⟩ := turned_of_advance hadv fun h hh => hup h.owner (hk.running tag h hh)
    have hwire : s'.broker.wire d.owner =
        if d.owner = h.owner then s.broker.wire d.owner ++ fs else s.broker.wire d.owner := by
      rw [hturn.broker, write_wire]
    by_cases ho : d.owner = h.owner
    · -- a delivery is settled once, and so no other ack for it is written
      rw [if_pos ho] at hwire
      have honce := hk'.ok.wireOnce d.owner
      rw [hwire, settles_append] at honce
      have hsettles {gs : List (Frame Queue Copy)} (hmem : .ack d.tag ∈ gs) : d.tag ∈ settles gs :=
        List.mem_filterMap.mpr ⟨_, hmem, rfl⟩
      have hnot : .ack d.tag ∉ fs := fun hmem =>
        (List.nodup_append.mp honce).2.2 _ (hsettles hack) _ (hsettles hmem) rfl
      rw [hwire, ackDepth_append hnot]
      exact ⟨List.mem_append_left _ hack, Nat.le_refl _, fun hor => by simp at hor⟩
    · rw [if_neg ho] at hwire
      exact same hwire (by simp)
  | fault tag h hh hph => exact hq.elim
  | publish m => exact same rfl (by simp)
  | shop db hshop => exact same rfl (by simp)

theorem reachable_genuine (hr : (system maxRetries db₀).Reach (Genuine messageId) s) :
    Carried (fun c => c.message.messageId = messageId → c.message.simulateFailure = none) s := by
  apply hr.invariant
  · rintro s rfl
    exact ⟨Broker.all_initial, fun t h hh => by cases hh⟩
  · intro s l s' _ hc hg hs
    refine hc.step hs ?_ fun c hc => hc
    rintro m rfl
    exact hg

end Steps

end Ecommerce.Worker
