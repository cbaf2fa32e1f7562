import Ecommerce.Worker.NoLoss

/-!
# Undisturbed — runs in which nothing fails but what a message simulates

Processes start and go on, channels stay open, no statement fails and no broker call throws.  Every
delivery then has its handler, and a handler that is through has written its ack.
-/

namespace Ecommerce.Worker

open Amqp Orders Transition

variable {π : Type} [DecidableEq π] {maxRetries : Number} {db₀ : Db}

/-- No crash and no failure, and the message number `p` is the only one published under `id`. -/
def Undisturbed (id : UUID) (p : Nat) (s : State π) : Label π → Prop
  | .die _ => False
  | .close _ => False
  | .fault _ => False
  | .advance _ f => f = .none
  | .publish m => m.messageId = id → s.nextPub = p
  | _ => True

/-! ## The steps of a handler -/

/-- The next phase of a handler and the frames it writes, when nothing fails. -/
inductive Turns (maxRetries : Number) (s : State π) (tag : Nat) (h : Handler π) :
    Phase → List (Frame Queue Copy) → Prop
  | duplicate (hph : h.phase = .started) (hrow : Processed s.db h.copy.message) :
      Turns maxRetries s tag h .refused []
  | insert (hph : h.phase = .started) (hrow : ¬ Processed s.db h.copy.message) :
      Turns maxRetries s tag h .inserted []
  | process (u : OrderUpdate) (update : Option OrderUpdate) (hph : h.phase = .inserted)
      (hok : State.processOrderMessage h.copy.message u = .ok update) :
      Turns maxRetries s tag h (.processed update) []
  | throws (u : OrderUpdate) (reason : String) (hph : h.phase = .inserted)
      (herr : State.processOrderMessage h.copy.message u = .error reason) :
      Turns maxRetries s tag h .aborting []
  | commit (update : Option OrderUpdate) (hph : h.phase = .processed update) :
      Turns maxRetries s tag h .resolved []
  | rollback (hph : h.phase = .aborting) : Turns maxRetries s tag h .rejected []
  | resolve (hph : h.phase = .refused) : Turns maxRetries s tag h .resolved []
  | ack (hph : h.phase = .resolved) : Turns maxRetries s tag h .finished [.ack tag]
  | giveUp (hph : h.phase = .rejected) (hge : h.copy.message.attempt.ge maxRetries = true) :
      Turns maxRetries s tag h .finished [.publish tag .dlq h.copy, .ack tag]
  | wait (hph : h.phase = .rejected) (hlt : h.copy.message.attempt.ge maxRetries = false) :
      Turns maxRetries s tag h .backoff []
  | fire (hph : h.phase = .backoff) :
      Turns maxRetries s tag h .finished [.publish tag .process h.copy.retry, .ack tag]

section Steps

variable {s s' : State π} {l : Label π} {tag t : Nat} {h h' hd : Handler π}

omit [DecidableEq π] in
theorem Turns.unfinished {ph : Phase} {fs : List (Frame Queue Copy)}
    (hturn : Turns maxRetries s tag h ph fs) : h.phase ≠ .finished := by
  intro hph
  cases hturn with
  | duplicate h' | insert h' | rollback h' | resolve h' | ack h' | fire h' =>
    rw [h'] at hph
    cases hph
  | process u update h' | throws u reason h' | commit update h' | giveUp h' | wait h' =>
    rw [h'] at hph
    cases hph

theorem consume_none (maxRetries : Number) (tag : Nat) (c : Copy) :
    (consume maxRetries .none tag c true).exec = (.ok false, [.ack tag]) ∧
    (consume maxRetries .none tag c false).exec =
      if c.message.attempt.ge maxRetries then
        (.ok false, [.publish tag .dlq c, .ack tag])
      else (.ok true, []) := by
  refine ⟨rfl, ?_⟩
  by_cases hge : c.message.attempt.ge maxRetries = true
  · rw [if_pos hge]
    simp only [consume, handle, handleFailedProcessing, if_pos hge]
    rfl
  · rw [if_neg hge]
    simp only [consume, handle, handleFailedProcessing, if_neg hge]
    rfl

theorem finish_of_exec {f : Faults} {resolved waits : Bool} {fs : List (Frame Queue Copy)}
    (h : (consume maxRetries (s.faults hd f) tag hd.copy resolved).exec = (.ok waits, fs)) :
    s.finish maxRetries tag hd f resolved =
      { s.setPhase tag hd (if waits then .backoff else .finished) with
        broker := s.broker.write hd.owner fs } := by
  rw [State.finish, h]
  cases waits <;> rfl

/-- A step of the handler `h` of delivery `tag`, with what it writes. -/
structure Turned (maxRetries : Number) (s s' : State π) (tag : Nat) (h : Handler π) (ph : Phase)
    (fs : List (Frame Queue Copy)) : Prop where
  handler : s.handlers tag = some h
  turns : Turns maxRetries s tag h ph fs
  handlers : s'.handlers = Function.update s.handlers tag (some { h with phase := ph })
  broker : s'.broker = s.broker.write h.owner fs
  running : s'.running = s.running
  nextPub : s'.nextPub = s.nextPub
  plain : (∀ update, h.phase ≠ .processed update) → s'.db = s.db ∧
    ∃ es, s'.history = s.history ++ es ∧ ∀ e ∈ es, e = .duplicate tag h.copy
  commit : ∀ update, h.phase = .processed update →
    s'.db = State.applyMessage s.db h.copy.message update ∧
      s'.history = s.history ++ [.committed tag h.copy]

theorem turned_plain {ph : Phase} {fs : List (Frame Queue Copy)} (hh : s.handlers tag = some h)
    (hturn : Turns maxRetries s tag h ph fs)
    (hplain : ∀ update, h.phase ≠ .processed update)
    (heq : s' = { s.setPhase tag h ph with
      broker := s.broker.write h.owner fs
      dedupLocks := s'.dedupLocks }) : Turned maxRetries s s' tag h ph fs := by
  rw [heq]
  exact ⟨hh, hturn, rfl, rfl, rfl, rfl, fun _ => ⟨rfl, [], (List.append_nil _).symm, by simp⟩,
    fun update hph => absurd hph (hplain update)⟩

/-- On an open channel a handler moves without exceptions. -/
theorem turned_of_advance {u : OrderUpdate} (hadv : s.advance maxRetries tag u .none = some s')
    (hopen : ∀ h, s.handlers tag = some h → s.broker.isOpen h.owner = true) :
    ∃ h ph fs, Turned maxRetries s s' tag h ph fs := by
  have plain {ph ph' : Phase} (hph : ph = ph') (hne : ∀ update, ph' ≠ .processed update) :
      ∀ update, ph ≠ .processed update := hph ▸ hne
  cases advance_cases hadv with
  | duplicate h hh hph hrow =>
    refine ⟨h, _, _, hh, .duplicate hph hrow, rfl, (Broker.write_nil _ _).symm, rfl, rfl,
      fun _ => ⟨rfl, [.duplicate tag h.copy], rfl, fun e he => List.mem_singleton.mp he⟩, ?_⟩
    rw [hph]
    exact fun update heq => by cases heq
  | insert h hh hph hrow hlock =>
    refine ⟨h, _, _, turned_plain hh (.insert hph hrow) (plain hph fun _ heq => by cases heq) ?_⟩
    rw [Broker.write_nil]
    rfl
  | process h update hh hph hok =>
    refine ⟨h, _, _, turned_plain hh (.process u update hph hok)
      (plain hph fun _ heq => by cases heq) ?_⟩
    rw [Broker.write_nil]
    rfl
  | throws h hh hph =>
    -- the phase of `s'` tells that the callback has thrown
    have hthrown : s.process tag h u = s.setPhase tag h .aborting := by
      simp only [State.advance, hh, hph] at hadv
      exact Option.some.inj hadv
    cases hprocess : State.processOrderMessage h.copy.message u with
    | ok update =>
      rw [State.process, hprocess] at hthrown
      have hphase := congrArg (fun s => (s.handlers tag).map (·.phase)) hthrown
      simp [State.setPhase] at hphase
    | error reason =>
      refine ⟨h, _, _, turned_plain hh (.throws u reason hph hprocess)
        (plain hph fun _ heq => by cases heq) ?_⟩
      rw [Broker.write_nil]
      rfl
  | commit h update hh hph =>
    refine ⟨h, _, _, hh, .commit update hph, rfl, (Broker.write_nil _ _).symm, rfl, rfl,
      fun hne => absurd hph (hne update), fun update' heq => ?_⟩
    rw [hph] at heq
    cases heq
    exact ⟨rfl, rfl⟩
  | rollback h hh hph =>
    refine ⟨h, _, _, turned_plain hh (.rollback hph) (plain hph fun _ heq => by cases heq) ?_⟩
    rw [Broker.write_nil]
    rfl
  | resolve h hh hph =>
    refine ⟨h, _, _, turned_plain hh (.resolve hph) (plain hph fun _ heq => by cases heq) ?_⟩
    rw [Broker.write_nil]
    rfl
  | finish h resolved hh hph =>
    have hfaults : s.faults h .none = .none := by rw [State.faults, if_pos (hopen h hh)]
    obtain ⟨hack, hfailed⟩ := consume_none maxRetries tag h.copy
    cases resolved with
    | true =>
      rw [finish_of_exec (by rw [hfaults, hack])]
      exact ⟨h, .finished, _, turned_plain hh (.ack hph) (plain hph fun _ heq => by cases heq) rfl⟩
    | false =>
      have hne := plain hph fun _ heq => by cases heq
      by_cases hge : h.copy.message.attempt.ge maxRetries = true
      · rw [if_pos hge] at hfailed
        rw [finish_of_exec (by rw [hfaults, hfailed])]
        exact ⟨h, .finished, _, turned_plain hh (.giveUp hph hge) hne rfl⟩
      · rw [if_neg hge] at hfailed
        rw [Bool.not_eq_true] at hge
        rw [finish_of_exec (by rw [hfaults, hfailed])]
        exact ⟨h, .backoff, _, turned_plain hh (.wait hph hge) hne rfl⟩
  | fire h hh hph =>
    have hfaults : s.faults h .none = .none := by rw [State.faults, if_pos (hopen h hh)]
    have hfire : s.fire tag h .none = { s.setPhase tag h .finished with
        broker := s.broker.write h.owner
          [.publish tag .process h.copy.retry, .ack tag] } := by
      rw [State.fire, hfaults]
      rfl
    rw [hfire]
    exact ⟨h, .finished, _, turned_plain hh (.fire hph) (plain hph fun _ heq => by cases heq) rfl⟩

/-! ## Deliveries and their handlers -/

/-- Every publish has the ack of its delivery behind it. -/
def AckBehind : List (Frame Queue Copy) → Prop
  | [] => True
  | .publish t _ _ :: fs => .ack t ∈ fs ∧ AckBehind fs
  | _ :: fs => AckBehind fs

theorem AckBehind.append {fs gs : List (Frame Queue Copy)} (hf : AckBehind fs) (hg : AckBehind gs) :
    AckBehind (fs ++ gs) := by
  induction fs with
  | nil => exact hg
  | cons f fs ih =>
    cases f with
    | publish t q c => exact ⟨List.mem_append_left _ hf.1, ih hf.2⟩
    | ack t => exact ih hf
    | reject t => exact ih hf

theorem AckBehind.tail {f : Frame Queue Copy} {fs : List (Frame Queue Copy)}
    (h : AckBehind (f :: fs)) : AckBehind fs := by
  cases f with
  | publish t q c => exact h.2
  | ack t => exact h
  | reject t => exact h

theorem AckBehind.ack_mem {fs : List (Frame Queue Copy)} (h : AckBehind fs) {t : Nat} {q : Queue}
    {c : Copy} (hmem : .publish t q c ∈ fs) : .ack t ∈ fs := by
  induction fs with
  | nil => cases hmem
  | cons f fs ih =>
    rcases List.mem_cons.mp hmem with rfl | hmem
    · exact List.mem_cons_of_mem _ h.1
    · exact List.mem_cons_of_mem _ (ih h.tail hmem)

omit [DecidableEq π] in
theorem Turns.frames {ph : Phase} {fs : List (Frame Queue Copy)}
    (hturn : Turns maxRetries s tag h ph fs) :
    AckBehind fs ∧ (∀ t, .reject t ∉ fs) ∧ (ph = .finished → .ack tag ∈ fs) ∧
      (∀ t, .ack t ∈ fs → t = tag) := by
  cases hturn <;> simp [AckBehind]

structure Attended (s : State π) : Prop where
  isOpen : ∀ o, s.running o = true → s.broker.isOpen o = true
  noReject : ∀ o t, .reject t ∉ s.broker.wire o
  paired : ∀ o, AckBehind (s.broker.wire o)
  handler : ∀ d ∈ s.broker.unsettled, ∃ h, s.handlers d.tag = some h ∧ h.owner = d.owner ∧
    h.copy = d.message ∧ (h.phase = .finished → .ack d.tag ∈ s.broker.wire d.owner)
  acked : ∀ t h, s.handlers t = some h →
    (∃ d ∈ s.broker.unsettled, d.tag = t) ∨ .acked t h.copy ∈ s.broker.log

theorem Attended.take (ha : Attended s) (hok : s.broker.Ok) {o : π} {b : Broker π Queue Copy}
    (ht : s.broker.take o = some b) : Attended { s with broker := b } := by
  -- what is left on the wires was there before
  have hrest {f : Frame Queue Copy} {fs : List (Frame Queue Copy)}
      (hw : s.broker.wire o = f :: fs) :
      (∀ o' t, .reject t ∉ Function.update s.broker.wire o fs o') ∧
      (∀ o', AckBehind (Function.update s.broker.wire o fs o')) := by
    constructor
    · intro o' t hmem
      by_cases ho : o' = o
      · rw [ho, Function.update_self] at hmem
        exact ha.noReject o t (by rw [hw]; exact List.mem_cons_of_mem _ hmem)
      · rw [Function.update_of_ne ho] at hmem
        exact ha.noReject o' t hmem
    · intro o'
      by_cases ho : o' = o
      · rw [ho, Function.update_self]
        have hpaired := ha.paired o
        rw [hw] at hpaired
        exact hpaired.tail
      · rw [Function.update_of_ne ho]
        exact ha.paired o'
  have hack {f : Frame Queue Copy} {fs : List (Frame Queue Copy)} (hw : s.broker.wire o = f :: fs)
      {t : Nat} {o' : π} (hmem : .ack t ∈ s.broker.wire o') (hne : f ≠ .ack t) :
      .ack t ∈ Function.update s.broker.wire o fs o' := by
    by_cases ho : o' = o
    · rw [ho, Function.update_self]
      rw [ho, hw] at hmem
      exact (List.mem_cons.mp hmem).resolve_left fun heq => hne heq.symm
    · rwa [Function.update_of_ne ho]
  cases hok.take_cases ht with
  | publish tag q c fs hw =>
    refine ⟨ha.isOpen, (hrest hw).1, (hrest hw).2, ?_, ?_⟩
    · intro d hd
      obtain ⟨h, hh, howner, hcopy, hfinished⟩ := ha.handler d hd
      exact ⟨h, hh, howner, hcopy, fun hph => hack hw (hfinished hph) (by simp)⟩
    · intro t h hh
      exact (ha.acked t h hh).imp_right (List.mem_append_left _)
  | ack d fs hd hp hw =>
    refine ⟨ha.isOpen, (hrest hw).1, (hrest hw).2, ?_, ?_⟩
    · intro d' hd'
      obtain ⟨hd', hne⟩ := List.mem_filter.mp hd'
      obtain ⟨h, hh, howner, hcopy, hfinished⟩ := ha.handler d' hd'
      refine ⟨h, hh, howner, hcopy, fun hph => hack hw (hfinished hph) ?_⟩
      simpa using Ne.symm (of_decide_eq_true hne)
    · intro t h hh
      rcases ha.acked t h hh with ⟨d', hd', rfl⟩ | hlog
      · by_cases heq : d'.tag = d.tag
        · obtain rfl := hok.tag_inj hd' hd heq
          obtain ⟨h', hh', -, hcopy, -⟩ := ha.handler d' hd'
          obtain rfl := Option.some.inj (hh.symm.trans hh')
          rw [hcopy]
          exact .inr (List.mem_append_right _ (List.mem_singleton_self _))
        · exact .inl ⟨d', List.mem_filter.mpr ⟨hd', by simpa using heq⟩, rfl⟩
      · exact .inr (List.mem_append_left _ hlog)
  | reject d fs hd hp hw =>
    exact absurd (by rw [hw]; exact List.mem_cons_self) (ha.noReject o d.tag)

theorem write_wire (b : Broker π Queue Copy) (o o' : π) (fs : List (Frame Queue Copy)) :
    (b.write o fs).wire o' = if o' = o then b.wire o' ++ fs else b.wire o' := by
  by_cases ho : o' = o
  · rw [if_pos ho, ho]
    exact Function.update_self ..
  · rw [if_neg ho]
    exact Function.update_of_ne ho ..

omit [DecidableEq π] in
theorem Attended.deliver (ha : Attended s) (hok : s.broker.Ok) {o : π} {i : Nat}
    (hd : s.deliver o i = some s') : Attended s' := by
  obtain ⟨-, b, c, hb, rfl⟩ := deliver_cases hd
  obtain ⟨-, -, rfl⟩ := Broker.deliver_cases hb
  refine ⟨ha.isOpen, ha.noReject, ha.paired, ?_, ?_⟩
  · intro d hd
    rcases List.mem_append.mp hd with hd | hd
    · obtain ⟨h, hh, hrest⟩ := ha.handler d hd
      refine ⟨h, ?_, hrest⟩
      rw [← hh]
      exact Function.update_of_ne (Nat.ne_of_lt (hok.fresh d hd)) ..
    · rw [List.mem_singleton.mp hd]
      exact ⟨_, Function.update_self .., rfl, rfl, fun hph => by cases hph⟩
  · intro t h hh
    by_cases ht : t = s.broker.nextTag
    · exact .inl ⟨_, List.mem_append_right _ (List.mem_singleton_self _), ht.symm⟩
    · have hold : s.handlers t = some h := by
        rw [← hh]
        exact (Function.update_of_ne ht ..).symm
      exact (ha.acked t h hold).imp_left fun ⟨d, hd, htag⟩ => ⟨d, List.mem_append_left _ hd, htag⟩

theorem Attended.turned (ha : Attended s) {ph : Phase} {fs : List (Frame Queue Copy)}
    (hturn : Turned maxRetries s s' tag h ph fs) : Attended s' := by
  obtain ⟨hpaired, hreject, hfinished, -⟩ := hturn.turns.frames
  have hwire : ∀ o, s'.broker.wire o =
      if o = h.owner then s.broker.wire o ++ fs else s.broker.wire o := by
    intro o
    rw [hturn.broker, write_wire]
  have hopen : s'.broker.isOpen = s.broker.isOpen := by rw [hturn.broker]; rfl
  have hunsettled : s'.broker.unsettled = s.broker.unsettled := by rw [hturn.broker]; rfl
  have hlog : s'.broker.log = s.broker.log := by rw [hturn.broker]; rfl
  constructor
  · intro o hrun
    rw [hturn.running] at hrun
    rw [hopen]
    exact ha.isOpen o hrun
  · intro o t hmem
    rw [hwire] at hmem
    split at hmem
    · exact (List.mem_append.mp hmem).elim (ha.noReject o t) (hreject t)
    · exact ha.noReject o t hmem
  · intro o
    rw [hwire]
    split
    · exact (ha.paired o).append hpaired
    · exact ha.paired o
  · intro d hd
    rw [hunsettled] at hd
    obtain ⟨hd', hh, howner, hcopy, hack⟩ := ha.handler d hd
    -- a turn only adds frames
    have hkept {t : Nat} (hmem : .ack t ∈ s.broker.wire d.owner) :
        .ack t ∈ s'.broker.wire d.owner := by
      rw [hwire]
      split
      · exact List.mem_append_left _ hmem
      · exact hmem
    by_cases ht : d.tag = tag
    · obtain rfl := Option.some.inj (hturn.handler.symm.trans (ht ▸ hh))
      refine ⟨{ h with phase := ph }, ?_, howner, hcopy, fun hph => ?_⟩
      · rw [hturn.handlers, ht, Function.update_self]
      · -- a handler that finishes writes the ack of its delivery
        rw [hwire, if_pos howner.symm, ht]
        exact List.mem_append_right _ (hfinished hph)
    · refine ⟨hd', ?_, howner, hcopy, fun hph => hkept (hack hph)⟩
      rw [hturn.handlers, Function.update_of_ne ht, hh]
  · intro t h' hh'
    rw [hunsettled, hlog]
    by_cases ht : t = tag
    · rw [hturn.handlers, ht, Function.update_self] at hh'
      obtain rfl := Option.some.inj hh'
      rw [ht]
      exact ha.acked tag h hturn.handler
    · rw [hturn.handlers, Function.update_of_ne ht] at hh'
      exact ha.acked t h' hh'

/-- An undisturbed step of a handler, once its channel is known to be open. -/
theorem Attended.turns (ha : Attended s) (hk : Attached s) {u : OrderUpdate}
    (hadv : s.advance maxRetries tag u .none = some s') :
    ∃ h ph fs, Turned maxRetries s s' tag h ph fs :=
  turned_of_advance hadv fun h hh => ha.isOpen h.owner (hk.running tag h hh)

theorem Attended.step {messageId : UUID} {p : Nat} (ha : Attended s) (hk : Attached s)
    (hl : Undisturbed messageId p s l) (hs : Step maxRetries s l s') : Attended s' := by
  cases hs with
  | start o hstart =>
    obtain ⟨-, -, rfl⟩ := start_cases hstart
    refine ⟨fun o' hrun => ?_, ha.noReject, ha.paired, ha.handler, ha.acked⟩
    show Function.update s.broker.isOpen o true o' = true
    change Function.update s.running o true o' = true at hrun
    -- a process that starts opens its channel
    by_cases ho : o' = o
    · rw [ho, Function.update_self]
    · rw [Function.update_of_ne ho] at hrun ⊢
      exact ha.isOpen o' hrun
  | die o hrun => exact absurd hl id
  | close o hopen => exact absurd hl id
  | deliver o i hd => exact ha.deliver hk.ok hd
  | take o ht =>
    obtain ⟨b, hb, rfl⟩ := Option.map_eq_some_iff.mp ht
    exact ha.take hk.ok hb
  | takePair o ht =>
    obtain ⟨-, b, b', hb, hb', rfl⟩ := takePair_cases ht
    exact (ha.take hk.ok hb).take (hk.ok.take hb) hb'
  | advance tag u f hadv =>
    obtain rfl : f = .none := hl
    obtain ⟨h, ph, fs, hturn⟩ := ha.turns hk hadv
    exact ha.turned hturn
  | fault tag h hh hph => exact absurd hl id
  | publish m => exact ⟨ha.isOpen, ha.noReject, ha.paired, ha.handler, ha.acked⟩
  | shop db hshop => exact ⟨ha.isOpen, ha.noReject, ha.paired, ha.handler, ha.acked⟩

theorem reachable_attended {messageId : UUID} {p : Nat}
    (hr : (system maxRetries db₀).Reach (Undisturbed messageId p) s) : Attended s := by
  apply hr.invariant
  · rintro s rfl
    refine ⟨fun o hrun => ?_, fun o t hmem => ?_, fun o => trivial, fun d hd => ?_, fun t h hh => ?_⟩
    · cases hrun
    · cases hmem
    · cases hd
    · cases hh
  · intro s l s' hr ha hl hs
    exact ha.step (reachable_kept hr).attached hl hs

/-! ## Where copies have been -/

/-- Every copy that is somewhere, was put on a queue or had its row committed has the property. -/
structure Traced (P : Copy → Prop) (s : State π) : Prop where
  carried : Carried P s
  put : ∀ t q c, .put t q c ∈ s.broker.log → P c
  committed : ∀ t c, .committed t c ∈ s.history → P c

variable {P Q : Copy → Prop}

omit [DecidableEq π] in
theorem Traced.mono (ht : Traced P s) (himp : ∀ c, P c → Q c) : Traced Q s :=
  ⟨ht.carried.mono himp, fun t q c hc => himp c (ht.put t q c hc),
    fun t c hc => himp c (ht.committed t c hc)⟩

theorem put_of_take {b b' : Broker π Queue Copy} (hall : b.All P)
    (hput : ∀ t q c, .put t q c ∈ b.log → P c) {o : π} (ht : b.take o = some b') {t : Nat}
    {q : Queue} {c : Copy} (hc : .put t q c ∈ b'.log) : P c := by
  unfold Broker.take at ht
  split at ht
  · cases ht
  · rename_i t' q' c' fs hw
    rw [← Option.some.inj ht] at hc
    rcases List.mem_append.mp hc with hc | hc
    · exact hput t q c hc
    · cases List.mem_singleton.mp hc
      exact hall.wires o t q c (by rw [hw]; exact List.mem_cons_self)
  all_goals
    split at ht
    · rw [← Option.some.inj ht] at hc
      rcases List.mem_append.mp hc with hc | hc
      · exact hput t q c hc
      · cases List.mem_singleton.mp hc
    · rw [← Option.some.inj ht] at hc
      exact hput t q c hc

theorem Traced.step (htr : Traced P s) (hs : Step maxRetries s l s')
    (hpub : ∀ m, l = .publish m → P { message := m, pub := s.nextPub })
    (hretry : ∀ c, P c → P c.retry) : Traced P s' := by
  refine ⟨htr.carried.step hs hpub hretry, fun t q c hc => ?_, fun t c hc => ?_⟩
  · cases hs with
    | start o hstart =>
      obtain ⟨-, -, rfl⟩ := start_cases hstart
      exact htr.put t q c hc
    | deliver o i hd =>
      obtain ⟨-, b, c', hb, rfl⟩ := deliver_cases hd
      obtain ⟨-, -, rfl⟩ := Broker.deliver_cases hb
      exact htr.put t q c hc
    | take o ht =>
      obtain ⟨b, hb, rfl⟩ := Option.map_eq_some_iff.mp ht
      exact put_of_take htr.carried.broker htr.put hb hc
    | takePair o ht =>
      obtain ⟨-, b, b', hb, hb', rfl⟩ := takePair_cases ht
      exact put_of_take (htr.carried.broker.take hb)
        (fun t q c hc => put_of_take htr.carried.broker htr.put hb hc) hb' hc
    | advance tag u f hadv =>
      obtain ⟨h, resolved, fs, hout⟩ := (advance_cases hadv).output
      rw [hout.broker] at hc
      exact htr.put t q c hc
    | _ => exact htr.put t q c hc
  · -- a commit is of the copy of a handler
    rcases hs.effect.new_commit hc with hold | ⟨h, update, hh, -, -, -, rfl⟩
    · exact htr.committed t c hold
    · exact htr.carried.handlers t h hh

omit [DecidableEq π] in
theorem traced_initial (db : Db) : Traced P (State.initial db : State π) := by
  refine ⟨⟨Broker.all_initial, fun t h hh => ?_⟩, fun t q c hc => ?_, fun t c hc => ?_⟩
  · cases hh
  · cases hc
  · cases hc

/-- Numbers are given out once. -/
theorem reachable_past {ok : State π → Label π → Prop} (hr : (system maxRetries db₀).Reach ok s) :
    Traced (·.pub < s.nextPub) s := by
  apply hr.invariant
  · rintro s rfl
    exact traced_initial db₀
  · intro s l s' _ hpast _ hs
    obtain ⟨hle, hlt⟩ := hs.nextPub
    exact (hpast.mono fun c hc => Nat.lt_of_lt_of_le hc hle).step hs hlt fun c hc => hc

/-- Under its id there are copies of the one message only. -/
theorem reachable_alone {messageId : UUID} {p : Nat}
    (hr : (system maxRetries db₀).Reach (Undisturbed messageId p) s) :
    Traced (fun c => c.message.messageId = messageId → c.pub = p) s := by
  apply hr.invariant
  · rintro s rfl
    exact traced_initial db₀
  · intro s l s' _ htr hl hs
    refine htr.step hs ?_ fun c hc => hc
    rintro m rfl
    exact hl

end Steps

end Ecommerce.Worker
