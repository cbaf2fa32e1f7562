import Ecommerce.Worker.RetryChain
import Ecommerce.Worker.Undisturbed

/-!
# ChainInvariant — the worker follows the chain

In an undisturbed run the copies of one message are where the abstract chain says, and the log, the
history and the tables record its steps.
-/

namespace Ecommerce.Worker

open Amqp Orders Transition

/-! ## What is recorded of a message -/

/-- The copies of the message number `p` that were put on `q`, in order. -/
def puts (p : Nat) (q : Queue) (log : List (Amqp.Event Queue Copy)) : List Copy :=
  log.filterMap fun e => match e with
    | .put _ q' c => if q' = q ∧ c.pub = p then some c else none
    | _ => none

/-- The copies of it whose row was committed. -/
def commits (p : Nat) (history : List Event) : List Copy :=
  history.filterMap fun e => match e with
    | .committed _ c => if c.pub = p then some c else none
    | _ => none

/-- Whether the frame puts a copy of it. -/
def sends (p : Nat) : Frame Queue Copy → Bool
  | .publish _ _ c => c.pub = p
  | _ => false

theorem puts_append (p : Nat) (q : Queue) (log log' : List (Amqp.Event Queue Copy)) :
    puts p q (log ++ log') = puts p q log ++ puts p q log' := List.filterMap_append

theorem commits_append (p : Nat) (es es' : List Event) :
    commits p (es ++ es') = commits p es ++ commits p es' := List.filterMap_append

section Lists

variable {α : Type} {l : List α} {f : α → Bool} {i : Nat} {x : α}

-- Without the element at `i`, the same elements are left of a part it is not in.
theorem filter_eraseIdx_of_neg (hi : l[i]? = some x) (hx : f x = false) :
    (l.eraseIdx i).filter f = l.filter f := by
  induction l generalizing i with
  | nil => rfl
  | cons y l ih =>
    cases i with
    | zero =>
      obtain rfl : y = x := by simpa using hi
      rw [List.eraseIdx_cons_zero, List.filter_cons_of_neg (by simp [hx])]
    | succ i =>
      rw [List.eraseIdx_cons_succ, List.filter_cons, List.filter_cons, ih (by simpa using hi)]

theorem filter_eraseIdx_of_single {c : α} (hi : l[i]? = some x) (hx : f x = true)
    (hl : l.filter f = [c]) : x = c ∧ (l.eraseIdx i).filter f = [] := by
  induction l generalizing i with
  | nil => cases hl
  | cons y l ih =>
    cases i with
    | zero =>
      obtain rfl : y = x := by simpa using hi
      rw [List.filter_cons_of_pos hx, List.cons.injEq] at hl
      exact ⟨hl.1, hl.2⟩
    | succ i =>
      have hmem : x ∈ l.filter f :=
        List.mem_filter.mpr ⟨List.mem_of_getElem? (by simpa using hi), hx⟩
      rw [List.filter_cons] at hl
      split at hl
      · rw [(List.cons.inj hl).2] at hmem
        cases hmem
      · next hy =>
        rw [List.eraseIdx_cons_succ, List.filter_cons_of_neg hy]
        exact ih (by simpa using hi) hl

end Lists

/-! ## The places -/

section Places

variable {π : Type} [DecidableEq π]

namespace Place

/-- What there is of the message on `orders.process`, if `c` is its present copy. -/
def queue (c : Copy) : Place π → List Copy
  | .queued => [c]
  | _ => []

/-- What there is of it on the channel of `o`, if `next` is what its handler sends. -/
def frames (next : Queue × Copy) (o : π) : Place π → List (Frame Queue Copy)
  | .sending tag o' => if o = o' then [.publish tag next.1 next.2] else []
  | _ => []

/-- The handler of its last delivery. -/
def handler : Place π → Option (Nat × π × Phase)
  | .handled tag o ph => some (tag, o, ph)
  | .sending tag o => some (tag, o, .finished)
  | _ => none

def committed : Place π → Bool
  | .handled _ _ .resolved => true
  | .done succeeded => succeeded
  | _ => false

def dead : Place π → Bool
  | .done false => true
  | _ => false

/-- The deliveries after `i` retries. -/
def deliveries (i : Nat) : Place π → Nat
  | .queued => i
  | _ => i + 1

end Place

variable (maxRetries : Number) (p : Nat) (m : ProcessOrderMessage)

/-- The copy after `i` retries. -/
def copyAfter (i : Nat) : Copy := { message := attemptNo m (counted m.attempt i), pub := p }

/-- What a failed handler sends after `i` retries, and where. -/
def next (i : Nat) : Queue × Copy :=
  if (counted m.attempt i).ge maxRetries then (.dlq, copyAfter p m i)
  else (.process, copyAfter p m (i + 1))

/-- The message is at the place `c.2` after `c.1` retries. -/
structure At (s : State π) (c : Nat × Place π) : Prop where
  queue : (s.broker.queues .process).filter (·.pub = p) = c.2.queue (copyAfter p m c.1)
  frames : ∀ o, (s.broker.wire o).filter (sends p) = c.2.frames (next maxRetries p m c.1) o
  handler : ∀ t o ph, c.2.handler = some (t, o, ph) →
    s.handlers t = some { owner := o, copy := copyAfter p m c.1, phase := ph }
  active : ∀ t h, s.handlers t = some h → h.copy.pub = p → h.phase ≠ .finished →
    c.2 = .handled t h.owner h.phase
  retried : puts p .process s.broker.log = (List.range c.1).map fun j => copyAfter p m (j + 1)
  dead : puts p .dlq s.broker.log = if c.2.dead then [copyAfter p m c.1] else []
  committed : commits p s.history = if c.2.committed then [copyAfter p m c.1] else []
  row : Processed s.db m ↔ c.2.committed = true
  handled : ∃ tags : List Nat, tags.Nodup ∧
    (∀ t, t ∈ tags ↔ ∃ h, s.handlers t = some h ∧ h.copy.pub = p) ∧
    tags.map (fun t => (s.handlers t).map (·.copy)) =
      (List.range (c.2.deliveries c.1)).map fun j => some (copyAfter p m j)

/-- Nothing of the message is different. -/
structure Same (s s' : State π) : Prop where
  queue : (s'.broker.queues .process).filter (·.pub = p) =
    (s.broker.queues .process).filter (·.pub = p)
  frames : ∀ o, (s'.broker.wire o).filter (sends p) = (s.broker.wire o).filter (sends p)
  handlers : ∀ t h, h.copy.pub = p → (s'.handlers t = some h ↔ s.handlers t = some h)
  puts : ∀ q, puts p q s'.broker.log = puts p q s.broker.log
  commits : commits p s'.history = commits p s.history
  row : Processed s'.db m ↔ Processed s.db m

variable {maxRetries p m} {s s' : State π} {c : Nat × Place π} {db₀ : Db}

theorem copyAfter_retry (i : Nat) : (copyAfter p m i).retry = copyAfter p m (i + 1) := rfl

theorem At.same (hat : At maxRetries p m s c) (hsame : Same p m s s') : At maxRetries p m s' c where
  queue := hsame.queue.trans hat.queue
  frames := fun o => (hsame.frames o).trans (hat.frames o)
  handler := fun t o ph hpl => (hsame.handlers t _ rfl).mpr (hat.handler t o ph hpl)
  active := fun t h hh hpub => hat.active t h ((hsame.handlers t h hpub).mp hh) hpub
  retried := (hsame.puts .process).trans hat.retried
  dead := (hsame.puts .dlq).trans hat.dead
  committed := hsame.commits.trans hat.committed
  row := hsame.row.trans hat.row
  handled := by
    obtain ⟨tags, hnodup, hmem, hcopies⟩ := hat.handled
    refine ⟨tags, hnodup, fun t => ?_, ?_⟩
    · rw [hmem t]
      constructor
      · exact fun ⟨h, hh, hpub⟩ => ⟨h, (hsame.handlers t h hpub).mpr hh, hpub⟩
      · exact fun ⟨h, hh, hpub⟩ => ⟨h, (hsame.handlers t h hpub).mp hh, hpub⟩
    · rw [← hcopies]
      apply List.map_congr_left
      intro t ht
      obtain ⟨h, hh, hpub⟩ := (hmem t).mp ht
      rw [hh, (hsame.handlers t h hpub).mpr hh]

/-! ## Deliveries -/

/-- The copy on the queue goes to a handler. -/
theorem At.deliver_own {j i : Nat} {o : π} (hat : At maxRetries p m s (j, .queued))
    (hnew : s.handlers s.broker.nextTag = none)
    (hrest : ((s.broker.queues .process).eraseIdx i).filter (·.pub = p) = []) :
    At maxRetries p m { s with
      broker := { s.broker with
        queues := Function.update s.broker.queues .process
          ((s.broker.queues .process).eraseIdx i)
        unsettled := s.broker.unsettled ++ [⟨s.broker.nextTag, o, .process, copyAfter p m j⟩]
        nextTag := s.broker.nextTag + 1 }
      handlers := Function.update s.handlers s.broker.nextTag
        (some { owner := o, copy := copyAfter p m j, phase := .started }) }
      (j, .handled s.broker.nextTag o .started) := by
  constructor
  · show (Function.update s.broker.queues .process _ .process).filter _ = []
    rw [Function.update_self]
    exact hrest
  · exact hat.frames
  · intro t o' ph hpl
    cases hpl
    exact Function.update_self ..
  · intro t h hh hp hph
    by_cases ht : t = s.broker.nextTag
    · simp only [ht, Function.update_self, Option.some.injEq] at hh
      subst ht hh
      rfl
    · simp only [Function.update_of_ne ht] at hh
      cases hat.active t h hh hp hph
  · exact hat.retried
  · exact hat.dead
  · exact hat.committed
  · exact hat.row
  · -- the new delivery is the last of the message
    obtain ⟨tags, hnodup, htags, hcopies⟩ := hat.handled
    have hfresh : s.broker.nextTag ∉ tags := by
      intro hin
      obtain ⟨h, hh, -⟩ := (htags _).mp hin
      rw [hnew] at hh
      cases hh
    refine ⟨tags ++ [s.broker.nextTag], ?_, fun t => ?_, ?_⟩
    · rw [List.nodup_append]
      refine ⟨hnodup, List.nodup_singleton _, fun x hx y hy => ?_⟩
      rw [List.mem_singleton.mp hy]
      rintro rfl
      exact hfresh hx
    · rw [List.mem_append, List.mem_singleton, htags t]
      by_cases ht : t = s.broker.nextTag
      · simp only [ht, Function.update_self, or_true, true_iff]
        exact ⟨_, rfl, rfl⟩
      · simp only [Function.update_of_ne ht, ht, or_false]
    · have hsame : ∀ t ∈ tags, Function.update s.handlers s.broker.nextTag
          (some { owner := o, copy := copyAfter p m j, phase := .started }) t = s.handlers t := by
        intro t ht
        apply Function.update_of_ne
        rintro rfl
        exact hfresh ht
      rw [List.map_append, List.map_congr_left fun t ht => congrArg _ (hsame t ht), hcopies]
      simp only [Place.deliveries, List.range_succ, List.map_append, List.map_cons,
        List.map_nil, Function.update_self, Option.map_some]

theorem At.deliver (hat : At maxRetries p m s c) (hi : Inv db₀ s) {o : π} {i : Nat}
    (hd : s.deliver o i = some s') :
    ∃ c', (c' = c ∨ Move maxRetries m c c') ∧ At maxRetries p m s' c' := by
  obtain ⟨-, b, d, hb, rfl⟩ := deliver_cases hd
  obtain ⟨hqueue, -, rfl⟩ := Broker.deliver_cases hb
  -- tags are given out once
  have hnew : s.handlers s.broker.nextTag = none := by
    by_contra hne
    obtain ⟨h, hh⟩ := Option.ne_none_iff_exists'.mp hne
    exact absurd (hi.tags _ h hh) (Nat.lt_irrefl _)
  by_cases hpub : d.pub = p
  · obtain ⟨j, pl⟩ := c
    have hmem : d ∈ (s.broker.queues .process).filter (·.pub = p) :=
      List.mem_filter.mpr ⟨List.mem_of_getElem? hqueue, decide_eq_true hpub⟩
    -- a copy on the queue: the message is nowhere else
    have hpl : pl = .queued := by
      rw [hat.queue] at hmem
      cases pl with
      | queued => rfl
      | handled _ _ _ | sending _ _ | done _ => cases hmem
    subst hpl
    obtain ⟨rfl, hrest⟩ : d = copyAfter p m j ∧
        ((s.broker.queues .process).eraseIdx i).filter (·.pub = p) = [] :=
      filter_eraseIdx_of_single hqueue (decide_eq_true hpub) hat.queue
    exact ⟨_, .inr (.deliver ..), hat.deliver_own hnew hrest⟩
  · refine ⟨c, .inl rfl, hat.same ⟨?_, fun _ => rfl, ?_, fun _ => rfl, rfl, Iff.rfl⟩⟩
    · show (Function.update s.broker.queues .process _ .process).filter _ = _
      rw [Function.update_self]
      exact filter_eraseIdx_of_neg hqueue (decide_eq_false hpub)
    · intro t h hp
      by_cases ht : t = s.broker.nextTag
      · simp only [ht, Function.update_self, hnew]
        constructor
        · rintro heq
          cases heq
          exact absurd hp hpub
        · exact fun heq => by cases heq
      · simp only [Function.update_of_ne ht]

/-! ## Frames -/

section Frames

variable {o : π} {f : Frame Queue Copy} {fs : List (Frame Queue Copy)}

theorem filter_rest (wire : π → List (Frame Queue Copy)) (o o' : π) (fs : List (Frame Queue Copy)) :
    (Function.update wire o fs o').filter (sends p) =
      if o' = o then fs.filter (sends p) else (wire o').filter (sends p) := by
  by_cases ho : o' = o
  · rw [if_pos ho, ho, Function.update_self]
  · rw [if_neg ho, Function.update_of_ne ho]

/-- A frame with no copy of the message is taken. -/
theorem At.take_other (hat : At maxRetries p m s c) (hw : s.broker.wire o = f :: fs)
    (hf : sends p f = false) {b : Broker π Queue Copy}
    (hqueue : (b.queues .process).filter (·.pub = p) =
      (s.broker.queues .process).filter (·.pub = p))
    (hwire : b.wire = Function.update s.broker.wire o fs)
    (hputs : ∀ q, puts p q b.log = puts p q s.broker.log) :
    At maxRetries p m { s with broker := b } c := by
  refine hat.same ⟨hqueue, fun o' => ?_, fun _ _ _ => Iff.rfl, hputs, rfl, Iff.rfl⟩
  show (b.wire o').filter (sends p) = _
  rw [hwire, filter_rest]
  split
  · next ho => rw [ho, hw, List.filter_cons_of_neg (by simp [hf])]
  · rfl

/-- The frame of a handler of the message that is through: a retry, or the end in `orders.dlq`. -/
theorem At.take_own {i tag : Nat} (hat : At maxRetries p m s (i, .sending tag o))
    (hrest : fs.filter (sends p) = []) : ∃ c', Move maxRetries m (i, .sending tag o) c' ∧
      At maxRetries p m { s with
        broker := ((s.broker.rest o fs).put (next maxRetries p m i).1 (next maxRetries p m i).2).record
          (.put tag (next maxRetries p m i).1 (next maxRetries p m i).2) } c' := by
  -- it was the last frame of the message
  have hothers : ∀ o', (Function.update s.broker.wire o fs o').filter (sends p) = [] := by
    intro o'
    rw [filter_rest]
    split
    · exact hrest
    · next hne =>
      rw [hat.frames o']
      exact if_neg hne
  have hqueue : (s.broker.queues .process).filter (·.pub = p) = [] := hat.queue
  -- the handler that wrote the frame is through, and no other one is at work
  have hactive : ∀ t h, s.handlers t = some h → h.copy.pub = p → h.phase = .finished := by
    intro t h hh hp
    by_contra hph
    cases hat.active t h hh hp hph
  -- the limit decides between `orders.dlq` and `orders.process`
  by_cases hretry : (counted m.attempt i).ge maxRetries = true
  · rw [next, if_pos hretry]
    refine ⟨(i, .done false), .dead i tag o hretry, ?_⟩
    constructor
    · show (Function.update s.broker.queues .dlq (s.broker.queues .dlq ++ [copyAfter p m i])
        .process).filter _ = []
      rw [Function.update_of_ne (by decide)]
      exact hqueue
    · exact hothers
    · intro t o' ph hpl
      cases hpl
    · intro t h hh hp hph
      exact absurd (hactive t h hh hp) hph
    · show puts p .process (s.broker.log ++ [.put tag .dlq (copyAfter p m i)]) = _
      rw [puts_append, hat.retried]
      simp [puts]
    · show puts p .dlq (s.broker.log ++ [.put tag .dlq (copyAfter p m i)]) = _
      rw [puts_append, hat.dead]
      simp [puts, Place.dead, copyAfter]
    · exact hat.committed
    · exact hat.row
    · exact hat.handled
  · rw [next, if_neg hretry]
    refine ⟨(i + 1, .queued), .retry i tag o (by simpa using hretry), ?_⟩
    constructor
    · show (Function.update s.broker.queues .process _ .process).filter _ = _
      rw [Function.update_self]
      show (s.broker.queues .process ++ [copyAfter p m (i + 1)]).filter _ = _
      rw [List.filter_append, hqueue]
      simp [Place.queue, copyAfter]
    · exact hothers
    · intro t o' ph hpl
      cases hpl
    · intro t h hh hp hph
      exact absurd (hactive t h hh hp) hph
    · show puts p .process (s.broker.log ++ [.put tag .process (copyAfter p m (i + 1))]) = _
      rw [puts_append, hat.retried]
      simp [puts, copyAfter, List.range_succ]
    · show puts p .dlq (s.broker.log ++ [.put tag .process (copyAfter p m (i + 1))]) = _
      rw [puts_append, hat.dead]
      simp [puts, Place.dead]
    · exact hat.committed
    · exact hat.row
    · exact hat.handled

theorem At.take (hat : At maxRetries p m s c) (ha : Attended s) (hok : s.broker.Ok)
    {b : Broker π Queue Copy} (ht : s.broker.take o = some b) :
    ∃ c', (c' = c ∨ Move maxRetries m c c') ∧ At maxRetries p m { s with broker := b } c' := by
  cases hok.take_cases ht with
  | publish tag q d fs hw =>
    by_cases hpub : d.pub = p
    · -- only a handler of the message sends a copy of it
      obtain ⟨i, pl⟩ := c
      have hhead := hat.frames o
      rw [hw, List.filter_cons_of_pos (by simpa [sends] using hpub)] at hhead
      cases pl with
      | queued | handled _ _ _ | done _ => cases hhead
      | sending tag' o' =>
        have ho : o = o' := by
          by_contra hne
          simp only [Place.frames, if_neg hne, reduceCtorEq] at hhead
        subst ho
        simp only [Place.frames, if_true, List.cons.injEq, Frame.publish.injEq] at hhead
        obtain ⟨⟨rfl, rfl, rfl⟩, hrest⟩ := hhead
        obtain ⟨c', hmove, hat'⟩ := hat.take_own hrest
        exact ⟨c', .inr hmove, hat'⟩
    · refine ⟨c, .inl rfl, hat.take_other hw (by simpa [sends] using hpub) ?_ rfl fun q' => ?_⟩
      · show (Function.update s.broker.queues q _ .process).filter _ = _
        by_cases hq : q = .process
        · subst hq
          rw [Function.update_self]
          show (s.broker.queues .process ++ [d]).filter _ = _
          rw [List.filter_append]
          simp [hpub]
        · rw [Function.update_of_ne (Ne.symm hq)]
      · show puts p q' (s.broker.log ++ [.put tag q d]) = _
        rw [puts_append]
        simp [puts, hpub]
  | ack d fs hd hp hw =>
    refine ⟨c, .inl rfl, hat.take_other hw rfl rfl rfl fun q' => ?_⟩
    show puts p q' (s.broker.log ++ [.acked d.tag d.message]) = _
    rw [puts_append]
    simp [puts]
  | reject d fs hd hp hw =>
    exact absurd (by rw [hw]; exact List.mem_cons_self) (ha.noReject o d.tag)

end Frames

/-! ## Handlers -/

section Turns

variable {tag : Nat} {h : Handler π} {ph : Phase} {fs : List (Frame Queue Copy)}

theorem Turned.wire (hturn : Turned maxRetries s s' tag h ph fs) (o : π) :
    (s'.broker.wire o).filter (sends p) =
      (s.broker.wire o).filter (sends p) ++ if o = h.owner then fs.filter (sends p) else [] := by
  rw [hturn.broker, write_wire]
  split
  · rw [List.filter_append]
  · rw [List.append_nil]

/-- Apart from COMMIT the tables and the history tell the same. -/
theorem Turned.recorded (hturn : Turned maxRetries s s' tag h ph fs)
    (hne : ∀ update, h.phase ≠ .processed update) :
    commits p s'.history = commits p s.history ∧ s'.db = s.db := by
  obtain ⟨hdb, es, hes, hdup⟩ := hturn.plain hne
  have hnone : commits p es = [] := by
    rw [commits, List.filterMap_eq_nil_iff]
    intro e he
    rw [hdup e he]
  rw [hes, commits_append, hnone, List.append_nil]
  exact ⟨rfl, hdb⟩

/-- A handler of another message. -/
theorem At.turned_other (hat : At maxRetries p m s c) (hother : h.copy.pub ≠ p)
    (halone : h.copy.message.messageId = m.messageId → h.copy.pub = p)
    (hturn : Turned maxRetries s s' tag h ph fs) : At maxRetries p m s' c := by
  -- its frames carry copies of its own message only
  have hsilent : fs.filter (sends p) = [] := by
    rw [List.filter_eq_nil_iff]
    intro f hf
    cases hturn.turns with
    | giveUp hph hge =>
      rcases List.mem_cons.mp hf with rfl | hf
      · simpa [sends] using hother
      · cases List.mem_singleton.mp hf
        exact Bool.false_ne_true
    | fire hph =>
      rcases List.mem_cons.mp hf with rfl | hf
      · show ¬ decide (h.copy.pub = p) = true
        simpa using hother
      · cases List.mem_singleton.mp hf
        exact Bool.false_ne_true
    | ack hph =>
      cases List.mem_singleton.mp hf
      exact Bool.false_ne_true
    | _ => cases hf
  have hqueues : s'.broker.queues = s.broker.queues := by rw [hturn.broker]; rfl
  have hlog : s'.broker.log = s.broker.log := by rw [hturn.broker]; rfl
  refine hat.same ⟨by rw [hqueues], fun o => ?_, fun t h' hp => ?_, fun q => by rw [hlog], ?_, ?_⟩
  · rw [hturn.wire, hsilent, ite_self, List.append_nil]
  · rw [hturn.handlers]
    by_cases ht : t = tag
    · rw [ht, Function.update_self, hturn.handler, Option.some.injEq, Option.some.injEq]
      constructor
      · rintro rfl
        exact absurd hp hother
      · rintro rfl
        exact absurd hp hother
    · rw [Function.update_of_ne ht]
  · by_cases hcommit : ∃ update, h.phase = .processed update
    · obtain ⟨update, hph⟩ := hcommit
      rw [(hturn.commit update hph).2, commits_append]
      simp [commits, hother]
    · exact (hturn.recorded fun update hph => hcommit ⟨update, hph⟩).1
  · by_cases hcommit : ∃ update, h.phase = .processed update
    · obtain ⟨update, hph⟩ := hcommit
      rw [(hturn.commit update hph).1, processed_applyMessage]
      -- the row it writes is not that of the message, whose id it does not have
      exact or_iff_left fun hid => hother (halone hid.symm)
    · rw [(hturn.plain fun update hph => hcommit ⟨update, hph⟩).1]

/-- The handler of the message itself, on its way to the place `pl`. -/
theorem At.turned_to {i : Nat} (hat : At maxRetries p m s (i, .handled tag h.owner h.phase))
    (hcopy : h.copy = copyAfter p m i) (hturn : Turned maxRetries s s' tag h ph fs) {pl : Place π}
    (hqueue : pl.queue (copyAfter p m i) = []) (hdead : pl.dead = false)
    (hdeliveries : pl.deliveries i = i + 1)
    (hframes : ∀ o, pl.frames (next maxRetries p m i) o =
      if o = h.owner then fs.filter (sends p) else [])
    (hhandler : ∀ x, pl.handler = some x → x = (tag, h.owner, ph))
    (hactive : ph ≠ .finished → pl = .handled tag h.owner ph)
    (hcommits : commits p s'.history = if pl.committed then [copyAfter p m i] else [])
    (hrow : Processed s'.db m ↔ pl.committed = true) : At maxRetries p m s' (i, pl) := by
  have hqueues : s'.broker.queues = s.broker.queues := by rw [hturn.broker]; rfl
  have hlog : s'.broker.log = s.broker.log := by rw [hturn.broker]; rfl
  constructor
  · rw [hqueues, hqueue]
    exact hat.queue
  · intro o
    rw [hturn.wire, hat.frames o, hframes o]
    rfl
  · intro t o ph' hpl
    cases hhandler _ hpl
    rw [hturn.handlers, Function.update_self, ← hcopy]
  · intro t h' hh' hp hph
    by_cases ht : t = tag
    · rw [hturn.handlers, ht, Function.update_self, Option.some.injEq] at hh'
      subst hh' ht
      exact hactive hph
    · rw [hturn.handlers, Function.update_of_ne ht] at hh'
      exact absurd (Place.handled.inj (hat.active t h' hh' hp hph)).1.symm ht
  · rw [hlog]
    exact hat.retried
  · rw [hlog, hdead]
    exact hat.dead
  · exact hcommits
  · exact hrow
  · obtain ⟨tags, hnodup, htags, hcopies⟩ := hat.handled
    refine ⟨tags, hnodup, fun t => ?_, ?_⟩
    · rw [htags t, hturn.handlers]
      by_cases ht : t = tag
      · rw [ht, Function.update_self, hturn.handler]
        constructor
        · rintro ⟨h', hh', hp⟩
          cases hh'
          exact ⟨_, rfl, hp⟩
        · rintro ⟨h', hh', hp⟩
          cases hh'
          exact ⟨_, rfl, hp⟩
      · rw [Function.update_of_ne ht]
    · rw [hdeliveries]
      refine Eq.trans (List.map_congr_left fun t _ => ?_) hcopies
      rw [hturn.handlers]
      by_cases ht : t = tag
      · rw [ht, Function.update_self, hturn.handler]
        rfl
      · rw [Function.update_of_ne ht]

theorem processOrderMessage_stops {sim : SimulatedFailure} (hsim : m.simulateFailure = some sim)
    (k : Number) (u : OrderUpdate) : State.processOrderMessage (attemptNo m k) u =
      if Stops m k then .ok none else .error sim.reason := by
  simp only [State.processOrderMessage, attemptNo, Stops, hsim, Option.any_some]

/-- A step inside the handler of the message. -/
theorem At.turned_inside {i : Nat} (hat : At maxRetries p m s (i, .handled tag h.owner h.phase))
    (hcopy : h.copy = copyAfter p m i) (hturn : Turned maxRetries s s' tag h ph fs) (hfs : fs = [])
    (hne : ∀ update, h.phase ≠ .processed update)
    (hcommitted : (Place.handled tag h.owner ph).committed =
      (Place.handled tag h.owner h.phase).committed) :
    At maxRetries p m s' (i, .handled tag h.owner ph) := by
  obtain ⟨hcommits, hdb⟩ := hturn.recorded (p := p) hne
  apply hat.turned_to hcopy hturn rfl rfl rfl
  · intro o
    rw [hfs]
    exact (ite_self _).symm
  · exact fun x hx => (Option.some.inj hx).symm
  · exact fun _ => rfl
  · rw [hcommits, hcommitted]
    exact hat.committed
  · rw [hdb, hcommitted]
    exact hat.row

/-- The last step of the handler of the message, on the way to the place `pl`. -/
theorem At.turned_out {i : Nat} (hat : At maxRetries p m s (i, .handled tag h.owner h.phase))
    (hcopy : h.copy = copyAfter p m i) (hturn : Turned maxRetries s s' tag h .finished fs)
    {pl : Place π} (hpl : pl = .done true ∨ pl = .sending tag h.owner)
    (hframes : ∀ o, pl.frames (next maxRetries p m i) o =
      if o = h.owner then fs.filter (sends p) else [])
    (hne : ∀ update, h.phase ≠ .processed update)
    (hcommitted : pl.committed = (Place.handled tag h.owner h.phase).committed) :
    At maxRetries p m s' (i, pl) := by
  obtain ⟨hcommits, hdb⟩ := hturn.recorded (p := p) hne
  have hrecord : commits p s'.history = if pl.committed then [copyAfter p m i] else [] := by
    rw [hcommits, hcommitted]
    exact hat.committed
  have hrow : Processed s'.db m ↔ pl.committed = true := by
    rw [hdb, hcommitted]
    exact hat.row
  rcases hpl with rfl | rfl
  · exact hat.turned_to hcopy hturn rfl rfl rfl hframes (fun x hx => by cases hx)
      (fun hph => absurd rfl hph) hrecord hrow
  · exact hat.turned_to hcopy hturn rfl rfl rfl hframes (fun x hx => (Option.some.inj hx).symm)
      (fun hph => absurd rfl hph) hrecord hrow

/-- The handler of the message takes the next step of the chain. -/
theorem At.turned_own {sim : SimulatedFailure} (hsim : m.simulateFailure = some sim)
    (hat : At maxRetries p m s c) (hsound : Sound maxRetries m c) (hown : h.copy.pub = p)
    (hturn : Turned maxRetries s s' tag h ph fs) :
    ∃ c', Move maxRetries m c c' ∧ At maxRetries p m s' c' := by
  obtain ⟨i, pl⟩ := c
  obtain rfl : pl = .handled tag h.owner h.phase :=
    hat.active tag h hturn.handler hown hturn.turns.unfinished
  have hcopy : h.copy = copyAfter p m i :=
    congrArg Handler.copy (Option.some.inj (hturn.handler.symm.trans (hat.handler _ _ _ rfl)))
  have hmessage : h.copy.message = attemptNo m (counted m.attempt i) := by rw [hcopy]; rfl
  have hattempt : h.copy.message.attempt = counted m.attempt i := by rw [hmessage]; rfl
  have hrow : Processed s.db h.copy.message ↔ Processed s.db m := by
    rw [hmessage]
    exact processed_congr rfl
  have hfits := hsound.fits
  cases hturn.turns with
  | duplicate hph hprocessed =>
    -- no attempt before this one has left a row
    have hwrong := hat.row.mp (hrow.mp hprocessed)
    rw [hph] at hwrong
    cases hwrong
  | insert hph hprocessed =>
    refine ⟨_, ?_, hat.turned_inside hcopy hturn rfl (by simp [hph]) (by rw [hph]; rfl)⟩
    rw [hph]
    exact .insert i tag h.owner
  | process u update hph hok =>
    rw [hmessage, processOrderMessage_stops hsim] at hok
    split at hok
    · next hstops =>
      cases hok
      refine ⟨_, ?_, hat.turned_inside hcopy hturn rfl (by simp [hph]) (by rw [hph]; rfl)⟩
      rw [hph]
      exact .succeeds i tag h.owner hstops
    · cases hok
  | throws u reason hph herr =>
    rw [hmessage, processOrderMessage_stops hsim] at herr
    split at herr
    · cases herr
    · next hstops =>
      refine ⟨_, ?_, hat.turned_inside hcopy hturn rfl (by simp [hph]) (by rw [hph]; rfl)⟩
      rw [hph]
      exact .throws i tag h.owner (by simpa using hstops)
  | commit update hph =>
    obtain ⟨hdb, hhistory⟩ := hturn.commit update hph
    simp only [hph, Place.Fits] at hfits
    refine ⟨(i, .handled tag h.owner .resolved), ?_, ?_⟩
    · rw [hph, hfits.1]
      exact .commit i tag h.owner
    · apply hat.turned_to hcopy hturn rfl rfl rfl
      · exact fun o => (ite_self _).symm
      · exact fun x hx => (Option.some.inj hx).symm
      · exact fun _ => rfl
      · have hbefore := hat.committed
        rw [hph] at hbefore
        rw [hhistory, commits_append, hbefore]
        simp [commits, Place.committed, hcopy, copyAfter]
      · rw [hdb, processed_applyMessage]
        exact iff_of_true (.inr (by rw [hcopy]; rfl)) rfl
  | rollback hph =>
    refine ⟨_, ?_, hat.turned_inside hcopy hturn rfl (by simp [hph]) (by rw [hph]; rfl)⟩
    rw [hph]
    exact .rollback i tag h.owner
  | resolve hph =>
    -- `refused` is the phase of a duplicate
    simp only [hph, Place.Fits] at hfits
  | ack hph =>
    refine ⟨(i, .done true), ?_, hat.turned_out hcopy hturn (.inl rfl) (fun o => ?_)
      (by simp [hph]) (by rw [hph]; rfl)⟩
    · rw [hph]
      exact .ack i tag h.owner
    · exact (ite_self _).symm
  | giveUp hph hge =>
    rw [hattempt] at hge
    refine ⟨(i, .sending tag h.owner), ?_, hat.turned_out hcopy hturn (.inr rfl) (fun o => ?_)
      (by simp [hph]) (by rw [hph]; rfl)⟩
    · rw [hph]
      exact .giveUp i tag h.owner hge
    · rw [next, if_pos hge, ← hcopy]
      simp [Place.frames, sends, hown]
  | wait hph hlt =>
    rw [hattempt] at hlt
    refine ⟨_, ?_, hat.turned_inside hcopy hturn rfl (by simp [hph]) (by rw [hph]; rfl)⟩
    rw [hph]
    exact .wait i tag h.owner hlt
  | fire hph =>
    simp only [hph, Place.Fits] at hfits
    refine ⟨(i, .sending tag h.owner), ?_, hat.turned_out hcopy hturn (.inr rfl) (fun o => ?_)
      (by simp [hph]) (by rw [hph]; rfl)⟩
    · rw [hph]
      exact .fire i tag h.owner
    · -- the timer was set below the limit, so the copy is a retry
      rw [next, if_neg (by simp [hfits.2]), hcopy, copyAfter_retry]
      simp [Place.frames, sends, copyAfter]

end Turns

/-- A message that has just been published is on the queue, and its row is not there. -/
theorem at_published {ok : State π → Label π → Prop} {l : Label π}
    (hr : (system maxRetries db₀).Reach ok s) (hrow : ¬ Processed s.db m)
    (hp : s.nextPub = p) (hl : l = .publish m)
    (hs : Step maxRetries s l s') : At maxRetries p m s' (0, .queued) ∧ p < s'.nextPub := by
  subst hl
  cases hs
  have hpast := reachable_past hr
  rw [hp] at hpast
  have hzero : copyAfter p m 0 = { message := m, pub := p } := rfl
  refine ⟨?_, hp ▸ Nat.lt_succ_self _⟩
  constructor
  · show (s.broker.queues .process ++ [(⟨m, s.nextPub⟩ : Copy)]).filter _ = _
    -- every copy so far has a smaller number
    have hnone : (s.broker.queues .process).filter (·.pub = p) = [] := by
      rw [List.filter_eq_nil_iff]
      intro c hc
      simpa using Nat.ne_of_lt (hpast.carried.broker.queues .process c hc)
    rw [List.filter_append, hnone, hp, Place.queue, hzero]
    simp
  · intro o
    show (s.broker.wire o).filter (sends p) = []
    rw [List.filter_eq_nil_iff]
    intro f hf
    cases f with
    | publish t q c => simpa [sends] using Nat.ne_of_lt (hpast.carried.broker.wires o t q c hf)
    | ack t | reject t => exact Bool.false_ne_true
  · intro t o ph heq
    cases heq
  · intro t h hh hpub
    exact absurd hpub (Nat.ne_of_lt (hpast.carried.handlers t h hh))
  · show puts p .process s.broker.log = []
    rw [puts, List.filterMap_eq_nil_iff]
    intro e he
    cases e with
    | put t q c => simp [Nat.ne_of_lt (hpast.put t q c he)]
    | acked t c | rejected t => rfl
  · show puts p .dlq s.broker.log = []
    rw [puts, List.filterMap_eq_nil_iff]
    intro e he
    cases e with
    | put t q c => simp [Nat.ne_of_lt (hpast.put t q c he)]
    | acked t c | rejected t => rfl
  · show commits p (s.history ++ [.published _]) = []
    rw [commits, List.filterMap_eq_nil_iff]
    intro e he
    rcases List.mem_append.mp he with he | he
    · cases e with
      | committed t c => simp [Nat.ne_of_lt (hpast.committed t c he)]
      | published c | duplicate t c => rfl
    · rw [List.mem_singleton.mp he]
  · exact iff_of_false hrow Bool.false_ne_true
  · refine ⟨[], List.nodup_nil, fun t => ?_, rfl⟩
    apply iff_of_false List.not_mem_nil
    rintro ⟨h, hh, hpub⟩
    exact absurd hpub (Nat.ne_of_lt (hpast.carried.handlers t h hh))

end Places

end Ecommerce.Worker
