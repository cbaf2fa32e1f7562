import Ecommerce.Worker.WorkerInvariant

/-!
# NoLoss — every published message, at every moment

A handler that has not written its settlement yet has its delivery, as long as the channel is open;
so it settles it once, and only after its transaction or a copy.  Until the row of a message is
committed, the broker holds a copy that nothing on its way can take away.
-/

namespace Ecommerce.Worker

open Amqp Locking Orders Transition

variable {π : Type} [DecidableEq π] {maxRetries : Number} {db₀ : Db}

/-- The two are copies of one message. -/
def SameIds (c c' : Copy) : Prop := c'.ids = c.ids

/-! ## Handlers and their deliveries -/

structure Attached (s : State π) : Prop where
  ok : s.broker.Ok
  running : ∀ t h, s.handlers t = some h → s.running h.owner = true
  delivery : ∀ t h, s.handlers t = some h → h.phase ≠ .finished →
    s.broker.isOpen h.owner = true →
    ∃ d ∈ s.broker.unsettled, d.tag = t ∧ d.owner = h.owner ∧ d.message = h.copy
  unwritten : ∀ t h, s.handlers t = some h → h.phase ≠ .finished →
    t ∉ settles (s.broker.wire h.owner)

section Steps

variable {s s' : State π} {l : Label π} {p : π}

omit [DecidableEq π] in
/-- The delivery of a handler that is about to write. -/
theorem Attached.delivery_unique (ha : Attached s) {t : Nat} {h : Handler π}
    (hh : s.handlers t = some h) (hph : h.phase ≠ .finished)
    (hopen : s.broker.isOpen h.owner = true) {d : Delivery π Queue Copy}
    (hd : d ∈ s.broker.unsettled) (htag : d.tag = t) : d.message = h.copy := by
  obtain ⟨d', hd', htag', -, hmsg⟩ := ha.delivery t h hh hph hopen
  rw [ha.ok.tag_inj hd hd' (htag.trans htag'.symm), hmsg]

theorem Attached.broker_ok (ha : Attached s) {tag : Nat} {f : Faults} {h : Handler π}
    {resolved : Bool} {fs : List (Frame Queue Copy)} (hout : Output s s' tag f h resolved fs) :
    s'.broker.Ok := by
  rw [hout.broker]
  obtain ⟨honce, htags⟩ := hout.writes.settles
  refine ha.ok.write hout.isOpen (fun t ht => ?_) honce fun t ht => ?_
  · have hne : fs ≠ [] := by
      rintro rfl
      cases ht
    obtain ⟨d, hd, htag, howner, -⟩ :=
      ha.delivery tag h hout.handler hout.unfinished (hout.isOpen hne)
    exact ⟨d, hd, htag.trans (htags t ht).symm, howner⟩
  · rw [htags t ht]
    exact ha.unwritten tag h hout.handler hout.unfinished

theorem Attached.start (ha : Attached s) (hstart : s.start p = some s') : Attached s' := by
  obtain ⟨hstopped, -, rfl⟩ := start_cases hstart
  have hne : ∀ t h, s.handlers t = some h → h.owner ≠ p := by
    rintro t h hh rfl
    exact absurd ((ha.running t h hh).symm.trans hstopped) (by decide)
  refine ⟨ha.ok.openChannel p, fun t h hh => ?_, fun t h hh hph hopen => ?_, ha.unwritten⟩
  · show Function.update s.running p true h.owner = true
    rw [Function.update_of_ne (hne t h hh)]
    exact ha.running t h hh
  · change Function.update s.broker.isOpen p true h.owner = true at hopen
    rw [Function.update_of_ne (hne t h hh)] at hopen
    exact ha.delivery t h hh hph hopen

theorem Attached.die (ha : Attached s) (p : π) : Attached (s.die p) where
  ok := ha.ok
  running := fun t h hh => by
    obtain ⟨hh, hne⟩ := die_handlers hh
    show Function.update s.running p false h.owner = true
    rw [Function.update_of_ne hne]
    exact ha.running t h hh
  delivery := fun t h hh => ha.delivery t h (die_handlers hh).1
  unwritten := fun t h hh => ha.unwritten t h (die_handlers hh).1

theorem Attached.close (ha : Attached s) (p : π) : Attached (s.close p) where
  ok := ha.ok.close p
  running := ha.running
  delivery := fun t h hh hph hopen => by
    have hne : h.owner ≠ p := by
      rintro rfl
      simp [State.close, Broker.close] at hopen
    have hopen' : s.broker.isOpen h.owner = true := by
      simpa [State.close, Broker.close, hne] using hopen
    obtain ⟨d, hd, htag, howner, hmsg⟩ := ha.delivery t h hh hph hopen'
    exact ⟨d, List.mem_filter.mpr ⟨hd, by simpa [howner] using hne⟩, htag, howner, hmsg⟩
  unwritten := fun t h hh hph => by
    show t ∉ settles (Function.update s.broker.wire p [] h.owner)
    by_cases hp : h.owner = p
    · rw [hp, Function.update_self]
      exact List.not_mem_nil
    · rw [Function.update_of_ne hp]
      exact ha.unwritten t h hh hph

omit [DecidableEq π] in
theorem Attached.deliver (ha : Attached s) {i : Nat} (hd : s.deliver p i = some s') :
    Attached s' := by
  obtain ⟨hrun, b, c, hb, rfl⟩ := deliver_cases hd
  have hok := ha.ok.deliver hb
  obtain ⟨-, -, rfl⟩ := Broker.deliver_cases hb
  have hcases : ∀ {t : Nat} {h : Handler π},
      Function.update s.handlers s.broker.nextTag (some ⟨p, c, .started⟩) t = some h →
      (t = s.broker.nextTag ∧ h = ⟨p, c, .started⟩) ∨ s.handlers t = some h := by
    intro t h hh
    by_cases ht : t = s.broker.nextTag
    · rw [ht, Function.update_self, Option.some.injEq] at hh
      exact .inl ⟨ht, hh.symm⟩
    · rw [Function.update_of_ne ht] at hh
      exact .inr hh
  refine ⟨hok, fun t h hh => ?_, fun t h hh hph hopen => ?_, fun t h hh hph => ?_⟩
  · rcases hcases hh with ⟨-, rfl⟩ | hold
    · exact hrun
    · exact ha.running t h hold
  · rcases hcases hh with ⟨rfl, rfl⟩ | hold
    · exact ⟨_, List.mem_append_right _ (List.mem_singleton_self _), rfl, rfl, rfl⟩
    · obtain ⟨d, hd, hrest⟩ := ha.delivery t h hold hph hopen
      exact ⟨d, List.mem_append_left _ hd, hrest⟩
  · rcases hcases hh with ⟨rfl, rfl⟩ | hold
    · -- a tag on the wire was given out before, and the new one was not
      intro hmem
      obtain ⟨d, hd, htag, -⟩ := ha.ok.known p _ hmem
      exact absurd (ha.ok.fresh d hd) (by rw [htag]; exact Nat.lt_irrefl _)
    · exact ha.unwritten t h hold hph

theorem Attached.take (ha : Attached s) {b : Broker π Queue Copy} (ht : s.broker.take p = some b) :
    Attached { s with broker := b } := by
  have hok := ha.ok.take ht
  -- a delivery that a frame settles has no handler left that would write for it
  have hsettled : ∀ {d : Delivery π Queue Copy}, d ∈ s.broker.unsettled → d.owner = p →
      d.tag ∈ settles (s.broker.wire p) → ∀ t h, s.handlers t = some h → h.phase ≠ .finished →
      s.broker.isOpen h.owner = true →
      ∃ d' ∈ s.broker.unsettled.filter (·.tag ≠ d.tag),
        d'.tag = t ∧ d'.owner = h.owner ∧ d'.message = h.copy := by
    intro d hd hp hmem t h hh hph hopen
    obtain ⟨d', hd', htag, howner, hmsg⟩ := ha.delivery t h hh hph hopen
    refine ⟨d', List.mem_filter.mpr ⟨hd', ?_⟩, htag, howner, hmsg⟩
    have hne : d'.tag ≠ d.tag := by
      intro heq
      have hdd := ha.ok.tag_inj hd' hd heq
      refine ha.unwritten t h hh hph ?_
      rw [← howner, ← htag, hdd, hp]
      exact hmem
    simpa using hne
  have hrest : ∀ {f : Frame Queue Copy} {fs : List (Frame Queue Copy)},
      s.broker.wire p = f :: fs → ∀ t h, s.handlers t = some h → h.phase ≠ .finished →
      t ∉ settles (Function.update s.broker.wire p fs h.owner) := by
    intro f fs hw t h hh hph hmem
    refine ha.unwritten t h hh hph ?_
    by_cases hp : h.owner = p
    · rw [hp, Function.update_self] at hmem
      rw [hp, hw, ← List.singleton_append, settles_append]
      exact List.mem_append_right _ hmem
    · rwa [Function.update_of_ne hp] at hmem
  cases ha.ok.take_cases ht with
  | publish tag q m fs hw => exact ⟨hok, ha.running, ha.delivery, hrest hw⟩
  | ack d fs hd hp hw =>
    exact ⟨hok, ha.running, hsettled hd hp (by rw [hw]; exact List.mem_cons_self ..), hrest hw⟩
  | reject d fs hd hp hw =>
    exact ⟨hok, ha.running, hsettled hd hp (by rw [hw]; exact List.mem_cons_self ..), hrest hw⟩

/-- A handler moves, and writes at most its last frames. -/
theorem Attached.move (ha : Attached s) {tag : Nat} {f : Faults} {h : Handler π} {resolved : Bool}
    {fs : List (Frame Queue Copy)} (hout : Output s s' tag f h resolved fs)
    (hrunning : ∀ t h', s'.handlers t = some h' → s.running h'.owner = true →
      s'.running h'.owner = true)
    (hhandlers : ∀ t h', s'.handlers t = some h' → (s.handlers t = some h' ∧ t ≠ tag) ∨
      (t = tag ∧ h'.owner = h.owner ∧ h'.copy = h.copy)) : Attached s' := by
  refine ⟨ha.broker_ok hout, fun t h' hh' => hrunning t h' hh' ?_, fun t h' hh' hph hopen => ?_,
    fun t h' hh' hph => ?_⟩
  · rcases hhandlers t h' hh' with ⟨hold, -⟩ | ⟨-, howner, -⟩
    · exact ha.running t h' hold
    · rw [howner]
      exact ha.running tag h hout.handler
  · rw [hout.broker] at hopen ⊢
    rcases hhandlers t h' hh' with ⟨hold, -⟩ | ⟨rfl, howner, hcopy⟩
    · exact ha.delivery t h' hold hph hopen
    · rw [howner] at hopen ⊢
      rw [hcopy]
      exact ha.delivery t h hout.handler hout.unfinished hopen
  · rw [hout.broker]
    show t ∉ settles (Function.update s.broker.wire h.owner (s.broker.wire h.owner ++ fs) h'.owner)
    -- frames are written by a handler that finishes, and this one has not
    have hfs : t = tag → fs = [] := by
      rintro rfl
      by_contra hne
      exact hph (hout.finished hne h' hh')
    have hnew : t ∉ settles fs := by
      intro hmem
      rw [hfs (hout.writes.settles.2 t hmem)] at hmem
      cases hmem
    have hold : t ∉ settles (s.broker.wire h'.owner) := by
      rcases hhandlers t h' hh' with ⟨hold, -⟩ | ⟨rfl, howner, -⟩
      · exact ha.unwritten t h' hold hph
      · rw [howner]
        exact ha.unwritten t h hout.handler hout.unfinished
    by_cases hp : h'.owner = h.owner
    · rw [hp, Function.update_self, settles_append, List.mem_append, not_or]
      rw [hp] at hold
      exact ⟨hold, hnew⟩
    · rwa [Function.update_of_ne hp]

theorem Attached.step (ha : Attached s) (hs : Step maxRetries s l s') : Attached s' := by
  cases hs with
  | start p hstart => exact ha.start hstart
  | die p hp => exact ha.die p
  | close p hp => exact ha.close p
  | deliver p i hd => exact ha.deliver hd
  | take p ht =>
    obtain ⟨b, hb, rfl⟩ := Option.map_eq_some_iff.mp ht
    exact ha.take hb
  | takePair p ht =>
    obtain ⟨-, b, b', hb, hb', rfl⟩ := takePair_cases ht
    exact (ha.take hb).take hb'
  | advance tag u f hadv =>
    obtain ⟨h, resolved, fs, hout⟩ := (advance_cases hadv).output
    refine ha.move hout (fun t h' hh' => (advance_cases hadv).running hh') fun t h' hh' => ?_
    refine ((advance_cases hadv).handler hh').imp_right ?_
    -- neither the process nor the copy of a handler changes
    rintro ⟨h₁, hh₁, rfl, hmoves⟩
    rw [hout.handler, Option.some.injEq] at hh₁
    rw [hh₁]
    exact ⟨rfl, hmoves.owner, hmoves.copy⟩
  | fault tag h hh hph =>
    have hunfinished : h.phase ≠ .finished := fun heq => by
      rw [heq] at hph
      cases hph
    refine ha.move (output_nothing (f := .none) hh hunfinished rfl) (fun _ _ _ hrun => hrun)
      fun t h' hh' => (setPhase_handlers hh').imp_right ?_
    rintro ⟨rfl, rfl⟩
    exact ⟨rfl, rfl, rfl⟩
  | publish m => exact ⟨ha.ok.put .process _, ha.running, ha.delivery, ha.unwritten⟩
  | shop db hshop => exact ⟨ha.ok, ha.running, ha.delivery, ha.unwritten⟩

/-- The frames of a handler guard every delivery, its own unless its transaction has ended. -/
theorem Attached.guards (ha : Attached s) (hi : Inv db₀ s) {tag : Nat} {f : Faults} {h : Handler π}
    {resolved : Bool} {fs : List (Frame Queue Copy)} (hout : Output s s' tag f h resolved fs)
    {d : Delivery π Queue Copy} (hd : d ∈ s.broker.unsettled) :
    (Processed s.db d.message.message ∧ Ended s d.tag d.message) ∨
      Broker.Guarded (fun t c' => t = d.tag ∧ SameIds d.message c') d.tag fs := by
  by_cases hne : fs = []
  · rw [hne]
    exact .inr trivial
  by_cases htag : d.tag = tag
  · -- the delivery is the handler's own: an ack follows its COMMIT or its next copy
    have hmsg := ha.delivery_unique hout.handler hout.unfinished (hout.isOpen hne) hd htag
    rw [htag, hmsg]
    refine hout.writes.guarded.imp_left fun hres => ?_
    exact hi.ended tag h hout.handler (.inr (hout.resolved hres))
  · exact .inr (Broker.guarded_of_no_ack fun hmem => htag (hout.writes.settles.2 _ hmem))

/-! ## No ack without a reason -/

theorem accounted_step (hacc : s.broker.Accounted SameIds (Ended s)) (ha : Attached s)
    (hi : Inv db₀ s) (hs : Step maxRetries s l s') :
    s'.broker.Accounted SameIds (Ended s') := by
  have heff := hs.effect
  have hacc' : s.broker.Accounted SameIds (Ended s') := hacc.mono fun t c => heff.ended
  cases hs with
  | start p hstart =>
    obtain ⟨-, -, rfl⟩ := start_cases hstart
    exact hacc'.openChannel p
  | die p hp => exact hacc'
  | close p hp => exact hacc'.close p
  | deliver p i hd =>
    obtain ⟨-, b, c, hb, rfl⟩ := deliver_cases hd
    exact hacc'.deliver ha.ok hb
  | take p ht =>
    obtain ⟨b, hb, rfl⟩ := Option.map_eq_some_iff.mp ht
    exact hacc'.take ha.ok hb
  | takePair p ht =>
    obtain ⟨-, b, b', hb, hb', rfl⟩ := takePair_cases ht
    exact (hacc'.take ha.ok hb).take (ha.ok.take hb) hb'
  | advance tag u f hadv =>
    obtain ⟨h, resolved, fs, hout⟩ := (advance_cases hadv).output
    rw [hout.broker]
    -- an ack that is written has its reason in the frames before it
    exact hacc'.write fun d hd _ => (ha.guards hi hout hd).imp_left fun hend => heff.ended hend.2
  | fault tag h hh hph => exact hacc'
  | publish m => exact hacc'.put .process _
  | shop db hshop => exact hacc'

/-! ## No message lost -/

/-- A copy that the broker holds stays there, or the row of the message is committed. -/
theorem held_step {c : Copy} (hheld : s.broker.Held (SameIds c)) (ha : Attached s)
    (hi : Inv db₀ s) (hs : Step maxRetries s l s') :
    Processed s.db c.message ∨ s'.broker.Held (SameIds c) := by
  cases hs with
  | start p hstart =>
    obtain ⟨-, -, rfl⟩ := start_cases hstart
    exact .inr hheld
  | die p hp => exact .inr hheld
  | close p hp => exact .inr (hheld.close p)
  | deliver p i hd =>
    obtain ⟨-, b, c, hb, rfl⟩ := deliver_cases hd
    exact .inr (hheld.deliver ha.ok hb)
  | take p ht =>
    obtain ⟨b, hb, rfl⟩ := Option.map_eq_some_iff.mp ht
    exact .inr (hheld.take ha.ok hb)
  | takePair p ht =>
    obtain ⟨-, b, b', hb, hb', rfl⟩ := takePair_cases ht
    exact .inr ((hheld.take ha.ok hb).take (ha.ok.take hb) hb')
  | advance tag u f hadv =>
    obtain ⟨h, resolved, fs, hout⟩ := (advance_cases hadv).output
    -- a copy may go once the row is there
    by_cases hrow : Processed s.db c.message
    · exact .inl hrow
    · rw [hout.broker]
      -- without the row every ack comes after a copy with the same ids
      refine .inr (hheld.write fun d hd _ hsame => ?_)
      have hid : d.message.message.messageId = c.message.messageId := congrArg Prod.fst hsame
      rcases ha.guards hi hout hd with ⟨hproc, -⟩ | hguard
      · exact absurd ((processed_congr hid).mp hproc) hrow
      · exact hguard.mono fun t c' hc' => hc'.2.trans hsame
  | fault tag h hh hph => exact .inr hheld
  | publish m => exact .inr (hheld.put .process _)
  | shop db hshop => exact .inr hheld

structure Kept (s : State π) : Prop where
  attached : Attached s
  accounted : s.broker.Accounted SameIds (Ended s)
  held : ∀ c, .published c ∈ s.history → Processed s.db c.message ∨ s.broker.Held (SameIds c)

theorem Kept.step (hk : Kept s) (hi : Inv db₀ s) (hs : Step maxRetries s l s') : Kept s' where
  attached := hk.attached.step hs
  accounted := accounted_step hk.accounted hk.attached hi hs
  held := by
    intro c hc
    rcases hs.effect.new_published hc with hc | hb
    · rcases hk.held c hc with hrow | hheld
      · exact .inl (hs.effect.processed hrow)
      · exact (held_step hheld hk.attached hi hs).imp_left hs.effect.processed
    · rw [hb]
      exact .inr (Broker.held_put s.broker .process rfl)

omit [DecidableEq π] in
theorem kept_initial (db : Db) : Kept (State.initial db : State π) where
  attached := {
    ok := Broker.ok_initial
    running := fun t h hh => by cases hh
    delivery := fun t h hh => by cases hh
    unwritten := fun t h hh => by cases hh }
  accounted := Broker.accounted_initial
  held := fun c hc => by cases hc

theorem reachable_kept {ok : State π → Label π → Prop}
    (hr : (system maxRetries db₀).Reach ok s) : Kept s :=
  hr.invariant (fun _ h0 => by rw [h0]; exact kept_initial db₀)
    fun _ _ _ hr hk _ hs => hk.step (reachable_inv hr) hs

/-! ## No message multiplied -/

/-- No process dies, no channel closes, no broker call throws, and a copy is taken together with the
ack after it. -/
def Clean (s : State π) : Label π → Prop
  | .die _ => False
  | .close _ => False
  | .advance _ f => f = .none
  | .take p => ∀ t q c fs, s.broker.wire p ≠ .publish t q c :: fs
  | _ => True

structure OneCopy (s : State π) : Prop where
  single : s.broker.Single (·.pub)
  past : Carried (·.pub < s.nextPub) s

theorem OneCopy.step (ho : OneCopy s) (ha : Attached s) (hclean : Clean s l)
    (hs : Step maxRetries s l s') : OneCopy s' := by
  obtain ⟨hle, hlt⟩ := hs.nextPub
  refine ⟨?_, (ho.past.mono fun c hc => Nat.lt_of_lt_of_le hc hle).step hs hlt fun c hc => hc⟩
  cases hs with
  | start p hstart =>
    obtain ⟨-, -, rfl⟩ := start_cases hstart
    exact ho.single.openChannel p
  | die p hp => exact absurd hclean id
  | close p hp => exact absurd hclean id
  | deliver p i hd =>
    obtain ⟨-, b, c, hb, rfl⟩ := deliver_cases hd
    exact ho.single.deliver ha.ok hb
  | take p ht =>
    obtain ⟨b, hb, rfl⟩ := Option.map_eq_some_iff.mp ht
    exact ho.single.take ha.ok hb hclean
  | takePair p ht =>
    obtain ⟨⟨t, q, c, t', fs, hw⟩, b, b', hb, hb', rfl⟩ := takePair_cases ht
    exact ho.single.takePair ha.ok hw hb hb'
  | advance tag u f hadv =>
    obtain ⟨h, resolved, fs, hout⟩ := (advance_cases hadv).output
    rw [hout.broker]
    refine ho.single.write ?_
    by_cases hne : fs = []
    · rw [hne]
      trivial
    · -- the handler trades its delivery for at most one copy
      refine hout.exchanges hclean _ fun d hd htag => ?_
      rw [ha.delivery_unique hout.handler hout.unfinished (hout.isOpen hne) hd htag]
  | fault tag h hh hph => exact ho.single
  | publish m =>
    exact ho.single.put .process (ho.past.broker.mono fun c hc => Nat.ne_of_lt hc)
  | shop db hshop => exact ho.single

theorem reachable_oneCopy (hr : (system maxRetries db₀).Reach Clean s) : OneCopy s :=
  hr.invariant
    (fun _ h0 => by
      rw [h0]
      exact ⟨Broker.single_initial, Broker.all_initial, fun t h hh => by cases hh⟩)
    fun _ _ _ hr ho hclean hs => ho.step (reachable_kept hr).attached hclean hs

/-! ## The law of a run -/

/-- What is true of the messages and their settlements in every state. -/
structure NoLoss (s : State π) : Prop where
  -- a copy is in a queue or unsettled, or the row of the message is committed
  kept : ∀ c, .published c ∈ s.history → Processed s.db c.message ∨
    (∃ q, ∃ c' ∈ s.broker.queues q, c'.ids = c.ids) ∨
    ∃ d ∈ s.broker.unsettled, d.message.ids = c.ids
  once : (settled s.broker.log).Nodup
  -- before the ack its transaction has ended, or a copy has been put
  acked : ∀ es es' tag c, s.broker.log = es ++ .acked tag c :: es' →
    Ended s tag c ∨ ∃ q c', c'.ids = c.ids ∧ .put tag q c' ∈ es

omit [DecidableEq π] in
theorem Kept.noLoss (hk : Kept s) : NoLoss s where
  kept := by
    intro c hc
    rcases hk.held c hc with hrow | hq | ⟨d, hd, hsame, -⟩
    · exact .inl hrow
    · exact .inr (.inl hq)
    · exact .inr (.inr ⟨d, hd, hsame⟩)
  once := hk.attached.ok.logOnce
  acked := hk.accounted.acked

/-- Messages are neither lost nor, in clean runs, multiplied.  The reasons for an ack hold in every
state, and so already in the one in which it takes effect. -/
theorem messages_kept (hr : (system maxRetries db₀).Reach System.anyStep s) : NoLoss s ∧
    ((system maxRetries db₀).Reach Clean s → ∀ c, .published c ∈ s.history →
      s.broker.copies (fun c' => c'.pub = c.pub) ≤ 1) :=
  ⟨(reachable_kept hr).noLoss, fun hclean c _ => (reachable_oneCopy hclean).single.once c.pub⟩

end Steps

/-! ## A retry -/

/-- The transaction fails, the timer fires, and the copy takes the place of the message. -/
theorem messages_kept_retried : ∃ s : State Unit,
    s.broker.queues .process =
      [{ message := { ProcessOrderMessage.new (.ofNat 100) (.ofNat 100) 0 with attempt := .ofInt 2 }
         pub := 0 }] ∧
      NoLoss s ∧ ∀ c, .published c ∈ s.history → s.broker.copies (fun c' => c'.pub = c.pub) ≤ 1 := by
  have hinit : (system (.ofInt 3) ⟨[], [], [], []⟩).Reach Clean
      (State.initial ⟨[], [], [], []⟩ : State Unit) := .init rfl
  obtain ⟨s, hr, hs⟩ := reach_of_run hinit ⟨2, 3⟩
    [.publish (.new (.ofNat 100) (.ofNat 100) 0), .start (), .deliver (), .fault 0,
      .advance 0 .none, .advance 0 .none, .takePair ()]
    (by simp [Clean])
    (p := fun s => decide (s.broker.queues .process = [{ message := { ProcessOrderMessage.new
      (.ofNat 100) (.ofNat 100) 0 with attempt := .ofInt 2 }, pub := 0 }])) (by decide +kernel)
  obtain ⟨hloss, hone⟩ := messages_kept hr.any
  exact ⟨s, of_decide_eq_true hs, hloss, hone hr⟩

end Ecommerce.Worker
