import Mathlib.Algebra.Order.BigOperators.Group.List
import Mathlib.Data.Prod.Lex
import Ecommerce.Worker.ChainInvariant

/-!
# ChainProgress — the chain comes to its end

While anything of the message is on `orders.process`, some step for it is possible; each such step
takes the chain on, or an ack of it nearer to the head of its channel, and no other step sets it back.
-/

namespace Ecommerce.Worker

open Amqp Orders Transition

section Sums

variable {α : Type} {l : List α} {f g : α → Nat} {q : α → Bool}

theorem sum_filter_eq (l : List α) (g : α → Nat) (q : α → Bool) :
    ((l.filter q).map g).sum = (l.map fun x => if q x = true then g x else 0).sum := by
  simp [List.sum_map_ite]

-- The elements that are left count no more than before.
theorem sum_filter_le (h : ∀ x ∈ l, q x = true → g x ≤ f x) :
    ((l.filter q).map g).sum ≤ (l.map f).sum := by
  rw [sum_filter_eq]
  apply List.sum_le_sum
  intro x hx
  split
  · next hq => exact h x hx hq
  · exact Nat.zero_le _

theorem sum_filter_lt (h : ∀ x ∈ l, q x = true → g x ≤ f x)
    (hlt : ∃ x ∈ l, (q x = true → g x < f x) ∧ (q x = false → 0 < f x)) :
    ((l.filter q).map g).sum < (l.map f).sum := by
  rw [sum_filter_eq]
  apply List.sum_lt_sum
  · intro x hx
    split
    · next hq => exact h x hx hq
    · exact Nat.zero_le _
  · -- the strict place: it shrinks, or it is dropped and was positive
    obtain ⟨x, hx, hkept, hgone⟩ := hlt
    refine ⟨x, hx, ?_⟩
    split
    · next hq => exact hkept hq
    · next hq => exact hgone (by simpa using hq)

end Sums

/-! ## Acks on their way -/

def isAck (tag : Nat) : Frame Queue Copy → Bool
  | .ack t => t = tag
  | _ => false

/-- How many frames must be taken for the ack of `tag`; zero when it is not there. -/
def ackDepth (tag : Nat) (fs : List (Frame Queue Copy)) : Nat :=
  if fs.any (isAck tag) then fs.findIdx (isAck tag) + 1 else 0

section Depth

variable {tag : Nat} {f : Frame Queue Copy} {fs gs : List (Frame Queue Copy)}

theorem any_isAck : fs.any (isAck tag) = true ↔ .ack tag ∈ fs := by
  rw [List.any_eq_true]
  constructor
  · rintro ⟨f, hf, hack⟩
    cases f with
    | ack t =>
      rw [← of_decide_eq_true hack]
      exact hf
    | publish t q c | reject t => cases hack
  · exact fun hmem => ⟨_, hmem, decide_eq_true rfl⟩

theorem ackDepth_of_not_mem (h : .ack tag ∉ fs) : ackDepth tag fs = 0 := by
  rw [ackDepth, if_neg fun hany => h (any_isAck.mp hany)]

theorem ackDepth_pos (h : .ack tag ∈ fs) : 0 < ackDepth tag fs := by
  rw [ackDepth, if_pos (any_isAck.mpr h)]
  exact Nat.succ_pos _

theorem ackDepth_append (h : .ack tag ∉ gs) : ackDepth tag (fs ++ gs) = ackDepth tag fs := by
  by_cases hmem : .ack tag ∈ fs
  · rw [ackDepth, ackDepth, if_pos (any_isAck.mpr (List.mem_append_left _ hmem)),
      if_pos (any_isAck.mpr hmem), List.findIdx_append, if_pos]
    exact List.findIdx_lt_length_of_exists (List.any_eq_true.mp (any_isAck.mpr hmem))
  · rw [ackDepth_of_not_mem hmem, ackDepth_of_not_mem]
    exact fun hin => (List.mem_append.mp hin).elim hmem h

/-- One frame less in front of the ack. -/
theorem ackDepth_cons (fs : List (Frame Queue Copy)) (hf : f ≠ .ack tag) :
    ackDepth tag fs ≤ ackDepth tag (f :: fs) ∧
      (.ack tag ∈ f :: fs → ackDepth tag fs < ackDepth tag (f :: fs)) := by
  have hhead : isAck tag f = false := by
    cases f with
    | ack t => exact decide_eq_false fun heq => hf (heq ▸ rfl)
    | publish t q c | reject t => rfl
  by_cases hmem : .ack tag ∈ fs
  · have hdepth : ackDepth tag (f :: fs) = ackDepth tag fs + 1 := by
      rw [ackDepth, ackDepth, if_pos (any_isAck.mpr (List.mem_cons_of_mem _ hmem)),
        if_pos (any_isAck.mpr hmem), List.findIdx_cons, hhead]
      rfl
    omega
  · rw [ackDepth_of_not_mem hmem]
    exact ⟨Nat.zero_le _, fun hin => ackDepth_pos hin⟩

end Depth

section Progress

variable {π : Type} [DecidableEq π]

/-- What the ack of a delivery of the message number `p` is worth. -/
def ackWeight (p : Nat) (wire : π → List (Frame Queue Copy)) (d : Delivery π Queue Copy) : Nat :=
  if d.message.pub = p then ackDepth d.tag (wire d.owner) else 0

/-- The frames to take until every written ack for the message is taken. -/
def backlog (p : Nat) (b : Broker π Queue Copy) : Nat := (b.unsettled.map (ackWeight p b.wire)).sum

/-- An ack for the message is on the channel of `o`. -/
def Awaits (p : Nat) (b : Broker π Queue Copy) (o : π) : Prop :=
  ∃ d ∈ b.unsettled, d.message.pub = p ∧ d.owner = o ∧ .ack d.tag ∈ b.wire o

/-- The step is one for the message: its delivery, its handler, or a frame up to its ack. -/
def Works (p : Nat) (s : State π) : Label π → State π → Prop
  | .deliver _, s' => ∃ h, s'.handlers s.broker.nextTag = some h ∧ h.copy.pub = p
  | .advance tag _, _ => ∃ h, s.handlers tag = some h ∧ h.copy.pub = p
  | .take o, _ => Awaits p s.broker o
  | .takePair o, _ => Awaits p s.broker o
  | _, _ => False

/-- Nothing of the message is on `orders.process`, nor with a consumer of it. -/
structure Gone (p : Nat) (s : State π) : Prop where
  queue : ∀ c ∈ s.broker.queues .process, c.pub ≠ p
  unsettled : ∀ d ∈ s.broker.unsettled, d.message.pub ≠ p

variable {maxRetries : Number} {p : Nat} {m : ProcessOrderMessage} {s s' : State π}
  {c c' : Nat × Place π} {last : Nat}
  {o : π} {b : Broker π Queue Copy} {db₀ : Db}

/-! ## The acks that are left -/

theorem ackWeight_update {f : Frame Queue Copy} {fs : List (Frame Queue Copy)}
    {wire : π → List (Frame Queue Copy)} (hw : wire o = f :: fs) {d : Delivery π Queue Copy}
    (hf : d.owner = o → f ≠ .ack d.tag) :
    ackWeight p (Function.update wire o fs) d ≤ ackWeight p wire d ∧
      (d.message.pub = p → d.owner = o → .ack d.tag ∈ wire o →
        ackWeight p (Function.update wire o fs) d < ackWeight p wire d) := by
  unfold ackWeight
  by_cases hpub : d.message.pub = p
  · rw [if_pos hpub, if_pos hpub]
    by_cases ho : d.owner = o
    · obtain ⟨hle, hlt⟩ := ackDepth_cons fs (hf ho)
      rw [ho, Function.update_self, hw]
      exact ⟨hle, fun _ _ => hlt⟩
    · rw [Function.update_of_ne ho]
      exact ⟨Nat.le_refl _, fun _ h => absurd h ho⟩
  · rw [if_neg hpub, if_neg hpub]
    exact ⟨Nat.le_refl _, fun h => absurd h hpub⟩

theorem backlog_rest {f : Frame Queue Copy} {fs : List (Frame Queue Copy)}
    (hw : b.wire o = f :: fs) {q : Delivery π Queue Copy → Bool}
    (hf : ∀ d, q d = true → d.owner = o → f ≠ .ack d.tag) :
    ((b.unsettled.filter q).map (ackWeight p (Function.update b.wire o fs))).sum ≤ backlog p b ∧
      (Awaits p b o →
        ((b.unsettled.filter q).map (ackWeight p (Function.update b.wire o fs))).sum <
          backlog p b) := by
  constructor
  · exact sum_filter_le fun d _ hq => (ackWeight_update hw (hf d hq)).1
  · rintro ⟨d, hd, hpub, ho, hack⟩
    apply sum_filter_lt fun d _ hq => (ackWeight_update hw (hf d hq)).1
    refine ⟨d, hd, fun hq => (ackWeight_update hw (hf d hq)).2 hpub ho hack, fun _ => ?_⟩
    rw [ackWeight, if_pos hpub, ho]
    exact ackDepth_pos hack

/-- Taking a frame brings the acks behind it nearer. -/
theorem Attended.backlog_take (ha : Attended s) (hok : s.broker.Ok)
    (ht : s.broker.take o = some b) : backlog p b ≤ backlog p s.broker ∧
      (Awaits p s.broker o → backlog p b < backlog p s.broker) := by
  cases hok.take_cases ht with
  | publish tag q m fs hw =>
    have hrest := backlog_rest (p := p) hw (q := fun _ => true) fun d _ _ => by simp
    rwa [List.filter_true] at hrest
  | ack d fs hd hp hw =>
    apply backlog_rest hw
    intro d' hne ho heq
    exact of_decide_eq_true hne (Frame.ack.inj heq).symm
  | reject d fs hd hp hw =>
    exact absurd (by rw [hw]; exact List.mem_cons_self) (ha.noReject o d.tag)

omit [DecidableEq π] in
theorem backlog_deliver (hok : s.broker.Ok) {i : Nat} {d : Copy}
    (hd : s.broker.deliver o .process i = some (b, d)) : backlog p b = backlog p s.broker := by
  obtain ⟨-, -, rfl⟩ := Broker.deliver_cases hd
  have hnew : .ack s.broker.nextTag ∉ s.broker.wire o := by
    intro hmem
    obtain ⟨d', hd', htag, -⟩ := hok.known o s.broker.nextTag (List.mem_filterMap.mpr ⟨_, hmem, rfl⟩)
    exact absurd htag (Nat.ne_of_lt (hok.fresh d' hd'))
  show (List.map _ (_ ++ [_])).sum = _
  rw [List.map_append, List.sum_append, List.map_singleton, List.sum_singleton, ackWeight,
    ackDepth_of_not_mem hnew, ite_self, Nat.add_zero]
  rfl

/-- The ack of another message changes nothing. -/
theorem Attended.backlog_turned (ha : Attended s) {maxRetries : Number} {tag : Nat} {h : Handler π}
    {ph : Phase} {fs : List (Frame Queue Copy)} (hother : h.copy.pub ≠ p)
    (hturn : Turned maxRetries s s' tag h ph fs) : backlog p s'.broker = backlog p s.broker := by
  rw [hturn.broker]
  apply congrArg List.sum
  apply List.map_congr_left
  intro d hd
  unfold ackWeight
  by_cases hpub : d.message.pub = p
  · rw [if_pos hpub, if_pos hpub, write_wire]
    split
    · apply ackDepth_append
      intro hmem
      have htag : d.tag = tag := hturn.turns.frames.2.2.2 d.tag hmem
      obtain ⟨h', hh', -, hcopy, -⟩ := ha.handler d hd
      obtain rfl := Option.some.inj (hturn.handler.symm.trans (htag ▸ hh'))
      exact hother (hcopy ▸ hpub)
    · rfl
  · rw [if_neg hpub, if_neg hpub]

/-! ## Every step for the message counts -/

/-- The way that is left, if the chain ends by `last`: of the chain first, and then of the acks. -/
def progressRank (last p : Nat) (s : State π) (c : Nat × Place π) : ℕ ×ₗ ℕ :=
  toLex (chainRank last c, backlog p s.broker)

omit [DecidableEq π] in
theorem progressRank_lt_of_move (hlast : EndsBy maxRetries m last) (hs : Sound maxRetries m c)
    (h : Move maxRetries m c c') : progressRank last p s' c' < progressRank last p s c :=
  Prod.Lex.toLex_lt_toLex.mpr (.inl (h.rank_lt hs hlast))

omit [DecidableEq π] in
theorem progressRank_lt (hlast : EndsBy maxRetries m last) (hs : Sound maxRetries m c)
    (h : c' = c ∨ Move maxRetries m c c') (hlt : backlog p s'.broker < backlog p s.broker) :
    progressRank last p s' c' < progressRank last p s c := by
  rcases h with rfl | hmove
  · exact Prod.Lex.toLex_lt_toLex.mpr (.inr ⟨rfl, hlt⟩)
  · exact progressRank_lt_of_move hlast hs hmove

omit [DecidableEq π] in
theorem progressRank_le (hlast : EndsBy maxRetries m last) (hs : Sound maxRetries m c)
    (h : c' = c ∨ Move maxRetries m c c') (hle : backlog p s'.broker ≤ backlog p s.broker) :
    progressRank last p s' c' ≤ progressRank last p s c := by
  rcases h with rfl | hmove
  · exact Prod.Lex.toLex_le_toLex.mpr (.inr ⟨rfl, hle⟩)
  · exact (progressRank_lt_of_move hlast hs hmove).le

/-- What holds of the message between its publication and its end. -/
structure Tracked (maxRetries : Number) (p : Nat) (m : ProcessOrderMessage) (s : State π)
    (c : Nat × Place π) : Prop where
  sound : Sound maxRetries m c
  place : At maxRetries p m s c
  published : p < s.nextPub

theorem Tracked.moved (ht : Tracked maxRetries p m s c) (h : c' = c ∨ Move maxRetries m c c')
    (hat : At maxRetries p m s' c') (hpub : s.nextPub ≤ s'.nextPub) :
    Tracked maxRetries p m s' c' := by
  refine ⟨?_, hat, Nat.lt_of_lt_of_le ht.published hpub⟩
  rcases h with rfl | hmove
  · exact ht.sound
  · exact ht.sound.move hmove

/-- What a step does to the message, and to the way that is left. -/
structure Advances (maxRetries : Number) (p : Nat) (m : ProcessOrderMessage) (s : State π)
    (c : Nat × Place π) (l : Label π) (s' : State π) (c' : Nat × Place π) : Prop where
  tracked : Tracked maxRetries p m s' c'
  path : Relation.ReflTransGen (Move maxRetries m) c c'
  rank_le : ∀ last, EndsBy maxRetries m last → progressRank last p s' c' ≤ progressRank last p s c
  rank_lt : ∀ last, EndsBy maxRetries m last → Works p s l s' →
    progressRank last p s' c' < progressRank last p s c

section Step

variable {l : Label π}

omit [DecidableEq π] in
theorem path_of_moved (h : c' = c ∨ Move maxRetries m c c') :
    Relation.ReflTransGen (Move maxRetries m) c c' := by
  rcases h with rfl | hmove
  · exact .refl
  · exact .single hmove

theorem Tracked.idle (ht : Tracked maxRetries p m s c) (hat : At maxRetries p m s' c)
    (hpub : s.nextPub ≤ s'.nextPub) (hacks : backlog p s'.broker = backlog p s.broker)
    (hworks : ¬ Works p s l s') :
    Advances maxRetries p m s c l s' c where
  tracked := ht.moved (.inl rfl) hat hpub
  path := .refl
  rank_le := fun _ hlast => progressRank_le hlast ht.sound (.inl rfl) (Nat.le_of_eq hacks)
  rank_lt := fun _ _ h => absurd h hworks

theorem Tracked.deliver (ht : Tracked maxRetries p m s c) (hok : s.broker.Ok) (hi : Inv db₀ s)
    {i : Nat} (hd : s.deliver o i = some s') :
    ∃ c', Advances maxRetries p m s c (.deliver o) s' c' := by
  obtain ⟨c', hmove, hat'⟩ := ht.place.deliver hi hd
  obtain ⟨-, b, d, hb, rfl⟩ := deliver_cases hd
  have hacks := Nat.le_of_eq (backlog_deliver (p := p) hok hb)
  refine ⟨c', ht.moved hmove hat' (Nat.le_refl _), path_of_moved hmove,
    fun _ hlast => progressRank_le hlast ht.sound hmove hacks, ?_⟩
  rintro last hlast ⟨h, hh, hpub⟩
  simp only [Function.update_self, Option.some.injEq] at hh
  rcases hmove with rfl | hmove
  · -- the new handler is where the message is, and nobody had its tag
    have hplace := hat'.active s.broker.nextTag h (by simp [hh]) hpub (by simp [← hh])
    have hold := ht.place.handler _ _ _ (by rw [hplace]; rfl)
    exact absurd (hi.tags _ _ hold) (Nat.lt_irrefl _)
  · exact progressRank_lt_of_move hlast ht.sound hmove

theorem Tracked.take (ht : Tracked maxRetries p m s c) (ha : Attended s) (hok : s.broker.Ok)
    (hb : s.broker.take o = some b) :
    ∃ c', Advances maxRetries p m s c (.take o) { s with broker := b } c' := by
  obtain ⟨c', hmove, hat'⟩ := ht.place.take ha hok hb
  obtain ⟨hle, hlt⟩ := ha.backlog_take (p := p) hok hb
  exact ⟨c', ht.moved hmove hat' (Nat.le_refl _), path_of_moved hmove,
    fun _ hlast => progressRank_le hlast ht.sound hmove hle,
    fun _ hlast hworks => progressRank_lt hlast ht.sound hmove (hlt hworks)⟩

theorem Tracked.step (ht : Tracked maxRetries p m s c) {sim : SimulatedFailure}
    (hsim : m.simulateFailure = some sim)
    (hr : (system maxRetries db₀).Reach (Undisturbed m.messageId p) s)
    (hl : Undisturbed m.messageId p s l) (hs : Step maxRetries s l s') :
    ∃ c', Advances maxRetries p m s c l s' c' := by
  have ha := reachable_attended hr
  have hk := (reachable_kept hr).attached
  have hat := ht.place
  have hpub := hs.nextPub.1
  cases hs with
  | start o hstart =>
    obtain ⟨-, -, rfl⟩ := start_cases hstart
    exact ⟨c, ht.idle (hat.same ⟨rfl, fun _ => rfl, fun _ _ _ => Iff.rfl, fun _ => rfl, rfl, Iff.rfl⟩)
      hpub rfl id⟩
  | die o hrun => exact absurd hl id
  | close o hopen => exact absurd hl id
  | deliver o i hd => exact ht.deliver hk.ok (reachable_inv hr) hd
  | take o h =>
    obtain ⟨b, hb, rfl⟩ := Option.map_eq_some_iff.mp h
    exact ht.take ha hk.ok hb
  | takePair o h =>
    obtain ⟨-, b, b', hb, hb', rfl⟩ := takePair_cases h
    -- two frames at once are two frames one after the other
    obtain ⟨c₁, hfirst⟩ := ht.take ha hk.ok hb
    obtain ⟨c₂, hsecond⟩ := hfirst.tracked.take (ha.take hk.ok hb) (hk.ok.take hb) hb'
    exact ⟨c₂, hsecond.tracked, hfirst.path.trans hsecond.path,
      fun last hlast => (hsecond.rank_le last hlast).trans (hfirst.rank_le last hlast),
      fun last hlast hworks =>
        (hsecond.rank_le last hlast).trans_lt (hfirst.rank_lt last hlast hworks)⟩
  | advance tag u f hadv =>
    obtain rfl : f = .none := hl
    obtain ⟨h, ph, fs, hturn⟩ := ha.turns hk hadv
    by_cases hown : h.copy.pub = p
    · obtain ⟨c', hmove, hat'⟩ := hat.turned_own hsim ht.sound hown hturn
      have hlt (last : Nat) (hlast : EndsBy maxRetries m last) :
          progressRank last p s' c' < progressRank last p s c :=
        progressRank_lt_of_move hlast ht.sound hmove
      exact ⟨c', ht.moved (.inr hmove) hat' hpub, .single hmove,
        fun last hlast => (hlt last hlast).le, fun last hlast _ => hlt last hlast⟩
    · -- another message: its id differs, so its commit is not ours
      have halone := (reachable_alone hr).carried.handlers tag h hturn.handler
      refine ⟨c, ht.idle (hat.turned_other hown halone hturn) hpub
        (ha.backlog_turned hown hturn) ?_⟩
      rintro ⟨h', hh', hpub'⟩
      obtain rfl := Option.some.inj (hturn.handler.symm.trans hh')
      exact hown hpub'
  | fault tag h hh hph => exact absurd hl id
  | publish m' =>
    refine ⟨c, ht.idle (hat.same ⟨?_, fun _ => rfl, fun _ _ _ => Iff.rfl, fun _ => rfl, ?_, Iff.rfl⟩)
      hpub rfl id⟩
    · show (s.broker.queues .process ++ [(⟨m', s.nextPub⟩ : Copy)]).filter _ = _
      rw [List.filter_append]
      -- the new copy has a number of its own
      simp [Nat.ne_of_gt ht.published]
    · show commits p (s.history ++ [.published _]) = _
      rw [commits_append]
      exact List.append_nil _
  | shop db hshop =>
    refine ⟨c, ht.idle (hat.same ⟨rfl, fun _ => rfl, fun _ _ _ => Iff.rfl, fun _ => rfl, rfl, ?_⟩)
      hpub rfl id⟩
    show dedupRow m ∈ db.processedMessages ↔ _
    rw [hshop.processedMessages]
    rfl

end Step

/-! ## Some step for the message is possible -/

omit [DecidableEq π] in
theorem deliver_possible (hrun : s.running o = true) (hopen : s.broker.isOpen o = true) {i : Nat}
    {d : Copy} (hi : (s.broker.queues .process)[i]? = some d) : ∃ s', s.deliver o i = some s' ∧
      s'.handlers s.broker.nextTag = some { owner := o, copy := d, phase := .started } := by
  cases hd : s.deliver o i with
  | none => simp [State.deliver, hrun, Broker.deliver, hi, hopen] at hd
  | some s' =>
    obtain ⟨-, b, c, hb, rfl⟩ := deliver_cases hd
    obtain rfl := Option.some.inj (hi.symm.trans (Broker.deliver_cases hb).1)
    exact ⟨_, rfl, Function.update_self ..⟩

theorem take_possible (hw : s.broker.wire o ≠ []) : ∃ s', s.take o = some s' := by
  cases hwire : s.broker.wire o with
  | nil => exact absurd hwire hw
  | cons f fs =>
    cases f with
    | publish t q c => simp [State.take, Broker.take, hwire]
    | ack t =>
      cases hd : s.broker.delivery? o t <;> simp [State.take, Broker.take, hwire, hd]
    | reject t =>
      cases hd : s.broker.delivery? o t <;> simp [State.take, Broker.take, hwire, hd]

theorem advance_possible (maxRetries : Number) {tag : Nat} {h : Handler π} (u : OrderUpdate)
    (f : Faults) (hh : s.handlers tag = some h) (hph : h.phase ≠ .finished)
    (hfree : h.phase = .started → s.dedupLocks h.copy.message.messageId = none) :
    ∃ s', s.advance maxRetries tag u f = some s' := by
  cases hphase : h.phase with
  | started =>
    simp only [State.advance, hh, hphase, State.insertDedup, if_pos (hfree hphase)]
    split <;> exact ⟨_, rfl⟩
  | finished => exact absurd hphase hph
  | _ =>
    simp only [State.advance, hh, hphase]
    exact ⟨_, rfl⟩

/-- The message is the only one under its id, so its insert waits for nobody. -/
theorem At.free (hat : At maxRetries p m s c) (hlocks : s.dedupLocks.Agrees (HoldsRow s))
    (halone : ∀ t h, s.handlers t = some h → h.copy.message.messageId = m.messageId →
      h.copy.pub = p) {tag : Nat} {o : π} (hplace : c.2 = .handled tag o .started) :
    s.dedupLocks m.messageId = none := by
  by_contra hne
  obtain ⟨t, ht⟩ := Option.ne_none_iff_exists'.mp hne
  obtain ⟨h, hh, hholds, hid⟩ := (hlocks _ t).mp ht
  have hph : h.phase ≠ .finished := by
    intro hph
    rw [hph] at hholds
    cases hholds
  have hother := hat.active t h hh (halone t h hh hid) hph
  rw [hplace] at hother
  rw [← (Place.handled.inj hother).2.2] at hholds
  cases hholds

theorem At.possible (hat : At maxRetries p m s c)
    (hr : (system maxRetries db₀).Reach (Undisturbed m.messageId p) s)
    (hrun : s.running o = true) (hleft : ¬ Gone p s) :
    System.Possible (system maxRetries db₀) (Undisturbed m.messageId p) (Works p) s := by
  have ha := reachable_attended hr
  by_cases hqueue : ∀ c ∈ s.broker.queues .process, c.pub ≠ p
  · by_cases hunsettled : ∀ d ∈ s.broker.unsettled, d.message.pub ≠ p
    · exact absurd ⟨hqueue, hunsettled⟩ hleft
    · simp only [not_forall, not_not] at hunsettled
      obtain ⟨d, hd, hpub⟩ := hunsettled
      obtain ⟨h, hh, howner, hcopy, hack⟩ := ha.handler d hd
      by_cases hph : h.phase = .finished
      · -- the ack is on its way
        obtain ⟨s', hs'⟩ := take_possible (List.ne_nil_of_mem (hack hph))
        exact ⟨.take d.owner, s', trivial, .take d.owner hs', d, hd, hpub, rfl, hack hph⟩
      · have hplace := hat.active d.tag h hh (hcopy ▸ hpub) hph
        have hhandler := hat.handler _ _ _ (by rw [hplace]; rfl)
        have hid : h.copy.message.messageId = m.messageId := by
          rw [Option.some.inj (hh.symm.trans hhandler)]
          rfl
        obtain ⟨s', hs'⟩ := advance_possible maxRetries ⟨0, 0⟩ .none hh hph
          fun hstarted => by
            rw [hid]
            rw [hstarted] at hplace
            exact hat.free (reachable_inv hr).locks (reachable_alone hr).carried.handlers hplace
        exact ⟨.advance d.tag .none, s', rfl, .advance d.tag ⟨0, 0⟩ .none hs', h, hh, hcopy ▸ hpub⟩
  · simp only [not_forall, not_not] at hqueue
    obtain ⟨c, hc, hpub⟩ := hqueue
    obtain ⟨i, hi⟩ := List.mem_iff_getElem?.mp hc
    obtain ⟨s', hs', hh⟩ := deliver_possible hrun (ha.isOpen o hrun) hi
    exact ⟨.deliver o, s', trivial, .deliver o i hs', _, hh, hpub⟩

/-! ## The end -/

/-- Where the message is when nothing of it is left to handle. -/
theorem Tracked.done (ht : Tracked maxRetries p m s c)
    (hr : (system maxRetries db₀).Reach (Undisturbed m.messageId p) s) (hgone : Gone p s) :
    ∃ succeeded, c.2 = .done succeeded := by
  obtain ⟨i, pl⟩ := c
  have ha := reachable_attended hr
  have hk := (reachable_kept hr).attached
  have hat := ht.place
  cases pl with
  | queued =>
    have hmem : copyAfter p m i ∈ (s.broker.queues .process).filter (·.pub = p) := by
      rw [hat.queue]
      exact List.mem_singleton_self _
    exact absurd rfl (hgone.queue _ (List.mem_filter.mp hmem).1)
  | handled t o ph =>
    have hh := hat.handler t o ph rfl
    have hph : ph ≠ .finished := by
      rintro rfl
      exact ht.sound.fits
    obtain ⟨d, hd, -, -, hmsg⟩ := hk.delivery t _ hh hph (ha.isOpen o (hk.running t _ hh))
    exact absurd (congrArg Copy.pub hmsg) (hgone.unsettled d hd)
  | sending t o =>
    have hframe : Frame.publish t (next maxRetries p m i).1 (next maxRetries p m i).2 ∈
        s.broker.wire o := by
      have hmem : Frame.publish t (next maxRetries p m i).1 (next maxRetries p m i).2 ∈
          (s.broker.wire o).filter (sends p) := by
        rw [hat.frames o, Place.frames, if_pos rfl]
        exact List.mem_singleton_self _
      exact (List.mem_filter.mp hmem).1
    -- its ack is still behind it
    obtain ⟨d, hd, rfl, -⟩ := hk.ok.known o t
      (List.mem_filterMap.mpr ⟨_, (ha.paired o).ack_mem hframe, rfl⟩)
    obtain ⟨h, hh, -, hcopy, -⟩ := ha.handler d hd
    obtain rfl := Option.some.inj (hh.symm.trans (hat.handler _ _ _ rfl))
    exact absurd (congrArg Copy.pub hcopy).symm (hgone.unsettled d hd)
  | done succeeded => exact ⟨succeeded, rfl⟩

/-- A delivery takes its message from the queue. -/
theorem Step.unsettled {l : Label π} (hs : Step maxRetries s l s')
    {d : Delivery π Queue Copy} (hd : d ∈ s'.broker.unsettled) :
    d ∈ s.broker.unsettled ∨ d.message ∈ s.broker.queues .process := by
  cases hs with
  | start o hstart =>
    obtain ⟨-, -, rfl⟩ := start_cases hstart
    exact .inl hd
  | die o hrun => exact .inl hd
  | close o hopen => exact .inl (List.mem_of_mem_filter hd)
  | deliver o i h =>
    obtain ⟨-, b, c, hb, rfl⟩ := deliver_cases h
    obtain ⟨hc, -, rfl⟩ := Broker.deliver_cases hb
    rcases List.mem_append.mp hd with hd | hd
    · exact .inl hd
    · rw [List.mem_singleton.mp hd]
      exact .inr (List.mem_of_getElem? hc)
  | take o h =>
    obtain ⟨b, hb, rfl⟩ := Option.map_eq_some_iff.mp h
    exact .inl (Broker.mem_unsettled_of_take hb hd)
  | takePair o h =>
    obtain ⟨-, b, b', hb, hb', rfl⟩ := takePair_cases h
    exact .inl (Broker.mem_unsettled_of_take hb (Broker.mem_unsettled_of_take hb' hd))
  | advance tag u f hadv =>
    obtain ⟨h, resolved, fs, hout⟩ := (advance_cases hadv).output
    rw [hout.broker] at hd
    exact .inl hd
  | fault tag h hh hph => exact .inl hd
  | publish m => exact .inl hd
  | shop db hshop => exact .inl hd

omit [DecidableEq π] in
theorem Move.not_done {i : Nat} {succeeded : Bool} : ¬ Move maxRetries m (i, .done succeeded) c' := by
  intro h
  cases h

/-- After the end nothing of the message comes back. -/
theorem Tracked.stays {i : Nat} {succeeded : Bool}
    (ht : Tracked maxRetries p m s (i, .done succeeded)) (hgone : Gone p s)
    {sim : SimulatedFailure} (hsim : m.simulateFailure = some sim)
    (hr : (system maxRetries db₀).Reach (Undisturbed m.messageId p) s) {l : Label π}
    (hl : Undisturbed m.messageId p s l) (hs : Step maxRetries s l s') :
    Tracked maxRetries p m s' (i, .done succeeded) ∧ Gone p s' := by
  obtain ⟨c', hadv⟩ := ht.step hsim hr hl hs
  obtain rfl : (i, .done succeeded) = c' := by
    rcases hadv.path.cases_head with heq | ⟨c'', hmove, -⟩
    · exact heq
    · exact absurd hmove Move.not_done
  refine ⟨hadv.tracked, fun c hc hpub => ?_, fun d hd hpub => ?_⟩
  · have hmem : c ∈ (s'.broker.queues .process).filter (·.pub = p) :=
      List.mem_filter.mpr ⟨hc, decide_eq_true hpub⟩
    rw [hadv.tracked.place.queue] at hmem
    cases hmem
  · rcases hs.unsettled hd with hd | hd
    · exact hgone.unsettled d hd hpub
    · exact hgone.queue d.message hd hpub

/-- After the end no step is one for the message. -/
theorem Tracked.not_possible {i : Nat} {succeeded : Bool}
    (ht : Tracked maxRetries p m s (i, .done succeeded)) (hgone : Gone p s)
    {ok : State π → Label π → Prop} :
    ¬ System.Possible (system maxRetries db₀) ok (Works p) s := by
  have hacks (o : π) : ¬ Awaits p s.broker o := fun ⟨d, hd, hpub, _⟩ => hgone.unsettled d hd hpub
  rintro ⟨l, s', -, hs, hworks⟩
  cases hs with
  | deliver o i h =>
    obtain ⟨h', hh', hpub⟩ := hworks
    obtain ⟨-, b, c, hb, rfl⟩ := deliver_cases h
    simp only [Function.update_self, Option.some.injEq] at hh'
    rw [← hh'] at hpub
    exact hgone.queue c (List.mem_of_getElem? (Broker.deliver_cases hb).1) hpub
  | take o h => exact hacks o hworks
  | takePair o h => exact hacks o hworks
  | advance tag u f hadv =>
    obtain ⟨h, hh, hpub⟩ := hworks
    have hph : h.phase ≠ .finished := by
      intro hph
      simp [State.advance, hh, hph] at hadv
    -- no handler of the message is at work any more
    cases ht.place.active tag h hh hpub hph
  | _ => exact hworks

/-! ## Fair runs -/

section Runs

variable {sim : SimulatedFailure} {n : Nat}
  (r : System.Run (system maxRetries db₀ : System (State π) (Label π)) (Undisturbed m.messageId p))

/-- Nobody stops. -/
theorem running_stays {messageId : UUID} {l : Label π}
    (hr : (system maxRetries db₀).Reach (Undisturbed messageId p) s)
    (hl : Undisturbed messageId p s l) (hs : Step maxRetries s l s') (hrun : s.running o = true) :
    s'.running o = true := by
  cases hs with
  | start o' hstart =>
    obtain ⟨-, -, rfl⟩ := start_cases hstart
    show Function.update s.running o' true o = true
    by_cases ho : o = o'
    · rw [ho, Function.update_self]
    · rwa [Function.update_of_ne ho]
  | die o hrun => exact hl.elim
  | deliver o i h =>
    obtain ⟨-, b, c, hb, rfl⟩ := deliver_cases h
    exact hrun
  | take o h =>
    obtain ⟨b, hb, rfl⟩ := Option.map_eq_some_iff.mp h
    exact hrun
  | takePair o h =>
    obtain ⟨-, b, b', hb, hb', rfl⟩ := takePair_cases h
    exact hrun
  | advance tag u f hadv =>
    obtain rfl : f = .none := hl
    obtain ⟨h, ph, fs, hturn⟩ := (reachable_attended hr).turns (reachable_kept hr).attached hadv
    -- without a fault a handler does not stop its process
    rw [hturn.running]
    exact hrun
  | _ => exact hrun

/-- From its publication on the message is somewhere on its chain. -/
theorem run_tracked (hsim : m.simulateFailure = some sim) (hpublish : r.label n = .publish m)
    (hp : (r.state n).nextPub = p) (hrow : ¬ Processed (r.state n).db m) {k : Nat} (hk : n < k) :
    ∃ c, Tracked maxRetries p m (r.state k) c := by
  apply r.persists (P := fun s => ∃ c, Tracked maxRetries p m s c) _ _ (Nat.succ_le_of_lt hk)
  · obtain ⟨hat, hpub⟩ := at_published (r.reach n) hrow hp hpublish (r.step n)
    exact ⟨_, sound_start, hat, hpub⟩
  · rintro j - ⟨c, ht⟩
    obtain ⟨c', hadv⟩ := ht.step hsim (r.reach j) (r.allowed j) (r.step j)
    exact ⟨c', hadv.tracked⟩

/-- The end of a chain that has one is reached, and it stays. -/
theorem run_ends (hsim : m.simulateFailure = some sim) (hpublish : r.label n = .publish m)
    (hp : (r.state n).nextPub = p) (hrow : ¬ Processed (r.state n).db m)
    (hstarted : ∃ k o, (r.state k).running o = true) (hfair : r.Fair (Works p))
    (hlast : EndsBy maxRetries m last) : ∃ i succeeded N, ∀ k ≥ N,
      Tracked maxRetries p m (r.state k) (i, .done succeeded) ∧ Gone p (r.state k) := by
  obtain ⟨k₀, o, hrun⟩ := hstarted
  -- once up, a process stays up
  have hruns {k : Nat} (hk : k₀ ≤ k) : (r.state k).running o = true :=
    r.persists (P := fun s => s.running o = true) hrun
      (fun j _ hrun => running_stays (r.reach j) (r.allowed j) (r.step j) hrun) hk
  have htracked {k : Nat} (hk : n < k) := run_tracked r hsim hpublish hp hrow hk
  obtain ⟨c, ht⟩ := htracked (Nat.lt_of_lt_of_le (Nat.lt_succ_self n) (Nat.le_max_right k₀ (n + 1)))
  -- while copies are left a step for them is possible and lowers the rank
  obtain ⟨N, hN, hgone⟩ := r.eventually (Gone p)
    (fun s x => ∃ c, Tracked maxRetries p m s c ∧ x = progressRank last p s c) hfair ⟨c, ht, rfl⟩
    (fun k _ hk ⟨c, ht, _⟩ hleft =>
      ht.place.possible (r.reach k) (hruns (Nat.le_trans (Nat.le_max_left ..) hk)) hleft)
    (fun k _ _ ⟨c, ht, hx⟩ _ => by
      obtain ⟨c', hadv⟩ := ht.step hsim (r.reach k) (r.allowed k) (r.step k)
      exact ⟨_, ⟨c', hadv.tracked, rfl⟩, hx ▸ hadv.rank_le last hlast, hx ▸ hadv.rank_lt last hlast⟩)
  have hafter : n < N := by omega
  obtain ⟨⟨i, pl⟩, ht⟩ := htracked hafter
  -- with no copy left the chain is at its end
  obtain ⟨succeeded, rfl⟩ := ht.done (r.reach N) hgone
  refine ⟨i, succeeded, N, fun k hk => ?_⟩
  exact r.persists (P := fun s => Tracked maxRetries p m s (i, .done succeeded) ∧ Gone p s)
    ⟨ht, hgone⟩ (fun j _ h => h.1.stays h.2 hsim (r.reach j) (r.allowed j) (r.step j)) hk

end Runs

end Progress

end Ecommerce.Worker
