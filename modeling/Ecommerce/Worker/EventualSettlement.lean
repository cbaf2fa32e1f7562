import Ecommerce.Worker.CalmSteps

/-!
# EventualSettlement — every message comes to an end

However many processes crash, channels close and statements fail: when this stops and what stays
possible is not put off for ever, a published message has its row committed, or lies on
`orders.dlq`.  The argument is by contradiction: as long as neither happens, the broker holds a copy,
no handler of it can commit, and so no copy can be delivered.
-/

namespace Ecommerce.Worker

open Amqp Locking Orders Transition

variable {π : Type} [DecidableEq π] {maxRetries : Number} {db₀ : Db} {messageId : UUID}

/-- The row of the message is committed, or a copy of it is on `orders.dlq`. -/
def Settled (c : Copy) (s : State π) : Prop :=
  Processed s.db c.message ∨ ∃ c' ∈ s.broker.queues .dlq, SameIds c c'

theorem Settled.step {s s' : State π} {l : Label π} {c : Copy} (hsettled : Settled c s)
    (hs : Step maxRetries s l s') : Settled c s' :=
  hsettled.imp hs.effect.processed fun ⟨c', hc', hsame⟩ => ⟨c', hs.dlq hc', hsame⟩

/-! ## Fair runs that become calm -/

/-- What a run must not put off for ever. -/
inductive Duty (π : Type) where
  | handler (tag : Nat)
  -- the frames on a channel
  | channel (o : π)
  -- the end of a channel whose process is gone
  | closing (o : π)
  -- a copy of the message with these ids
  | delivery (ids : UUID × UUID)

def Serves : Duty π → State π → Label π → State π → Prop
  | .handler tag, _, l, _ => ∃ f, l = .advance tag f
  | .channel o, _, l, _ => l = .take o ∨ l = .takePair o
  | .closing o, s, l, _ => l = .close o ∧ s.running o = false
  | .delivery ids, s, l, s' =>
    ∃ o h, l = .deliver o ∧ s'.handlers s.broker.nextTag = some h ∧ h.copy.ids = ids

/-- Nothing is left to do. -/
structure Rested (s : State π) : Prop where
  handlers : ∀ t h, s.handlers t = some h → h.phase = .finished
  wire : ∀ o, s.broker.wire o = []
  running : ∀ o, s.running o = true
  queue : s.broker.queues .process = []

theorem Rested.not_serves {s s' : State π} {l : Label π} (h : Rested s) (duty : Duty π)
    (hs : Step maxRetries s l s') : ¬ Serves duty s l s' := by
  intro hserves
  cases duty with
  | handler tag =>
    obtain ⟨f, rfl⟩ := hserves
    cases hs with
    | advance tag u f hadv =>
      cases hh : s.handlers tag with
      | none => simp [State.advance, hh] at hadv
      | some hd => simp [State.advance, hh, h.handlers tag hd hh] at hadv
  | channel o =>
    obtain rfl | rfl := hserves
    · cases hs with
      | take o ht => simp [State.take, Broker.take, h.wire o] at ht
    · cases hs with
      | takePair o ht => simp [State.takePair, h.wire o] at ht
  | closing o =>
    obtain ⟨rfl, hgone⟩ := hserves
    exact absurd ((h.running o).symm.trans hgone) (by decide)
  | delivery ids =>
    obtain ⟨o, hd, rfl, -⟩ := hserves
    cases hs with
    | deliver o i hdel => simp [State.deliver, h.running o, Broker.deliver, h.queue] at hdel

section Runs

variable (r : System.Run (system maxRetries db₀ : System (State π) (Label π)) System.anyStep)

/-- From step `n` on nothing fails, and at some time a process is up. -/
structure Calms (messageId : UUID) (n : Nat) : Prop where
  genuine : ∀ k, Genuine messageId (r.state k) (r.label k)
  calm : ∀ k, n ≤ k → Calm (r.state k) (r.label k)
  up : Up (r.state n)
  serving : ∃ k o, n ≤ k ∧ (r.state k).running o = true

variable {r} {n k : Nat} {t : Nat} {h : Handler π} {o : π} {c : Copy}

theorem Calms.reach (hc : Calms r messageId n) (k : Nat) :
    (system maxRetries db₀).Reach (Genuine messageId) (r.state k) := System.Run.reach_of hc.genuine k

theorem Calms.stays_up (hc : Calms r messageId n) (hk : n ≤ k) : Up (r.state k) :=
  r.persists hc.up (fun j hj hup => (hup.step (reachable_kept (r.reach j)).attached (hc.genuine j)
    (hc.calm j hj) (r.step j)).1) hk

theorem Calms.stays_running (hc : Calms r messageId n) (hk : n ≤ k)
    (hrun : (r.state k).running o = true) {j : Nat} (hj : k ≤ j) : (r.state j).running o = true :=
  r.persists (P := fun s => s.running o = true) hrun (fun i hi hrun =>
    ((hc.stays_up (hk.trans hi)).step (reachable_kept (r.reach i)).attached (hc.genuine i)
      (hc.calm i (hk.trans hi)) (r.step i)).2 o hrun) hj

theorem Calms.handler (hc : Calms r messageId n) (hk : n ≤ k)
    (hh : (r.state k).handlers t = some h) :
    ((r.state (k + 1)).handlers t = some h ∧ ∀ f, r.label k ≠ .advance t f) ∨
      ∃ ph fs, Turned maxRetries (r.state k) (r.state (k + 1)) t h ph fs :=
  (hc.stays_up hk).handler (reachable_inv (r.reach k)) (reachable_kept (r.reach k)).attached
    (hc.genuine k) (hc.calm k hk) (r.step k) hh

/-- A handler that need not wait for another one takes its next turn. -/
theorem Calms.next_turn (hc : Calms r messageId n) (hfair : r.Fair (Serves (.handler t)))
    (hk : n ≤ k) (hh : (r.state k).handlers t = some h) (hph : h.phase ≠ .finished)
    (hfree : ∀ j, k ≤ j → h.phase = .started →
      (r.state j).dedupLocks h.copy.message.messageId = none) :
    ∃ j ph fs, k ≤ j ∧ Turned maxRetries (r.state j) (r.state (j + 1)) t h ph fs := by
  by_contra hnone
  have hstays : ∀ j, k ≤ j → (r.state j).handlers t = some h := fun j hj =>
    r.persists (P := fun s => s.handlers t = some h) hh (fun i hi hhi =>
      ((hc.handler (hk.trans hi) hhi).resolve_right fun ⟨ph, fs, hturn⟩ =>
        hnone ⟨i, ph, fs, hi, hturn⟩).1) hj
  obtain ⟨j, hj, f, hl⟩ := hfair k fun j hj => by
    obtain ⟨s', hs'⟩ := advance_possible maxRetries ⟨0, 0⟩ .none (hstays j hj) hph (hfree j hj)
    exact ⟨.advance t .none, s', trivial, .advance t ⟨0, 0⟩ .none hs', .none, rfl⟩
  obtain ⟨-, hne⟩ | ⟨ph, fs, hturn⟩ := hc.handler (hk.trans hj) (hstays j hj)
  · exact hne f hl
  · exact hnone ⟨j, ph, fs, hj, hturn⟩

/-- A delivery whose ack is on its way is settled. -/
theorem Calms.acked (hc : Calms r messageId n) (hk : n ≤ k) {d : Delivery π Queue Copy}
    (hfair : r.Fair (Serves (.channel d.owner)))
    (hack : .ack d.tag ∈ (r.state k).broker.wire d.owner) :
    ∃ j, k ≤ j ∧ d ∉ (r.state j).broker.unsettled := by
  refine r.eventually (fun s => d ∉ s.broker.unsettled)
    (fun s x => d ∈ s.broker.unsettled → .ack d.tag ∈ s.broker.wire d.owner ∧
      ackDepth d.tag (s.broker.wire d.owner) ≤ x) hfair (fun _ => ⟨hack, Nat.le_refl _⟩) ?_ ?_
  · intro j x hj hranked hleft
    obtain ⟨hack, -⟩ := hranked (not_not.mp hleft)
    obtain ⟨s', hs'⟩ := take_possible (List.ne_nil_of_mem hack)
    exact ⟨.take d.owner, s', trivial, .take d.owner hs', .inl rfl⟩
  · intro j x hj hranked hleft
    obtain ⟨hack, hx⟩ := hranked (not_not.mp hleft)
    have hpos := ackDepth_pos hack
    by_cases hd : d ∈ (r.state (j + 1)).broker.unsettled
    · obtain ⟨hack', hle, hlt⟩ := (hc.stays_up (hk.trans hj)).ackDepth_step
        (reachable_kept (r.reach j)).attached (reachable_kept (r.reach (j + 1))).attached
        (hc.genuine j) (hc.calm j (hk.trans hj)) (r.step j) hd hack
      exact ⟨_, fun _ => ⟨hack', Nat.le_refl _⟩, hle.trans hx, fun htaken => (hlt htaken).trans_le hx⟩
    · exact ⟨0, fun hd' => absurd hd' hd, Nat.zero_le x, fun _ => by omega⟩

/-- A delivery to a process that is gone ends with its channel. -/
theorem closed_eventually {d : Delivery π Queue Copy}
    (hfair : r.Fair (Serves (.closing d.owner))) (hd : d ∈ (r.state k).broker.unsettled)
    (hgone : (r.state k).running d.owner = false) :
    ∃ j, k ≤ j ∧ d ∉ (r.state j).broker.unsettled := by
  have hok (j : Nat) := (reachable_kept (r.reach j)).attached.ok
  refine r.ensures (P := fun s => d ∈ s.broker.unsettled ∧ s.running d.owner = false)
    (fun s => d ∉ s.broker.unsettled) hfair ⟨hd, hgone⟩ ?_ ?_
  · intro j hj ⟨hd, hgone⟩ _
    exact ⟨.close d.owner, _, trivial, .close d.owner ((hok j).ownerOpen d hd), rfl, hgone⟩
  · intro j hj ⟨hd, hgone⟩ _
    by_cases hd' : d ∈ (r.state (j + 1)).broker.unsettled
    · refine .inl ⟨⟨hd', ?_⟩, fun htaken => ?_⟩
      · -- a process that starts needs a channel of its own
        have hs := r.step j
        generalize r.label j = l at hs
        exact hs.stays_gone ((hok j).ownerOpen d hd) hgone
      · obtain ⟨hl, -⟩ : r.label j = .close d.owner ∧ _ := htaken
        have hs := r.step j
        rw [hl] at hs
        generalize r.state (j + 1) = s' at hs hd'
        cases hs with
        | close o hopen => simpa using (List.mem_filter.mp hd').2
    · exact .inr hd'

/-! ## A run in which the message never comes to an end -/

variable (r) in
structure Stuck (c : Copy) (n : Nat) : Prop where
  calm : Calms r c.message.messageId n
  fair : ∀ duty, r.Fair (Serves duty)
  unsettled : ∀ k, n ≤ k → ¬ Settled c (r.state k)

theorem Stuck.not_processed (hs : Stuck r c n) (hk : n ≤ k) {m : ProcessOrderMessage}
    (hid : m.messageId = c.message.messageId) : ¬ Processed (r.state k).db m :=
  fun hrow => hs.unsettled k hk (.inl ((processed_congr hid).mp hrow))

/-- No handler of the message is on its way to a COMMIT, or past one. -/
theorem Stuck.no_commit (hs : Stuck r c n) (hk : n ≤ k) (hh : (r.state k).handlers t = some h)
    (hid : h.copy.message.messageId = c.message.messageId) :
    h.phase ≠ .inserted ∧ (∀ update, h.phase ≠ .processed update) ∧ h.phase ≠ .refused ∧
      h.phase ≠ .resolved := by
  have hprocessed : ∀ {k : Nat} {h : Handler π}, n ≤ k → (r.state k).handlers t = some h →
      h.copy.message.messageId = c.message.messageId → ∀ update, h.phase ≠ .processed update := by
    intro k h hk hh hid update hph
    obtain ⟨j, ph, fs, hj, hturn⟩ := hs.calm.next_turn (hs.fair _) hk hh (by rw [hph]; simp)
      fun j _ hstarted => by rw [hph] at hstarted; cases hstarted
    -- the next turn is the COMMIT
    refine hs.not_processed (k := j + 1) (by omega) hid ?_
    rw [(hturn.commit update hph).1]
    exact processed_applyMessage.mpr (.inr rfl)
  have hended := (reachable_inv (r.reach k)).ended t h hh
  refine ⟨fun hph => ?_, hprocessed hk hh hid,
    fun hph => hs.not_processed hk hid (hended (.inl hph)).1,
    fun hph => hs.not_processed hk hid (hended (.inr hph)).1⟩
  obtain ⟨j, ph, fs, hj, hturn⟩ := hs.calm.next_turn (hs.fair _) hk hh (by rw [hph]; decide)
    fun j _ hstarted => by rw [hph] at hstarted; cases hstarted
  have hgenuine := (reachable_genuine (hs.calm.reach j)).handlers t h hturn.handler hid
  have hafter : (r.state (j + 1)).handlers t = some { h with phase := ph } := by
    rw [hturn.handlers, Function.update_self]
  obtain ⟨update, rfl⟩ := hturn.turns.of_inserted hph hgenuine
  exact hprocessed (by omega) hafter hid update rfl

/-- From some time on nobody holds an uncommitted row of the message. -/
theorem Stuck.lock_free (hs : Stuck r c n) :
    ∃ N, n ≤ N ∧ ∀ k, N ≤ k → (r.state k).dedupLocks c.message.messageId = none := by
  have hlocks (k : Nat) := (reachable_inv (r.reach k)).locks
  -- a free row stays free: whoever inserts it commits it
  have hstays : ∀ N, n ≤ N → (r.state N).dedupLocks c.message.messageId = none →
      ∀ k, N ≤ k → (r.state k).dedupLocks c.message.messageId = none := by
    intro N hN hnone k hk
    refine r.persists (P := fun s => s.dedupLocks c.message.messageId = none) hnone ?_ hk
    intro j hj hfree
    by_contra hheld
    obtain ⟨t, ht⟩ := Option.ne_none_iff_exists'.mp hheld
    obtain ⟨h', hh', hholds, hid⟩ := (hlocks (j + 1) _ t).mp ht
    have hbefore : ∀ h, (r.state j).handlers t = some h → h.phase.holdsRow = true →
        h.copy.message.messageId = c.message.messageId → False := by
      intro h hh hholds hid
      rw [(hlocks j _ t).mpr ⟨h, hh, hholds, hid⟩] at hfree
      cases hfree
    rcases (r.step j).handler hh' with hold | ⟨-, -, hph, -⟩ | ⟨h, hh, hmoves⟩
    · exact hbefore h' hold hholds hid
    · rw [hph] at hholds
      cases hholds
    · obtain hholds | hins := hmoves.next.holdsRow hholds
      · exact hbefore h hh hholds (by rw [← hid, hmoves.copy])
      · exact (hs.no_commit (k := j + 1) (by omega) hh' hid).1 hins
  cases hlock : (r.state n).dedupLocks c.message.messageId with
  | none => exact ⟨n, Nat.le_refl n, hstays n (Nat.le_refl n) hlock⟩
  | some t =>
    obtain ⟨h, hh, hholds, hid⟩ := (hlocks n _ t).mp hlock
    obtain ⟨hins, hprocessed, -⟩ := hs.no_commit (Nat.le_refl n) hh hid
    have hph : h.phase = .aborting := by
      cases hph : h.phase with
      | aborting => rfl
      | inserted => exact absurd hph hins
      | processed update => exact absurd hph (hprocessed update)
      | _ =>
        rw [hph] at hholds
        cases hholds
    -- the holder rolls back
    obtain ⟨j, ph, fs, hj, hturn⟩ := hs.calm.next_turn (hs.fair _) (Nat.le_refl n) hh
      (by rw [hph]; decide) fun j _ hstarted => by rw [hph] at hstarted; cases hstarted
    have hrejected := hturn.turns.of_aborting hph
    refine ⟨j + 1, by omega, hstays (j + 1) (by omega) ?_⟩
    by_contra hheld
    obtain ⟨t', ht'⟩ := Option.ne_none_iff_exists'.mp hheld
    obtain ⟨h', hh', hholds', hid'⟩ := (hlocks (j + 1) _ t').mp ht'
    rw [hturn.handlers] at hh'
    have hholder := (hlocks j _ t).mpr ⟨h, hturn.handler, hholds, hid⟩
    by_cases heq : t' = t
    · rw [heq, Function.update_self] at hh'
      rw [← Option.some.inj hh', hrejected] at hholds'
      cases hholds'
    · rw [Function.update_of_ne heq] at hh'
      have hother := (hlocks j _ t').mpr ⟨h', hh', hholds', hid'⟩
      rw [hholder] at hother
      exact heq (Option.some.inj hother).symm

theorem Stuck.later (hs : Stuck r c n) (hk : n ≤ k) : Stuck r c k where
  calm := by
    obtain ⟨j, o, hj, hrun⟩ := hs.calm.serving
    refine ⟨hs.calm.genuine, fun i hi => hs.calm.calm i (hk.trans hi), hs.calm.stays_up hk,
      max j k, o, Nat.le_max_right j k, hs.calm.stays_running hj hrun (Nat.le_max_left j k)⟩
  fair := hs.fair
  unsettled := fun j hj => hs.unsettled j (hk.trans hj)

/-- With the row free a handler that has just begun would insert it. -/
theorem Stuck.not_started (hs : Stuck r c n)
    (hfree : ∀ k, n ≤ k → (r.state k).dedupLocks c.message.messageId = none) (hk : n ≤ k)
    (hh : (r.state k).handlers t = some h)
    (hid : h.copy.message.messageId = c.message.messageId) : h.phase ≠ .started := by
  intro hph
  obtain ⟨j, ph, fs, hj, hturn⟩ := hs.calm.next_turn (hs.fair _) hk hh (by rw [hph]; decide)
    fun j hj _ => by rw [hid]; exact hfree j (hk.trans hj)
  have hafter : (r.state (j + 1)).handlers t = some { h with phase := ph } := by
    rw [hturn.handlers, Function.update_self]
  obtain ⟨hins, -, hrefused, -⟩ := hs.no_commit (k := j + 1) (by omega) hafter hid
  exact (hturn.turns.of_started hph).elim hins hrefused

/-- A handler that has failed comes to its end. -/
theorem Stuck.finishes (hs : Stuck r c n)
    (hfree : ∀ k, n ≤ k → (r.state k).dedupLocks c.message.messageId = none) (hk : n ≤ k)
    (hh : (r.state k).handlers t = some h) (hid : h.copy.message.messageId = c.message.messageId) :
    ∃ j h', k ≤ j ∧ (r.state j).handlers t = some h' ∧ h'.phase = .finished := by
  -- the next phase, unless it is over
  have hnext {k : Nat} {h : Handler π} (hk : n ≤ k) (hh : (r.state k).handlers t = some h)
      (hstarted : h.phase ≠ .started) (hph : h.phase ≠ .finished) :
      ∃ j ph fs, k ≤ j ∧ (r.state (j + 1)).handlers t = some { h with phase := ph } ∧
        Turns maxRetries (r.state j) t h ph fs := by
    obtain ⟨j, ph, fs, hj, hturn⟩ := hs.calm.next_turn (hs.fair _) hk hh hph
      fun j _ heq => absurd heq hstarted
    exact ⟨j, ph, fs, hj, by rw [hturn.handlers, Function.update_self], hturn.turns⟩
  have hbackoff {k : Nat} {h : Handler π} (hk : n ≤ k) (hh : (r.state k).handlers t = some h)
      (hph : h.phase = .backoff) :
      ∃ j h', k ≤ j ∧ (r.state j).handlers t = some h' ∧ h'.phase = .finished := by
    obtain ⟨j, ph, fs, hj, hafter, hturn⟩ := hnext hk hh (by rw [hph]; decide) (by rw [hph]; decide)
    exact ⟨j + 1, _, by omega, hafter, hturn.of_backoff hph⟩
  have hrejected {k : Nat} {h : Handler π} (hk : n ≤ k) (hh : (r.state k).handlers t = some h)
      (hph : h.phase = .rejected) :
      ∃ j h', k ≤ j ∧ (r.state j).handlers t = some h' ∧ h'.phase = .finished := by
    obtain ⟨j, ph, fs, hj, hafter, hturn⟩ := hnext hk hh (by rw [hph]; decide) (by rw [hph]; decide)
    obtain rfl | rfl := hturn.of_rejected hph
    · exact ⟨j + 1, _, by omega, hafter, rfl⟩
    · obtain ⟨i, h', hi, hend⟩ := hbackoff (k := j + 1) (by omega) hafter rfl
      exact ⟨i, h', by omega, hend⟩
  obtain ⟨hins, hprocessed, hrefused, hresolved⟩ := hs.no_commit hk hh hid
  cases hph : h.phase with
  | started => exact absurd hph (hs.not_started hfree hk hh hid)
  | inserted => exact absurd hph hins
  | processed update => exact absurd hph (hprocessed update)
  | aborting =>
    obtain ⟨j, ph, fs, hj, hafter, hturn⟩ := hnext hk hh (by rw [hph]; decide) (by rw [hph]; decide)
    obtain ⟨i, h', hi, hend⟩ := hrejected (k := j + 1) (by omega) hafter (hturn.of_aborting hph)
    exact ⟨i, h', by omega, hend⟩
  | refused => exact absurd hph hrefused
  | resolved => exact absurd hph hresolved
  | rejected => exact hrejected hk hh hph
  | backoff => exact hbackoff hk hh hph
  | finished => exact ⟨k, h, Nat.le_refl k, hh, hph⟩

theorem Stuck.settles (hs : Stuck r c n)
    (hfree : ∀ k, n ≤ k → (r.state k).dedupLocks c.message.messageId = none) (hk : n ≤ k)
    {d : Delivery π Queue Copy} (hd : d ∈ (r.state k).broker.unsettled)
    (hid : d.message.message.messageId = c.message.messageId) :
    ∃ j, k ≤ j ∧ d ∉ (r.state j).broker.unsettled := by
  cases hrun : (r.state k).running d.owner with
  | false => exact closed_eventually (hs.fair _) hd hrun
  | true =>
    have hwatched (j : Nat) := reachable_watched (hs.calm.reach j)
    obtain ⟨h, hh, -, hcopy, -⟩ := hwatched k d hd hrun
    obtain ⟨j, h', hj, hh', hend⟩ := hs.finishes hfree hk hh (by rw [hcopy, hid])
    by_cases hd' : d ∈ (r.state j).broker.unsettled
    · obtain ⟨h'', hh'', -, -, hack⟩ := hwatched j d hd' (hs.calm.stays_running hk hrun hj)
      obtain rfl := Option.some.inj (hh'.symm.trans hh'')
      obtain ⟨i, hi, hgone⟩ := hs.calm.acked (hk.trans hj) (hs.fair _) (hack hend)
      exact ⟨i, hj.trans hi, hgone⟩
    · exact ⟨j, hj, hd'⟩

/-- In the end no copy is with a consumer. -/
theorem Stuck.none_unsettled (hs : Stuck r c n)
    (hfree : ∀ k, n ≤ k → (r.state k).dedupLocks c.message.messageId = none) :
    ∃ N, n ≤ N ∧ ∀ k, N ≤ k → ∀ d ∈ (r.state k).broker.unsettled,
      d.message.message.messageId ≠ c.message.messageId := by
  -- none is delivered any more
  have hold : ∀ k, n ≤ k → ∀ d : Delivery π Queue Copy,
      d.message.message.messageId = c.message.messageId →
      d ∈ (r.state (k + 1)).broker.unsettled → d ∈ (r.state k).broker.unsettled := by
    intro k hk d hid hd
    refine ((r.step k).delivered hd).resolve_right fun hh => ?_
    exact hs.not_started hfree (Nat.le_succ_of_le hk) hh hid rfl
  have hback : ∀ k, n ≤ k → ∀ j, k ≤ j → ∀ d : Delivery π Queue Copy,
      d.message.message.messageId = c.message.messageId →
      d ∈ (r.state j).broker.unsettled → d ∈ (r.state k).broker.unsettled := by
    intro k hk j hj d hid hd
    induction j, hj using Nat.le_induction with
    | base => exact hd
    | succ j hj ih => exact ih (hold j (hk.trans hj) d hid hd)
  have hgone : ∀ ds : List (Delivery π Queue Copy), ∃ N, n ≤ N ∧ ∀ k, N ≤ k → ∀ d ∈ ds,
      d.message.message.messageId = c.message.messageId → d ∉ (r.state k).broker.unsettled := by
    intro ds
    induction ds with
    | nil => exact ⟨n, Nat.le_refl n, fun k _ d hd => by cases hd⟩
    | cons d ds ih =>
      obtain ⟨N, hN, hrest⟩ := ih
      have hd : ∃ j, N ≤ j ∧ (d.message.message.messageId = c.message.messageId →
          d ∉ (r.state j).broker.unsettled) := by
        by_cases hin : d ∈ (r.state N).broker.unsettled ∧
            d.message.message.messageId = c.message.messageId
        · obtain ⟨j, hj, hnot⟩ := hs.settles hfree hN hin.1 hin.2
          exact ⟨j, hj, fun _ => hnot⟩
        · exact ⟨N, Nat.le_refl N, fun hid hd => hin ⟨hd, hid⟩⟩
      obtain ⟨j, hj, hnot⟩ := hd
      refine ⟨j, hN.trans hj, fun k hk e he hid => ?_⟩
      rcases List.mem_cons.mp he with rfl | he
      · exact fun hmem => hnot hid (hback j (hN.trans hj) k hk e hid hmem)
      · exact hrest k (hj.trans hk) e he hid
  obtain ⟨N, hN, hnone⟩ := hgone (r.state n).broker.unsettled
  exact ⟨N, hN, fun k hk d hd hid =>
    hnone k hk d (hback n (Nat.le_refl n) k (hN.trans hk) d hid hd) hid hd⟩

/-- The copy the broker holds would be delivered. -/
theorem Stuck.not_published (hs : Stuck r c n) : .published c ∉ (r.state n).history := by
  intro hpub
  obtain ⟨N, hN, hfree⟩ := hs.lock_free
  have hs' := hs.later hN
  obtain ⟨N', hN', hnone⟩ := hs'.none_unsettled hfree
  have hqueued : ∀ k, N' ≤ k → ∃ c' ∈ (r.state k).broker.queues .process, c'.ids = c.ids := by
    intro k hk
    have hpub' : .published c ∈ (r.state k).history :=
      r.persists (P := fun s => .published c ∈ s.history) hpub
        (fun j _ hmem => (r.step j).effect.history hmem) (by omega)
    rcases (reachable_kept (r.reach k)).held c hpub' with hrow | ⟨q, c', hc', hsame⟩ | ⟨d, hd, hsame, -⟩
    · exact absurd hrow (hs.not_processed (by omega) rfl)
    · cases q with
      | process => exact ⟨c', hc', hsame⟩
      | dlq => exact absurd (.inr ⟨c', hc', hsame⟩) (hs.unsettled k (by omega))
    · exact absurd (congrArg Prod.fst hsame) (hnone k hk d hd)
  obtain ⟨k₀, o, hk₀, hrun⟩ := hs'.calm.serving
  obtain ⟨k, hk, o', h, hl, hh, hids⟩ := hs.fair (.delivery c.ids) (max k₀ N') fun k hk => by
    obtain ⟨c', hc', hids⟩ := hqueued k (le_of_max_le_right hk)
    obtain ⟨i, hi⟩ := List.mem_iff_getElem?.mp hc'
    have hrun' := hs'.calm.stays_running hk₀ hrun (le_of_max_le_left hk)
    obtain ⟨s', hs'', hh⟩ := deliver_possible hrun' (hs'.calm.stays_up (by omega) o hrun') hi
    exact ⟨.deliver o, s', trivial, .deliver o i hs'', o, _, rfl, hh, hids⟩
  -- the handler of a new delivery has just begun
  have hph : h.phase = .started := by
    have htags := (reachable_inv (r.reach k)).tags (r.state k).broker.nextTag
    rcases (r.step k).handler hh with hold | ⟨-, -, hph, -⟩ | ⟨h', hold, -⟩
    · exact absurd (htags h hold) (Nat.lt_irrefl _)
    · exact hph
    · exact absurd (htags h' hold) (Nat.lt_irrefl _)
  exact hs'.not_started hfree (k := k + 1) (by omega) hh (congrArg Prod.fst hids) hph

/-- In a fair run that becomes calm every published message is settled at last, and stays so. -/
theorem settled_eventually (hc : Calms r c.message.messageId n)
    (hfair : ∀ duty, r.Fair (Serves duty)) {n₀ : Nat} (hpub : .published c ∈ (r.state n₀).history) :
    ∃ N, ∀ k, N ≤ k → Settled c (r.state k) := by
  by_contra hnever
  have hnot : ∀ k, ¬ Settled c (r.state k) := fun k hk =>
    hnever ⟨k, fun j hj => r.persists hk (fun i _ hi => hi.step (r.step i)) hj⟩
  have hstuck : Stuck r c n := ⟨hc, hfair, fun k _ => hnot k⟩
  refine (hstuck.later (Nat.le_max_left n n₀)).not_published ?_
  exact r.persists (P := fun s => .published c ∈ s.history) hpub
    (fun j _ hmem => (r.step j).effect.history hmem) (Nat.le_max_right n n₀)

end Runs

end Ecommerce.Worker
