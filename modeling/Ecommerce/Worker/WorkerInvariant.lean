import Ecommerce.Worker.HandlerSteps

/-!
# WorkerInvariant — dedup rows, handlers and the history

A handler between its insert and its COMMIT holds the uncommitted dedup row of its message, and
nobody else can commit that row.  So a row is committed at most once, by the transaction the history
records, and a handler whose transaction failed has committed none.
-/

namespace Ecommerce.Worker

open Amqp Locking Orders Transition

variable {π : Type} [DecidableEq π] {maxRetries : Number} {db₀ : Db}

/-- The COMMIT of a handler for this message. -/
def Event.commits (id : UUID) : Event → Bool
  | .committed _ c => c.message.messageId = id
  | _ => false

/-- The handler of delivery `tag` holds the uncommitted row of message `id`. -/
def HoldsRow (s : State π) (tag : Nat) (id : UUID) : Prop :=
  ∃ h, s.handlers tag = some h ∧ h.phase.holdsRow = true ∧ h.copy.message.messageId = id

structure Inv (db₀ : Db) (s : State π) : Prop where
  locks : s.dedupLocks.Agrees (HoldsRow s)
  uncommitted : ∀ tag h, s.handlers tag = some h → h.phase.holdsRow = true →
    ¬ Processed s.db h.copy.message
  ended : ∀ tag h, s.handlers tag = some h → h.phase = .refused ∨ h.phase = .resolved →
    Processed s.db h.copy.message ∧ Ended s tag h.copy
  tags : ∀ tag h, s.handlers tag = some h → tag < s.broker.nextTag
  committed : ∀ tag c, .committed tag c ∈ s.history → Processed s.db c.message ∧
    tag < s.broker.nextTag ∧ ∀ h, s.handlers tag = some h → h.phase.succeeded = true
  once : ∀ id, s.history.countP (Event.commits id) ≤ 1
  rows : ∀ row ∈ s.db.processedMessages, row ∈ db₀.processedMessages ∨
    ∃ tag c, .committed tag c ∈ s.history ∧ row = dedupRow c.message

section Steps

variable {s s' : State π} {tag : Nat} {h : Handler π} {l : Label π}

/-! ## The lock table -/

omit [DecidableEq π] in
theorem holdsRow_setPhase {ph : Phase} (hh : s.handlers tag = some h)
    (hholds : ph.holdsRow = h.phase.holdsRow) (t : Nat) (id : UUID) :
    HoldsRow (s.setPhase tag h ph) t id ↔ HoldsRow s t id := by
  unfold HoldsRow
  by_cases ht : t = tag
  · subst ht
    rw [setPhase_self, hh]
    simp [hholds]
  · rw [setPhase_of_ne s h ph ht]

theorem holdsRow_die (p : π) (t : Nat) (id : UUID) :
    HoldsRow (s.die p) t id ↔ HoldsRow s t id ∧ (s.handlers t).any (·.owner = p) = false := by
  unfold HoldsRow
  constructor
  · rintro ⟨h', hh', hholds, hid⟩
    obtain ⟨hh, hne⟩ := die_handlers hh'
    exact ⟨⟨h', hh, hholds, hid⟩, by simpa [hh] using hne⟩
  · rintro ⟨⟨h', hh, hholds, hid⟩, hne⟩
    have hp : h'.owner ≠ p := by simpa [hh] using hne
    exact ⟨h', by simp [State.die, hh, hp], hholds, hid⟩

theorem locks_die (hlocks : s.dedupLocks.Agrees (HoldsRow s)) (p : π) :
    (s.die p).dedupLocks.Agrees (HoldsRow (s.die p)) := by
  intro id t
  rw [holdsRow_die, ← hlocks id t]
  simp only [State.die]
  cases hlock : s.dedupLocks id with
  | none => simp
  | some t' =>
    by_cases ht : t' = t
    · subst ht
      cases hany : (s.handlers t').any (·.owner = p) <;> simp [hany]
    · simp [ht]

omit [DecidableEq π] in
/-- The transaction of a handler ends. -/
theorem locks_release {ph : Phase} (hlocks : s.dedupLocks.Agrees (HoldsRow s))
    (hph : ph.holdsRow = false) :
    (s.dedupLocks.releaseAll tag).Agrees (HoldsRow (s.setPhase tag h ph)) := by
  refine hlocks.releaseAll ?_ ?_
  · rintro id ⟨h', hh', hholds, -⟩
    rcases setPhase_handlers hh' with ⟨-, hne⟩ | ⟨-, rfl⟩
    · exact hne rfl
    · rw [show _ = ph.holdsRow from rfl, hph] at hholds
      cases hholds
  · intro t ht id
    unfold HoldsRow
    rw [setPhase_of_ne s h ph ht]

theorem Inv.locks_advance (hi : Inv db₀ s) {u : OrderUpdate} {f : Faults}
    (hadv : Advance maxRetries s tag u f s') : s'.dedupLocks.Agrees (HoldsRow s') := by
  -- a step that neither writes nor ends the transaction keeps the lock
  have same : ∀ (h : Handler π) (ph : Phase), s.handlers tag = some h →
      ph.holdsRow = h.phase.holdsRow → s.dedupLocks.Agrees (HoldsRow (s.setPhase tag h ph)) :=
    fun h ph hh hholds => hi.locks.congr fun t id => holdsRow_setPhase hh hholds t id
  cases hadv with
  | duplicate h hh hph hrow => exact same h .refused hh (by rw [hph]; rfl)
  | insert h hh hph hrow hlock =>
    refine hi.locks.acquire hlock (fun id => ⟨?_, ?_⟩) fun t ht id => ?_
    · rintro ⟨h', hh', -, hid⟩
      rcases setPhase_handlers hh' with ⟨-, hne⟩ | ⟨-, rfl⟩
      · exact absurd rfl hne
      · exact .inl hid.symm
    · rintro (rfl | ⟨h', hh', hholds, -⟩)
      · exact ⟨_, Function.update_self .., rfl, rfl⟩
      · rw [hh, Option.some.injEq] at hh'
        rw [← hh', hph] at hholds
        cases hholds
    · show HoldsRow (s.setPhase tag h .inserted) t id ↔ HoldsRow s t id
      unfold HoldsRow
      rw [setPhase_of_ne s h _ ht]
  | process h update hh hph hok => exact same h (.processed update) hh (by rw [hph]; rfl)
  | throws h hh hph => exact same h .aborting hh (by rw [hph]; rfl)
  | commit h update hh hph => exact locks_release hi.locks rfl
  | rollback h hh hph => exact locks_release hi.locks rfl
  | resolve h hh hph => exact same h .resolved hh (by rw [hph]; rfl)
  | finish h resolved hh hph =>
    -- the transaction has ended before the copies are sent
    have hholds : h.phase.holdsRow = false := by
      rw [hph]
      cases resolved <;> rfl
    rcases finish_cases maxRetries s tag h f resolved with ⟨heq, -⟩ | heq
    · rw [heq]
      exact same h .backoff hh hholds.symm
    · rw [heq]
      exact same h .finished hh hholds.symm
  | fire h hh hph =>
    have hsame := same h .finished hh (by rw [hph]; rfl)
    rcases fire_cases s tag h f with heq | heq
    · rw [heq]
      exact hsame
    · rw [heq]
      exact locks_die (s := { s.setPhase tag h .finished with broker := _ }) hsame h.owner

theorem Inv.locks_step (hi : Inv db₀ s) (hs : Step maxRetries s l s') :
    s'.dedupLocks.Agrees (HoldsRow s') := by
  cases hs with
  | start p hstart =>
    obtain ⟨-, -, rfl⟩ := start_cases hstart
    exact hi.locks
  | die p hp => exact locks_die hi.locks p
  | deliver p i hd =>
    obtain ⟨-, b, c, hb, rfl⟩ := deliver_cases hd
    refine hi.locks.congr fun t id => ?_
    unfold HoldsRow
    by_cases ht : t = s.broker.nextTag
    · -- the new handler has inserted nothing, and no other one had its tag
      have hnone : ∀ h, s.handlers t ≠ some h :=
        fun h hh => absurd (hi.tags t h hh) (by rw [ht]; exact Nat.lt_irrefl _)
      subst ht
      simp [hnone, Phase.holdsRow]
    · simp [Function.update_of_ne ht]
  | take p ht =>
    obtain ⟨b, -, rfl⟩ := Option.map_eq_some_iff.mp ht
    exact hi.locks
  | takePair p ht =>
    obtain ⟨-, b, b', -, -, rfl⟩ := takePair_cases ht
    exact hi.locks
  | advance tag u f hadv => exact hi.locks_advance (advance_cases hadv)
  | fault tag h hh hph => exact locks_release hi.locks rfl
  | _ => exact hi.locks

/-! ## The other parts -/

theorem Inv.uncommitted_step (hi : Inv db₀ s) (hs : Step maxRetries s l s') (t : Nat)
    (h' : Handler π) (hh' : s'.handlers t = some h') (hholds : h'.phase.holdsRow = true) :
    ¬ Processed s'.db h'.copy.message := by
  have hold : ¬ Processed s.db h'.copy.message := by
    rcases hs.handler hh' with hold | ⟨-, -, hph, -⟩ | ⟨h, hh, hmoves⟩
    · exact hi.uncommitted t h' hold hholds
    · rw [hph] at hholds
      cases hholds
    · rw [hmoves.copy]
      rcases hmoves.next.holdsRow hholds with hbefore | hinserted
      · exact hi.uncommitted t h hh hbefore
      · exact hmoves.inserted hinserted
  cases hs.effect with
  | nothing hdb hhistory => rwa [hdb]
  | shop hl hshop hhistory =>
    unfold Processed
    rwa [hshop.processedMessages]
  | published c hdb hbroker hhistory => rwa [hdb]
  | duplicate tag h hh hdb hhistory => rwa [hdb]
  | committed tag h update hh hph hself hothers hdb hhistory =>
    rw [hdb, processed_applyMessage]
    rintro (hrow | hid)
    · exact hold hrow
    · -- two transactions cannot hold the row of one message
      have hne : t ≠ tag := by
        rintro rfl
        rw [hself, Option.some.injEq] at hh'
        rw [← hh'] at hholds
        cases hholds
      rw [hothers t hne] at hh'
      exact hne (hi.locks.holder_unique ⟨h', hh', hholds, hid⟩ ⟨h, hh, by rw [hph]; rfl, rfl⟩)

theorem Inv.ended_step (hi : Inv db₀ s) (hs : Step maxRetries s l s') (t : Nat) (h' : Handler π)
    (hh' : s'.handlers t = some h') (hph : h'.phase = .refused ∨ h'.phase = .resolved) :
    Processed s'.db h'.copy.message ∧ Ended s' t h'.copy := by
  have keep : ∀ c : Copy, Processed s.db c.message ∧ Ended s t c →
      Processed s'.db c.message ∧ Ended s' t c :=
    fun c hc => ⟨hs.effect.processed hc.1, hs.effect.ended hc.2⟩
  rcases hs.handler hh' with hold | ⟨-, -, hstarted, -⟩ | ⟨h, hh, hmoves⟩
  · exact keep h'.copy (hi.ended t h' hold hph)
  · rw [hstarted] at hph
    rcases hph with hph | hph <;> cases hph
  · rw [hmoves.copy]
    rcases hmoves.ended hph with hrefused | hended
    · exact keep h.copy (hi.ended t h hh (.inl hrefused))
    · exact hended

theorem Inv.tags_step (hi : Inv db₀ s) (hs : Step maxRetries s l s') (t : Nat) (h' : Handler π)
    (hh' : s'.handlers t = some h') : t < s'.broker.nextTag := by
  rcases hs.handler hh' with hold | ⟨-, hlt, -, -⟩ | ⟨h, hh, -⟩
  · exact Nat.lt_of_lt_of_le (hi.tags t h' hold) hs.nextTag_le
  · exact hlt
  · exact Nat.lt_of_lt_of_le (hi.tags t h hh) hs.nextTag_le

theorem Inv.committed_step (hi : Inv db₀ s) (hs : Step maxRetries s l s') (t : Nat) (c : Copy)
    (hc : .committed t c ∈ s'.history) : Processed s'.db c.message ∧ t < s'.broker.nextTag ∧
      ∀ h', s'.handlers t = some h' → h'.phase.succeeded = true := by
  rcases hs.effect.new_commit hc with hc | ⟨h, update, hh, hph, hself, hdb, rfl⟩
  · obtain ⟨hrow, hlt, hphase⟩ := hi.committed t c hc
    refine ⟨hs.effect.processed hrow, Nat.lt_of_lt_of_le hlt hs.nextTag_le, fun h' hh' => ?_⟩
    rcases hs.handler hh' with hold | ⟨ht, -, -, -⟩ | ⟨h, hh, hmoves⟩
    · exact hphase h' hold
    · exact absurd hlt (by rw [ht]; exact Nat.lt_irrefl _)
    · exact hmoves.next.succeeded (hphase h hh)
  · refine ⟨?_, Nat.lt_of_lt_of_le (hi.tags t h hh) hs.nextTag_le, fun h' hh' => ?_⟩
    · rw [hdb]
      exact processed_applyMessage.mpr (.inr rfl)
    · rw [hself, Option.some.injEq] at hh'
      rw [← hh']
      rfl

theorem Inv.once_step (hi : Inv db₀ s) (hs : Step maxRetries s l s') (id : UUID) :
    s'.history.countP (Event.commits id) ≤ 1 := by
  have honce := hi.once id
  cases hs.effect with
  | nothing hdb hhistory => rwa [hhistory]
  | shop hl hshop hhistory => rwa [hhistory]
  | published c hdb hbroker hhistory =>
    rw [hhistory, List.countP_append, List.countP_singleton]
    exact honce
  | duplicate tag h hh hdb hhistory =>
    rw [hhistory, List.countP_append, List.countP_singleton]
    exact honce
  | committed tag h update hh hph hself hothers hdb hhistory =>
    rw [hhistory, List.countP_append, List.countP_singleton]
    by_cases hid : h.copy.message.messageId = id
    · -- an earlier COMMIT for this message would have left its row
      have hnew := hi.uncommitted tag h hh (by rw [hph]; rfl)
      have hzero : s.history.countP (Event.commits id) = 0 := by
        rw [List.countP_eq_zero]
        intro e he hcommits
        cases e with
        | published c => cases hcommits
        | duplicate t c => cases hcommits
        | committed t c =>
          have heq : c.message.messageId = id := by simpa [Event.commits] using hcommits
          exact hnew ((processed_congr (heq.trans hid.symm)).mp (hi.committed t c he).1)
      split <;> omega
    · rw [if_neg (by simpa [Event.commits] using hid)]
      exact honce

theorem Inv.rows_step (hi : Inv db₀ s) (hs : Step maxRetries s l s') (row : ProcessedMessage)
    (hrow : row ∈ s'.db.processedMessages) : row ∈ db₀.processedMessages ∨
      ∃ tag c, .committed tag c ∈ s'.history ∧ row = dedupRow c.message := by
  have hold : row ∈ s.db.processedMessages → row ∈ db₀.processedMessages ∨
      ∃ tag c, .committed tag c ∈ s'.history ∧ row = dedupRow c.message := by
    intro hrow
    refine (hi.rows row hrow).imp_right ?_
    rintro ⟨tag, c, hc, heq⟩
    exact ⟨tag, c, hs.effect.history hc, heq⟩
  cases hs.effect with
  | nothing hdb hhistory => exact hold (hdb ▸ hrow)
  | shop hl hshop hhistory => exact hold (hshop.processedMessages ▸ hrow)
  | published c hdb hbroker hhistory => exact hold (hdb ▸ hrow)
  | duplicate tag h hh hdb hhistory => exact hold (hdb ▸ hrow)
  | committed tag h update hh hph hself hothers hdb hhistory =>
    rw [hdb] at hrow
    rcases List.mem_append.mp hrow with hrow | hrow
    · exact hold hrow
    · refine .inr ⟨tag, h.copy, ?_, List.mem_singleton.mp hrow⟩
      rw [hhistory]
      exact List.mem_append_right _ (List.mem_singleton_self _)

theorem Inv.step (hi : Inv db₀ s) (hs : Step maxRetries s l s') : Inv db₀ s' :=
  ⟨hi.locks_step hs, hi.uncommitted_step hs, hi.ended_step hs, hi.tags_step hs,
    hi.committed_step hs, hi.once_step hs, hi.rows_step hs⟩

omit [DecidableEq π] in
theorem inv_initial (db : Db) : Inv db (State.initial db : State π) where
  locks := LockTable.agrees_empty fun t id => by simp [HoldsRow, State.initial]
  uncommitted := fun t h hh => by cases hh
  ended := fun t h hh => by cases hh
  tags := fun t h hh => by cases hh
  committed := fun t c hc => by cases hc
  once := fun id => Nat.zero_le _
  rows := fun row hrow => .inl hrow

theorem reachable_inv {ok : State π → Label π → Prop} (hr : (system maxRetries db₀).Reach ok s) :
    Inv db₀ s :=
  hr.invariant (fun _ h0 => by rw [h0]; exact inv_initial db₀) fun _ _ _ _ hi _ hs => hi.step hs

end Steps

end Ecommerce.Worker
