import Ecommerce.Worker.ExactlyOnce

/-!
# DedupRecords — what a dedup row stands for

The row of a message is written before its effect, and two ways through `processOrderMessage` have
no effect: a simulated success returns early, and an UPDATE that matches no row goes unnoticed.  The
row stays behind in both, and a later message with the same `messageId` is dropped.
-/

namespace Ecommerce.Worker

open Amqp Locking Orders Transition

variable {π : Type} [DecidableEq π] {maxRetries : Number} {db₀ : Db}

deriving instance DecidableEq for Event

/-- The order the message names is there and has been processed. -/
def StandsFor (db : Db) (m : ProcessOrderMessage) : Prop :=
  ∃ o ∈ db.orders, o.id = m.orderId ∧ o.status = .processed

/-- An order with a dedup row of its own has been processed. -/
def RowsStand (db : Db) : Prop :=
  ∀ o ∈ db.orders, orderRow o ∈ db.processedMessages → o.status = .processed

instance (db : Db) : Decidable (RowsStand db) := inferInstanceAs (Decidable (∀ o ∈ db.orders, _))

/-- A dedup record stands for a processed order, in one state of a run. -/
structure RecordsStand (s : State π) : Prop where
  committed : ∀ tag c, .committed tag c ∈ s.history → StandsFor s.db c.message
  rows : RowsStand s.db
  -- a genuine message, whose `messageId` is the order's, is dropped for a processed order only
  dropped : ∀ tag c, .duplicate tag c ∈ s.history → c.message.messageId = c.message.orderId →
    ∀ o ∈ s.db.orders, o.id = c.message.orderId → o.status = .processed

/-- The COMMIT for this message marks every order that its row will stand for. -/
structure Marks (db : Db) (m : ProcessOrderMessage) : Prop where
  order : ∃ o ∈ db.orders, o.id = m.orderId ∧ (m.simulateFailure = none ∨ o.status = .processed)
  namesake : ∀ o ∈ db.orders, o.id = m.messageId →
    o.status = .processed ∨ (m.simulateFailure = none ∧ o.id = m.orderId)

/-- If this step commits a handler's transaction, it marks the order. -/
def CommitsMark (s : State π) (l : Label π) : Prop :=
  ∀ tag f, l = .advance tag f → ∀ h update, s.handlers tag = some h →
    h.phase = .processed update → Marks s.db h.copy.message

/-! ## The COMMIT of one message -/

section ApplyMessage

variable {db : Db} {m : ProcessOrderMessage} {u : OrderUpdate} {update : Option OrderUpdate}

/-- The callback comes through with an UPDATE, or without one for a simulated success. -/
theorem processOrderMessage_cases (hok : State.processOrderMessage m u = .ok update) :
    (m.simulateFailure = none ∧ update = some u) ∨ (m.simulateFailure ≠ none ∧ update = none) := by
  unfold State.processOrderMessage at hok
  split at hok
  · rename_i sim hsim
    split at hok
    · exact .inr ⟨by simp [hsim], (Except.ok.inj hok).symm⟩
    · cases hok
  · rename_i hsim
    exact .inl ⟨hsim, (Except.ok.inj hok).symm⟩

@[simp] theorem updateOrder_id (id : UUID) (u : OrderUpdate) (o : Order) :
    (State.updateOrder id u o).id = o.id := by
  unfold State.updateOrder
  split <;> rfl

theorem updateOrder_status (id : UUID) (u : OrderUpdate) (o : Order) :
    (State.updateOrder id u o).status = .processed ↔ o.id = id ∨ o.status = .processed := by
  unfold State.updateOrder
  split
  · rename_i heq
    exact ⟨fun _ => .inl heq, fun _ => rfl⟩
  · rename_i hne
    exact ⟨.inr, fun h => h.resolve_left hne⟩

theorem standsFor_applyMessage (hok : State.processOrderMessage m u = .ok update) :
    StandsFor (State.applyMessage db m update) m ↔
      ∃ o ∈ db.orders, o.id = m.orderId ∧ (m.simulateFailure = none ∨ o.status = .processed) := by
  unfold StandsFor
  rcases processOrderMessage_cases hok with ⟨hnone, rfl⟩ | ⟨hsome, rfl⟩
  · constructor
    · rintro ⟨o', ho', hid, -⟩
      obtain ⟨o, ho, rfl⟩ := List.mem_map.mp ho'
      exact ⟨o, ho, by rwa [updateOrder_id] at hid, .inl hnone⟩
    · rintro ⟨o, ho, hid, -⟩
      refine ⟨_, List.mem_map_of_mem ho, ?_, (updateOrder_status ..).mpr (.inl hid)⟩
      rw [updateOrder_id, hid]
  · show (∃ o ∈ db.orders, _) ↔ _
    simp only [hsome, false_or]

theorem rowsStand_applyMessage (hrows : RowsStand db)
    (hok : State.processOrderMessage m u = .ok update) :
    RowsStand (State.applyMessage db m update) ↔ ∀ o ∈ db.orders, o.id = m.messageId →
      o.status = .processed ∨ (m.simulateFailure = none ∧ o.id = m.orderId) := by
  have hrow : ∀ o : Order, orderRow o ∈ (State.applyMessage db m update).processedMessages ↔
      orderRow o ∈ db.processedMessages ∨ o.id = m.messageId := by
    intro o
    simp [State.applyMessage, orderRow, dedupRow]
  unfold RowsStand
  simp only [hrow]
  rcases processOrderMessage_cases hok with ⟨hnone, rfl⟩ | ⟨hsome, rfl⟩
  · show (∀ o ∈ db.orders.map _, _) ↔ _
    simp only [List.forall_mem_map, orderRow, updateOrder_id, updateOrder_status, hnone, true_and]
    refine forall₂_congr fun o ho => ⟨fun h hid => (h (.inr hid)).symm, ?_⟩
    rintro h (hrow | hid)
    · exact .inr (hrows o ho hrow)
    · exact (h hid).symm
  · show (∀ o ∈ db.orders, _) ↔ _
    simp only [hsome, false_and, or_false]
    refine forall₂_congr fun o ho => ⟨fun h hid => h (.inr hid), ?_⟩
    rintro h (hrow | hid)
    · exact hrows o ho hrow
    · exact h hid

/-- A processed order stays processed. -/
theorem StandsFor.applyMessage {m' : ProcessOrderMessage} (h : StandsFor db m') :
    StandsFor (State.applyMessage db m update) m' := by
  obtain ⟨o, ho, hid, hstatus⟩ := h
  cases update with
  | none => exact ⟨o, ho, hid, hstatus⟩
  | some u =>
    refine ⟨State.updateOrder m.orderId u o, List.mem_map_of_mem ho, ?_, ?_⟩
    · rw [updateOrder_id, hid]
    · exact (updateOrder_status _ u o).mpr (.inr hstatus)

end ApplyMessage

section Shop

variable {db db' : Db}

theorem ShopChange.refl (db : Db) : ShopChange db db := ⟨rfl, [], by simp⟩

theorem StandsFor.shop {m : ProcessOrderMessage} (h : StandsFor db m) (hshop : ShopChange db db') :
    StandsFor db' m := by
  obtain ⟨o, ho, hid, hstatus⟩ := h
  obtain ⟨new, heq, -⟩ := hshop.orders
  exact ⟨o, by rw [heq]; exact List.mem_append_left _ ho, hid, hstatus⟩

theorem RowsStand.shop (h : RowsStand db) (hshop : ShopChange db db') : RowsStand db' := by
  obtain ⟨new, heq, hnew⟩ := hshop.orders
  intro o ho
  rw [hshop.processedMessages]
  rw [heq, List.mem_append] at ho
  rcases ho with ho | ho
  · exact h o ho
  · -- a new order has no row yet
    exact fun hrow => absurd hrow (hnew o ho).2.2

end Shop

/-! ## Steps -/

section Steps

variable {s s' : State π} {l : Label π}

/-- A handler whose callback is through has the UPDATE its message calls for. -/
def Updates (s : State π) : Prop :=
  ∀ tag h update, s.handlers tag = some h → h.phase = .processed update →
    ∃ u, State.processOrderMessage h.copy.message u = .ok update

theorem Updates.step (hup : Updates s) (hs : Step maxRetries s l s') : Updates s' := by
  intro tag h' update hh' hph
  rcases hs.handler hh' with hold | ⟨-, -, hstarted, -⟩ | ⟨h, -, hmoves⟩
  · exact hup tag h' update hold hph
  · rw [hph] at hstarted
    cases hstarted
  · rw [hmoves.copy]
    exact hmoves.update update hph

/-- What has been dropped has a row. -/
def Dropped (s : State π) : Prop :=
  ∀ tag c, .duplicate tag c ∈ s.history → Processed s.db c.message

/-- A step without a COMMIT of the worker: it writes no dedup row and marks no order. -/
structure Quiet (s s' : State π) : Prop where
  shop : ShopChange s.db s'.db
  committed : ∀ tag c, .committed tag c ∈ s'.history → .committed tag c ∈ s.history
  duplicate : ∀ tag c, .duplicate tag c ∈ s'.history →
    .duplicate tag c ∈ s.history ∨ Processed s.db c.message

omit [DecidableEq π] in
theorem quiet_of_eq (hdb : s'.db = s.db) (hhistory : s'.history = s.history) : Quiet s s' where
  shop := hdb ▸ .refl s.db
  committed := fun _ _ hc => hhistory ▸ hc
  duplicate := fun _ _ hc => .inl (hhistory ▸ hc)

theorem advance_processed {tag : Nat} {u : OrderUpdate} {f : Faults} {h : Handler π}
    {update : Option OrderUpdate} (hh : s.handlers tag = some h) (hph : h.phase = .processed update) :
    s.advance maxRetries tag u f = some (s.commit tag h update) := by
  simp only [State.advance, hh, hph]

theorem Advance.quiet {tag : Nat} {u : OrderUpdate} {f : Faults}
    (hadv : Advance maxRetries s tag u f s')
    (hother : ∀ h update, s.handlers tag = some h → h.phase ≠ .processed update) : Quiet s s' := by
  cases hadv with
  | duplicate h hh hph hrow =>
    refine ⟨.refl s.db, fun t c hc => ?_, fun t c hc => ?_⟩
    · rw [List.mem_append, List.mem_singleton] at hc
      exact hc.resolve_right fun heq => by cases heq
    · rw [List.mem_append, List.mem_singleton] at hc
      refine hc.imp_right fun heq => ?_
      obtain ⟨-, rfl⟩ := Event.duplicate.inj heq
      exact hrow
  | commit h update hh hph => exact absurd hph (hother h update hh)
  | fire h hh hph =>
    rcases fire_cases s tag h f with heq | heq
    · rw [heq]
      exact quiet_of_eq rfl rfl
    · rw [heq]
      exact quiet_of_eq rfl rfl
  | _ => exact quiet_of_eq rfl rfl

theorem Step.quiet (hs : Step maxRetries s l s') (hother : ∀ tag f, l = .advance tag f →
    ∀ h update, s.handlers tag = some h → h.phase ≠ .processed update) : Quiet s s' := by
  cases hs with
  | start p hstart =>
    obtain ⟨-, -, rfl⟩ := start_cases hstart
    exact quiet_of_eq rfl rfl
  | deliver p i hd =>
    obtain ⟨-, b, c, -, rfl⟩ := deliver_cases hd
    exact quiet_of_eq rfl rfl
  | take p ht =>
    obtain ⟨b, -, rfl⟩ := Option.map_eq_some_iff.mp ht
    exact quiet_of_eq rfl rfl
  | takePair p ht =>
    obtain ⟨-, b, b', -, -, rfl⟩ := takePair_cases ht
    exact quiet_of_eq rfl rfl
  | advance tag u f hadv => exact (advance_cases hadv).quiet (hother tag f rfl)
  | publish m =>
    refine ⟨.refl s.db, fun t c hc => ?_, fun t c hc => ?_⟩
    · rw [State.publish, List.mem_append, List.mem_singleton] at hc
      exact hc.resolve_right fun heq => by cases heq
    · rw [State.publish, List.mem_append, List.mem_singleton] at hc
      exact .inl (hc.resolve_right fun heq => by cases heq)
  | shop db hshop => exact ⟨hshop, fun _ _ => id, fun _ _ => .inl⟩
  | _ => exact quiet_of_eq rfl rfl

/-- A step is the COMMIT of one handler, or it is quiet. -/
theorem Step.commit_or_quiet (hs : Step maxRetries s l s') :
    (∃ tag f h update, l = .advance tag f ∧ s.handlers tag = some h ∧
      h.phase = .processed update ∧ s' = s.commit tag h update) ∨
    (CommitsMark s l ∧ Quiet s s') := by
  by_cases hcommit : ∃ tag f h update, l = .advance tag f ∧ s.handlers tag = some h ∧
      h.phase = .processed update
  · obtain ⟨tag, f, h, update, rfl, hh, hph⟩ := hcommit
    cases hs with
    | advance _ u _ hadv =>
      have hs' := Option.some.inj (hadv.symm.trans (advance_processed hh hph))
      exact .inl ⟨tag, f, h, update, rfl, hh, hph, hs'⟩
  · have hother : ∀ tag f, l = .advance tag f →
        ∀ h update, s.handlers tag = some h → h.phase ≠ .processed update :=
      fun tag f hl h update hh hph => hcommit ⟨tag, f, h, update, hl, hh, hph⟩
    exact .inr ⟨fun tag f hl h update hh hph => absurd hph (hother tag f hl h update hh),
      hs.quiet hother⟩

theorem Dropped.step (hdrop : Dropped s) (hs : Step maxRetries s l s') : Dropped s' := by
  intro t c hc
  rcases hs.commit_or_quiet with ⟨tag, f, h, update, -, -, -, rfl⟩ | ⟨-, hquiet⟩
  · rw [State.commit, List.mem_append, List.mem_singleton] at hc
    exact hs.effect.processed (hdrop t c (hc.resolve_right fun heq => by cases heq))
  · exact hs.effect.processed ((hquiet.duplicate t c hc).elim (hdrop t c) id)

omit [DecidableEq π] in
theorem RowsStand.records (hrows : RowsStand s.db) (hdrop : Dropped s)
    (hcommitted : ∀ tag c, .committed tag c ∈ s.history → StandsFor s.db c.message) :
    RecordsStand s where
  committed := hcommitted
  rows := hrows
  dropped := by
    intro tag c hc hgenuine o ho hid
    refine hrows o ho ?_
    have hrow := hdrop tag c hc
    unfold Processed dedupRow at hrow
    unfold orderRow
    rwa [hid, ← hgenuine]

/-- The records still stand after a step if and only if the step marks what it commits. -/
theorem RecordsStand.step_iff (hrec : RecordsStand s) (hup : Updates s) (hdrop : Dropped s)
    (hs : Step maxRetries s l s') : RecordsStand s' ↔ CommitsMark s l := by
  have hdrop' := hdrop.step hs
  rcases hs.commit_or_quiet with ⟨tag, f, h, update, rfl, hh, hph, rfl⟩ | ⟨hcm, hquiet⟩
  · obtain ⟨u, hok⟩ := hup tag h update hh hph
    have hstands : StandsFor (State.applyMessage s.db h.copy.message update) h.copy.message ↔ _ :=
      standsFor_applyMessage hok
    have hrows := rowsStand_applyMessage hrec.rows hok
    constructor
    · intro hrec' tag' f' hl h' update' hh' hph'
      obtain ⟨rfl, -⟩ := Label.advance.inj hl
      rw [hh, Option.some.injEq] at hh'
      subst hh'
      refine ⟨hstands.mp (hrec'.committed tag h.copy ?_), hrows.mp hrec'.rows⟩
      exact List.mem_append_right _ (List.mem_singleton_self _)
    · intro hcm
      have hmarks := hcm tag f rfl h update hh hph
      refine (hrows.mpr hmarks.namesake).records hdrop' fun t c hc => ?_
      rw [State.commit, List.mem_append, List.mem_singleton] at hc
      rcases hc with hc | hc
      · exact (hrec.committed t c hc).applyMessage
      · obtain ⟨-, rfl⟩ := Event.committed.inj hc
        exact hstands.mpr hmarks.order
  · refine iff_of_true ?_ hcm
    exact (hrec.rows.shop hquiet.shop).records hdrop' fun t c hc =>
      (hrec.committed t c (hquiet.committed t c hc)).shop hquiet.shop

end Steps

/-! ## Runs -/

section Run

variable {s : State π} {ok : State π → Label π → Prop}

theorem reachable_updates (hr : (system maxRetries db₀).Reach ok s) : Updates s :=
  hr.invariant (fun s h0 => by rw [show s = _ from h0]; exact fun t h update hh => by cases hh)
    fun _ _ _ _ hup _ hs => hup.step hs

theorem reachable_dropped (hr : (system maxRetries db₀).Reach ok s) : Dropped s :=
  hr.invariant (fun s h0 => by rw [show s = _ from h0]; exact fun t c hc => by cases hc)
    fun _ _ _ _ hdrop _ hs => hdrop.step hs

/-- A dedup record stands for a processed order in every state of a run whose COMMITs all mark what
they stand for, and no other COMMIT keeps it so. -/
theorem dedup_records_stand (h₀ : RowsStand db₀)
    (hr : (system maxRetries db₀).Reach CommitsMark s) : RecordsStand s ∧
      ∀ l s', Step maxRetries s l s' → (RecordsStand s' ↔ CommitsMark s l) := by
  have hrec : RecordsStand s := by
    refine hr.invariant (fun s h0 => ?_) fun s l s' hr hrec hcm hs =>
      (hrec.step_iff (reachable_updates hr) (reachable_dropped hr) hs).mpr hcm
    have hinit : (system maxRetries db₀).Reach CommitsMark s := .init h0
    have hrows : RowsStand s.db := by
      rw [show s = _ from h0]
      exact h₀
    refine hrows.records (reachable_dropped hinit) fun t c hc => ?_
    rw [show s = _ from h0] at hc
    cases hc
  exact ⟨hrec, fun l s' hs =>
    hrec.step_iff (reachable_updates hr) (reachable_dropped hr) hs⟩

end Run

/-! ## A simulated success before the genuine message -/

/-- A message that is told to succeed, with the id of the order of `orderedShop` as its
`messageId`. -/
def simulatedMessage : ProcessOrderMessage where
  messageId := .ofNat 100
  orderId := .ofNat 100
  createdAt := 0
  attempt := .ofInt 1
  simulateFailure := some { reason := "this is a test failure", stopOnAttempt := some (.ofInt 1) }

/-- The row of that message is committed and the order is not processed; the genuine message is then
dropped as a duplicate. -/
theorem dedup_record_of_simulated_success : RowsStand orderedShop ∧ ∃ s : State Unit,
    (system (.ofInt 3) orderedShop).Reach System.anyStep s ∧
      .committed 0 ⟨simulatedMessage, 0⟩ ∈ s.history ∧ ¬ StandsFor s.db simulatedMessage ∧
      .duplicate 1 ⟨.new (.ofNat 100) (.ofNat 100) 0, 1⟩ ∈ s.history ∧
      s.db.orders = orderedShop.orders := by
  refine ⟨by decide +kernel, ?_⟩
  have hinit : (system (.ofInt 3) orderedShop).Reach System.anyStep
      (State.initial orderedShop : State Unit) := .init rfl
  obtain ⟨s, hr, hs⟩ := reach_of_run hinit ⟨2, 3⟩
    [.start (), .publish simulatedMessage, .deliver (), .advance 0 .none, .advance 0 .none,
      .advance 0 .none, .publish (.new (.ofNat 100) (.ofNat 100) 0), .deliver (), .advance 1 .none]
    (fun _ _ _ => trivial)
    (p := fun s => decide (.committed 0 ⟨simulatedMessage, 0⟩ ∈ s.history ∧
      .duplicate 1 ⟨.new (.ofNat 100) (.ofNat 100) 0, 1⟩ ∈ s.history ∧
      s.db.orders = orderedShop.orders)) (by decide +kernel)
  obtain ⟨hcommitted, hduplicate, horders⟩ := of_decide_eq_true hs
  refine ⟨s, hr, hcommitted, ?_, hduplicate, horders⟩
  rw [StandsFor, horders]
  decide +kernel

/-! ## The messages of created orders -/

section Created

variable {s : State π}

/-- Left to `createOrder`, every COMMIT marks its order. -/
theorem reach_commitsMark (hr : (system maxRetries db₀).Reach FromCreateOrder s)
    (hp : Paired db₀) : (system maxRetries db₀).Reach CommitsMark s := by
  induction hr with
  | init h0 => exact .init h0
  | @step s s' l hr hok hs ih =>
    refine .step ih (fun tag f hl h update hh hph => ?_) hs
    obtain ⟨hid, hnone, o, ho, horder⟩ := (reachable_effects hr hp).copies.handlers tag h hh
    exact ⟨⟨o, ho, horder, .inl hnone⟩, fun o' ho' hid' => .inr ⟨hnone, hid'.trans hid⟩⟩

end Created

/-- A created order whose message is committed, up to the COMMIT. -/
theorem dedup_records_stand_created : ∃ s : State Unit,
    .committed 0 ⟨.new (.ofNat 100) (.ofNat 100) 0, 0⟩ ∈ s.history ∧ RecordsStand s := by
  have hok : FromCreateOrder (State.initial orderedShop : State Unit)
      (.publish (.new (.ofNat 100) (.ofNat 100) 0)) := by
    intro m hm
    exact ⟨_, List.mem_cons_self .., 0, (Label.publish.inj hm).symm⟩
  have hpublished : (system (.ofInt 3) orderedShop).Reach FromCreateOrder _ :=
    .step (.init rfl) hok (.publish _)
  obtain ⟨s, hr, hs⟩ := reach_of_run hpublished ⟨2, 3⟩
    [.start (), .deliver (), .advance 0 .none, .advance 0 .none, .advance 0 .none]
    (by simp [FromCreateOrder])
    (p := fun s => decide (.committed 0 ⟨.new (.ofNat 100) (.ofNat 100) 0, 0⟩ ∈ s.history))
    (by decide +kernel)
  exact ⟨s, of_decide_eq_true hs, (dedup_records_stand (by decide +kernel)
    (reach_commitsMark hr (by decide +kernel))).1⟩

end Ecommerce.Worker
