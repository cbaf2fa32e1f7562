import Ecommerce.Worker.WorkerInvariant

/-!
# ExactlyOnce — the effect of a message, once

For the messages of created orders the dedup row and the processed status are two sides of one
COMMIT.  The row is written once, so the status moves once, and an order that has been processed is
never written again.
-/

namespace Ecommerce.Worker

open Amqp Locking Orders Transition

variable {π : Type} [DecidableEq π] {maxRetries : Number} {db₀ : Db}

/-! ## A failed attempt -/

/-- The transaction of this delivery has failed, and nothing of it is left or will be. -/
structure Failed (tag : Nat) (s : State π) : Prop where
  past : tag < s.broker.nextTag
  spent : ∀ h, s.handlers tag = some h → h.phase.spent = true
  nothing : ∀ c, .committed tag c ∉ s.history

theorem Failed.step {s s' : State π} {l : Label π} {tag : Nat} (hf : Failed tag s)
    (hs : Step maxRetries s l s') : Failed tag s' where
  past := Nat.lt_of_lt_of_le hf.past hs.nextTag_le
  spent := by
    intro h' hh'
    rcases hs.handler hh' with hold | ⟨ht, -, -, -⟩ | ⟨h, hh, hmoves⟩
    · exact hf.spent h' hold
    · exact absurd hf.past (by rw [ht]; exact Nat.lt_irrefl _)
    · exact hmoves.next.spent (hf.spent h hh)
  nothing := by
    intro c hc
    rcases hs.effect.new_commit hc with hc | ⟨h, update, hh, hph, -, -, -⟩
    · exact hf.nothing c hc
    · have hspent := hf.spent h hh
      rw [hph] at hspent
      cases hspent

/-! ## Orders and dedup rows -/

/-- The order has been processed. -/
def Done (o : Order) : Prop := o.status = .processed ∧ o.processedAt ≠ none

/-- The dedup row of an order's message. -/
def orderRow (o : Order) : ProcessedMessage := { messageId := o.id, handler := handlerName }

/-- Orders are processed together with their dedup rows. -/
def Paired (db : Db) : Prop := ∀ o ∈ db.orders, orderRow o ∈ db.processedMessages ↔ Done o

instance (o : Order) : Decidable (Done o) := inferInstanceAs (Decidable (_ ∧ _))

instance (db : Db) : Decidable (Paired db) := inferInstanceAs (Decidable (∀ o ∈ db.orders, _))

/-- Every order keeps its place and its id, and a processed one does not change. -/
def Keeps (db db' : Db) : Prop :=
  ∀ (i : Nat) (o : Order), db.orders[i]? = some o →
    ∃ o', db'.orders[i]? = some o' ∧ o'.id = o.id ∧ (Done o → o' = o)

theorem Keeps.refl (db : Db) : Keeps db db := fun _ o ho => ⟨o, ho, rfl, fun _ => rfl⟩

theorem Keeps.trans {db₁ db₂ db₃ : Db} (h : Keeps db₁ db₂) (h' : Keeps db₂ db₃) :
    Keeps db₁ db₃ := by
  intro i o ho
  obtain ⟨o', ho', hid, hsame⟩ := h i o ho
  obtain ⟨o'', ho'', hid', hsame'⟩ := h' i o' ho'
  refine ⟨o'', ho'', hid'.trans hid, fun hdone => ?_⟩
  have heq := hsame hdone
  rw [heq] at hsame'
  exact hsame' hdone

theorem Keeps.order {db db' : Db} (h : Keeps db db') {id : UUID} (hid : ∃ o ∈ db.orders, o.id = id) :
    ∃ o ∈ db'.orders, o.id = id := by
  obtain ⟨o, ho, rfl⟩ := hid
  obtain ⟨i, hi⟩ := List.getElem?_of_mem ho
  obtain ⟨o', ho', hid, -⟩ := h i o hi
  exact ⟨o', List.mem_of_getElem? ho', hid⟩

theorem ShopChange.keeps {db db' : Db} (h : ShopChange db db') : Keeps db db' := by
  obtain ⟨new, heq, -⟩ := h.orders
  intro i o ho
  have hlt := (List.getElem?_eq_some_iff.mp ho).1
  exact ⟨o, by rw [heq, List.getElem?_append_left hlt, ho], rfl, fun _ => rfl⟩

theorem ShopChange.paired {db db' : Db} (h : ShopChange db db') (hp : Paired db) : Paired db' := by
  obtain ⟨new, heq, hnew⟩ := h.orders
  intro o ho
  rw [h.processedMessages]
  rw [heq, List.mem_append] at ho
  rcases ho with ho | ho
  · exact hp o ho
  · obtain ⟨hstatus, -, hrow⟩ := hnew o ho
    refine ⟨fun hmem => absurd hmem hrow, fun hdone => ?_⟩
    exact absurd (hstatus.symm.trans hdone.1) (by decide)

section ApplyMessage

variable {db : Db} {m : ProcessOrderMessage} {u : OrderUpdate}

theorem keeps_applyMessage (hp : Paired db) (hid : m.messageId = m.orderId)
    (hnew : ¬ Processed db m) : Keeps db (State.applyMessage db m (some u)) := by
  intro i o ho
  refine ⟨State.updateOrder m.orderId u o, ?_, ?_, fun hdone => ?_⟩
  · show (db.orders.map _)[i]? = _
    rw [List.getElem?_map, ho]
    rfl
  · unfold State.updateOrder
    split <;> rfl
  · -- the row of a processed order is there already
    have hrow := (hp o (List.mem_of_getElem? ho)).mpr hdone
    refine if_neg fun heq => hnew ?_
    unfold Processed dedupRow
    rwa [hid, ← heq]

theorem paired_applyMessage (hp : Paired db) (hid : m.messageId = m.orderId) :
    Paired (State.applyMessage db m (some u)) := by
  intro o' ho'
  obtain ⟨o, ho, rfl⟩ := List.mem_map.mp ho'
  show orderRow _ ∈ db.processedMessages ++ [dedupRow m] ↔ _
  rw [List.mem_append, List.mem_singleton]
  unfold State.updateOrder
  split
  · rename_i heq
    refine ⟨fun _ => ⟨rfl, fun h => by cases h⟩, fun _ => .inr ?_⟩
    unfold orderRow dedupRow
    rw [hid, ← heq]
  · rename_i hne
    rw [← hp o ho]
    refine or_iff_left fun heq => hne ?_
    rw [← hid]
    exact congrArg (·.messageId) heq

end ApplyMessage

/-! ## The law of a run -/

/-- Only `createOrder` puts messages on `orders.process`, after its COMMIT. -/
def FromCreateOrder (s : State π) (l : Label π) : Prop :=
  ∀ m, l = .publish m → ∃ o ∈ s.db.orders, ∃ now, m = .new o.id o.id now

/-- A copy of the message of an order. -/
structure OfOrder (db : Db) (c : Copy) : Prop where
  id : c.message.messageId = c.message.orderId
  noFailure : c.message.simulateFailure = none
  order : ∃ o ∈ db.orders, o.id = c.message.orderId

structure Effects (db₀ : Db) (s : State π) : Prop where
  paired : Paired s.db
  rows : ∀ row ∈ s.db.processedMessages, row ∈ db₀.processedMessages ∨
    ∃ o ∈ s.db.orders, o.id = row.messageId
  copies : Carried (OfOrder s.db) s
  updates : ∀ t h update, s.handlers t = some h → h.phase = .processed update →
    ∃ u, update = some u

section Run

variable {s s' : State π} {l : Label π}

omit [DecidableEq π] in
theorem effects_initial (hp : Paired db₀) : Effects db₀ (State.initial db₀ : State π) where
  paired := hp
  rows := fun row hrow => .inl hrow
  copies := ⟨Broker.all_initial, fun t h hh => by cases hh⟩
  updates := fun t h update hh => by cases hh

theorem Effects.keeps (he : Effects db₀ s) (hi : Inv db₀ s) (hs : Step maxRetries s l s') :
    Keeps s.db s'.db ∧ Paired s'.db := by
  have unchanged : s'.db = s.db → Keeps s.db s'.db ∧ Paired s'.db := fun heq => by
    rw [heq]
    exact ⟨.refl _, he.paired⟩
  cases hs.effect with
  | nothing hdb hhistory => exact unchanged hdb
  | shop hl hshop hhistory => exact ⟨hshop.keeps, hshop.paired he.paired⟩
  | published c hdb hbroker hhistory => exact unchanged hdb
  | duplicate tag h hh hdb hhistory => exact unchanged hdb
  | committed tag h update hh hph hself hothers hdb hhistory =>
    obtain ⟨u, rfl⟩ := he.updates tag h update hh hph
    have hid := (he.copies.handlers tag h hh).id
    have hnew := hi.uncommitted tag h hh (by rw [hph]; rfl)
    rw [hdb]
    exact ⟨keeps_applyMessage he.paired hid hnew, paired_applyMessage he.paired hid⟩

theorem Effects.rows_step (he : Effects db₀ s) (hi : Inv db₀ s) (hs : Step maxRetries s l s') :
    ∀ row ∈ s'.db.processedMessages, row ∈ db₀.processedMessages ∨
      ∃ o ∈ s'.db.orders, o.id = row.messageId := by
  have hkeeps := (he.keeps hi hs).1
  have hold : ∀ row ∈ s.db.processedMessages, row ∈ db₀.processedMessages ∨
      ∃ o ∈ s'.db.orders, o.id = row.messageId :=
    fun row hrow => (he.rows row hrow).imp_right hkeeps.order
  cases hs.effect with
  | nothing hdb hhistory => exact fun row hrow => hold row (hdb ▸ hrow)
  | shop hl hshop hhistory => exact fun row hrow => hold row (hshop.processedMessages ▸ hrow)
  | published c hdb hbroker hhistory => exact fun row hrow => hold row (hdb ▸ hrow)
  | duplicate tag h hh hdb hhistory => exact fun row hrow => hold row (hdb ▸ hrow)
  | committed tag h update hh hph hself hothers hdb hhistory =>
    intro row hrow
    have hcopy := he.copies.handlers tag h hh
    have hrow' : row ∈ s.db.processedMessages ++ [dedupRow h.copy.message] := by
      rw [hdb] at hrow
      exact hrow
    rcases List.mem_append.mp hrow' with hrow | hrow
    · exact hold row hrow
    · -- the new row is that of the order that is marked
      rw [List.mem_singleton.mp hrow]
      obtain ⟨o, ho, hid⟩ := hkeeps.order hcopy.order
      exact .inr ⟨o, ho, hid.trans hcopy.id.symm⟩

theorem Effects.step (he : Effects db₀ s) (hi : Inv db₀ s) (hok : FromCreateOrder s l)
    (hs : Step maxRetries s l s') : Effects db₀ s' := by
  obtain ⟨hkeeps, hpaired⟩ := he.keeps hi hs
  have hcarried : Carried (OfOrder s.db) s' := by
    refine he.copies.step hs (fun m hl => ?_) fun c hc => ⟨hc.id, hc.noFailure, hc.order⟩
    obtain ⟨o, ho, now, rfl⟩ := hok m hl
    exact ⟨rfl, rfl, o, ho, rfl⟩
  have hmono : ∀ c, OfOrder s.db c → OfOrder s'.db c :=
    fun c hc => ⟨hc.id, hc.noFailure, hkeeps.order hc.order⟩
  refine ⟨hpaired, he.rows_step hi hs, hcarried.mono hmono, ?_⟩
  intro t h' update hh' hph
  rcases hs.handler hh' with hold | ⟨-, -, hstarted, -⟩ | ⟨h, hh, hmoves⟩
  · exact he.updates t h' update hold hph
  · rw [hph] at hstarted
    cases hstarted
  · obtain ⟨u, hu⟩ := hmoves.update update hph
    rw [State.processOrderMessage, (he.copies.handlers t h hh).noFailure] at hu
    exact ⟨u, (Except.ok.inj hu).symm⟩

theorem reachable_effects (hr : (system maxRetries db₀).Reach FromCreateOrder s)
    (hp : Paired db₀) : Effects db₀ s :=
  hr.invariant (fun _ h0 => by rw [h0]; exact effects_initial hp)
    fun _ _ _ hr he hok hs => he.step (reachable_inv hr) hok hs

/-- The effect of a message, in one state of a run. -/
structure ExactlyOnce (db₀ : Db) (s : State π) : Prop where
  paired : ∀ o ∈ s.db.orders, orderRow o ∈ s.db.processedMessages ↔ Done o
  once : ∀ o ∈ s.db.orders, s.history.countP (Event.commits o.id) ≤ 1
  rows : ∀ row ∈ s.db.processedMessages, row ∈ db₀.processedMessages ∨
    ∃ tag c, .committed tag c ∈ s.history ∧ row = dedupRow c.message
  -- an attempt that has failed, or would fail now because its process dies, has left no row
  failed : ∀ tag h, s.handlers tag = some h → h.phase.succeeded = false →
    (h.phase = .rejected → Failed tag s) ∧ Failed tag (s.die h.owner)
  -- what is dropped as a duplicate has been processed
  dropped : ∀ tag h, s.handlers tag = some h → h.phase = .refused →
    ∃ o ∈ s.db.orders, o.id = h.copy.message.orderId ∧ Done o

theorem Inv.exactlyOnce (hi : Inv db₀ s) (he : Effects db₀ s) : ExactlyOnce db₀ s where
  paired := he.paired
  once := fun o _ => hi.once o.id
  rows := hi.rows
  failed := by
    intro tag h hh hph
    -- an attempt with a commit has succeeded
    have nothing : ∀ c, .committed tag c ∉ s.history := by
      intro c hc
      have hsucc := (hi.committed tag c hc).2.2 h hh
      rw [hph] at hsucc
      cases hsucc
    refine ⟨fun hrej => ⟨hi.tags tag h hh, fun h' hh' => ?_, nothing⟩,
      ⟨hi.tags tag h hh, fun h' hh' => ?_, nothing⟩⟩
    · rw [hh, Option.some.injEq] at hh'
      rw [← hh', hrej]
      rfl
    · obtain ⟨hh', hne⟩ := die_handlers hh'
      rw [hh, Option.some.injEq] at hh'
      exact absurd (congrArg Handler.owner hh'.symm) hne
  dropped := by
    intro tag h hh hph
    obtain ⟨hid, -, o, ho, horder⟩ := he.copies.handlers tag h hh
    -- the row that refused the insert is the row of this order
    refine ⟨o, ho, horder, (he.paired o ho).mp ?_⟩
    have hrow := (hi.ended tag h hh (.inl hph)).1
    unfold Processed dedupRow at hrow
    unfold orderRow
    rwa [horder, ← hid]

/-- Processing has its effect exactly once: in every reachable state an order is processed if and
only if its dedup row is committed, one transaction at most has committed it and a failed attempt
has left nothing; and from then on neither a processed order nor a failed attempt changes. -/
theorem processing_exactly_once (hr : (system maxRetries db₀).Reach FromCreateOrder s)
    (hp : Paired db₀) : ExactlyOnce db₀ s ∧
      ∀ s', (system maxRetries db₀).Steps FromCreateOrder s s' →
        Keeps s.db s'.db ∧ ∀ tag, Failed tag s → Failed tag s' := by
  refine ⟨(reachable_inv hr).exactlyOnce (reachable_effects hr hp), fun s' hsteps => ?_⟩
  refine System.Steps.preserves
    (R := fun a b => Keeps a.db b.db ∧ ∀ tag, Failed tag a → Failed tag b) hsteps hr
    (fun a => ⟨.refl _, fun _ hf => hf⟩) ?_ ?_
  · intro a b c hab hbc
    exact ⟨hab.1.trans hbc.1, fun tag hf => hbc.2 tag (hab.2 tag hf)⟩
  · intro a l b hra _ hs
    exact ⟨((reachable_effects hra hp).keeps (reachable_inv hra) hs).1, fun tag hf => hf.step hs⟩

end Run

/-! ## A message delivered twice -/

/-- One order, just created. -/
def orderedShop : Db where
  products := []
  orders := [⟨.ofNat 100, .ofNat 7, .created, .ofNat 50, 0, 0, none⟩]
  orderItems := []
  processedMessages := []

/-- The process dies after COMMIT and before the ack; the redelivery is a duplicate. -/
theorem processing_exactly_once_redelivered : ∃ s : State Unit,
    s.db.orders = [⟨.ofNat 100, .ofNat 7, .processed, .ofNat 50, 0, 3, some 2⟩] ∧
      (s.handlers 1).map (·.phase) = some .refused ∧ ExactlyOnce orderedShop s := by
  have hinit : (system (.ofInt 3) orderedShop).Reach FromCreateOrder
      (State.initial orderedShop : State Unit) := .init rfl
  have hok : FromCreateOrder (State.initial orderedShop : State Unit)
      (.publish (.new (.ofNat 100) (.ofNat 100) 0)) := by
    intro m hm
    exact ⟨_, List.mem_cons_self .., 0, (Label.publish.inj hm).symm⟩
  have hpublished := hinit.step hok (.publish _)
  obtain ⟨s, hr, hs⟩ := reach_of_run hpublished ⟨2, 3⟩
    [.start (), .deliver (), .advance 0 .none, .advance 0 .none, .advance 0 .none, .die (),
      .close (), .start (), .deliver (), .advance 1 .none]
    (by simp [FromCreateOrder])
    (p := fun s => decide (s.db.orders = [⟨.ofNat 100, .ofNat 7, .processed, .ofNat 50, 0, 3,
      some 2⟩] ∧ (s.handlers 1).map (·.phase) = some .refused)) (by decide +kernel)
  obtain ⟨horders, hphase⟩ := of_decide_eq_true hs
  exact ⟨s, horders, hphase, (processing_exactly_once hr (by decide +kernel)).1⟩

end Ecommerce.Worker
