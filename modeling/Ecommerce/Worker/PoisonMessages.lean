import Ecommerce.Worker.Redelivery
import Ecommerce.Worker.Undisturbed

/-!
# PoisonMessages — which contents are delivered again and again

A content is harmless when the value it stands for can be logged, and its attempts come to the
number of retries while its id can be sent.  Every other content is a poison message: the worker
sends it back, or a copy after it, for ever.
-/

namespace Ecommerce.Worker

open Transition

/-- The attempt of the copy after `k` retries, as it is parsed again. -/
def attemptAfter (c : Conversions) (attempt : Option Json) : Nat → Option Json
  | 0 => attempt
  | k + 1 => (Json.plus? c (attemptAfter c attempt k) (.ofInt 1)).map Json.written

section Runtime

variable {β : Type} (rt : Runtime β) (maxRetries : Number)

/-- The condition on a content under which its redelivery is bounded.  When the id cannot be sent,
the first retry ends the process. -/
def Runtime.Harmless (content : β) : Prop :=
  ∃ msg, rt.parse content = some msg ∧ (rt.received msg).isSome = true ∧
    if rt.accepts (msg.get? "messageId") then
      ∃ k, Json.ge? rt.toConversions (attemptAfter rt.toConversions (msg.get? "attempt") k)
        maxRetries = some true
    else Json.ge? rt.toConversions (msg.get? "attempt") maxRetries = some false

/-- The ids that `amqplib` sends: `null`, which counts as none, and texts. -/
def Runtime.PlainIds : Prop := ∀ v, rt.accepts (some v) = true → v = .null ∨ ∃ s, v = .str s

/-! ## The copies of a message that can be logged -/

/-- A copy after `k` retries of the message `msg₀`. -/
structure Stage (msg₀ : Json) (k : Nat) (content : β) (msg : Json) : Prop where
  parsed : rt.parse content = some msg
  received : (rt.received msg).isSome = true
  messageId : msg.get? "messageId" = msg₀.get? "messageId"
  attempt : msg.get? "attempt" = attemptAfter rt.toConversions (msg₀.get? "attempt") k
  sent : 0 < k → rt.accepts (msg₀.get? "messageId") = true

variable {rt maxRetries} {msg₀ msg : Json} {k : Nat} {content : β}

theorem received_isSome : (rt.received msg).isSome = true ↔ msg ≠ .null ∧
    (Json.printed? rt.toConversions (msg.get? "messageId")).isSome = true ∧
    (Json.printed? rt.toConversions (msg.get? "attempt")).isSome = true := by
  have hlogged {id attempt : Option String} : (do
      let messageId ← id
      let attempt ← attempt
      return (messageId, attempt)).isSome = true ↔ id.isSome = true ∧ attempt.isSome = true := by
    cases id <;> cases attempt <;> simp
  cases msg with
  | null => simp [Runtime.received]
  | _ =>
    refine hlogged.trans ⟨fun h => ⟨?_, h⟩, fun h => h.2⟩
    simp

theorem Stage.consume_failed (hs : Stage rt msg₀ k content msg) (maxRetries : Number) : ∃ isLast,
    Json.ge? rt.toConversions (attemptAfter rt.toConversions (msg₀.get? "attempt") k) maxRetries =
      some isLast ∧
    rt.consume maxRetries content .failed =
      if isLast then
        match rt.send msg with
        | some copy => .dead copy
        | none => .requeued
      else .waits msg := by
  obtain ⟨line, hline⟩ := Option.isSome_iff_exists.mp hs.received
  obtain ⟨n, hn⟩ := Json.number?_of_printed (received_isSome.mp hs.received).2.2
  have hge : Json.ge? rt.toConversions (msg.get? "attempt") maxRetries = some (n.ge maxRetries) := by
    rw [Json.ge?, hn]
    rfl
  refine ⟨n.ge maxRetries, by rw [← hs.attempt, hge], ?_⟩
  simp only [Runtime.consume, hs.parsed, Option.bind_some, Runtime.handle, hline,
    Runtime.handleFailedProcessing, hge, Option.bind_eq_bind]
  cases n.ge maxRetries with
  | true => cases rt.send msg <;> rfl
  | false => rfl

theorem Stage.consume_duplicate (hs : Stage rt msg₀ k content msg) (maxRetries : Number) :
    rt.consume maxRetries content .duplicate = .acked := by
  obtain ⟨line, hline⟩ := Option.isSome_iff_exists.mp hs.received
  simp only [Runtime.consume, hs.parsed, Option.bind_some, Runtime.handle, hline,
    Option.bind_eq_bind]
  rfl

theorem toString_ne_messageId : ∀ i : Nat, toString i ≠ "messageId" :=
  Json.toString_ne_of_not_digit 'm' (by decide) (by decide)

/-- An id that is sent is read as it was written, and can be logged again. -/
theorem Runtime.PlainIds.kept (hids : rt.PlainIds) {id : Option Json} (h : rt.accepts id = true) :
    id.map Json.written = id ∧ (Json.printed? rt.toConversions id).isSome = true := by
  cases id with
  | none => exact ⟨rfl, rfl⟩
  | some v => obtain rfl | ⟨s, rfl⟩ := hids v h <;> exact ⟨rfl, rfl⟩

/-- The timer sends the next copy, unless the id cannot be sent. -/
theorem Stage.retry (hids : rt.PlainIds) (hs : Stage rt msg₀ k content msg) :
    if rt.accepts (msg₀.get? "messageId") then ∃ copy, rt.retry msg = some (rt.stringify copy) ∧
      Stage rt msg₀ (k + 1) (rt.stringify copy) copy.written
    else rt.retry msg = none := by
  obtain ⟨-, -, hprinted⟩ := received_isSome.mp hs.received
  obtain ⟨x, hx, hagain⟩ := Json.plus?_of_printed (.ofInt 1) hprinted
  have hcopy : retryCopy rt.toConversions msg = some (msg.withField "attempt" x) := by
    rw [retryCopy, hx]
    rfl
  have hid : (msg.withField "attempt" x).get? "messageId" = msg₀.get? "messageId" := by
    rw [Json.get?_withField_of_ne msg x (by decide) toString_ne_messageId, hs.messageId]
  have hretry : rt.retry msg = rt.send (msg.withField "attempt" x) := by
    rw [Runtime.retry, hcopy]
    rfl
  split
  · next haccepts =>
    refine ⟨msg.withField "attempt" x, ?_, ?_⟩
    · rw [hretry, Runtime.send, hid, if_pos haccepts]
    · obtain ⟨hkept, hprinted_id⟩ := hids.kept haccepts
      have hwritten : (msg.withField "attempt" x).written.get? "messageId" =
          msg₀.get? "messageId" := by
        rw [Json.get?_written, hid, hkept]
      have hattempt : (msg.withField "attempt" x).written.get? "attempt" = some x.written := by
        rw [Json.get?_written, Json.get?_withField_self]
        rfl
      refine ⟨rt.parse_stringify content msg _ hs.parsed hcopy, ?_, hwritten, ?_,
        fun _ => haccepts⟩
      · rw [received_isSome, hwritten, hattempt]
        refine ⟨?_, hprinted_id, hagain⟩
        unfold Json.withField
        split <;> exact fun h => by cases h
      · rw [hattempt, attemptAfter, ← hs.attempt, hx]
        rfl
  · next haccepts => rw [hretry, Runtime.send, hid, if_neg haccepts]

/-! ## Harmless contents -/

/-- After `j` retries the attempt is not yet the last. -/
def Under (rt : Runtime β) (maxRetries : Number) (msg₀ : Json) (j : Nat) : Prop :=
  Json.ge? rt.toConversions (attemptAfter rt.toConversions (msg₀.get? "attempt") j) maxRetries =
    some false

/-- Where the one copy of the message can be. -/
inductive Underway (rt : Runtime β) (maxRetries : Number) (msg₀ : Json) : Copies β → Prop
  | queued {k : Nat} {content : β} {msg : Json} (hs : Stage rt msg₀ k content msg)
      (hunder : ∀ j < k, Under rt maxRetries msg₀ j) :
      Underway rt maxRetries msg₀ ⟨[content], [], [], [], k, 0⟩
  | handled {k : Nat} {content : β} {msg : Json} (hs : Stage rt msg₀ k content msg)
      (hunder : ∀ j < k, Under rt maxRetries msg₀ j) :
      Underway rt maxRetries msg₀ ⟨[], [content], [], [], k + 1, 0⟩
  | waiting {k : Nat} {content : β} {msg : Json} (hs : Stage rt msg₀ k content msg)
      (hunder : ∀ j < k + 1, Under rt maxRetries msg₀ j) :
      Underway rt maxRetries msg₀ ⟨[], [], [(content, msg)], [], k + 1, 0⟩
  | dead {k : Nat} {copy : β} (hunder : ∀ j < k, Under rt maxRetries msg₀ j)
      (hsent : 0 < k → rt.accepts (msg₀.get? "messageId") = true) :
      Underway rt maxRetries msg₀ ⟨[], [], [], [copy], k + 1, 0⟩
  | duplicate {k : Nat} (hunder : ∀ j < k, Under rt maxRetries msg₀ j)
      (hsent : 0 < k → rt.accepts (msg₀.get? "messageId") = true) :
      Underway rt maxRetries msg₀ ⟨[], [], [], [], k + 1, 1⟩

variable {s s' : Copies β} {l : Happens}

theorem under_succ (hunder : ∀ j < k, Under rt maxRetries msg₀ j)
    (h : Under rt maxRetries msg₀ k) : ∀ j < k + 1, Under rt maxRetries msg₀ j := by
  intro j hj
  rcases Nat.lt_succ_iff_lt_or_eq.mp hj with hlt | rfl
  · exact hunder j hlt
  · exact h

theorem single_of_getElem? {α : Type} {a b : α} {i : Nat} (h : [a][i]? = some b) :
    i = 0 ∧ a = b := by
  rw [List.getElem?_singleton] at h
  split at h
  · next hi => exact ⟨hi, Option.some.inj h⟩
  · cases h

theorem Underway.step (hids : rt.PlainIds) (hu : Underway rt maxRetries msg₀ s)
    (hid : rt.accepts (msg₀.get? "messageId") = false → Under rt maxRetries msg₀ 0)
    (hl : Unsuccessful s l) (hs : Copies.Step rt maxRetries s l s') :
    Underway rt maxRetries msg₀ s' := by
  cases hu with
  | queued hstage hunder =>
    cases hs with
    | deliver i content h =>
      obtain ⟨rfl, rfl⟩ := single_of_getElem? h
      exact .handled hstage hunder
    | settle i content ending h => cases h
    | fire i content msg copy h hcopy => cases h
    | crash i content msg h hcopy => cases h
  | @handled k content msg hstage hunder =>
    cases hs with
    | deliver i content h => cases h
    | settle i content ending h =>
      obtain ⟨rfl, rfl⟩ := single_of_getElem? h
      cases ending with
      | processed => exact absurd rfl hl
      | duplicate =>
        rw [hstage.consume_duplicate]
        exact .duplicate hunder hstage.sent
      | failed =>
        obtain ⟨isLast, hge, hconsume⟩ := hstage.consume_failed maxRetries
        rw [hconsume]
        cases isLast with
        | false => exact .waiting hstage (under_succ hunder hge)
        | true =>
          cases hsend : rt.send msg with
          | some copy => exact .dead hunder hstage.sent
          | none =>
            -- an id that cannot be sent has no retries, and the first attempt is not the last
            have hrefused : rt.accepts (msg₀.get? "messageId") = false := by
              rw [Runtime.send, hstage.messageId] at hsend
              simpa using hsend
            have hfirst : k = 0 := by
              by_contra hne
              have haccepts := hstage.sent (Nat.pos_of_ne_zero hne)
              rw [hrefused] at haccepts
              cases haccepts
            have hunder := hid hrefused
            rw [Under, ← hfirst, hge] at hunder
            cases hunder
    | fire i content msg copy h hcopy => cases h
    | crash i content msg h hcopy => cases h
  | waiting hstage hunder =>
    cases hs with
    | deliver i content h => cases h
    | settle i content ending h => cases h
    | fire i content msg copy h hcopy =>
      obtain ⟨rfl, heq⟩ := single_of_getElem? h
      cases heq
      have hretry := hstage.retry hids
      split at hretry
      · obtain ⟨copy', hsent, hnext⟩ := hretry
        obtain rfl := Option.some.inj (hsent.symm.trans hcopy)
        exact .queued hnext hunder
      · rw [hretry] at hcopy
        cases hcopy
    | crash i content msg h hcopy => exact hl.elim
  | dead hunder hsent =>
    cases hs with
    | deliver i content h | settle i content ending h => cases h
    | fire i content msg copy h hcopy | crash i content msg h hcopy => cases h
  | duplicate hunder hsent =>
    cases hs with
    | deliver i content h | settle i content ending h => cases h
    | fire i content msg copy h hcopy | crash i content msg h hcopy => cases h

/-- The retries do not go past an attempt that is the last. -/
theorem Underway.delivered_le (hu : Underway rt maxRetries msg₀ s) {n : Nat}
    (hn : rt.accepts (msg₀.get? "messageId") = true → ¬ Under rt maxRetries msg₀ n) :
    s.delivered ≤ n + 1 := by
  have hbound {k : Nat} (hunder : ∀ j < k, Under rt maxRetries msg₀ j)
      (hsent : 0 < k → rt.accepts (msg₀.get? "messageId") = true) : k ≤ n := by
    by_contra hlt
    exact hn (hsent (by omega)) (hunder n (by omega))
  cases hu with
  | queued hstage hunder => exact Nat.le_succ_of_le (hbound hunder hstage.sent)
  | handled hstage hunder => exact Nat.succ_le_succ (hbound hunder hstage.sent)
  | waiting hstage hunder =>
    exact Nat.succ_le_succ (hbound (fun j hj => hunder j (by omega)) hstage.sent)
  | dead hunder hsent => exact Nat.succ_le_succ (hbound hunder hsent)
  | duplicate hunder hsent => exact Nat.succ_le_succ (hbound hunder hsent)

theorem Underway.of_left (hu : Underway rt maxRetries msg₀ s) (hleft : s.Left) :
    s.dead ≠ [] ∨ 0 < s.duplicates := by
  cases hu with
  | queued hstage hunder => cases hleft.queue
  | handled hstage hunder => cases hleft.handled
  | waiting hstage hunder => cases hleft.waiting
  | dead hunder hsent => exact .inl (List.cons_ne_nil _ _)
  | duplicate hunder hsent => exact .inr Nat.one_pos

/-! ## Poison messages -/

-- The copy on the queue is delivered, and its processing fails.
theorem reach_failed {content₀ : β} {n : Nat}
    (hr : (redelivery rt maxRetries content₀).Reach Unsuccessful ⟨[content], [], [], [], n, 0⟩) :
    (redelivery rt maxRetries content₀).Reach Unsuccessful (Copies.settle
      ⟨[], [], [], [], n + 1, 0⟩ content .failed (rt.consume maxRetries content .failed)) := by
  have hdeliver : Copies.Step rt maxRetries ⟨[content], [], [], [], n, 0⟩ .deliver
      ⟨[], [content], [], [], n + 1, 0⟩ := .deliver 0 content rfl
  have hdelivered : (redelivery rt maxRetries content₀).Reach Unsuccessful
      ⟨[], [content], [], [], n + 1, 0⟩ := .step hr (by exact trivial) hdeliver
  have hsettle : Copies.Step rt maxRetries ⟨[], [content], [], [], n + 1, 0⟩ (.settle .failed)
      (Copies.settle ⟨[], [], [], [], n + 1, 0⟩ content .failed
        (rt.consume maxRetries content .failed)) := .settle 0 content .failed rfl
  refine .step hdelivered ?_ hsettle
  exact fun h => by cases h

theorem requeued_again (h : rt.consume maxRetries content .failed = .requeued) (n : Nat) :
    (redelivery rt maxRetries content).Reach Unsuccessful ⟨[content], [], [], [], n, 0⟩ := by
  induction n with
  | zero => exact .init rfl
  | succ n ih =>
    have hfailed := reach_failed ih
    rwa [h] at hfailed

/-- While the attempt is never the last, there is always another copy. -/
theorem retried_again (hids : rt.PlainIds) (hs : Stage rt msg 0 content msg)
    (haccepts : rt.accepts (msg.get? "messageId") = true)
    (hnever : ∀ k, Json.ge? rt.toConversions (attemptAfter rt.toConversions (msg.get? "attempt") k)
      maxRetries ≠ some true) (n : Nat) : ∃ content' msg', Stage rt msg n content' msg' ∧
    (redelivery rt maxRetries content).Reach Unsuccessful ⟨[content'], [], [], [], n, 0⟩ := by
  induction n with
  | zero => exact ⟨content, msg, hs, .init rfl⟩
  | succ n ih =>
    obtain ⟨content', msg', hstage, hr⟩ := ih
    obtain ⟨isLast, hge, hconsume⟩ := hstage.consume_failed maxRetries
    -- the attempt is not the last, so the copy waits and its timer sends the next one
    cases isLast with
    | true => exact absurd hge (hnever n)
    | false =>
      have hretry := hstage.retry hids
      rw [if_pos haccepts] at hretry
      obtain ⟨copy, hcopy, hnext⟩ := hretry
      refine ⟨_, _, hnext, ?_⟩
      have hwaiting := reach_failed hr
      rw [hconsume] at hwaiting
      have hfire : Copies.Step rt maxRetries ⟨[], [], [(content', msg')], [], n + 1, 0⟩ .fire
          ⟨[rt.stringify copy], [], [], [], n + 1, 0⟩ := .fire 0 content' msg' _ rfl hcopy
      exact .step hwaiting (by exact trivial) hfire

theorem not_noPoison (h : ∀ n, ∃ s, (redelivery rt maxRetries content).Reach Unsuccessful s ∧
    s.delivered = n) : ¬ NoPoison rt maxRetries content := by
  rintro ⟨n, hn⟩
  obtain ⟨s, hr, hs⟩ := h (n + 1)
  have hle := (hn s hr).1
  omega

theorem noPoison_of_harmless (hids : rt.PlainIds) (h : rt.Harmless maxRetries content) :
    NoPoison rt maxRetries content := by
  obtain ⟨msg, hparsed, hreceived, hends⟩ := h
  have hstage : Stage rt msg 0 content msg :=
    ⟨hparsed, hreceived, rfl, rfl, fun h => absurd h (Nat.lt_irrefl 0)⟩
  -- a message whose id is refused is never sent again: it has to end at once
  have hid : rt.accepts (msg.get? "messageId") = false → Under rt maxRetries msg 0 := by
    intro hrefused
    rw [if_neg (by simp [hrefused])] at hends
    exact hends
  have hlast : ∃ n, rt.accepts (msg.get? "messageId") = true → ¬ Under rt maxRetries msg n := by
    by_cases haccepts : rt.accepts (msg.get? "messageId") = true
    · rw [if_pos haccepts] at hends
      obtain ⟨k, hk⟩ := hends
      refine ⟨k, fun _ hunder => ?_⟩
      rw [Under, hk] at hunder
      cases hunder
    · exact ⟨0, fun h => absurd h haccepts⟩
  obtain ⟨n, hn⟩ := hlast
  -- the first attempt at the limit bounds the number of deliveries
  refine ⟨n + 1, fun s hr => ?_⟩
  have hu : Underway rt maxRetries msg s := by
    apply hr.invariant
    · rintro s rfl
      exact .queued hstage fun j hj => absurd hj (Nat.not_lt_zero j)
    · intro s l s' _ hu hl hs
      exact hu.step hids hid hl hs
  exact ⟨hu.delivered_le hn, hu.of_left⟩

theorem harmless_of_noPoison (hids : rt.PlainIds) (h : NoPoison rt maxRetries content) :
    rt.Harmless maxRetries content := by
  -- content that goes back to the queue is delivered as often as one likes
  have hsettled : rt.consume maxRetries content .failed ≠ .requeued := by
    intro hrequeued
    exact not_noPoison (fun n => ⟨_, requeued_again hrequeued n, rfl⟩) h
  cases hparsed : rt.parse content with
  | none =>
    refine absurd ?_ hsettled
    rw [Runtime.consume, hparsed]
    rfl
  | some msg =>
    cases hreceived : rt.received msg with
    | none =>
      refine absurd ?_ hsettled
      rw [Runtime.consume, hparsed, Option.bind_some, Runtime.handle, hreceived]
      rfl
    | some line =>
      have hstage : Stage rt msg 0 content msg :=
        ⟨hparsed, by rw [hreceived]; rfl, rfl, rfl, fun h => absurd h (Nat.lt_irrefl 0)⟩
      refine ⟨msg, hparsed, hstage.received, ?_⟩
      split
      · next haccepts =>
        -- without a last attempt there is a copy after every copy
        by_contra hnever
        refine not_noPoison (fun n => ?_) h
        obtain ⟨content', msg', -, hr⟩ :=
          retried_again hids hstage haccepts (fun k hk => hnever ⟨k, hk⟩) n
        exact ⟨_, hr, rfl⟩
      · next hrefused =>
        obtain ⟨isLast, hge, hconsume⟩ := hstage.consume_failed maxRetries
        cases isLast with
        | false => exact hge
        | true =>
          refine absurd ?_ hsettled
          rw [hconsume, if_pos rfl, Runtime.send, if_neg hrefused]

/-- For every content and every text of `WORKER_RETRIES`. -/
theorem redelivery_bounded_iff (rt : Runtime β) (hids : rt.PlainIds)
    (workerRetries : Option String) (content : β) :
    NoPoison rt (rt.maxRetries workerRetries) content ↔
      rt.Harmless (rt.maxRetries workerRetries) content :=
  ⟨harmless_of_noPoison hids, noPoison_of_harmless hids⟩

/-! ## Attempts that come to an end, and others -/

theorem attemptAfter_add (c : Conversions) (attempt : Option Json) (j k : Nat) :
    attemptAfter c attempt (j + k) = attemptAfter c (attemptAfter c attempt j) k := by
  induction k with
  | zero => rfl
  | succ k ih =>
    show (Json.plus? c (attemptAfter c attempt (j + k)) _).map _ = _
    rw [ih]
    rfl

/-- Integers are counted on as long as they are safe. -/
theorem attemptAfter_int (c : Conversions) {a : Int} (hlow : -2 ^ 53 ≤ a) {k : Nat}
    (hhigh : a + k ≤ 2 ^ 53) :
    attemptAfter c (some (.num (.ofInt a))) k = some (.num (.ofInt (a + k))) := by
  induction k with
  | zero => simp [attemptAfter]
  | succ k ih =>
    push_cast at hhigh
    have hsafe : |a + k + 1| ≤ 2 ^ 53 := abs_le.mpr ⟨by omega, by omega⟩
    rw [attemptAfter, ih (by omega)]
    show some (Json.num ((Number.ofInt (a + k)).plus (.ofInt 1))).written = _
    rw [Number.plus_safe hsafe]
    push_cast
    rw [add_assoc]
    rfl

theorem exists_ge_of_int (c : Conversions) {a R : Int} (hlow : -2 ^ 53 ≤ a) (ha : a ≤ 2 ^ 53)
    (hR : R ≤ 2 ^ 53) :
    ∃ k, Json.ge? c (attemptAfter c (some (.num (.ofInt a))) k) (.ofInt R) = some true := by
  refine ⟨(R - a).toNat, ?_⟩
  rw [attemptAfter_int c hlow (by omega)]
  show some ((Number.ofInt _).ge _) = _
  rw [Number.ge_ofInt, decide_eq_true (by omega)]

/-- A message whose attempt is a safe integer, as the shop publishes it, is harmless. -/
theorem harmless_of_int {a R : Int} (hparsed : rt.parse content = some msg)
    (hreceived : (rt.received msg).isSome = true)
    (haccepts : rt.accepts (msg.get? "messageId") = true)
    (hattempt : msg.get? "attempt" = some (.num (.ofInt a))) (hlow : -2 ^ 53 ≤ a) (ha : a ≤ 2 ^ 53)
    (hR : R ≤ 2 ^ 53) : rt.Harmless (.ofInt R) content := by
  refine ⟨msg, hparsed, hreceived, ?_⟩
  rw [if_pos haccepts, hattempt]
  exact exists_ge_of_int _ hlow ha hR

/-- Without an attempt the retries count `NaN`, `null`, 1 and so on. -/
theorem harmless_of_no_attempt {R : Int} (hparsed : rt.parse content = some msg)
    (hreceived : (rt.received msg).isSome = true)
    (haccepts : rt.accepts (msg.get? "messageId") = true) (hattempt : msg.get? "attempt" = none)
    (hR : R ≤ 2 ^ 53) : rt.Harmless (.ofInt R) content := by
  refine ⟨msg, hparsed, hreceived, ?_⟩
  rw [if_pos haccepts, hattempt]
  have hsecond : attemptAfter rt.toConversions none 2 = some (.num (.ofInt 1)) := by
    show some (Json.num ((Number.ofInt 0).plus (.ofInt 1))).written = _
    rw [Number.plus_safe (by decide)]
    rfl
  have hfirst : (-2 ^ 53 : Int) ≤ 1 := by decide
  obtain ⟨k, hk⟩ := exists_ge_of_int rt.toConversions hfirst (by decide) hR
  refine ⟨2 + k, ?_⟩
  rw [attemptAfter_add, hsecond]
  exact hk

/-- When `WORKER_RETRIES` is no number, no attempt is the last. -/
theorem not_harmless_of_nan (hparsed : rt.parse content = some msg)
    (haccepts : rt.accepts (msg.get? "messageId") = true) : ¬ rt.Harmless .nan content := by
  rintro ⟨msg', hparsed', -, hends⟩
  obtain rfl := Option.some.inj (hparsed.symm.trans hparsed')
  rw [if_pos haccepts] at hends
  obtain ⟨k, hk⟩ := hends
  obtain ⟨n, -, hn⟩ := Option.map_eq_some_iff.mp hk
  cases n <;> cases hn

/-! ## The messages of the shop -/

/-- On the value of a message the handler decides as it does on the message. -/
theorem consume_typed {c : Copy} (tag : Nat) (hparsed : rt.parse content = some msg)
    (hreceived : (rt.received msg).isSome = true)
    (haccepts : rt.accepts (msg.get? "messageId") = true)
    (hattempt : msg.get? "attempt" = some (.num c.message.attempt)) :
    if c.message.attempt.ge maxRetries then
      rt.consume maxRetries content .failed = .dead (rt.stringify msg) ∧
        (consume maxRetries .none tag c false).exec =
          (.ok false, [.publish tag .dlq c, .ack tag])
    else rt.consume maxRetries content .failed = .waits msg ∧
      (consume maxRetries .none tag c false).exec = (.ok true, []) := by
  have hstage : Stage rt msg 0 content msg :=
    ⟨hparsed, hreceived, rfl, rfl, fun h => absurd h (Nat.lt_irrefl 0)⟩
  obtain ⟨isLast, hge, hconsume⟩ := hstage.consume_failed maxRetries
  rw [attemptAfter, hattempt] at hge
  obtain rfl : c.message.attempt.ge maxRetries = isLast := Option.some.inj hge
  have htyped := (consume_none maxRetries tag c).2
  split
  · next h =>
    rw [if_pos h, Runtime.send, if_pos haccepts] at hconsume
    exact ⟨hconsume, htyped.trans (if_pos h)⟩
  · next h =>
    rw [if_neg h] at hconsume
    exact ⟨hconsume, htyped.trans (if_neg h)⟩

/-- And so does its timer. -/
theorem retryCopy_typed {c : Copy} (hmsg : msg.get? "attempt" = some (.num c.message.attempt)) :
    ∃ copy, retryCopy rt.toConversions msg = some copy ∧
      copy.get? "attempt" = some (.num c.retry.message.attempt) := by
  refine ⟨msg.withField "attempt" (.num c.retry.message.attempt), ?_, Json.get?_withField_self ..⟩
  rw [retryCopy, hmsg]
  rfl

end Runtime

/-! ## A content that is no JSON -/

/-- A message whose id is `null`, with an attempt at which `+ 1` changes nothing. -/
def largest : Json := .obj [("messageId", .null), ("attempt", .num (.finite (2 ^ 53)))]

def largestText : String := "\x7b\"messageId\":null,\"attempt\":9007199254740992\x7d"

theorem largest_retry (c : Conversions) : retryCopy c largest = some largest := by
  have hround : Number.round (2 ^ 53 + 1) = .finite (2 ^ 53) := by decide +kernel
  show some (Json.obj [("messageId", .null), ("attempt", .num (Number.round (2 ^ 53 + 1)))]) = _
  rw [hround]
  rfl

/-- A runtime on which one text alone is JSON. -/
def oneText : Runtime String where
  toNumber text := if text = "3" then .ofInt 3 else .nan
  numberText n := if n = .ofInt 3 then "3" else "9007199254740992"
  parse content := if content = largestText then some largest else none
  stringify _ := largestText
  accepts
    | none => true
    | some .null => true
    | some (.str s) => s.utf8ByteSize < 256
    | _ => false
  parse_stringify := by
    intro content msg copy hparsed hcopy
    obtain ⟨-, hmsg⟩ := Option.ite_none_right_eq_some.mp hparsed
    obtain rfl := Option.some.inj hmsg
    rw [largest_retry] at hcopy
    obtain rfl := Option.some.inj hcopy
    rfl

theorem oneText_plainIds : oneText.PlainIds := by
  intro v hv
  cases v with
  | null => exact .inl rfl
  | str s => exact .inr ⟨s, rfl⟩
  | _ => cases hv

/-- What `JSON.parse` refuses goes back to the queue each time. -/
theorem not_json_redelivered :
    ¬ NoPoison oneText (oneText.maxRetries (some "3")) "not JSON" :=
  not_noPoison fun n => ⟨_, requeued_again (by rfl) n, rfl⟩

/-- The other text is at its last attempt, and its id is sent. -/
theorem largest_bounded : NoPoison oneText (oneText.maxRetries (some "3")) largestText := by
  refine (redelivery_bounded_iff oneText oneText_plainIds (some "3") largestText).mpr ?_
  exact ⟨largest, rfl, rfl, 0, by decide +kernel⟩

end Ecommerce.Worker
