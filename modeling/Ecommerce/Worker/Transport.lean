import Ecommerce.Orders.ProcessOrderMessage
import Ecommerce.Worker.Redelivery

/-!
# Transport — from a producer's message to what its consumer gets

A message goes through `JSON.stringify`, the broker and `JSON.parse`.  The messages of the debug
route come through the validation pipe before that, which removes every property without a decorator
of `class-validator`, and `ProcessOrderMessageDto` has none.
-/

namespace Ecommerce

/-! ## What is written and read again unchanged -/

namespace Json

mutual

/-- No NaN and no infinite number, which are written as `null`. -/
def finite : Json → Bool
  | .num (.finite _) => true
  | .num _ => false
  | .arr elems => finiteElems elems
  | .obj fields => finiteFields fields
  | _ => true

def finiteElems : List Json → Bool
  | [] => true
  | v :: vs => finite v && finiteElems vs

def finiteFields : List (String × Json) → Bool
  | [] => true
  | (_, v) :: fields => finite v && finiteFields fields

end

mutual

theorem written_eq_self_iff (v : Json) : v.written = v ↔ v.finite = true := by
  match v with
  | .null => simp [written, finite]
  | .bool b => simp [written, finite]
  | .num n => cases n <;> simp [written, finite]
  | .str s => simp [written, finite]
  | .arr elems =>
    rw [written, finite, ← writtenElems_eq_self_iff, Json.arr.injEq]
  | .obj fields =>
    rw [written, finite, ← writtenFields_eq_self_iff, Json.obj.injEq]

theorem writtenElems_eq_self_iff (vs : List Json) :
    writtenElems vs = vs ↔ finiteElems vs = true := by
  match vs with
  | [] => simp [writtenElems, finiteElems]
  | v :: vs =>
    rw [writtenElems, finiteElems, List.cons.injEq, Bool.and_eq_true, written_eq_self_iff,
      writtenElems_eq_self_iff]

theorem writtenFields_eq_self_iff (fields : List (String × Json)) :
    writtenFields fields = fields ↔ finiteFields fields = true := by
  match fields with
  | [] => simp [writtenFields, finiteFields]
  | (key, v) :: fields =>
    rw [writtenFields, finiteFields, List.cons.injEq, Prod.mk.injEq, Bool.and_eq_true,
      written_eq_self_iff, writtenFields_eq_self_iff, and_iff_right rfl]

end

/-- The property is missing, or can be written. -/
def FiniteAt (v : Json) (key : String) : Prop := ∀ x, v.get? key = some x → x.finite = true

theorem get?_written_eq_iff (v : Json) (key : String) :
    v.written.get? key = v.get? key ↔ v.FiniteAt key := by
  rw [get?_written, FiniteAt]
  cases v.get? key with
  | none => simp
  | some x => simp [written_eq_self_iff]

theorem finiteAt_of_finite {v : Json} (h : v.finite = true) (key : String) : v.FiniteAt key := by
  rw [← get?_written_eq_iff, (written_eq_self_iff v).mpr h]

/-! ## The validation pipe -/

/-- `plainToInstance`: the properties of the body over those the constructor sets. -/
def plainToInstance (defaults : List (String × Json)) (fields : List (String × Json)) : Json :=
  fields.foldl (fun e f => e.withField f.1 f.2) (.obj defaults)

/-- `whitelist: true`: the properties without a decorator are deleted. -/
def whitelist (decorated : List String) (v : Json) : Json :=
  .obj (v.spread.filter fun f => f.1 ∈ decorated)

theorem whitelist_nil (v : Json) : v.whitelist [] = .obj [] := by
  rw [whitelist, List.filter_eq_nil_iff.mpr]
  intro f _
  simp

end Json

/-! ## The messages -/

namespace Orders

def SimulatedFailure.toJson (failure : SimulatedFailure) : Json :=
  .obj (("reason", .str failure.reason) ::
    (failure.stopOnAttempt.map fun n => ("stopOnAttempt", Json.num n)).toList)

/-- The properties of an instance of `ProcessOrderMessageDto`, a date as its ISO text. -/
def ProcessOrderMessage.toJson (iso : Date → String) (m : ProcessOrderMessage) : Json :=
  .obj ([("messageId", .str m.messageId.text), ("orderId", .str m.orderId.text),
      ("createdAt", .str (iso m.createdAt)), ("attempt", .num m.attempt)] ++
    (m.simulateFailure.map fun failure => ("simulateFailure", failure.toJson)).toList)

end Orders

namespace Worker

open Orders

/-- The properties of `ProcessOrderMessageDto`. -/
def messageKeys : List String :=
  ["messageId", "orderId", "createdAt", "attempt", "simulateFailure"]

/-- Those of them that have a decorator of `class-validator`. -/
def decoratedKeys : List String := []

/-- What `ValidationPipe` makes of the body of `POST /debug/orders/process`. -/
def debugPipe (iso : Date → String) (now : Date) (fields : List (String × Json)) : Json :=
  (Json.plainToInstance [("createdAt", .str (iso now)), ("attempt", .num (.ofInt 1))]
    fields).whitelist decoratedKeys

/-- A body for the debug route, with everything but an optional `simulateFailure`. -/
structure DebugBody where
  fields : List (String × Json)
  complete : ∀ key ∈ ["messageId", "orderId", "createdAt", "attempt"],
    (fields.lookup key).isSome = true

/-- A message as its producer is given it. -/
inductive Produced where
  -- by `createOrder`, for the order it has created
  | created (orderId : UUID) (now : Date)
  -- by the timer of the worker, for what it has received
  | retried (msg : Json)
  -- by the worker for `orders.dlq`, of what it has received
  | deadLettered (msg : Json)
  -- by `POST /debug/orders/process`
  | debug (body : DebugBody) (now : Date)

namespace Produced

section Producers

variable (c : Conversions) (iso : Date → String)

/-- The message given to the producer; `none` when there is none, after a `TypeError`. -/
def given : Produced → Option Json
  | .created orderId now => some ((ProcessOrderMessage.new orderId orderId now).toJson iso)
  | .retried msg => retryCopy c msg
  | .deadLettered msg => some msg
  | .debug body _ => some (.obj body.fields)

/-- The argument of `send`. -/
def handed : Produced → Option Json
  | .debug body now => some (debugPipe iso now body.fields)
  | p => p.given c iso

end Producers

/-- What is put on the queue; `none` when `send` throws. -/
def content {β : Type} (rt : Runtime β) (iso : Date → String) (p : Produced) : Option β :=
  (p.handed rt.toConversions iso).bind rt.send

end Produced

/-- The message that is received is the one that was given. -/
def Arrives (given received : Json) : Prop :=
  ∀ key ∈ messageKeys, received.get? key = given.get? key

/-- What is read again is what was written, except for numbers that JSON does not have. -/
def Runtime.RoundTrips {β : Type} (rt : Runtime β) : Prop :=
  ∀ v : Json, rt.parse (rt.stringify v) = some v.written

/-! ## When a message arrives -/

/-- An attempt to which 1 can be added so that the sum can be written. -/
def Counts (attempt : Option Json) : Prop :=
  attempt ≠ none ∧ ∀ k, attempt = some (.num k) → ∃ q, k.plus (.ofInt 1) = .finite q

/-- What has to hold of a message so that it arrives. -/
def Produced.Sound : Produced → Prop
  | .created _ _ => True
  | .retried msg => (∀ key ∈ messageKeys, key ≠ "attempt" → msg.FiniteAt key) ∧
      Counts (msg.get? "attempt")
  | .deadLettered msg => ∀ key ∈ messageKeys, msg.FiniteAt key
  | .debug _ _ => False

section Laws

variable {c : Conversions} {iso : Date → String}

theorem toString_ne_messageKey {key : String} (hkey : key ∈ messageKeys) (i : Nat) :
    toString i ≠ key := by
  have hletter : ∀ key ∈ messageKeys, (key.toList.any fun ch => !ch.isDigit) = true := by
    decide +kernel
  obtain ⟨ch, hmem, hch⟩ := List.any_eq_true.mp (hletter key hkey)
  exact Json.toString_ne_of_not_digit ch hmem (by simpa using hch) i

/-- A message that is handed over as it was given arrives if it can be written. -/
theorem arrives_written_iff (v : Json) :
    Arrives v v.written ↔ ∀ key ∈ messageKeys, v.FiniteAt key :=
  forall₂_congr fun key _ => Json.get?_written_eq_iff v key

theorem finite_toJson (m : ProcessOrderMessage) (hattempt : m.attempt = .ofInt 1)
    (hfailure : m.simulateFailure = none) : (m.toJson iso).finite = true := by
  rw [ProcessOrderMessage.toJson, hattempt, hfailure]
  rfl

theorem counts_of_not_num {v : Json} (h : ∀ k, v ≠ .num k) : Counts (some v) :=
  ⟨Option.some_ne_none v, fun k heq => absurd (Option.some.inj heq) (h k)⟩

/-- The sum a retry writes is a number or a text. -/
theorem finite_plus_iff {attempt : Option Json} {x : Json}
    (h : Json.plus? c attempt (.ofInt 1) = some x) : x.finite = true ↔ Counts attempt := by
  have hsafe : ∀ a : Int, |a + 1| ≤ 2 ^ 53 →
      (Json.num ((Number.ofInt a).plus (.ofInt 1))).finite = true := by
    intro a ha
    rw [Number.plus_safe ha]
    rfl
  match attempt with
  | none =>
    obtain rfl : Json.num .nan = x := Option.some.inj h
    exact iff_of_false (by simp [Json.finite]) fun hcounts => hcounts.1 rfl
  | some .null =>
    obtain rfl : Json.num ((Number.ofInt 0).plus (.ofInt 1)) = x := Option.some.inj h
    exact iff_of_true (hsafe 0 (by decide)) (counts_of_not_num fun k heq => by cases heq)
  | some (.bool b) =>
    obtain rfl : Json.num ((Number.ofInt (if b then 1 else 0)).plus (.ofInt 1)) = x :=
      Option.some.inj h
    exact iff_of_true (hsafe _ (by cases b <;> decide)) (counts_of_not_num fun k heq => by cases heq)
  | some (.num k) =>
    obtain rfl : Json.num (k.plus (.ofInt 1)) = x := Option.some.inj h
    have hcounts : Counts (some (.num k)) ↔ ∃ q, k.plus (.ofInt 1) = .finite q := by
      simp [Counts]
    rw [hcounts]
    cases k.plus (.ofInt 1) <;> simp [Json.finite]
  | some (.str s) =>
    obtain rfl : Json.str (s ++ c.numberText (.ofInt 1)) = x := Option.some.inj h
    exact iff_of_true rfl (counts_of_not_num fun k heq => by cases heq)
  | some (.arr elems) =>
    obtain ⟨t, -, rfl⟩ := Option.map_eq_some_iff.mp h
    exact iff_of_true rfl (counts_of_not_num fun k heq => by cases heq)
  | some (.obj fields) =>
    obtain ⟨t, -, rfl⟩ := Option.map_eq_some_iff.mp h
    exact iff_of_true rfl (counts_of_not_num fun k heq => by cases heq)

/-- The retry copy has the attempt after, and the other properties as they were. -/
theorem retryCopy_finiteAt {msg copy : Json} (h : retryCopy c msg = some copy) :
    (∀ key ∈ messageKeys, copy.FiniteAt key) ↔
      (∀ key ∈ messageKeys, key ≠ "attempt" → msg.FiniteAt key) ∧ Counts (msg.get? "attempt") := by
  obtain ⟨x, hx, rfl⟩ := Option.map_eq_some_iff.mp h
  have hattempt : (msg.withField "attempt" x).FiniteAt "attempt" ↔ Counts (msg.get? "attempt") := by
    rw [Json.FiniteAt, Json.get?_withField_self, ← finite_plus_iff hx]
    simp
  have hother : ∀ key ∈ messageKeys, key ≠ "attempt" →
      ((msg.withField "attempt" x).FiniteAt key ↔ msg.FiniteAt key) := by
    intro key hkey hne
    rw [Json.FiniteAt, Json.FiniteAt,
      Json.get?_withField_of_ne msg x hne (toString_ne_messageKey hkey)]
  constructor
  · intro hall
    exact ⟨fun key hkey hne => (hother key hkey hne).mp (hall key hkey),
      hattempt.mp (hall "attempt" (by decide))⟩
  · rintro ⟨hothers, hcounts⟩ key hkey
    by_cases heq : key = "attempt"
    · exact heq ▸ hattempt.mpr hcounts
    · exact (hother key hkey heq).mpr (hothers key hkey heq)

/-- Of a message that came through the pipe nothing is left. -/
theorem debugPipe_eq (iso : Date → String) (now : Date) (fields : List (String × Json)) :
    debugPipe iso now fields = .obj [] :=
  Json.whitelist_nil _

variable {β : Type} {rt : Runtime β}

/-- A message on a queue arrives as it was given to its producer exactly when it did not come
through the debug route and holds no number that JSON does not have; a retry copy holds one also
when the received message has no attempt. -/
theorem arrives_iff_sound (hjson : rt.RoundTrips) {p : Produced} {given : Json} {content : β}
    (hgiven : p.given rt.toConversions iso = some given) (hcontent : p.content rt iso = some content) :
    (∃ received, rt.parse content = some received ∧ Arrives given received) ↔ p.Sound := by
  obtain ⟨handed, hhanded, hsend⟩ := Option.bind_eq_some_iff.mp hcontent
  obtain ⟨-, hstringify⟩ := Option.ite_none_right_eq_some.mp hsend
  obtain rfl := Option.some.inj hstringify
  -- what is read is what was written of the argument of `send`
  have hreceived : (∃ received, rt.parse (rt.stringify handed) = some received ∧
      Arrives given received) ↔ Arrives given handed.written := by
    rw [hjson handed]
    simp
  rw [hreceived]
  cases p with
  | created orderId now =>
    obtain rfl := Option.some.inj hgiven
    obtain rfl := Option.some.inj hhanded
    refine iff_of_true ((arrives_written_iff _).mpr fun key _ => ?_) trivial
    exact Json.finiteAt_of_finite (finite_toJson _ rfl rfl) key
  | retried msg =>
    obtain rfl : given = handed := Option.some.inj (hgiven.symm.trans hhanded)
    rw [arrives_written_iff]
    exact retryCopy_finiteAt hgiven
  | deadLettered msg =>
    obtain rfl := Option.some.inj hgiven
    obtain rfl := Option.some.inj hhanded
    exact arrives_written_iff msg
  | debug body now =>
    obtain rfl := Option.some.inj hgiven
    obtain rfl := Option.some.inj hhanded
    refine iff_of_false (fun harrives => ?_) id
    have hid := harrives "messageId" (by decide)
    rw [debugPipe_eq] at hid
    have hpresent : (body.fields.lookup "messageId").isSome = true := body.complete _ (by decide)
    rw [show body.fields.lookup "messageId" = none from hid.symm] at hpresent
    cases hpresent

end Laws

/-! ## Republications -/

/-- What is received after `n` retries of a received message. -/
def republished (c : Conversions) (msg : Json) : Nat → Option Json
  | 0 => some msg
  | n + 1 => (republished c msg n).bind fun m => (retryCopy c m).map Json.written

/-- However often it is republished, a message keeps its properties and counts its attempts. -/
theorem republished_eq {c : Conversions} {msg : Json} {a : Int}
    (hfinite : ∀ key ∈ messageKeys, key ≠ "attempt" → msg.FiniteAt key)
    (hattempt : msg.get? "attempt" = some (.num (.ofInt a))) (hlow : -2 ^ 53 ≤ a) (n : Nat)
    (hhigh : a + n ≤ 2 ^ 53) :
    ∃ m, republished c msg n = some m ∧ m.get? "attempt" = some (.num (.ofInt (a + n))) ∧
      ∀ key ∈ messageKeys, key ≠ "attempt" → m.get? key = msg.get? key := by
  induction n with
  | zero => exact ⟨msg, rfl, by simpa using hattempt, fun key _ _ => rfl⟩
  | succ n ih =>
    obtain ⟨m, hm, hcount, hsame⟩ := ih (by omega)
    have hsafe : |a + n + 1| ≤ 2 ^ 53 := abs_le.mpr ⟨by omega, by omega⟩
    have hcopy : retryCopy c m = some (m.withField "attempt" (.num (.ofInt (a + n + 1)))) := by
      rw [retryCopy, hcount]
      show some (m.withField "attempt" (.num ((Number.ofInt (a + n)).plus (.ofInt 1)))) = _
      rw [Number.plus_safe hsafe]
    refine ⟨(m.withField "attempt" (.num (.ofInt (a + n + 1)))).written, ?_, ?_, ?_⟩
    · rw [republished, hm, Option.bind_some, hcopy, Option.map_some]
    · rw [Json.get?_written, Json.get?_withField_self, Nat.cast_succ, ← add_assoc]
      rfl
    · intro key hkey hne
      rw [Json.get?_written, Json.get?_withField_of_ne m _ hne (toString_ne_messageKey hkey),
        hsame key hkey hne, ← Json.get?_written, (Json.get?_written_eq_iff msg key).mpr
          (hfinite key hkey hne)]

/-! ## A body from the documentation -/

def docDebugBody : DebugBody where
  fields := [("messageId", .str (UUID.ofNat 100).text), ("orderId", .str (UUID.ofNat 100).text),
    ("attempt", .num (.ofInt 1)), ("createdAt", .str "2025-01-01T00:00:00.000Z"),
    ("simulateFailure", .obj [("reason", .str "this is a test failure"),
      ("stopOnAttempt", .num (.ofInt 2))])]
  complete := by decide +kernel

/-- A message id is absent, `null` or a short string of the protocol. -/
def fitsMessageId : Option Json → Bool
  | none => true
  | some .null => true
  | some (.str s) => s.utf8ByteSize < 256
  | _ => false

/-- The contents of messages are values here, with what JSON does not have taken out. -/
def plainRuntime : Runtime Json where
  toNumber _ := .nan
  numberText _ := ""
  parse := some
  stringify := Json.written
  accepts := fitsMessageId
  parse_stringify _ _ _ _ _ := rfl

def docIso : Date → String := fun _ => "2025-01-01T00:00:00.000Z"

/-- The body goes through the pipe, and the worker receives an empty object. -/
theorem debug_body_lost : ∃ content,
    (Produced.debug docDebugBody 0).content plainRuntime docIso = some content ∧
      plainRuntime.parse content = some (.obj []) ∧
      ¬ Arrives (.obj docDebugBody.fields) (.obj []) := by
  refine ⟨.obj [], ?_, rfl, fun harrives => ?_⟩
  · rw [Produced.content, Produced.handed, debugPipe_eq]
    rfl
  · exact absurd (harrives "messageId" (by decide)) (by simp [Json.get?, docDebugBody])

/-- The message of an order, as the worker receives it. -/
def orderMessage : Json := (ProcessOrderMessage.new (.ofNat 100) (.ofNat 100) 0).toJson docIso

/-- Its first retry arrives. -/
theorem retried_message_arrives : ∃ given content,
    (Produced.retried orderMessage).given plainRuntime.toConversions docIso = some given ∧
      given.get? "attempt" = some (.num (.ofInt 2)) ∧
      (Produced.retried orderMessage).content plainRuntime docIso = some content ∧
      ∃ received, plainRuntime.parse content = some received ∧ Arrives given received := by
  have hone : (Number.ofInt 1).plus (.ofInt 1) = .ofInt 2 := Number.plus_safe (by decide)
  have hattempt : orderMessage.get? "attempt" = some (.num (.ofInt 1)) := rfl
  have hgiven : (Produced.retried orderMessage).given plainRuntime.toConversions docIso =
      some (orderMessage.withField "attempt" (.num (.ofInt 2))) := by
    rw [Produced.given, retryCopy, hattempt, ← hone]
    rfl
  have haccepts : plainRuntime.accepts
      ((orderMessage.withField "attempt" (.num (.ofInt 2))).get? "messageId") = true := by
    rw [Json.get?_withField_of_ne _ _ (by decide) (toString_ne_messageKey (by decide))]
    decide +kernel
  have hcontent : (Produced.retried orderMessage).content plainRuntime docIso =
      some (orderMessage.withField "attempt" (.num (.ofInt 2))).written := by
    show ((Produced.retried orderMessage).given plainRuntime.toConversions docIso).bind _ = _
    rw [hgiven, Option.bind_some, Runtime.send, if_pos haccepts]
    rfl
  refine ⟨_, _, hgiven, Json.get?_withField_self .., hcontent, ?_⟩
  refine (arrives_iff_sound (fun _ => rfl) hgiven hcontent).mpr ⟨fun key _ _ => ?_, ?_⟩
  · exact Json.finiteAt_of_finite (finite_toJson _ rfl rfl) key
  · rw [hattempt]
    refine ⟨Option.some_ne_none _, fun k hk => ⟨2, ?_⟩⟩
    rw [← Json.num.inj (Option.some.inj hk), hone]
    rfl

end Worker

end Ecommerce
