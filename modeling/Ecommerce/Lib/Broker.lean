import Mathlib.Data.List.Nodup
import Mathlib.Logic.Function.Basic

/-!
# Broker — a message broker with acknowledgements

Queues hold messages; a delivery stays unsettled until an `ack` or a `reject` for it takes effect.
Each client has one channel, whose frames are taken in the order they were written.  When a channel
closes, frames not yet taken are lost and its unsettled deliveries go back to their queues.

`Ok` is the invariant of clients that settle each delivery at most once, and only while it is
unsettled.
-/

namespace Amqp

variable {π ρ α : Type*}

/-- What a client writes to its channel.  `tag` of a `publish` is the delivery it is written for,
for the statements only. -/
inductive Frame (ρ α : Type*) where
  | publish (tag : Nat) (queue : ρ) (message : α)
  | ack (tag : Nat)
  -- back to its queue
  | reject (tag : Nat)

structure Delivery (π ρ α : Type*) where
  tag : Nat
  owner : π
  queue : ρ
  message : α

/-- What has taken effect at the broker; no operation reads it. -/
inductive Event (ρ α : Type*) where
  | put (tag : Nat) (queue : ρ) (message : α)
  | acked (tag : Nat) (message : α)
  | rejected (tag : Nat)

structure Broker (π ρ α : Type*) where
  queues : ρ → List α
  unsettled : List (Delivery π ρ α)
  isOpen : π → Bool
  -- the frames written to each channel and not yet taken
  wire : π → List (Frame ρ α)
  nextTag : Nat
  log : List (Event ρ α)

namespace Broker

variable [DecidableEq π] [DecidableEq ρ]

def initial : Broker π ρ α where
  queues := fun _ => []
  unsettled := []
  isOpen := fun _ => false
  wire := fun _ => []
  nextTag := 0
  log := []

def put (b : Broker π ρ α) (q : ρ) (m : α) : Broker π ρ α :=
  { b with queues := Function.update b.queues q (b.queues q ++ [m]) }

def openChannel (b : Broker π ρ α) (p : π) : Broker π ρ α :=
  { b with isOpen := Function.update b.isOpen p true }

/-- The message at position `i` of the queue goes to the client `p`. -/
def deliver (b : Broker π ρ α) (p : π) (q : ρ) (i : Nat) : Option (Broker π ρ α × α) :=
  match (b.queues q)[i]? with
  | some m =>
    if b.isOpen p then
      some ({ b with
        queues := Function.update b.queues q ((b.queues q).eraseIdx i)
        unsettled := b.unsettled ++ [⟨b.nextTag, p, q, m⟩]
        nextTag := b.nextTag + 1 }, m)
    else none
  | none => none

def write (b : Broker π ρ α) (p : π) (fs : List (Frame ρ α)) : Broker π ρ α :=
  { b with wire := Function.update b.wire p (b.wire p ++ fs) }

/-- The unsettled deliveries of `p` go back, and what `p` has written is lost. -/
def close (b : Broker π ρ α) (p : π) : Broker π ρ α :=
  { b with
    queues := fun q => b.queues q ++
      (b.unsettled.filter fun d => d.owner = p ∧ d.queue = q).map (·.message)
    unsettled := b.unsettled.filter (·.owner ≠ p)
    isOpen := Function.update b.isOpen p false
    wire := Function.update b.wire p [] }

def settle (b : Broker π ρ α) (tag : Nat) : Broker π ρ α :=
  { b with unsettled := b.unsettled.filter (·.tag ≠ tag) }

def record (b : Broker π ρ α) (e : Event ρ α) : Broker π ρ α := { b with log := b.log ++ [e] }

/-- The delivery a frame of `p` with this tag is about. -/
def delivery? (b : Broker π ρ α) (p : π) (tag : Nat) : Option (Delivery π ρ α) :=
  b.unsettled.find? fun d => d.tag = tag ∧ d.owner = p

/-- `fs` is left of what `p` has written. -/
def rest (b : Broker π ρ α) (p : π) (fs : List (Frame ρ α)) : Broker π ρ α :=
  { b with wire := Function.update b.wire p fs }

/-- The broker takes the next frame of `p`.  An unknown tag is a channel error. -/
def take (b : Broker π ρ α) (p : π) : Option (Broker π ρ α) :=
  match b.wire p with
  | [] => none
  | .publish tag q m :: fs => some (((b.rest p fs).put q m).record (.put tag q m))
  | .ack tag :: fs =>
    match b.delivery? p tag with
    | some d => some (((b.rest p fs).settle tag).record (.acked tag d.message))
    | none => some (b.close p)
  | .reject tag :: fs =>
    match b.delivery? p tag with
    | some d => some ((((b.rest p fs).settle tag).put d.queue d.message).record (.rejected tag))
    | none => some (b.close p)

end Broker

/-- The tags a list of frames settles. -/
def settles (fs : List (Frame ρ α)) : List Nat :=
  fs.filterMap fun f => match f with
    | .publish _ _ _ => none
    | .ack tag => some tag
    | .reject tag => some tag

/-- The tags whose settlement has taken effect. -/
def settled (log : List (Event ρ α)) : List Nat :=
  log.filterMap fun e => match e with
    | .put _ _ _ => none
    | .acked tag _ => some tag
    | .rejected tag => some tag

@[simp] theorem settles_nil : settles ([] : List (Frame ρ α)) = [] := rfl

@[simp] theorem settles_publish (tag : Nat) (q : ρ) (m : α) (fs : List (Frame ρ α)) :
    settles (.publish tag q m :: fs) = settles fs := rfl

@[simp] theorem settles_ack (tag : Nat) (fs : List (Frame ρ α)) :
    settles (.ack tag :: fs) = tag :: settles fs := rfl

@[simp] theorem settles_reject (tag : Nat) (fs : List (Frame ρ α)) :
    settles (.reject tag :: fs) = tag :: settles fs := rfl

theorem settles_append (fs gs : List (Frame ρ α)) :
    settles (fs ++ gs) = settles fs ++ settles gs := List.filterMap_append

theorem settled_append (es es' : List (Event ρ α)) :
    settled (es ++ es') = settled es ++ settled es' := List.filterMap_append

namespace Broker

variable [DecidableEq π] [DecidableEq ρ] {b b' : Broker π ρ α} {p : π}

omit [DecidableEq ρ] in
theorem write_nil (b : Broker π ρ α) (p : π) : b.write p [] = b := by
  simp [write]

/-- No delivery is settled twice, and every settling frame is about an unsettled delivery of its
own channel. -/
structure Ok (b : Broker π ρ α) : Prop where
  tags : (b.unsettled.map (·.tag)).Nodup
  fresh : ∀ d ∈ b.unsettled, d.tag < b.nextTag
  ownerOpen : ∀ d ∈ b.unsettled, b.isOpen d.owner = true
  closedWire : ∀ p, b.isOpen p = false → b.wire p = []
  known : ∀ p, ∀ tag ∈ settles (b.wire p), ∃ d ∈ b.unsettled, d.tag = tag ∧ d.owner = p
  wireOnce : ∀ p, (settles (b.wire p)).Nodup
  logOnce : (settled b.log).Nodup
  logPast : ∀ tag ∈ settled b.log, tag < b.nextTag ∧ ∀ d ∈ b.unsettled, d.tag ≠ tag

omit [DecidableEq π] [DecidableEq ρ] in
theorem ok_initial : Ok (initial : Broker π ρ α) := by
  refine ⟨List.nodup_nil, ?_, ?_, fun _ _ => rfl, ?_, fun _ => List.nodup_nil, List.nodup_nil, ?_⟩
  all_goals simp [initial, settled]

omit [DecidableEq π] in
theorem Ok.put (h : Ok b) (q : ρ) (m : α) : Ok (b.put q m) :=
  ⟨h.tags, h.fresh, h.ownerOpen, h.closedWire, h.known, h.wireOnce, h.logOnce, h.logPast⟩

omit [DecidableEq ρ] in
theorem Ok.openChannel (h : Ok b) (p : π) : Ok (b.openChannel p) where
  tags := h.tags
  fresh := h.fresh
  ownerOpen := by
    intro d hd
    by_cases hp : d.owner = p
    · simp [Broker.openChannel, hp]
    · simpa [Broker.openChannel, hp] using h.ownerOpen d hd
  closedWire := by
    intro p' hp'
    by_cases hp : p' = p
    · simp [Broker.openChannel, hp] at hp'
    · exact h.closedWire p' (by simpa [Broker.openChannel, hp] using hp')
  known := h.known
  wireOnce := h.wireOnce
  logOnce := h.logOnce
  logPast := h.logPast

omit [DecidableEq π] in
theorem deliver_cases {q : ρ} {i : Nat} {m : α} (h : b.deliver p q i = some (b', m)) :
    (b.queues q)[i]? = some m ∧ b.isOpen p = true ∧ b' = { b with
      queues := Function.update b.queues q ((b.queues q).eraseIdx i)
      unsettled := b.unsettled ++ [⟨b.nextTag, p, q, m⟩]
      nextTag := b.nextTag + 1 } := by
  unfold deliver at h
  split at h
  · rename_i m' hm
    split at h
    · rename_i hopen
      simp only [Option.some.injEq, Prod.mk.injEq] at h
      obtain ⟨rfl, rfl⟩ := h
      exact ⟨hm, hopen, rfl⟩
    · cases h
  · cases h

omit [DecidableEq π] in
theorem Ok.deliver (h : Ok b) {q : ρ} {i : Nat} {m : α} (hd : b.deliver p q i = some (b', m)) :
    Ok b' := by
  obtain ⟨-, hopen, rfl⟩ := deliver_cases hd
  refine ⟨?_, ?_, ?_, h.closedWire, ?_, h.wireOnce, h.logOnce, ?_⟩
  · rw [List.map_append, List.nodup_append]
    refine ⟨h.tags, List.nodup_singleton _, ?_⟩
    intro a ha c hc
    obtain ⟨d, hd, rfl⟩ := List.mem_map.mp ha
    rw [List.map_singleton, List.mem_singleton] at hc
    have := h.fresh d hd
    show d.tag ≠ c
    rw [hc]
    exact Nat.ne_of_lt this
  · intro d hd
    show d.tag < b.nextTag + 1
    rcases List.mem_append.mp hd with hd | hd
    · have := h.fresh d hd
      omega
    · rw [List.mem_singleton.mp hd]
      exact Nat.lt_succ_self _
  · intro d hd
    rcases List.mem_append.mp hd with hd | hd
    · exact h.ownerOpen d hd
    · rw [List.mem_singleton.mp hd]
      exact hopen
  · intro p' tag htag
    obtain ⟨d, hd, heq⟩ := h.known p' tag htag
    exact ⟨d, List.mem_append_left _ hd, heq⟩
  · intro tag htag
    obtain ⟨hlt, hne⟩ := h.logPast tag htag
    refine ⟨Nat.lt_succ_of_lt hlt, fun d hd => ?_⟩
    rcases List.mem_append.mp hd with hd | hd
    · exact hne d hd
    · rw [List.mem_singleton.mp hd]
      exact Nat.ne_of_gt hlt

omit [DecidableEq ρ] in
/-- The discipline of a client: it settles unsettled deliveries of its own that no frame of it has
settled yet. -/
theorem Ok.write (h : Ok b) {fs : List (Frame ρ α)} (hopen : fs ≠ [] → b.isOpen p = true)
    (hknown : ∀ tag ∈ settles fs, ∃ d ∈ b.unsettled, d.tag = tag ∧ d.owner = p)
    (honce : (settles fs).Nodup) (hnew : ∀ tag ∈ settles fs, tag ∉ settles (b.wire p)) :
    Ok (b.write p fs) where
  tags := h.tags
  fresh := h.fresh
  ownerOpen := h.ownerOpen
  closedWire := by
    intro p' hp'
    by_cases hp : p' = p
    · subst hp
      -- nothing is written to a closed channel
      have hnil : fs = [] := by
        by_contra hne
        exact absurd ((hopen hne).symm.trans hp') (by decide)
      simp [Broker.write, hnil, h.closedWire p' hp']
    · simpa [Broker.write, hp] using h.closedWire p' hp'
  known := by
    intro p' tag htag
    by_cases hp : p' = p
    · subst hp
      simp only [Broker.write, Function.update_self, settles_append, List.mem_append] at htag
      rcases htag with htag | htag
      · exact h.known p' tag htag
      · exact hknown tag htag
    · exact h.known p' tag (by simpa [Broker.write, hp] using htag)
  wireOnce := by
    intro p'
    by_cases hp : p' = p
    · subst hp
      simp only [Broker.write, Function.update_self, settles_append]
      rw [List.nodup_append]
      exact ⟨h.wireOnce p', honce, fun a ha c hc hac => hnew c hc (hac ▸ ha)⟩
    · simpa [Broker.write, hp] using h.wireOnce p'
  logOnce := h.logOnce
  logPast := h.logPast

theorem Ok.close (h : Ok b) (p : π) : Ok (b.close p) where
  tags := h.tags.sublist (List.filter_sublist.map _)
  fresh := fun d hd => h.fresh d (List.mem_of_mem_filter hd)
  ownerOpen := by
    intro d hd
    obtain ⟨hd, hp⟩ := List.mem_filter.mp hd
    -- what is still unsettled belongs to another client
    have hne : d.owner ≠ p := by simpa using hp
    simpa [Broker.close, hne] using h.ownerOpen d hd
  closedWire := by
    intro p' hp'
    by_cases hp : p' = p
    · simp [Broker.close, hp]
    · simpa [Broker.close, hp] using h.closedWire p' (by simpa [Broker.close, hp] using hp')
  known := by
    intro p' tag htag
    by_cases hp : p' = p
    · simp [Broker.close, hp] at htag
    · obtain ⟨d, hd, heq, howner⟩ := h.known p' tag (by simpa [Broker.close, hp] using htag)
      exact ⟨d, List.mem_filter.mpr ⟨hd, by simpa [howner] using hp⟩, heq, howner⟩
  wireOnce := by
    intro p'
    by_cases hp : p' = p
    · simp [Broker.close, hp]
    · simpa [Broker.close, hp] using h.wireOnce p'
  logOnce := h.logOnce
  logPast := by
    intro tag htag
    obtain ⟨hlt, hne⟩ := h.logPast tag htag
    exact ⟨hlt, fun d hd => hne d (List.mem_of_mem_filter hd)⟩

omit [DecidableEq ρ] in
theorem mem_of_delivery? {tag : Nat} {d : Delivery π ρ α} (h : b.delivery? p tag = some d) :
    d ∈ b.unsettled ∧ d.tag = tag ∧ d.owner = p := by
  have hp := List.find?_some h
  simp only [decide_eq_true_eq] at hp
  exact ⟨List.mem_of_find?_eq_some h, hp⟩

omit [DecidableEq ρ] in
theorem Ok.delivery?_ne_none (h : Ok b) {tag : Nat} (ht : tag ∈ settles (b.wire p)) :
    b.delivery? p tag ≠ none := by
  obtain ⟨d, hd, htag, howner⟩ := h.known p tag ht
  intro hnone
  have := List.find?_eq_none.mp hnone d hd
  simp [htag, howner] at this

/-- What taking a frame can do; there is no channel error. -/
inductive Take (b : Broker π ρ α) (p : π) : Broker π ρ α → Prop
  | publish (tag : Nat) (q : ρ) (m : α) (fs : List (Frame ρ α))
      (hw : b.wire p = .publish tag q m :: fs) :
      Take b p (((b.rest p fs).put q m).record (.put tag q m))
  | ack (d : Delivery π ρ α) (fs : List (Frame ρ α)) (hd : d ∈ b.unsettled) (hp : d.owner = p)
      (hw : b.wire p = .ack d.tag :: fs) :
      Take b p (((b.rest p fs).settle d.tag).record (.acked d.tag d.message))
  | reject (d : Delivery π ρ α) (fs : List (Frame ρ α)) (hd : d ∈ b.unsettled) (hp : d.owner = p)
      (hw : b.wire p = .reject d.tag :: fs) :
      Take b p ((((b.rest p fs).settle d.tag).put d.queue d.message).record (.rejected d.tag))

theorem Ok.take_cases (h : Ok b) (ht : b.take p = some b') : Take b p b' := by
  have hne : ∀ tag ∈ settles (b.wire p), b.delivery? p tag ≠ none :=
    fun tag htag => h.delivery?_ne_none htag
  unfold take at ht
  -- an ack or a reject of the client itself is about an unsettled delivery of its own
  split at ht
  · cases ht
  · rename_i tag q m fs hw
    rw [← Option.some.inj ht]
    exact .publish tag q m fs hw
  · rename_i tag fs hw
    split at ht
    · rename_i d hd
      obtain ⟨hmem, rfl, hp⟩ := mem_of_delivery? hd
      rw [← Option.some.inj ht]
      exact .ack d fs hmem hp hw
    · rename_i hnone
      exact absurd hnone (hne tag (by rw [hw]; exact List.mem_cons_self ..))
  · rename_i tag fs hw
    split at ht
    · rename_i d hd
      obtain ⟨hmem, rfl, hp⟩ := mem_of_delivery? hd
      rw [← Option.some.inj ht]
      exact .reject d fs hmem hp hw
    · rename_i hnone
      exact absurd hnone (hne tag (by rw [hw]; exact List.mem_cons_self ..))

omit [DecidableEq π] [DecidableEq ρ] in
/-- Two unsettled deliveries with one tag are the same. -/
theorem Ok.tag_inj (h : Ok b) {d d' : Delivery π ρ α} (hd : d ∈ b.unsettled)
    (hd' : d' ∈ b.unsettled) (heq : d.tag = d'.tag) : d = d' :=
  List.inj_on_of_nodup_map h.tags hd hd' heq

omit [DecidableEq ρ] in
/-- A frame that settles `d` is gone from the wire, and so is `d` from the unsettled ones. -/
theorem Ok.settle (h : Ok b) {d : Delivery π ρ α} (hd : d ∈ b.unsettled)
    (fs : List (Frame ρ α)) (hw : settles (b.wire d.owner) = d.tag :: settles fs)
    {e : Event ρ α} (he : settled [e] = [d.tag]) :
    Ok (((b.rest d.owner fs).settle d.tag).record e) := by
  have honce := h.wireOnce d.owner
  rw [hw, List.nodup_cons] at honce
  refine ⟨h.tags.sublist (List.filter_sublist.map _),
    fun d' hd' => h.fresh d' (List.mem_of_mem_filter hd'),
    fun d' hd' => h.ownerOpen d' (List.mem_of_mem_filter hd'), ?_, ?_, ?_, ?_, ?_⟩
  · intro p' hp'
    by_cases hp : p' = d.owner
    · rw [hp] at hp'
      exact absurd ((h.ownerOpen d hd).symm.trans hp') (by decide)
    · show Function.update b.wire d.owner fs p' = []
      rw [Function.update_of_ne hp]
      exact h.closedWire p' hp'
  · intro p' tag htag
    -- a frame that is left was there before, and is about another delivery
    have hold : tag ∈ settles (b.wire p') ∧ tag ≠ d.tag := by
      change tag ∈ settles (Function.update b.wire d.owner fs p') at htag
      by_cases hp : p' = d.owner
      · subst hp
        rw [Function.update_self] at htag
        refine ⟨by rw [hw]; exact List.mem_cons_of_mem _ htag, ?_⟩
        rintro rfl
        exact honce.1 htag
      · rw [Function.update_of_ne hp] at htag
        refine ⟨htag, ?_⟩
        rintro rfl
        obtain ⟨d', hd', heq, howner⟩ := h.known p' _ htag
        exact hp (by rw [← howner, h.tag_inj hd' hd heq])
    obtain ⟨d', hd', heq, howner⟩ := h.known p' tag hold.1
    exact ⟨d', List.mem_filter.mpr ⟨hd', by simpa [heq] using hold.2⟩, heq, howner⟩
  · intro p'
    show (settles (Function.update b.wire d.owner fs p')).Nodup
    by_cases hp : p' = d.owner
    · rw [hp, Function.update_self]
      exact honce.2
    · rw [Function.update_of_ne hp]
      exact h.wireOnce p'
  · show (settled (b.log ++ [e])).Nodup
    rw [settled_append, he, List.nodup_append]
    refine ⟨h.logOnce, List.nodup_singleton _, fun a ha c hc hac => ?_⟩
    -- an unsettled delivery has no settlement in the log
    rw [List.mem_singleton.mp hc] at hac
    exact (h.logPast a ha).2 d hd hac.symm
  · intro tag htag
    change tag ∈ settled (b.log ++ [e]) at htag
    rw [settled_append, he, List.mem_append, List.mem_singleton] at htag
    rcases htag with htag | rfl
    · obtain ⟨hlt, hne⟩ := h.logPast tag htag
      exact ⟨hlt, fun d' hd' => hne d' (List.mem_of_mem_filter hd')⟩
    · refine ⟨h.fresh d hd, fun d' hd' => ?_⟩
      simpa using (List.mem_filter.mp hd').2

theorem Ok.take (h : Ok b) (ht : b.take p = some b') : Ok b' := by
  cases h.take_cases ht with
  | publish tag q m fs hw =>
    -- a publish settles nothing
    have hsame : ∀ p', settles (Function.update b.wire p fs p') = settles (b.wire p') := by
      intro p'
      by_cases hp : p' = p
      · subst hp
        rw [Function.update_self, hw, settles_publish]
      · rw [Function.update_of_ne hp]
    refine ⟨h.tags, h.fresh, h.ownerOpen, ?_, ?_, ?_, ?_, ?_⟩
    · intro p' hp'
      have hnil := h.closedWire p' hp'
      show Function.update b.wire p fs p' = []
      by_cases hp : p' = p
      · subst hp
        rw [hw] at hnil
        cases hnil
      · rwa [Function.update_of_ne hp]
    · intro p' tag' htag'
      exact h.known p' tag' (hsame p' ▸ htag')
    · intro p'
      show (settles (Function.update b.wire p fs p')).Nodup
      rw [hsame p']
      exact h.wireOnce p'
    · show (settled (b.log ++ [_])).Nodup
      rw [settled_append, show settled [Event.put tag q m] = [] from rfl, List.append_nil]
      exact h.logOnce
    · intro tag' htag'
      change tag' ∈ settled (b.log ++ [_]) at htag'
      rw [settled_append, show settled [Event.put tag q m] = [] from rfl, List.append_nil] at htag'
      exact h.logPast tag' htag'
  | ack d fs hd hp hw =>
    subst hp
    exact h.settle hd fs (by rw [hw]; rfl) rfl
  | reject d fs hd hp hw =>
    subst hp
    have hok : Ok (((b.rest d.owner fs).settle d.tag).record (.rejected d.tag)) :=
      h.settle hd fs (by rw [hw]; rfl) rfl
    exact hok.put d.queue d.message

theorem take_nextTag (ht : b.take p = some b') : b'.nextTag = b.nextTag := by
  unfold take at ht
  split at ht
  · cases ht
  · rw [← Option.some.inj ht]
    rfl
  · split at ht <;> rw [← Option.some.inj ht] <;> rfl
  · split at ht <;> rw [← Option.some.inj ht] <;> rfl

/-- There is no channel error that would close the channel. -/
theorem Ok.take_isOpen (h : Ok b) (ht : b.take p = some b') : b'.isOpen = b.isOpen := by
  cases h.take_cases ht <;> rfl

theorem mem_unsettled_of_take (ht : b.take p = some b') {d : Delivery π ρ α}
    (hd : d ∈ b'.unsettled) : d ∈ b.unsettled := by
  unfold take at ht
  split at ht
  · cases ht
  · rw [← Option.some.inj ht] at hd
    exact hd
  · split at ht <;> rw [← Option.some.inj ht] at hd <;> exact List.mem_of_mem_filter hd
  · split at ht <;> rw [← Option.some.inj ht] at hd <;> exact List.mem_of_mem_filter hd

/-! ## Properties of all messages -/

/-- Every message at the broker, or on its way there, has the property `P`. -/
structure All (P : α → Prop) (b : Broker π ρ α) : Prop where
  queues : ∀ q, ∀ m ∈ b.queues q, P m
  unsettled : ∀ d ∈ b.unsettled, P d.message
  wires : ∀ p t q m, .publish t q m ∈ b.wire p → P m

section All

variable {P Q : α → Prop}

omit [DecidableEq π] [DecidableEq ρ] in
theorem All.mono (h : All P b) (himp : ∀ m, P m → Q m) : All Q b where
  queues := fun q m hm => himp m (h.queues q m hm)
  unsettled := fun d hd => himp _ (h.unsettled d hd)
  wires := fun p t q m hm => himp m (h.wires p t q m hm)

omit [DecidableEq π] [DecidableEq ρ] in
theorem all_initial : All P (initial : Broker π ρ α) where
  queues := fun q m hm => by cases hm
  unsettled := fun d hd => by cases hd
  wires := fun p t q m hm => by cases hm

omit [DecidableEq π] in
theorem All.put (h : All P b) (q : ρ) {m : α} (hm : P m) : All P (b.put q m) where
  queues := by
    intro q' m' hm'
    change m' ∈ Function.update b.queues q (b.queues q ++ [m]) q' at hm'
    by_cases hq : q' = q
    · subst hq
      rw [Function.update_self, List.mem_append, List.mem_singleton] at hm'
      rcases hm' with hm' | rfl
      · exact h.queues q' m' hm'
      · exact hm
    · rw [Function.update_of_ne hq] at hm'
      exact h.queues q' m' hm'
  unsettled := h.unsettled
  wires := h.wires

omit [DecidableEq π] in
theorem All.deliver (h : All P b) {q : ρ} {i : Nat} {m : α} (hd : b.deliver p q i = some (b', m)) :
    All P b' ∧ P m := by
  obtain ⟨hi, -, rfl⟩ := deliver_cases hd
  have hm : P m := h.queues q m (List.mem_of_getElem? hi)
  refine ⟨⟨?_, ?_, h.wires⟩, hm⟩
  · intro q' m' hm'
    change m' ∈ Function.update b.queues q ((b.queues q).eraseIdx i) q' at hm'
    by_cases hq : q' = q
    · subst hq
      rw [Function.update_self] at hm'
      exact h.queues q' m' (List.mem_of_mem_eraseIdx hm')
    · rw [Function.update_of_ne hq] at hm'
      exact h.queues q' m' hm'
  · intro d hd
    rcases List.mem_append.mp hd with hd | hd
    · exact h.unsettled d hd
    · rw [List.mem_singleton.mp hd]
      exact hm

omit [DecidableEq ρ] in
theorem All.write (h : All P b) {fs : List (Frame ρ α)}
    (hfs : ∀ t q m, .publish t q m ∈ fs → P m) : All P (b.write p fs) where
  queues := h.queues
  unsettled := h.unsettled
  wires := by
    intro p' t q m hm
    change _ ∈ Function.update b.wire p (b.wire p ++ fs) p' at hm
    by_cases hp : p' = p
    · subst hp
      rw [Function.update_self, List.mem_append] at hm
      exact hm.elim (h.wires p' t q m) (hfs t q m)
    · rw [Function.update_of_ne hp] at hm
      exact h.wires p' t q m hm

omit [DecidableEq ρ] in
theorem All.rest (h : All P b) {fs : List (Frame ρ α)} (hsub : fs ⊆ b.wire p) :
    All P (b.rest p fs) where
  queues := h.queues
  unsettled := h.unsettled
  wires := by
    intro p' t q m hm
    change _ ∈ Function.update b.wire p fs p' at hm
    by_cases hp : p' = p
    · subst hp
      rw [Function.update_self] at hm
      exact h.wires p' t q m (hsub hm)
    · rw [Function.update_of_ne hp] at hm
      exact h.wires p' t q m hm

omit [DecidableEq π] [DecidableEq ρ] in
theorem All.settle (h : All P b) (tag : Nat) : All P (b.settle tag) where
  queues := h.queues
  unsettled := fun d hd => h.unsettled d (List.mem_of_mem_filter hd)
  wires := h.wires

theorem All.close (h : All P b) (p : π) : All P (b.close p) where
  queues := by
    intro q m hm
    rcases List.mem_append.mp hm with hm | hm
    · exact h.queues q m hm
    · obtain ⟨d, hd, rfl⟩ := List.mem_map.mp hm
      exact h.unsettled d (List.mem_of_mem_filter hd)
  unsettled := fun d hd => h.unsettled d (List.mem_of_mem_filter hd)
  wires := by
    intro p' t q m hm
    change _ ∈ Function.update b.wire p [] p' at hm
    by_cases hp : p' = p
    · subst hp
      rw [Function.update_self] at hm
      cases hm
    · rw [Function.update_of_ne hp] at hm
      exact h.wires p' t q m hm

theorem All.take (h : All P b) (ht : b.take p = some b') : All P b' := by
  -- what is left of a channel was on it
  have hrest : ∀ f fs, b.wire p = f :: fs → All P (b.rest p fs) := fun f fs hw =>
    h.rest (by rw [hw]; exact List.subset_cons_self f fs)
  unfold Broker.take at ht
  split at ht
  · cases ht
  · rename_i tag q m fs hw
    rw [← Option.some.inj ht]
    have hm : P m := h.wires p tag q m (by rw [hw]; exact List.mem_cons_self ..)
    have hput := (hrest _ fs hw).put q hm
    exact ⟨hput.queues, hput.unsettled, hput.wires⟩
  · rename_i tag fs hw
    split at ht
    · rw [← Option.some.inj ht]
      have hset := (hrest _ fs hw).settle tag
      exact ⟨hset.queues, hset.unsettled, hset.wires⟩
    · rw [← Option.some.inj ht]
      exact h.close p
  · rename_i tag fs hw
    split at ht
    · rename_i d hd
      rw [← Option.some.inj ht]
      have hput := ((hrest _ fs hw).settle tag).put d.queue (h.unsettled d (mem_of_delivery? hd).1)
      exact ⟨hput.queues, hput.unsettled, hput.wires⟩
    · rw [← Option.some.inj ht]
      exact h.close p

end All

end Broker

end Amqp
