import Mathlib.Algebra.BigOperators.Ring.Finset
import Mathlib.Data.Fintype.BigOperators
import Ecommerce.Lib.Broker

/-!
# Settlement — what acknowledgements do to messages

`Held`: a message with a given property cannot get lost.  `Accounted`: no delivery is acked without
a reason, or a copy sent before.  `copies` counts messages, and `Exchanges` is the discipline of
clients that never publish without an ack after it.
-/

namespace Amqp

variable {π ρ α : Type*}

namespace Broker

variable {b b' : Broker π ρ α} {p : π}

/-! ## Messages that cannot get lost -/

/-- Before the frames ack the delivery `tag`, one of them publishes a message with `P`. -/
def Guarded (P : Nat → α → Prop) (tag : Nat) : List (Frame ρ α) → Prop
  | [] => True
  | .publish t _ m :: fs => P t m ∨ Guarded P tag fs
  | .ack t :: fs => t ≠ tag ∧ Guarded P tag fs
  | .reject _ :: fs => Guarded P tag fs

section Guarded

variable {P : Nat → α → Prop}

theorem Guarded.append {tag : Nat} {fs gs : List (Frame ρ α)} (h : Guarded P tag fs)
    (h' : Guarded P tag gs) : Guarded P tag (fs ++ gs) := by
  induction fs with
  | nil => exact h'
  | cons f fs ih =>
    cases f with
    | publish t q m => exact h.imp_right ih
    | ack t => exact ⟨h.1, ih h.2⟩
    | reject t => exact ih h

theorem guarded_of_no_ack {tag : Nat} {fs : List (Frame ρ α)} (h : tag ∉ settles fs) :
    Guarded P tag fs := by
  induction fs with
  | nil => trivial
  | cons f fs ih =>
    cases f with
    | publish t q m => exact .inr (ih h)
    | ack t =>
      rw [settles_ack, List.mem_cons, not_or] at h
      exact ⟨fun heq => h.1 heq.symm, ih h.2⟩
    | reject t =>
      rw [settles_reject, List.mem_cons, not_or] at h
      exact ih h.2

theorem Guarded.mono {Q : Nat → α → Prop} {tag : Nat} {fs : List (Frame ρ α)}
    (h : Guarded P tag fs) (himp : ∀ t m, P t m → Q t m) : Guarded Q tag fs := by
  induction fs with
  | nil => trivial
  | cons f fs ih =>
    cases f with
    | publish t q m => exact h.imp (himp t m) ih
    | ack t => exact ⟨h.1, ih h.2⟩
    | reject t => exact ih h

/-- A frame that is taken leaves the rest guarded, unless it is the guard. -/
theorem guarded_rest [DecidableEq π] {d : Delivery π ρ α} {f : Frame ρ α} {fs : List (Frame ρ α)}
    (hw : b.wire p = f :: fs) (hguard : Guarded P d.tag (b.wire d.owner))
    (hnew : ∀ t q m, f = .publish t q m → ¬ P t m) :
    Guarded P d.tag ((b.rest p fs).wire d.owner) := by
  show Guarded P d.tag (Function.update b.wire p fs d.owner)
  by_cases hp : d.owner = p
  · rw [hp, hw] at hguard
    rw [hp, Function.update_self]
    cases f with
    | publish t q m => exact hguard.resolve_left (hnew t q m rfl)
    | ack t => exact hguard.2
    | reject t => exact hguard
  · rwa [Function.update_of_ne hp]

end Guarded

/-- A message with `P` is in a queue, or in an unsettled delivery that no frame on its way will ack
before another such message is put. -/
def Held (P : α → Prop) (b : Broker π ρ α) : Prop :=
  (∃ q, ∃ m ∈ b.queues q, P m) ∨
    ∃ d ∈ b.unsettled, P d.message ∧ Guarded (fun _ => P) d.tag (b.wire d.owner)

section Held

variable [DecidableEq π] [DecidableEq ρ] {P : α → Prop}

omit [DecidableEq π] in
theorem held_put (b : Broker π ρ α) (q : ρ) {m : α} (hm : P m) : Held P (b.put q m) := by
  refine .inl ⟨q, m, ?_, hm⟩
  show m ∈ Function.update b.queues q (b.queues q ++ [m]) q
  rw [Function.update_self]
  exact List.mem_append_right _ (List.mem_singleton_self m)

omit [DecidableEq π] in
theorem Held.put (h : Held P b) (q : ρ) (m : α) : Held P (b.put q m) := by
  rcases h with ⟨q', m', hm', hP⟩ | hd
  · refine .inl ⟨q', m', ?_, hP⟩
    show m' ∈ Function.update b.queues q (b.queues q ++ [m]) q'
    by_cases hq : q' = q
    · subst hq
      rw [Function.update_self]
      exact List.mem_append_left _ hm'
    · rwa [Function.update_of_ne hq]
  · exact .inr hd

omit [DecidableEq π] in
theorem Held.deliver (h : Held P b) (hok : Ok b) {q : ρ} {i : Nat} {m : α}
    (hd : b.deliver p q i = some (b', m)) : Held P b' := by
  obtain ⟨hi, -, rfl⟩ := deliver_cases hd
  rcases h with ⟨q', m', hm', hP⟩ | ⟨d, hd, hP, hguard⟩
  · by_cases hq : q' = q
    · subst hq
      obtain ⟨j, hj⟩ := List.getElem?_of_mem hm'
      by_cases hij : j = i
      · -- the message is the one delivered: no frame knows its tag yet
        have heq : m = m' := Option.some.inj (hi.symm.trans (hij ▸ hj))
        refine .inr ⟨⟨b.nextTag, p, q', m⟩, List.mem_append_right _ (List.mem_singleton_self _),
          heq ▸ hP, guarded_of_no_ack fun hmem => ?_⟩
        obtain ⟨d, hd, htag, -⟩ := hok.known p b.nextTag hmem
        exact absurd (hok.fresh d hd) (by rw [htag]; exact Nat.lt_irrefl _)
      · refine .inl ⟨q', m', ?_, hP⟩
        show m' ∈ Function.update b.queues q' ((b.queues q').eraseIdx i) q'
        rw [Function.update_self]
        exact List.mem_eraseIdx_iff_getElem?.mpr ⟨j, hij, hj⟩
    · refine .inl ⟨q', m', ?_, hP⟩
      show m' ∈ Function.update b.queues q ((b.queues q).eraseIdx i) q'
      rwa [Function.update_of_ne hq]
  · exact .inr ⟨d, List.mem_append_left _ hd, hP, hguard⟩

omit [DecidableEq ρ] in
/-- What `p` writes guards its deliveries with `P`. -/
theorem Held.write (h : Held P b) {fs : List (Frame ρ α)}
    (hfs : ∀ d ∈ b.unsettled, d.owner = p → P d.message → Guarded (fun _ => P) d.tag fs) :
    Held P (b.write p fs) := by
  rcases h with hq | ⟨d, hd, hP, hguard⟩
  · exact .inl hq
  · refine .inr ⟨d, hd, hP, ?_⟩
    show Guarded (fun _ => P) d.tag (Function.update b.wire p (b.wire p ++ fs) d.owner)
    by_cases hp : d.owner = p
    · subst hp
      rw [Function.update_self]
      exact hguard.append (hfs d hd rfl hP)
    · rwa [Function.update_of_ne hp]

theorem Held.close (h : Held P b) (p : π) : Held P (b.close p) := by
  rcases h with ⟨q, m, hm, hP⟩ | ⟨d, hd, hP, hguard⟩
  · exact .inl ⟨q, m, List.mem_append_left _ hm, hP⟩
  · by_cases hp : d.owner = p
    · refine .inl ⟨d.queue, d.message, List.mem_append_right _ (List.mem_map_of_mem ?_), hP⟩
      exact List.mem_filter.mpr ⟨hd, by simp [hp]⟩
    · refine .inr ⟨d, List.mem_filter.mpr ⟨hd, by simp [hp]⟩, hP, ?_⟩
      show Guarded (fun _ => P) d.tag (Function.update b.wire p [] d.owner)
      rwa [Function.update_of_ne hp]

theorem Held.take (h : Held P b) (hok : Ok b) (ht : b.take p = some b') : Held P b' := by
  cases hok.take_cases ht with
  | publish tag q m fs hw =>
    by_cases hm : P m
    · exact held_put _ q hm
    · -- the frame is of another message
      have hrest : Held P (b.rest p fs) := by
        rcases h with hq | ⟨d, hd, hP, hguard⟩
        · exact .inl hq
        · refine .inr ⟨d, hd, hP, guarded_rest hw hguard fun t q' m' heq => ?_⟩
          cases heq
          exact hm
      exact hrest.put q m
  | ack d fs hd hp hw =>
    rcases h with hq | ⟨d', hd', hP, hguard⟩
    · exact .inl hq
    · -- an unguarded ack would let the message go
      have hne : d'.tag ≠ d.tag := by
        intro heq
        have hdd := hok.tag_inj hd' hd heq
        rw [hdd, hp, hw] at hguard
        exact hguard.1 rfl
      exact .inr ⟨d', List.mem_filter.mpr ⟨hd', by simpa using hne⟩, hP,
        guarded_rest hw hguard fun t q m heq => by cases heq⟩
  | reject d fs hd hp hw =>
    rcases h with ⟨q, m, hm, hP⟩ | ⟨d', hd', hP, hguard⟩
    · have hq : Held P ((b.rest p fs).settle d.tag) := .inl ⟨q, m, hm, hP⟩
      exact hq.put d.queue d.message
    · -- a rejected delivery goes back to its queue
      by_cases heq : d'.tag = d.tag
      · rw [hok.tag_inj hd' hd heq] at hP
        exact held_put _ d.queue hP
      · refine Held.put ?_ d.queue d.message
        exact .inr ⟨d', List.mem_filter.mpr ⟨hd', by simpa using heq⟩, hP,
          guarded_rest hw hguard fun t q m heq => by cases heq⟩

end Held

/-! ## Reasons to ack -/

/-- A copy of `m` has been put for the delivery `tag`. -/
def Sent (Copies : α → α → Prop) (tag : Nat) (m : α) (es : List (Event ρ α)) : Prop :=
  ∃ q m', Copies m m' ∧ .put tag q m' ∈ es

/-- A delivery that has been acked had a reason `J`, or a copy of it was put before; and so it is
with the acks on their way. -/
structure Accounted (Copies : α → α → Prop) (J : Nat → α → Prop) (b : Broker π ρ α) : Prop where
  unsettled : ∀ d ∈ b.unsettled, J d.tag d.message ∨ Sent Copies d.tag d.message b.log ∨
    Guarded (fun t m => t = d.tag ∧ Copies d.message m) d.tag (b.wire d.owner)
  acked : ∀ es es' tag m, b.log = es ++ .acked tag m :: es' → J tag m ∨ Sent Copies tag m es

section Accounted

variable [DecidableEq π] [DecidableEq ρ] {Copies : α → α → Prop} {J J' : Nat → α → Prop}

omit [DecidableEq π] [DecidableEq ρ] in
theorem accounted_initial : Accounted Copies J (initial : Broker π ρ α) where
  unsettled := fun d hd => by cases hd
  acked := fun es es' tag m heq => by simp [initial] at heq

omit [DecidableEq π] [DecidableEq ρ] in
theorem Accounted.mono (h : Accounted Copies J b) (himp : ∀ t m, J t m → J' t m) :
    Accounted Copies J' b where
  unsettled := fun d hd => (h.unsettled d hd).imp_left (himp _ _)
  acked := fun es es' tag m heq => (h.acked es es' tag m heq).imp_left (himp _ _)

omit [DecidableEq π] in
theorem Accounted.put (h : Accounted Copies J b) (q : ρ) (m : α) : Accounted Copies J (b.put q m) :=
  ⟨h.unsettled, h.acked⟩

omit [DecidableEq ρ] in
theorem Accounted.openChannel (h : Accounted Copies J b) (p : π) :
    Accounted Copies J (b.openChannel p) := ⟨h.unsettled, h.acked⟩

omit [DecidableEq π] in
theorem Accounted.deliver (h : Accounted Copies J b) (hok : Ok b) {q : ρ} {i : Nat} {m : α}
    (hd : b.deliver p q i = some (b', m)) : Accounted Copies J b' := by
  obtain ⟨-, -, rfl⟩ := deliver_cases hd
  refine ⟨fun d hd => ?_, h.acked⟩
  rcases List.mem_append.mp hd with hd | hd
  · exact h.unsettled d hd
  · -- no frame knows the new tag
    rw [List.mem_singleton.mp hd]
    refine .inr (.inr (guarded_of_no_ack fun hmem => ?_))
    obtain ⟨d', hd', htag, -⟩ := hok.known p b.nextTag hmem
    exact absurd (hok.fresh d' hd') (by rw [htag]; exact Nat.lt_irrefl _)

omit [DecidableEq ρ] in
theorem Accounted.write (h : Accounted Copies J b) {fs : List (Frame ρ α)}
    (hfs : ∀ d ∈ b.unsettled, d.owner = p → J d.tag d.message ∨
      Guarded (fun t m => t = d.tag ∧ Copies d.message m) d.tag fs) :
    Accounted Copies J (b.write p fs) := by
  refine ⟨fun d hd => ?_, h.acked⟩
  show _ ∨ _ ∨ Guarded _ d.tag (Function.update b.wire p (b.wire p ++ fs) d.owner)
  rcases h.unsettled d hd with hJ | hsent | hguard
  · exact .inl hJ
  · exact .inr (.inl hsent)
  · by_cases hp : d.owner = p
    · rcases hfs d hd hp with hJ | hnew
      · exact .inl hJ
      · rw [hp, Function.update_self]
        rw [hp] at hguard
        exact .inr (.inr (hguard.append hnew))
    · rw [Function.update_of_ne hp]
      exact .inr (.inr hguard)

theorem Accounted.close (h : Accounted Copies J b) (p : π) : Accounted Copies J (b.close p) := by
  refine ⟨fun d hd => ?_, h.acked⟩
  obtain ⟨hd, hp⟩ := List.mem_filter.mp hd
  have hne : d.owner ≠ p := by simpa using hp
  show _ ∨ _ ∨ Guarded _ d.tag (Function.update b.wire p [] d.owner)
  rw [Function.update_of_ne hne]
  exact h.unsettled d hd

omit [DecidableEq ρ] in
theorem Sent.append {tag : Nat} {m : α} {es : List (Event ρ α)} (h : Sent Copies tag m es)
    (es' : List (Event ρ α)) : Sent Copies tag m (es ++ es') := by
  obtain ⟨q, m', hc, hput⟩ := h
  exact ⟨q, m', hc, List.mem_append_left _ hput⟩

omit [DecidableEq ρ] in
/-- An event of a log that has grown by one is the last one, or was there before. -/
theorem log_cases {es es' log : List (Event ρ α)} {a e : Event ρ α}
    (h : log ++ [e] = es ++ a :: es') : (es = log ∧ a = e) ∨ ∃ es'', log = es ++ a :: es'' := by
  rcases List.eq_nil_or_concat' es' with rfl | ⟨es'', e', rfl⟩
  · have hlast := List.append_inj_right' h rfl
    exact .inl ⟨(List.append_inj_left' h rfl).symm, (List.cons.inj hlast).1.symm⟩
  · rw [← List.cons_append, ← List.append_assoc] at h
    exact .inr ⟨es'', List.append_inj_left' h rfl⟩

omit [DecidableEq π] [DecidableEq ρ] in
/-- Recording an event that is no ack. -/
theorem acked_record {e : Event ρ α} (hne : ∀ tag m, e ≠ .acked tag m)
    (h : ∀ es es' tag m, b.log = es ++ .acked tag m :: es' → J tag m ∨ Sent Copies tag m es) :
    ∀ es es' tag m, b.log ++ [e] = es ++ .acked tag m :: es' → J tag m ∨ Sent Copies tag m es := by
  intro es es' tag m heq
  rcases log_cases heq with ⟨-, he⟩ | ⟨es'', hlog⟩
  · exact absurd he.symm (hne tag m)
  · exact h es es'' tag m hlog

theorem Accounted.take (h : Accounted Copies J b) (hok : Ok b) (ht : b.take p = some b') :
    Accounted Copies J b' := by
  cases hok.take_cases ht with
  | publish tag q m fs hw =>
    refine ⟨fun d hd => ?_, acked_record (by simp) h.acked⟩
    rcases h.unsettled d hd with hJ | hsent | hguard
    · exact .inl hJ
    · exact .inr (.inl (hsent.append _))
    · by_cases hm : tag = d.tag ∧ Copies d.message m
      · -- the guard itself has been put
        exact .inr (.inl ⟨q, m, hm.2, hm.1 ▸ List.mem_append_right _ (List.mem_singleton_self _)⟩)
      · refine .inr (.inr (guarded_rest hw hguard fun t q' m' heq => ?_))
        cases heq
        exact hm
  | ack d fs hd hp hw =>
    refine ⟨fun d' hd' => ?_, fun es es' tag m heq => ?_⟩
    · obtain ⟨hd', -⟩ := List.mem_filter.mp hd'
      rcases h.unsettled d' hd' with hJ | hsent | hguard
      · exact .inl hJ
      · exact .inr (.inl (hsent.append _))
      · exact .inr (.inr (guarded_rest hw hguard fun t q m heq => by cases heq))
    · rcases log_cases heq with ⟨rfl, hlast⟩ | ⟨es'', hlog⟩
      · cases hlast
        rcases h.unsettled d hd with hJ | hsent | hguard
        · exact .inl hJ
        · exact .inr hsent
        · rw [hp, hw] at hguard
          exact absurd rfl hguard.1
      · exact h.acked es es'' tag m hlog
  | reject d fs hd hp hw =>
    refine ⟨fun d' hd' => ?_, acked_record (by simp) h.acked⟩
    obtain ⟨hd', -⟩ := List.mem_filter.mp hd'
    rcases h.unsettled d' hd' with hJ | hsent | hguard
    · exact .inl hJ
    · exact .inr (.inl (hsent.append _))
    · exact .inr (.inr (guarded_rest hw hguard fun t q m heq => by cases heq))

end Accounted

/-! ## Counting copies -/

/-- The number of messages with `P` in the queues and in unsettled deliveries. -/
def copies [Fintype ρ] (P : α → Bool) (b : Broker π ρ α) : Nat :=
  ∑ q, (b.queues q).countP P + b.unsettled.countP fun d => P d.message

section Counting

variable [DecidableEq π] [DecidableEq ρ] [Fintype ρ] {P : α → Bool}

/-- Changing one queue changes the number of its messages. -/
theorem sum_update_queue (queues : ρ → List α) (q : ρ) (ms : List α) :
    ∑ q', (Function.update queues q ms q').countP P + (queues q).countP P =
      ∑ q', (queues q').countP P + ms.countP P := by
  have hrest : ∑ q' ∈ Finset.univ.erase q, (Function.update queues q ms q').countP P =
      ∑ q' ∈ Finset.univ.erase q, (queues q').countP P :=
    Finset.sum_congr rfl fun q' hq' => by rw [Function.update_of_ne (Finset.ne_of_mem_erase hq')]
  rw [← Finset.add_sum_erase _ (fun q' => (Function.update queues q ms q').countP P)
      (Finset.mem_univ q),
    ← Finset.add_sum_erase Finset.univ (fun q' => (queues q').countP P) (Finset.mem_univ q), hrest,
    Function.update_self]
  omega

omit [DecidableEq π] in
theorem copies_put (b : Broker π ρ α) (q : ρ) (m : α) :
    copies P (b.put q m) = copies P b + if P m then 1 else 0 := by
  have hsum := sum_update_queue (P := P) b.queues q (b.queues q ++ [m])
  rw [List.countP_append, List.countP_singleton] at hsum
  show ∑ q', (Function.update b.queues q (b.queues q ++ [m]) q').countP P +
    b.unsettled.countP (fun d => P d.message) = ∑ q', (b.queues q').countP P +
    b.unsettled.countP (fun d => P d.message) + _
  omega

theorem countP_eraseIdx {ms : List α} {i : Nat} {m : α} (h : ms[i]? = some m) :
    (ms.eraseIdx i).countP P + (if P m then 1 else 0) = ms.countP P := by
  induction ms generalizing i with
  | nil => cases h
  | cons a ms ih =>
    cases i with
    | zero =>
      rw [List.getElem?_cons_zero, Option.some.injEq] at h
      subst h
      rw [List.eraseIdx_cons_zero, List.countP_cons]
    | succ i =>
      rw [List.getElem?_cons_succ] at h
      rw [List.eraseIdx_cons_succ, List.countP_cons, List.countP_cons, ← ih h]
      omega

omit [DecidableEq π] in
theorem copies_deliver {q : ρ} {i : Nat} {m : α} (hd : b.deliver p q i = some (b', m)) :
    copies P b' = copies P b := by
  obtain ⟨hi, -, rfl⟩ := deliver_cases hd
  have hsum := sum_update_queue (P := P) b.queues q ((b.queues q).eraseIdx i)
  have hcount := countP_eraseIdx (P := P) hi
  show ∑ q', (Function.update b.queues q ((b.queues q).eraseIdx i) q').countP P +
    (b.unsettled ++ [(⟨b.nextTag, p, q, m⟩ : Delivery π ρ α)]).countP (fun d => P d.message) =
    ∑ q', (b.queues q').countP P + b.unsettled.countP (fun d => P d.message)
  rw [List.countP_append, List.countP_singleton]
  change _ + (_ + if P m = true then 1 else 0) = _
  omega

omit [DecidableEq π] [DecidableEq ρ] in
/-- Settling a delivery removes its message from the unsettled ones. -/
theorem copies_settle (h : Ok b) {d : Delivery π ρ α} (hd : d ∈ b.unsettled) :
    copies P (b.settle d.tag) + (if P d.message then 1 else 0) = copies P b := by
  -- tags are unique, so the filter drops one delivery
  have hcount : ∀ ds : List (Delivery π ρ α), (ds.map (·.tag)).Nodup → d ∈ ds →
      (ds.filter (·.tag ≠ d.tag)).countP (fun d => P d.message) + (if P d.message then 1 else 0) =
        ds.countP fun d => P d.message := by
    intro ds hnodup hmem
    induction ds with
    | nil => cases hmem
    | cons a ds ih =>
      rw [List.map_cons, List.nodup_cons] at hnodup
      rcases List.mem_cons.mp hmem with rfl | hmem
      · have hrest : ds.filter (·.tag ≠ d.tag) = ds := by
          rw [List.filter_eq_self]
          intro a ha
          have hne : a.tag ≠ d.tag := fun heq => hnodup.1 (heq ▸ List.mem_map_of_mem ha)
          simpa using hne
        rw [List.filter_cons_of_neg (by simp), hrest, List.countP_cons]
      · have hne : a.tag ≠ d.tag := fun heq => hnodup.1 (heq ▸ List.mem_map_of_mem hmem)
        rw [List.filter_cons_of_pos (by simpa using hne), List.countP_cons, List.countP_cons,
          ← ih hnodup.2 hmem]
        omega
  have := hcount b.unsettled h.tags hd
  show ∑ q, (b.queues q).countP P + (b.unsettled.filter (·.tag ≠ d.tag)).countP _ + _ =
    ∑ q, (b.queues q).countP P + b.unsettled.countP _
  omega

omit [DecidableEq π] [DecidableEq ρ] in
theorem copies_eq_zero (h : All (fun m => P m = false) b) : copies P b = 0 := by
  have hqueues : ∑ q, (b.queues q).countP P = 0 :=
    Finset.sum_eq_zero fun q _ => List.countP_eq_zero.mpr fun m hm => by simp [h.queues q m hm]
  have hunsettled : b.unsettled.countP (fun d => P d.message) = 0 :=
    List.countP_eq_zero.mpr fun d hd => by simp [h.unsettled d hd]
  unfold copies
  omega

end Counting

/-! ## Clients that never publish without an ack -/

section Exchanges

variable {κ : Type*} {key : α → κ}

/-- After each publish comes the ack of its delivery, whose message has the same key. -/
def Exchanges (key : α → κ) (ds : List (Delivery π ρ α)) : List (Frame ρ α) → Prop
  | [] => True
  | .publish t _ m :: .ack t' :: fs =>
    t' = t ∧ (∀ d ∈ ds, d.tag = t → key d.message = key m) ∧ Exchanges key ds fs
  | .publish _ _ _ :: _ => False
  | .ack _ :: fs => Exchanges key ds fs
  | .reject _ :: fs => Exchanges key ds fs

theorem Exchanges.append {ds : List (Delivery π ρ α)} {fs gs : List (Frame ρ α)}
    (h : Exchanges key ds fs) (h' : Exchanges key ds gs) : Exchanges key ds (fs ++ gs) := by
  induction fs using Exchanges.induct with
  | case1 => exact h'
  | case2 t q m t' fs ih => exact ⟨h.1, h.2.1, ih h.2.2⟩
  | case3 t q m fs hne =>
    simp only [Exchanges] at h
  | case4 t fs ih =>
    simp only [List.cons_append, Exchanges] at h ⊢
    exact ih h
  | case5 t fs ih =>
    simp only [List.cons_append, Exchanges] at h ⊢
    exact ih h

/-- The condition is about the deliveries the frames settle only. -/
theorem Exchanges.mono {ds ds' : List (Delivery π ρ α)} {fs : List (Frame ρ α)}
    (h : Exchanges key ds fs) (hsub : ∀ d ∈ ds', d.tag ∈ settles fs → d ∈ ds) :
    Exchanges key ds' fs := by
  induction fs using Exchanges.induct with
  | case1 => trivial
  | case2 t q m t' fs ih =>
    refine ⟨h.1, fun d hd htag => h.2.1 d (hsub d hd ?_) htag, ih h.2.2 fun d hd hmem => ?_⟩
    · rw [htag, settles_publish, settles_ack, h.1]
      exact List.mem_cons_self ..
    · exact hsub d hd (List.mem_cons_of_mem _ hmem)
  | case3 t q m fs hne =>
    simp only [Exchanges] at h
  | case4 t fs ih =>
    simp only [Exchanges] at h ⊢
    exact ih h fun d hd hmem => hsub d hd (List.mem_cons_of_mem _ hmem)
  | case5 t fs ih =>
    simp only [Exchanges] at h ⊢
    exact ih h fun d hd hmem => hsub d hd (List.mem_cons_of_mem _ hmem)

/-- A frame that is no publish is taken, or the second frame of a pair. -/
theorem Exchanges.rest [DecidableEq π] {ds : List (Delivery π ρ α)} {fs : List (Frame ρ α)}
    {wire : π → List (Frame ρ α)}
    (hp : Exchanges key b.unsettled fs) (hwires : ∀ p', p' ≠ p → Exchanges key b.unsettled (wire p'))
    (hsub : ds ⊆ b.unsettled) (p' : π) : Exchanges key ds (Function.update wire p fs p') := by
  by_cases hpp : p' = p
  · subst hpp
    rw [Function.update_self]
    exact hp.mono fun d hd _ => hsub hd
  · rw [Function.update_of_ne hpp]
    exact (hwires p' hpp).mono fun d hd _ => hsub hd

variable [DecidableEq κ] [Fintype ρ]

/-- There is one message at most for each key, and it stays so. -/
structure Single (key : α → κ) (b : Broker π ρ α) : Prop where
  once : ∀ k, copies (fun m => decide (key m = k)) b ≤ 1
  wires : ∀ p, Exchanges key b.unsettled (b.wire p)

theorem single_initial : Single key (initial : Broker π ρ α) where
  once := fun k => by
    rw [copies_eq_zero all_initial]
    exact Nat.zero_le 1
  wires := fun p => trivial

variable [DecidableEq π] [DecidableEq ρ]

omit [DecidableEq π] in
theorem Single.put (h : Single key b) (q : ρ) {m : α} (hnew : All (fun m' => key m' ≠ key m) b) :
    Single key (b.put q m) := by
  refine ⟨fun k => ?_, h.wires⟩
  rw [copies_put]
  by_cases hk : key m = k
  · subst hk
    rw [copies_eq_zero (hnew.mono fun m' hm' => by simpa using hm')]
    split <;> omega
  · simpa [hk] using h.once k

omit [DecidableEq ρ] in
theorem Single.openChannel (h : Single key b) (p : π) : Single key (b.openChannel p) :=
  ⟨h.once, h.wires⟩

omit [DecidableEq π] in
theorem Single.deliver (h : Single key b) (hok : Ok b) {q : ρ} {i : Nat} {m : α}
    (hd : b.deliver p q i = some (b', m)) : Single key b' := by
  refine ⟨fun k => ?_, fun p' => ?_⟩
  · rw [copies_deliver hd]
    exact h.once k
  · obtain ⟨-, -, rfl⟩ := deliver_cases hd
    refine (h.wires p').mono fun d hd hmem => (List.mem_append.mp hd).resolve_right fun hnew => ?_
    obtain ⟨d', hd', htag, -⟩ := hok.known p' d.tag hmem
    have hlt := hok.fresh d' hd'
    rw [htag, List.mem_singleton.mp hnew] at hlt
    exact Nat.lt_irrefl _ hlt

omit [DecidableEq ρ] in
theorem Single.write (h : Single key b) {fs : List (Frame ρ α)}
    (hfs : Exchanges key b.unsettled fs) : Single key (b.write p fs) := by
  refine ⟨h.once, fun p' => ?_⟩
  show Exchanges key b.unsettled (Function.update b.wire p (b.wire p ++ fs) p')
  by_cases hp : p' = p
  · subst hp
    rw [Function.update_self]
    exact (h.wires p').append hfs
  · rw [Function.update_of_ne hp]
    exact h.wires p'

theorem Single.take (h : Single key b) (hok : Ok b) (ht : b.take p = some b')
    (hhead : ∀ t q m fs, b.wire p ≠ .publish t q m :: fs) : Single key b' := by
  have hwire := h.wires p
  cases hok.take_cases ht with
  | publish tag q m fs hw => exact absurd hw (hhead tag q m fs)
  | ack d fs hd hp hw =>
    rw [hw, Exchanges] at hwire
    refine ⟨fun k => ?_, hwire.rest (fun p' _ => h.wires p') (List.filter_subset_self _)⟩
    have hcount := copies_settle (P := fun m => decide (key m = k)) hok hd
    have honce := h.once k
    show copies _ (b.settle d.tag) ≤ 1
    omega
  | reject d fs hd hp hw =>
    rw [hw, Exchanges] at hwire
    refine ⟨fun k => ?_, hwire.rest (fun p' _ => h.wires p') (List.filter_subset_self _)⟩
    have hcount := copies_settle (P := fun m => decide (key m = k)) hok hd
    have honce := h.once k
    show copies _ ((b.settle d.tag).put d.queue d.message) ≤ 1
    rw [copies_put]
    omega

/-- A publish and its ack, taken together, put one message in the place of another. -/
theorem Single.takePair (h : Single key b) (hok : Ok b) {t t' : Nat} {q : ρ} {m : α}
    {fs : List (Frame ρ α)} (hw : b.wire p = .publish t q m :: .ack t' :: fs) {b₁ b₂ : Broker π ρ α}
    (h₁ : b.take p = some b₁) (h₂ : b₁.take p = some b₂) : Single key b₂ := by
  have hwire := h.wires p
  rw [hw] at hwire
  obtain ⟨rfl, hkey, hrest⟩ := hwire
  have hok₁ := hok.take h₁
  have hb₁ : b₁ = ((b.rest p (.ack t' :: fs)).put q m).record (.put t' q m) := by
    rw [Broker.take, hw] at h₁
    exact (Option.some.inj h₁).symm
  have hw₁ : b₁.wire p = .ack t' :: fs := by
    rw [hb₁]
    exact Function.update_self ..
  cases hok₁.take_cases h₂ with
  | publish tag q m fs' hw' => rw [hw₁] at hw'; cases hw'
  | reject d fs' hd hp hw' => rw [hw₁] at hw'; cases hw'
  | ack d fs' hd hp hw' =>
    rw [hw₁] at hw'
    obtain ⟨htag, rfl⟩ : t' = d.tag ∧ fs = fs' := by
      injection hw' with hframe htail
      injection hframe with htag
      exact ⟨htag, htail⟩
    -- the put of the copy does not touch the deliveries
    have hmem : d ∈ b.unsettled := by
      rw [hb₁] at hd
      exact hd
    refine ⟨fun k => ?_, ?_⟩
    · have hsettle := copies_settle (P := fun m => decide (key m = k)) hok₁ hd
      have hput : copies (fun m => decide (key m = k)) b₁ =
          copies (fun m => decide (key m = k)) b + if decide (key m = k) then 1 else 0 := by
        rw [hb₁]
        exact copies_put b q m
      have honce := h.once k
      rw [hkey d hmem htag.symm] at hsettle
      show copies _ (b₁.settle d.tag) ≤ 1
      omega
    · intro p'
      have hsub : b₁.unsettled.filter (·.tag ≠ d.tag) ⊆ b.unsettled := by
        rw [hb₁]
        exact List.filter_subset_self _
      refine hrest.rest (fun p'' hp'' => ?_) hsub p'
      rw [hb₁]
      show Exchanges key b.unsettled (Function.update b.wire p (.ack t' :: fs) p'')
      rw [Function.update_of_ne hp'']
      exact h.wires p''

end Exchanges

end Broker

end Amqp
