import Ecommerce.Orders.Results
import Ecommerce.Orders.SoloRun

/-!
# Idempotency — one order per user and key

The history of a run records every COMMIT and every send.  `Log` ties it to the phases and to the
tables: a key is used up by a COMMIT and by nothing else, and no pair is committed or sent twice.
-/

namespace Ecommerce.Orders

open Locking Transition

variable {ι : Type} [DecidableEq ι] {env : Env ι} {db₀ : Db}

/-- The COMMIT of an order with this pair. -/
def Event.commits (pair : UUID × UUID) : Event ι → Bool
  | .committed _ tx => tx.order.key = pair
  | .sent _ _ => false

/-- A message sent by a call with this pair. -/
def Event.sends (env : Env ι) (pair : UUID × UUID) : Event ι → Bool
  | .committed _ _ => false
  | .sent c _ => (env.request c).pair = some pair

/-- What the event takes from the stocks. -/
def Event.take (products : List Product) : Event ι → List Product
  | .committed _ tx => products.map tx.newStock
  | .sent _ _ => products

/-- The phases of a call that may have committed. -/
def Phase.afterCommit : Phase → Bool
  | .committed _ => true
  | .publishing _ => true
  | .done (.created _) => true
  | .done .stopped => true
  | .done (.rejected .channel) => true
  | _ => false

/-- The transaction of the call has been rolled back. -/
def Phase.rolledBack : Phase → Bool
  | .failing none _ => true
  | .done (.rejected e) => e ≠ .channel
  | _ => false

/-- The call is about to send. -/
def Phase.toSend : Phase → Bool
  | .committed _ => true
  | .publishing _ => true
  | _ => false

structure Log (env : Env ι) (db₀ : Db) (s : Sys ι) : Prop where
  committed : ∀ c tx, .committed c tx ∈ s.history → (s.calls c).afterCommit = true ∧
    Opened env c tx ∧ ∃ o ∈ s.db.orders, o.id = tx.order.id ∧ o.key = tx.order.key
  sent : ∀ c m, .sent c m ∈ s.history → (s.calls c).isDone = true ∧
    ∃ tx, .committed c tx ∈ s.history
  toSend : ∀ c, (s.calls c).toSend = true → ∃ tx, .committed c tx ∈ s.history
  stockOnce : ∀ pair, s.history.countP (Event.commits pair) ≤ 1
  sentOnce : ∀ pair, s.history.countP (Event.sends env pair) ≤ 1
  products : s.db.products = s.history.foldl Event.take db₀.products
  initial : ∀ o₀ ∈ db₀.orders, ∃ o ∈ s.db.orders, o.id = o₀.id ∧ o.key = o₀.key
  origin : ∀ o ∈ s.db.orders, (∃ o₀ ∈ db₀.orders, o₀.key = o.key) ∨
    ∃ c tx, .committed c tx ∈ s.history ∧ tx.order.key = o.key

section Steps

variable {s s' : Sys ι} {l : Label ι}

theorem beforeCommit_not_after {ph : Phase} (h : ph.beforeCommit = true) :
    ph.afterCommit = false ∧ ph.isDone = false := by
  cases ph <;> first | exact ⟨rfl, rfl⟩ | cases h

omit [DecidableEq ι] in
theorem Throws.not_after {c : ι} {ph : Phase} {tx : Tx} {e : Failure}
    (h : Throws env s c ph tx e) : ph.afterCommit = false ∧ ph.isDone = false := by
  cases h <;> exact ⟨rfl, rfl⟩

theorem Advance.not_done {c : ι} (h : Advance env s c s') : (s.calls c).isDone = false := by
  cases h with
  | throws tx e why => exact why.not_after.2
  | _ => simp_all [Phase.isDone]

theorem Advance.afterCommit {c : ι} (h : Advance env s c s')
    (hc : (s.calls c).afterCommit = true) : (s'.calls c).afterCommit = true := by
  cases h with
  | throws tx e why =>
    rw [why.not_after.1] at hc
    cases hc
  | release result hph => simp [Phase.afterCommit]
  | send result hph => simp [Sys.send, Phase.afterCommit]
  | _ => simp_all [Phase.afterCommit]

theorem Advance.toSend {c : ι} (h : Advance env s c s') (hq : s'.history = s.history)
    (hc : (s'.calls c).toSend = true) : (s.calls c).toSend = true := by
  cases h with
  | throws tx e why =>
    rw [throwing_phase] at hc
    cases hc
  | commit tx result hph => simp [Sys.commit] at hq
  | send result hph => simp [Sys.send] at hq
  | release result hph => simp [hph, Phase.toSend]
  | _ => simp [Phase.toSend] at hc

/-- The steps that neither write nor send: only one call moves. -/
theorem Log.keep (h : Log env db₀ s) {c : ι} (hq : Quiet s s' c)
    (hafter : (s.calls c).afterCommit = true → (s'.calls c).afterCommit = true)
    (hdone : (s.calls c).isDone = true → (s'.calls c).isDone = true)
    (hsend : (s'.calls c).toSend = true → (s.calls c).toSend = true) : Log env db₀ s' where
  committed := by
    intro d tx hd
    rw [hq.history] at hd
    -- the history is the same: only the phase of c has to stay past its COMMIT
    obtain ⟨hph, hopen, ho⟩ := h.committed d tx hd
    refine ⟨?_, hopen, by rwa [hq.db]⟩
    by_cases hdc : d = c
    · subst hdc
      exact hafter hph
    · rwa [hq.others d hdc]
  sent := by
    intro d m hd
    rw [hq.history] at hd ⊢
    obtain ⟨hph, htx⟩ := h.sent d m hd
    refine ⟨?_, htx⟩
    by_cases hdc : d = c
    · subst hdc
      exact hdone hph
    · rwa [hq.others d hdc]
  toSend := by
    intro d hd
    rw [hq.history]
    by_cases hdc : d = c
    · subst hdc
      exact h.toSend d (hsend hd)
    · rw [hq.others d hdc] at hd
      exact h.toSend d hd
  stockOnce := by
    rw [hq.history]
    exact h.stockOnce
  sentOnce := by
    rw [hq.history]
    exact h.sentOnce
  products := by
    rw [hq.history, hq.db]
    exact h.products
  initial := by
    rw [hq.db]
    exact h.initial
  origin := by
    rw [hq.history, hq.db]
    exact h.origin

omit [DecidableEq ι] in
/-- The key of a transaction about to commit has no COMMIT behind it. -/
theorem Log.key_unused (h : Log env db₀ s) (hi : Inv env db₀ s) {c : ι} {tx : Tx}
    {result : OrderView} (hc : s.calls c = .reread tx result) :
    ∀ e ∈ s.history, e.commits tx.order.key = false := by
  intro e he
  cases e with
  | sent d m => rfl
  | committed d tx' =>
    obtain ⟨-, -, o, ho, -, hkey⟩ := h.committed d tx' he
    have hfree := hi.keyFree c tx.order.key (by rw [hc]; rfl)
    rw [Db.orderByKey_eq_none_iff] at hfree
    have hne : tx'.order.key ≠ tx.order.key := hkey ▸ hfree o ho
    simpa [Event.commits] using hne

omit [DecidableEq ι] in
/-- Two COMMITs for one pair are COMMITs of one call. -/
theorem Log.committer_unique (h : Log env db₀ s) (hi : Inv env db₀ s) {c d : ι} {tx tx' : Tx}
    (hc : .committed c tx ∈ s.history) (hd : .committed d tx' ∈ s.history)
    (hkey : tx.order.key = tx'.order.key) : c = d := by
  obtain ⟨-, hopen, o, ho, hid, hok⟩ := h.committed c tx hc
  obtain ⟨-, hopen', o', ho', hid', hok'⟩ := h.committed d tx' hd
  have heq : o = o' :=
    List.inj_on_of_nodup_map hi.valid.orderKeys ho ho' (hok.trans (hkey.trans hok'.symm))
  apply env.newId_injective
  calc (env.choices c).newId = o.id := by rw [hid, hopen.order_id]
    _ = (env.choices d).newId := by rw [heq, hid', hopen'.order_id]

omit [DecidableEq ι] in
/-- Those who have sent are not the call that moves, and keep what they have committed. -/
theorem Log.sent_append (h : Log env db₀ s) {c d : ι} {e : Event ι} {m : ProcessOrderMessage}
    (hother : ∀ d, d ≠ c → s'.calls d = s.calls d) (hc : (s.calls c).isDone = false)
    (hd : .sent d m ∈ s.history) :
    (s'.calls d).isDone = true ∧ ∃ tx, .committed d tx ∈ s.history ++ [e] := by
  obtain ⟨hph, tx, htx⟩ := h.sent d m hd
  refine ⟨?_, tx, List.mem_append_left _ htx⟩
  rw [hother d fun hdc => by rw [hdc, hc] at hph; cases hph]
  exact hph

omit [DecidableEq ι] in
theorem Log.toSend_append (h : Log env db₀ s) {c d : ι} {e : Event ι}
    (hother : ∀ d, d ≠ c → s'.calls d = s.calls d) (hdc : d ≠ c)
    (hd : (s'.calls d).toSend = true) : ∃ tx, .committed d tx ∈ s.history ++ [e] := by
  rw [hother d hdc] at hd
  obtain ⟨tx, htx⟩ := h.toSend d hd
  exact ⟨tx, List.mem_append_left _ htx⟩

theorem Log.commit (h : Log env db₀ s) (hi : Inv env db₀ s) {c : ι} {tx : Tx} {result : OrderView}
    (hc : s.calls c = .reread tx result) : Log env db₀ (s.commit c tx result) := by
  have hph := hi.phases c
  rw [hc] at hph
  obtain ⟨htx, -⟩ := hph
  have hself : (s.commit c tx result).calls c = .committed result := by simp [Sys.commit]
  have hother : ∀ d, d ≠ c → (s.commit c tx result).calls d = s.calls d := fun d hd => by
    simp [Sys.commit, hd]
  have hunused := h.key_unused hi hc
  -- c has not committed before, so every other entry belongs to another call
  refine ⟨?_, ?_, ?_, ?_, ?_, ?_, ?_, ?_⟩
  · intro d tx' hd
    rcases List.mem_append.mp hd with hd | hd
    · obtain ⟨hph, hopen, o, ho, heq⟩ := h.committed d tx' hd
      refine ⟨?_, hopen, o, List.mem_append_left _ ho, heq⟩
      rw [hother d fun hdc => by rw [hdc, hc] at hph; cases hph]
      exact hph
    · rw [List.mem_singleton] at hd
      cases hd
      exact ⟨by rw [hself]; rfl, htx.opened, tx.order,
        List.mem_append_right _ (List.mem_singleton_self _), rfl, rfl⟩
  · intro d m hd
    rcases List.mem_append.mp hd with hd | hd
    · exact h.sent_append hother (by rw [hc]; rfl) hd
    · rw [List.mem_singleton] at hd
      cases hd
  · intro d hd
    by_cases hdc : d = c
    · subst hdc
      exact ⟨tx, List.mem_append_right _ (List.mem_singleton_self _)⟩
    · exact h.toSend_append hother hdc hd
  · intro pair
    show (s.history ++ [Event.committed c tx]).countP _ ≤ 1
    rw [List.countP_append, List.countP_singleton]
    -- the pair was free, so this is its first COMMIT
    by_cases hpair : tx.order.key = pair
    · subst hpair
      have hzero : s.history.countP (Event.commits tx.order.key) = 0 := by
        rw [List.countP_eq_zero]
        exact fun e he => by rw [hunused e he]; exact Bool.false_ne_true
      split <;> omega
    · have := h.stockOnce pair
      rw [if_neg (by simpa [Event.commits] using hpair)]
      omega
  · intro pair
    show (s.history ++ [Event.committed c tx]).countP _ ≤ 1
    rw [List.countP_append, List.countP_singleton]
    exact h.sentOnce pair
  · show s.db.products.map tx.newStock = (s.history ++ [Event.committed c tx]).foldl Event.take _
    -- the fold over the history takes one step more
    rw [List.foldl_append, ← h.products]
    rfl
  · intro o₀ ho₀
    obtain ⟨o, ho, heq⟩ := h.initial o₀ ho₀
    exact ⟨o, List.mem_append_left _ ho, heq⟩
  · intro o ho
    rcases List.mem_append.mp ho with ho | ho
    · rcases h.origin o ho with h0 | ⟨d, tx', hd, hkey⟩
      · exact .inl h0
      · exact .inr ⟨d, tx', List.mem_append_left _ hd, hkey⟩
    · rw [List.mem_singleton.mp ho]
      exact .inr ⟨c, tx, List.mem_append_right _ (List.mem_singleton_self _), rfl⟩

theorem Log.send (h : Log env db₀ s) (hi : Inv env db₀ s) {c : ι} {result : OrderView}
    (hc : s.calls c = .publishing result) : Log env db₀ (s.send env c result) := by
  obtain ⟨tx, htx⟩ := h.toSend c (by rw [hc]; rfl)
  have hself : (s.send env c result).calls c = .done (.created result) := by simp [Sys.send]
  have hother : ∀ d, d ≠ c → (s.send env c result).calls d = s.calls d := fun d hd => by
    simp [Sys.send, hd]
  refine ⟨?_, ?_, ?_, ?_, ?_, ?_, h.initial, ?_⟩
  · intro d tx' hd
    rcases List.mem_append.mp hd with hd | hd
    · obtain ⟨hph, hrest⟩ := h.committed d tx' hd
      refine ⟨?_, hrest⟩
      by_cases hdc : d = c
      · rw [hdc, hself]
        rfl
      · rwa [hother d hdc]
    · rw [List.mem_singleton] at hd
      cases hd
  · intro d m hd
    rcases List.mem_append.mp hd with hd | hd
    · exact h.sent_append hother (by rw [hc]; rfl) hd
    · rw [List.mem_singleton] at hd
      cases hd
      exact ⟨by rw [hself]; rfl, tx, List.mem_append_left _ htx⟩
  · intro d hd
    by_cases hdc : d = c
    · rw [hdc, hself] at hd
      cases hd
    · exact h.toSend_append hother hdc hd
  · intro pair
    show (s.history ++ [Event.sent c _]).countP _ ≤ 1
    rw [List.countP_append, List.countP_singleton]
    exact h.stockOnce pair
  · intro pair
    show (s.history ++ [Event.sent c _]).countP _ ≤ 1
    rw [List.countP_append, List.countP_singleton]
    by_cases hpair : (env.request c).pair = some pair
    · -- an earlier sender for the pair would have committed it, as `c` has
      have hzero : s.history.countP (Event.sends env pair) = 0 := by
        rw [List.countP_eq_zero]
        intro e he hsends
        cases e with
        | committed d tx' => cases hsends
        | sent d m =>
          obtain ⟨hdone, tx', htx'⟩ := h.sent d m he
          have hd : (env.request d).pair = some pair := by simpa [Event.sends] using hsends
          obtain ⟨-, hopen, -⟩ := h.committed c tx htx
          obtain ⟨-, hopen', -⟩ := h.committed d tx' htx'
          rw [hopen.pair, Option.some.injEq] at hpair
          rw [hopen'.pair, Option.some.injEq] at hd
          have hcd := h.committer_unique hi htx htx' (hpair.trans hd.symm)
          rw [← hcd, hc] at hdone
          cases hdone
      split <;> omega
    · have := h.sentOnce pair
      rw [if_neg (by simpa [Event.sends] using hpair)]
      omega
  · show s.db.products = (s.history ++ [Event.sent c _]).foldl Event.take _
    rw [List.foldl_append, ← h.products]
    rfl
  · intro o ho
    rcases h.origin o ho with h0 | ⟨d, tx', hd, hkey⟩
    · exact .inl h0
    · exact .inr ⟨d, tx', List.mem_append_left _ hd, hkey⟩

theorem Log.advance (h : Log env db₀ s) (hi : Inv env db₀ s) {c : ι}
    (hadv : s.advance env c = some s') : Log env db₀ s' := by
  have hcases := advance_cases hadv
  rcases hcases.writes with ⟨tx, result, hc, rfl⟩ | ⟨result, hc, rfl⟩ | hq
  · exact h.commit hi hc
  · exact h.send hi hc
  · refine h.keep hq hcases.afterCommit (fun hdone => ?_) (hcases.toSend hq.history)
    rw [hcases.not_done] at hdone
    cases hdone

omit [DecidableEq ι] in
theorem Log.worker (h : Log env db₀ s) {db : Db} (hw : WorkerChange s.db db) :
    Log env db₀ { s with db := db } := by
  obtain ⟨f, horders, hf⟩ := hw.orders
  have hmem : ∀ o ∈ s.db.orders, ∃ o' ∈ db.orders, o'.id = o.id ∧ o'.key = o.key := fun o ho =>
    ⟨f o, horders ▸ List.mem_map_of_mem ho, (hf o).1, (hf o).2.1⟩
  refine ⟨?_, h.sent, h.toSend, h.stockOnce, h.sentOnce, ?_, ?_, ?_⟩
  · intro c tx hc
    obtain ⟨hph, hopen, o, ho, hid, hkey⟩ := h.committed c tx hc
    obtain ⟨o', ho', hid', hkey'⟩ := hmem o ho
    exact ⟨hph, hopen, o', ho', hid'.trans hid, hkey'.trans hkey⟩
  · rw [← h.products]
    exact hw.products
  · intro o₀ ho₀
    obtain ⟨o, ho, hid, hkey⟩ := h.initial o₀ ho₀
    obtain ⟨o', ho', hid', hkey'⟩ := hmem o ho
    exact ⟨o', ho', hid'.trans hid, hkey'.trans hkey⟩
  · intro o' ho'
    rw [show db.orders = s.db.orders.map f from horders] at ho'
    obtain ⟨o, ho, rfl⟩ := List.mem_map.mp ho'
    rw [(hf o).2.1]
    exact h.origin o ho

theorem Log.step (h : Log env db₀ s) (hi : Inv env db₀ s) (hs : Step env s l s') :
    Log env db₀ s' := by
  cases hs with
  | advance c hadv => exact h.advance hi hadv
  | fault c hc =>
    refine h.keep (quiet_fault s c) (fun hafter => ?_) (fun hdone => ?_) (fun hsend => ?_)
    · rw [(beforeCommit_not_after hc).1] at hafter
      cases hafter
    · rw [(beforeCommit_not_after hc).2] at hdone
      cases hdone
    · rw [fault_phase] at hsend
      split at hsend <;> cases hsend
  | sendThrows c result hc =>
    refine h.keep (quiet_setPhase s c _ s.free) ?_ ?_ ?_ <;>
      simp [Sys.sendThrows, Phase.afterCommit, Phase.isDone, Phase.toSend]
  | kill c hc =>
    refine h.keep (quiet_kill s c) ?_ ?_ ?_ <;>
      simp [Sys.kill, Phase.afterCommit, Phase.isDone, Phase.toSend]
  | worker db hw => exact h.worker hw

omit [DecidableEq ι] in
theorem log_initial (n : Nat) (db : Db) : Log env db (Sys.initial n db) where
  committed := fun c tx hc => by cases hc
  sent := fun c m hc => by cases hc
  toSend := fun c hc => by cases hc
  stockOnce := fun pair => Nat.zero_le _
  sentOnce := fun pair => Nat.zero_le _
  products := rfl
  initial := fun o ho => ⟨o, ho, rfl, rfl⟩
  origin := fun o ho => .inl ⟨o, ho, rfl⟩

theorem Reachable.log {n : Nat} (hr : Reachable env n db₀ s) (hv : db₀.Valid)
    (hf : FreshIds env db₀) : Log env db₀ s :=
  hr.invariant (fun _ h0 => by rw [h0]; exact log_initial n db₀)
    fun _ _ _ hr' ih _ hs => ih.step (Reachable.inv hr' hv hf) hs

end Steps

/-! ## What a repeated submission meets -/

section Repeats

variable {s : Sys ι}

/-- The order a finished call has returned. -/
def Phase.returned? : Phase → Option OrderView
  | .done (.created v) => some v
  | .done (.duplicate v) => some v
  | _ => none

theorem returned_result {ph : Phase} {v : OrderView} (h : ph.returned? = some v) :
    ph.result? = some v := by
  unfold Phase.returned? at h
  split at h
  · exact h
  · exact h
  · cases h

/-- Call `d` has no uncommitted entry in the index and has committed nothing. -/
def NoEffect (s : Sys ι) (d : ι) : Prop :=
  (s.calls d).openKey = none ∧ ∀ tx, .committed d tx ∉ s.history

omit [DecidableEq ι] in
/-- A call that was rolled back leaves nothing behind. -/
theorem Log.rolledBack (h : Log env db₀ s) {c : ι} (hc : (s.calls c).rolledBack = true) :
    NoEffect s c := by
  refine ⟨?_, fun tx htx => ?_⟩
  · generalize s.calls c = ph at hc
    unfold Phase.rolledBack at hc
    split at hc
    · rfl
    · rfl
    · cases hc
  · obtain ⟨hafter, -⟩ := h.committed c tx htx
    generalize s.calls c = ph at hc hafter
    unfold Phase.rolledBack at hc
    split at hc
    · cases hafter
    · rename_i e
      have hne : e ≠ .channel := by simpa using hc
      cases e <;> first | exact absurd rfl hne | cases hafter
    · cases hc

/-- A pair no initial order has, and no other call has a part in, is free. -/
theorem Log.key_free (h : Log env db₀ s) (hi : Inv env db₀ s) {c : ι} {pair : UUID × UUID}
    (h₀ : db₀.orderByKey pair = none) (hc : s.calls c = .begun ∨ s.calls c = .waiting)
    (hothers : ∀ d, d ≠ c → (env.request d).pair = some pair → NoEffect s d) :
    s.db.orderByKey pair = none ∧ s.keyLocks pair = none := by
  have hself : (s.calls c).afterCommit = false ∧ (s.calls c).openKey = none := by
    rcases hc with hc | hc <;> rw [hc] <;> exact ⟨rfl, rfl⟩
  constructor
  · rw [Db.orderByKey_eq_none_iff] at h₀ ⊢
    intro o ho hkey
    rcases h.origin o ho with ⟨o₀, ho₀, heq⟩ | ⟨d, tx, hd, heq⟩
    · exact h₀ o₀ ho₀ (heq.trans hkey)
    · obtain ⟨hafter, hopened, -⟩ := h.committed d tx hd
      have hdc : d ≠ c := fun hdc => by rw [hdc, hself.1] at hafter; cases hafter
      exact (hothers d hdc (by rw [hopened.pair, heq, hkey])).2 tx hd
  · -- a locked pair is the open pair of some call
    rw [Option.eq_none_iff_forall_ne_some]
    intro d hd
    rw [hi.keyLocks pair d] at hd
    by_cases hdc : d = c
    · rw [hdc, hself.2] at hd
      cases hd
    · rw [(hothers d hdc (hi.openKey_pair hd)).1] at hd
      cases hd

omit [DecidableEq ι] in
/-- A pair that has an order from the start is never committed again. -/
theorem Log.known_unused (h : Log env db₀ s) (hi : Inv env db₀ s) (hf : FreshIds env db₀)
    {pair : UUID × UUID} (hknown : Known db₀ pair) {c : ι} {tx : Tx}
    (hc : .committed c tx ∈ s.history) : tx.order.key ≠ pair := by
  rintro rfl
  obtain ⟨o₀, ho₀, hkey₀⟩ := hknown
  obtain ⟨o, ho, hid, hkey⟩ := h.initial o₀ ho₀
  obtain ⟨-, hopen, o', ho', hid', hkey'⟩ := h.committed c tx hc
  have heq : o = o' :=
    List.inj_on_of_nodup_map hi.valid.orderKeys ho ho' (hkey.trans (hkey₀.trans hkey'.symm))
  subst heq
  exact hf c o₀ ho₀ (by rw [← hid, hid', hopen.order_id])

omit [DecidableEq ι] in
theorem Log.stock_known (h : Log env db₀ s) (hi : Inv env db₀ s) (hf : FreshIds env db₀)
    {pair : UUID × UUID} (hknown : Known db₀ pair) : s.history.countP (Event.commits pair) = 0 := by
  rw [List.countP_eq_zero]
  intro e he hcommits
  cases e with
  | sent d m => cases hcommits
  | committed d tx =>
    exact h.known_unused hi hf hknown he (by simpa [Event.commits] using hcommits)

omit [DecidableEq ι] in
theorem Log.sent_known (h : Log env db₀ s) (hi : Inv env db₀ s) (hf : FreshIds env db₀)
    {pair : UUID × UUID} (hknown : Known db₀ pair) :
    s.history.countP (Event.sends env pair) = 0 := by
  rw [List.countP_eq_zero]
  intro e he hsends
  cases e with
  | committed d tx => cases hsends
  | sent d m =>
    obtain ⟨-, tx, htx⟩ := h.sent d m he
    obtain ⟨-, hopen, -⟩ := h.committed d tx htx
    have hpair : (env.request d).pair = some pair := by simpa [Event.sends] using hsends
    rw [hopen.pair, Option.some.injEq] at hpair
    exact h.known_unused hi hf hknown htx hpair

end Repeats

/-! ## The law -/

/-- Idempotency in one state of a run that started on `db₀`. -/
structure Idempotent (env : Env ι) (db₀ : Db) (s : Sys ι) : Prop where
  onePerPair : (s.db.orders.map (·.key)).Nodup
  sameAnswer : ∀ c d v w, (env.request c).pair = (env.request d).pair →
    (s.calls c).returned? = some v → (s.calls d).returned? = some w →
    v.id = w.id ∧ v.idempotencyKey = w.idempotencyKey ∧ v.createdAt = w.createdAt ∧
      v.items.Perm w.items
  -- the stocks are what the recorded COMMITs leave, and a pair has at most one of them
  stock : s.db.products = s.history.foldl Event.take db₀.products
  stockOnce : ∀ pair, s.history.countP (Event.commits pair) ≤ 1 ∧
    (Known db₀ pair → s.history.countP (Event.commits pair) = 0)
  sentOnce : ∀ pair, s.history.countP (Event.sends env pair) ≤ 1 ∧
    (Known db₀ pair → s.history.countP (Event.sends env pair) = 0)
  lookup : ∀ c, s.calls c = .lookup → ∃ v, (s.findOneOrFail env c).calls c = .found v
  rolledBack : ∀ c, (s.calls c).rolledBack = true → NoEffect s c
  -- with every other call for the pair rolled back, or not come to its insert, the insert goes ahead
  retryInserts : ∀ c pair, s.calls c = .begun → (env.request c).pair = some pair →
    db₀.orderByKey pair = none →
    (∀ d, d ≠ c → (env.request d).pair = some pair → NoEffect s d) →
    ∃ s' tx, s.advance env c = some s' ∧ s'.calls c = .inserted tx ∧ tx.order.key = pair
  -- and, unless it has to wait for rows or is refused for its items, creates the order
  retryCreates : ∀ c pair v, s.calls c = .begun ∨ (s.calls c = .waiting ∧ 0 < s.free) →
    (env.request c).pair = some pair → db₀.orderByKey pair = none →
    (∀ d, d ≠ c → (env.request d).pair = some pair → NoEffect s d) →
    (∀ ids, (env.request c).ids = .ok ids → ∀ id ∈ s.db.matchingIds ids, s.rowLocks id = none) →
    (createOrder (env.request c) (env.choices c) s.db).2 = .created v →
    ∃ s', Solo env c s s' ∧ s'.calls c = .done (.created v) ∧
      s'.db = (createOrder (env.request c) (env.choices c) s.db).1

section Law

variable {s : Sys ι}

theorem Results.finds (h : Results env s) {c : ι} (hc : s.calls c = .lookup) :
    ∃ v, (s.findOneOrFail env c).calls c = .found v := by
  obtain ⟨pair, hpair, hknown⟩ := h.refused c (by rw [hc]; rfl)
  obtain ⟨key, hkey, rfl⟩ := pair_eq_some hpair
  obtain ⟨o, ho⟩ := Option.ne_none_iff_exists'.mp (known_iff.mp hknown)
  refine ⟨viewOrder (env.choices c) s.db o, ?_⟩
  simp only [Sys.findOneOrFail, hkey, Option.bind_some, ho]
  exact setPhase_self s c _

theorem Log.retry_inserts (h : Log env db₀ s) (hi : Inv env db₀ s) {c : ι} {pair : UUID × UUID}
    (hc : s.calls c = .begun) (hpair : (env.request c).pair = some pair)
    (h₀ : db₀.orderByKey pair = none)
    (hothers : ∀ d, d ≠ c → (env.request d).pair = some pair → NoEffect s d) :
    ∃ s' tx, s.advance env c = some s' ∧ s'.calls c = .inserted tx ∧ tx.order.key = pair := by
  obtain ⟨hnew, hlock⟩ := h.key_free hi h₀ (.inl hc) hothers
  obtain ⟨key, hkey, rfl⟩ := pair_eq_some hpair
  exact ⟨_, _, advance_insert hc hkey hnew hlock, setPhase_self s c _, rfl⟩

theorem Log.retry_creates (h : Log env db₀ s) (hi : Inv env db₀ s) {c : ι} {pair : UUID × UUID}
    {v : OrderView} (hc : s.calls c = .begun ∨ (s.calls c = .waiting ∧ 0 < s.free))
    (hpair : (env.request c).pair = some pair) (h₀ : db₀.orderByKey pair = none)
    (hothers : ∀ d, d ≠ c → (env.request d).pair = some pair → NoEffect s d)
    (hrows : ∀ ids, (env.request c).ids = .ok ids →
      ∀ id ∈ s.db.matchingIds ids, s.rowLocks id = none)
    (hv : (createOrder (env.request c) (env.choices c) s.db).2 = .created v) :
    ∃ s', Solo env c s s' ∧ s'.calls c = .done (.created v) ∧
      s'.db = (createOrder (env.request c) (env.choices c) s.db).1 := by
  obtain ⟨hnew, hlock⟩ := h.key_free hi h₀ (hc.imp_right And.left) hothers
  obtain ⟨key, hkey, rfl⟩ := pair_eq_some hpair
  -- nobody else has a part in the pair, so nothing stands in the way
  have hun : Unhindered env s c := by
    refine ⟨fun key' hkey' => ?_, hrows⟩
    rw [hkey, Option.some.injEq] at hkey'
    rwa [← hkey']
  have hnodup : ∀ n key', UUID.ofText (env.request c).idempotencyKey = some key' →
      s.db.orderByKey ((env.request c).userId, key') ≠ none → n < s.free := by
    intro n key' hkey' hne
    rw [hkey, Option.some.injEq] at hkey'
    exact absurd (hkey' ▸ hnew) hne
  rcases hc with hc | ⟨hc, hfree⟩
  · obtain ⟨es, hes⟩ := solo_begun hi hc hun (hnodup 0)
    exact ⟨_, hes, by rw [← hv]; exact Function.update_self .., rfl⟩
  · obtain ⟨s', hs', -, hdb, hcalls, -, -⟩ := solo_waiting hi hc hun hfree (hnodup 1)
    exact ⟨s', hs', by rw [hcalls, Function.update_self, hv], hdb⟩

/-- Order creation is idempotent in every state of every run. -/
theorem createOrder_idempotent {n : Nat} (hv : db₀.Valid) (hf : FreshIds env db₀)
    (hr : Reachable env n db₀ s) : Idempotent env db₀ s := by
  have hi := hr.inv hv hf
  have hl := hr.log hv hf
  have hres := hr.results hv hf
  refine ⟨hi.valid.orderKeys, ?_, hl.products, fun pair => ⟨hl.stockOnce pair, hl.stock_known hi hf⟩,
    fun pair => ⟨hl.sentOnce pair, hl.sent_known hi hf⟩, fun c => hres.finds,
    fun c => hl.rolledBack, fun c pair => hl.retry_inserts hi,
    fun c pair v => hl.retry_creates hi⟩
  intro c d v w hpair hc hd
  obtain ⟨p, hp, hans⟩ := hres.result c v (returned_result hc)
  obtain ⟨p', hp', hans'⟩ := hres.result d w (returned_result hd)
  have heq : p = p' := Option.some.inj (hp.symm.trans (hpair.trans hp'))
  exact hans.unique hi.valid (heq ▸ hans')

/-- Two simultaneous submissions of one order: both return it, and its stock is taken once. -/
theorem createOrder_idempotent_double_submit :
    ∃ (env : Env (Fin 2)) (s : Sys (Fin 2)), (∀ c, (s.calls c).returned?.isSome = true) ∧
      s.db.products.map (·.stock) = [3, 5] ∧ Idempotent env shop s := by
  let env := shopEnv (fun _ => false) fun _ => shopRequest 50 60 [1]
  let p : Sys (Fin 2) → Bool := fun s =>
    (s.calls 0).returned?.isSome && ((s.calls 1).returned?.isSome &&
      (s.db.products.map (·.stock) = [3, 5] : Bool))
  obtain ⟨s, hr, hs⟩ := reach_of_run env 3 shop
    ([0, 1] ++ List.replicate 10 0 ++ List.replicate 4 1)
    (show Option.any p _ = true by decide +kernel)
  simp only [p, Bool.and_eq_true, decide_eq_true_eq] at hs
  have hfresh : FreshIds env shop := freshIds_shop _ _
  refine ⟨env, s, fun c => ?_, hs.2.2, createOrder_idempotent (by decide) hfresh hr.any⟩
  match c with
  | 0 => exact hs.1
  | 1 => exact hs.2.1

end Law

end Ecommerce.Orders
