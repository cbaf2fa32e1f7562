import Ecommerce.Orders.CallInvariant

/-!
# Results — the order a call answers with

Whatever a call returns, created or found, is the committed order of its own user and key; later
steps change neither its id, its creation time nor its items.
-/

namespace Ecommerce.Orders

open Locking Transition

variable {ι : Type} [DecidableEq ι] {env : Env ι} {db₀ : Db}

/-- The order a call has in hand for its answer. -/
def Phase.result? : Phase → Option OrderView
  | .committed result => some result
  | .publishing result => some result
  | .found result => some result
  | .done (.created result) => some result
  | .done (.duplicate result) => some result
  | _ => none

/-- The insert of the call has been refused, and its order is not looked up yet. -/
def Phase.refused : Phase → Bool
  | .duplicate => true
  | .lookup => true
  | _ => false

/-- An order is committed for the pair. -/
def Known (db : Db) (pair : UUID × UUID) : Prop := ∃ o ∈ db.orders, o.key = pair

/-- `v` shows the committed order of the pair. -/
def Answers (db : Db) (pair : UUID × UUID) (v : OrderView) : Prop :=
  ∃ o ∈ db.orders, o.key = pair ∧ v.id = o.id ∧ v.idempotencyKey = o.idempotencyKey ∧
    v.createdAt = o.createdAt ∧ v.items.Perm (db.itemsOf o.id)

theorem pair_eq_some {req : Request} {pair : UUID × UUID} (h : req.pair = some pair) :
    ∃ key, UUID.ofText req.idempotencyKey = some key ∧ pair = (req.userId, key) := by
  obtain ⟨key, hkey, heq⟩ := Option.map_eq_some_iff.mp h
  exact ⟨key, hkey, heq.symm⟩

theorem known_iff {db : Db} {pair : UUID × UUID} : Known db pair ↔ db.orderByKey pair ≠ none := by
  rw [ne_eq, Db.orderByKey_eq_none_iff]
  simp [Known]

theorem answers_viewOrder (ch : Choices) {db : Db} {pair : UUID × UUID} {o : Order}
    (h : db.orderByKey pair = some o) : Answers db pair (viewOrder ch db o) := by
  obtain ⟨ho, hkey⟩ := Db.mem_of_orderByKey h
  exact ⟨o, ho, hkey, rfl, rfl, rfl, ch.joined_perm _⟩

/-- The two views of one pair are views of one order. -/
theorem Answers.unique {db : Db} (hv : db.Valid) {pair : UUID × UUID} {v w : OrderView}
    (h : Answers db pair v) (h' : Answers db pair w) :
    v.id = w.id ∧ v.idempotencyKey = w.idempotencyKey ∧ v.createdAt = w.createdAt ∧
      v.items.Perm w.items := by
  obtain ⟨o, ho, hkey, hid, hidem, hat, hitems⟩ := h
  obtain ⟨o', ho', hkey', hid', hidem', hat', hitems'⟩ := h'
  have heq : o = o' := List.inj_on_of_nodup_map hv.orderKeys ho ho' (hkey.trans hkey'.symm)
  subst heq
  exact ⟨hid.trans hid'.symm, hidem.trans hidem'.symm, hat.trans hat'.symm,
    hitems.trans hitems'.symm⟩

/-! ## Nothing takes an answer back -/

theorem Known.apply {db : Db} {pair : UUID × UUID} (h : Known db pair) (tx : Tx) :
    Known (db.apply tx) pair := by
  obtain ⟨o, ho, hkey⟩ := h
  exact ⟨o, List.mem_append_left _ ho, hkey⟩

theorem Answers.apply {db : Db} {pair : UUID × UUID} {v : OrderView} (h : Answers db pair v)
    {tx : Tx} (hnew : ∀ o ∈ db.orders, o.id ≠ tx.order.id)
    (hitems : ∀ i ∈ tx.items, i.orderId = tx.order.id) : Answers (db.apply tx) pair v := by
  obtain ⟨o, ho, hkey, hid, hidem, hat, hperm⟩ := h
  refine ⟨o, List.mem_append_left _ ho, hkey, hid, hidem, hat, ?_⟩
  rw [Db.itemsOf_apply_of_ne (hnew o ho) hitems]
  exact hperm

theorem Known.worker {db db' : Db} (hw : WorkerChange db db') {pair : UUID × UUID}
    (h : Known db pair) : Known db' pair := by
  obtain ⟨f, horders, hf⟩ := hw.orders
  obtain ⟨o, ho, hkey⟩ := h
  exact ⟨f o, horders ▸ List.mem_map_of_mem ho, (hf o).2.1.trans hkey⟩

theorem Answers.worker {db db' : Db} (hw : WorkerChange db db') {pair : UUID × UUID}
    {v : OrderView} (h : Answers db pair v) : Answers db' pair v := by
  obtain ⟨f, horders, hf⟩ := hw.orders
  obtain ⟨o, ho, hkey, hid, hidem, hat, hperm⟩ := h
  obtain ⟨hid', hkey', hat'⟩ := hf o
  have hidem' : (f o).idempotencyKey = o.idempotencyKey := congrArg Prod.snd hkey'
  have hitems : db'.itemsOf (f o).id = db.itemsOf o.id := by
    unfold Db.itemsOf
    rw [hw.orderItems, hid']
  refine ⟨f o, horders ▸ List.mem_map_of_mem ho, hkey'.trans hkey, hid.trans hid'.symm,
    hidem.trans hidem'.symm, hat.trans hat'.symm, ?_⟩
  rw [hitems]
  exact hperm

section Steps

variable {s s' : Sys ι} {l : Label ι}

/-- The database after a step is the one before it, with a transaction applied to it at a COMMIT. -/
theorem Step.db_cases (hs : Step env s l s') :
    s'.db = s.db ∨ (∃ c tx result, s.calls c = .reread tx result ∧ s'.db = s.db.apply tx) ∨
      (l = .worker ∧ WorkerChange s.db s'.db) := by
  cases hs with
  | advance c hadv =>
    rcases (advance_cases hadv).writes with ⟨tx, result, hc, rfl⟩ | ⟨result, -, rfl⟩ | hquiet
    · exact .inr (.inl ⟨c, tx, result, hc, rfl⟩)
    · exact .inl rfl
    · exact .inl hquiet.db
  | fault c hc => exact .inl (quiet_fault s c).db
  | sendThrows c result hc => exact .inl rfl
  | kill c hc => exact .inl rfl
  | worker db hw => exact .inr (.inr ⟨rfl, hw⟩)

omit [DecidableEq ι] in
/-- A transaction about to commit has an order id of its own. -/
theorem Inv.reread_fresh (h : Inv env db₀ s) (hf : FreshIds env db₀) {c : ι} {tx : Tx}
    {result : OrderView} (hc : s.calls c = .reread tx result) :
    Filled env db₀ c tx ∧ result = txView (env.choices c) tx ∧
      ∀ o ∈ s.db.orders, o.id ≠ tx.order.id := by
  have hph := h.phases c
  rw [hc] at hph
  obtain ⟨htx, hres⟩ := hph
  refine ⟨htx, hres, ?_⟩
  rw [htx.opened.order_id]
  exact h.newId_free hf (by rw [hc]; rfl)

theorem Inv.known_step (hs : Step env s l s') {pair : UUID × UUID} (h : Known s.db pair) :
    Known s'.db pair := by
  rcases hs.db_cases with heq | ⟨c, tx, result, -, heq⟩ | ⟨-, hw⟩
  · rwa [heq]
  · rw [heq]
    exact h.apply tx
  · exact h.worker hw

theorem Inv.answers_step (h : Inv env db₀ s) (hf : FreshIds env db₀) (hs : Step env s l s')
    {pair : UUID × UUID} {v : OrderView} (ha : Answers s.db pair v) : Answers s'.db pair v := by
  rcases hs.db_cases with heq | ⟨c, tx, result, hc, heq⟩ | ⟨-, hw⟩
  · rwa [heq]
  · obtain ⟨htx, -, hnew⟩ := h.reread_fresh hf hc
    rw [heq]
    exact ha.apply hnew htx.items_orderId
  · exact ha.worker hw

omit [DecidableEq ι] in
/-- The order a transaction has just committed answers for its pair. -/
theorem Inv.answers_commit (h : Inv env db₀ s) (hf : FreshIds env db₀) {c : ι} {tx : Tx}
    {result : OrderView} (hc : s.calls c = .reread tx result) :
    Answers (s.db.apply tx) tx.order.key result := by
  obtain ⟨htx, rfl, hnew⟩ := h.reread_fresh hf hc
  refine ⟨tx.order, List.mem_append_right _ (List.mem_singleton_self _), rfl, rfl, rfl, rfl, ?_⟩
  rw [Db.itemsOf_apply_self h.valid hnew htx.items_orderId]
  exact (env.choices c).joined_perm _

omit [DecidableEq ι] in
theorem Opened.pair {c : ι} {tx : Tx} (h : Opened env c tx) :
    (env.request c).pair = some tx.order.key := by
  obtain ⟨key, hkey, heq⟩ := h
  rw [Request.pair, hkey, heq]
  rfl

omit [DecidableEq ι] in
/-- A call holds the key of its own request. -/
theorem Inv.openKey_pair (h : Inv env db₀ s) {c : ι} {pair : UUID × UUID}
    (hc : (s.calls c).openKey = some pair) : (env.request c).pair = some pair := by
  obtain ⟨tx, htx, hkey⟩ := Option.map_eq_some_iff.mp hc
  rw [((h.phases c).opened htx).pair, hkey]

/-! ## Every run -/

/-- What the phases past the insert rely on. -/
structure Results (env : Env ι) (s : Sys ι) : Prop where
  refused : ∀ c, (s.calls c).refused = true →
    ∃ pair, (env.request c).pair = some pair ∧ Known s.db pair
  result : ∀ c v, (s.calls c).result? = some v →
    ∃ pair, (env.request c).pair = some pair ∧ Answers s.db pair v

/-- A result comes from an earlier phase, from a COMMIT or from the look-up. -/
theorem Advance.result {c : ι} {v : OrderView} (h : Advance env s c s')
    (hv : (s'.calls c).result? = some v) :
    (s.calls c).result? = some v ∨ (∃ tx, s.calls c = .reread tx v ∧ s'.db = s.db.apply tx) ∨
      ∃ pair o, (env.request c).pair = some pair ∧ s.db.orderByKey pair = some o ∧
        v = viewOrder (env.choices c) s.db o ∧ s'.db = s.db := by
  cases h with
  | throws tx e why =>
    rw [throwing_phase] at hv
    cases hv
  | commit tx result hc =>
    have heq : result = v := by simpa [Sys.commit, Phase.result?] using hv
    exact .inr (.inl ⟨tx, heq ▸ hc, rfl⟩)
  | release result hc =>
    have heq : result = v := by simpa [Phase.result?] using hv
    exact .inl (by rw [hc, ← heq]; rfl)
  | send result hc =>
    have heq : result = v := by simpa [Sys.send, Phase.result?] using hv
    exact .inl (by rw [hc, ← heq]; rfl)
  | find key o hc hkey ho =>
    have heq : viewOrder (env.choices c) s.db o = v := by simpa [Phase.result?] using hv
    exact .inr (.inr ⟨_, o, by rw [Request.pair, hkey]; rfl, ho, heq.symm, rfl⟩)
  | dispose result hc =>
    have heq : result = v := by simpa [Phase.result?] using hv
    exact .inl (by rw [hc, ← heq]; rfl)
  -- the other phases have no answer yet
  | _ =>
    simp [Phase.result?] at hv

/-- An insert is refused because of a committed order. -/
theorem Advance.refused_phase {c : ι} (h : Advance env s c s')
    (hr : (s'.calls c).refused = true) : s'.db = s.db ∧
      ((s.calls c).refused = true ∨ ∃ pair o, (env.request c).pair = some pair ∧
        s.db.orderByKey pair = some o) := by
  cases h with
  | throws tx e why =>
    rw [throwing_phase] at hr
    cases hr
  | refused key o hc hkey ho =>
    exact ⟨rfl, .inr ⟨_, o, by rw [Request.pair, hkey]; rfl, ho⟩⟩
  | connectAgain hc hfree => exact ⟨rfl, .inl (by rw [hc]; rfl)⟩
  | commit tx result hc => simp [Sys.commit, Phase.refused] at hr
  | send result hc => simp [Sys.send, Phase.refused] at hr
  | _ => simp [Phase.refused] at hr

/-- Every call but one stays, and so does the answer it has. -/
theorem Results.step_other (h : Results env s) (hi : Inv env db₀ s) (hf : FreshIds env db₀)
    (hs : Step env s l s') {c : ι} (hother : ∀ d, d ≠ c → s'.calls d = s.calls d)
    (hrefused : (s'.calls c).refused = true →
      ∃ pair, (env.request c).pair = some pair ∧ Known s'.db pair)
    (hresult : ∀ v, (s'.calls c).result? = some v →
      ∃ pair, (env.request c).pair = some pair ∧ Answers s'.db pair v) : Results env s' where
  refused := by
    intro d hd
    by_cases hdc : d = c
    · subst hdc
      exact hrefused hd
    · rw [hother d hdc] at hd
      obtain ⟨pair, hpair, hknown⟩ := h.refused d hd
      exact ⟨pair, hpair, Inv.known_step hs hknown⟩
  result := by
    intro d v hv
    by_cases hdc : d = c
    · subst hdc
      exact hresult v hv
    · rw [hother d hdc] at hv
      obtain ⟨pair, hpair, hans⟩ := h.result d v hv
      exact ⟨pair, hpair, hi.answers_step hf hs hans⟩

theorem Results.advance (h : Results env s) (hi : Inv env db₀ s) (hf : FreshIds env db₀) {c : ι}
    (hadv : s.advance env c = some s') : Results env s' := by
  have hs : Step env s (.advance c) s' := .advance c hadv
  have hcases := advance_cases hadv
  refine h.step_other hi hf hs hcases.others (fun hr => ?_) fun v hv => ?_
  · -- the refusal and the answer are about committed rows, which stay
    obtain ⟨hdb, hold | ⟨pair, o, hpair, ho⟩⟩ := hcases.refused_phase hr
    · obtain ⟨pair, hpair, hknown⟩ := h.refused c hold
      exact ⟨pair, hpair, Inv.known_step hs hknown⟩
    · rw [hdb]
      exact ⟨pair, hpair, known_iff.mpr (by rw [ho]; simp)⟩
  · rcases hcases.result hv with hold | ⟨tx, hc, hdb⟩ | ⟨pair, o, hpair, ho, rfl, hdb⟩
    · obtain ⟨pair, hpair, hans⟩ := h.result c v hold
      exact ⟨pair, hpair, hi.answers_step hf hs hans⟩
    · rw [hdb]
      obtain ⟨htx, -, -⟩ := hi.reread_fresh hf hc
      exact ⟨_, htx.opened.pair, hi.answers_commit hf hc⟩
    · rw [hdb]
      exact ⟨pair, hpair, answers_viewOrder _ ho⟩

theorem Results.step (h : Results env s) (hi : Inv env db₀ s) (hf : FreshIds env db₀)
    (hs : Step env s l s') : Results env s' := by
  cases hs with
  | advance c hadv => exact h.advance hi hf hadv
  | fault c hc =>
    refine h.step_other hi hf (.fault c hc) (quiet_fault s c).others (fun hr => ?_) fun v hv => ?_
    · rw [fault_phase] at hr
      split at hr <;> cases hr
    · rw [fault_phase] at hv
      split at hv <;> cases hv
  | sendThrows c result hc =>
    refine h.step_other (c := c) hi hf (.sendThrows c result hc)
      (fun d hd => setPhase_of_ne s _ hd) (fun hr => ?_) fun v hv => ?_
    · simp [Sys.sendThrows, Phase.refused] at hr
    · simp [Sys.sendThrows, Phase.result?] at hv
  | kill c hc =>
    refine h.step_other hi hf (.kill c hc) (quiet_kill s c).others (fun hr => ?_) fun v hv => ?_
    · simp [Sys.kill, Phase.refused] at hr
    · simp [Sys.kill, Phase.result?] at hv
  | worker db hw =>
    refine ⟨fun c hr => ?_, fun c v hv => ?_⟩
    · obtain ⟨pair, hpair, hknown⟩ := h.refused c hr
      exact ⟨pair, hpair, hknown.worker hw⟩
    · obtain ⟨pair, hpair, hans⟩ := h.result c v hv
      exact ⟨pair, hpair, hans.worker hw⟩

omit [DecidableEq ι] in
theorem results_initial (n : Nat) (db : Db) : Results env (Sys.initial n db) where
  refused := by
    intro c hr
    cases hr
  result := by
    intro c v hv
    cases hv

theorem Reachable.results {n : Nat} (hr : Reachable env n db₀ s) (hv : db₀.Valid)
    (hf : FreshIds env db₀) : Results env s :=
  hr.invariant (fun _ h0 => by rw [h0]; exact results_initial n db₀)
    fun _ _ _ hr' ih _ hs => ih.step (Reachable.inv hr' hv hf) hf hs

end Steps

end Ecommerce.Orders
