import Ecommerce.Orders.ConnectionPool
import Ecommerce.Orders.SoloRun

/-!
# Serializability — the interleaved calls and one call at a time

Every call has one step that decides its outcome: its COMMIT, its look-up of a duplicate, or the
step that throws.  At that step the rows it has read are the committed ones and its key is its own,
so `createOrder` on the database of that moment has the same outcome.  Running the calls one at a
time in the order of these steps gives the same database and the same outcomes.
-/

namespace Ecommerce.Orders

open Locking Transition

variable {ι : Type} [DecidableEq ι] {env : Env ι} {db₀ : Db} {n : Nat}

/-- The outcome of a call, once it is decided. -/
def Phase.decided : Phase → Option Outcome
  | .committed result => some (.created result)
  | .publishing result => some (.created result)
  | .found result => some (.duplicate result)
  | .failing _ e => some (.rejected e)
  | .done outcome => some outcome
  | _ => none

/-- What `createOrder` computes for call `c`. -/
abbrev Env.outcome (env : Env ι) (c : ι) (db : Db) : Db × Outcome :=
  createOrder (env.request c) (env.choices c) db

/-! ## The deciding step -/

section Deciding

variable {s s' : Sys ι} {c : ι}

omit [DecidableEq ι] in
/-- The rows a finished locked read has collected are what the query returns on its own. -/
theorem Inv.findByIds_eq (h : Inv env db₀ s) {tx : Tx} (hcur : ∀ r ∈ tx.rows, r ∈ s.db.products)
    (hscan : Scanned env db₀ c tx []) :
    ∃ ids, (env.request c).ids = .ok ids ∧ findByIds (env.choices c) s.db ids = tx.rows := by
  obtain ⟨ids, hids, heq⟩ := hscan
  refine ⟨ids, hids, ?_⟩
  rw [List.append_nil] at heq
  have hrows : ∀ rows : List Product, (∀ r ∈ rows, r ∈ s.db.products) →
      (rows.map (·.id)).filterMap s.db.product? = rows := by
    intro rows hrows
    induction rows with
    | nil => rfl
    | cons r rs ih =>
      rw [List.map_cons, List.filterMap_cons_some
        (Db.product?_of_mem h.valid.productIds (hrows r (List.mem_cons_self ..))),
        ih fun r' hr' => hrows r' (List.mem_cons_of_mem _ hr')]
  rw [findByIds, Db.matchingIds_congr h.productIds, ← heq]
  exact hrows tx.rows hcur

omit [DecidableEq ι] in
/-- An open transaction has inserted the order `createOrder` would insert now. -/
theorem Inv.outcome_open (h : Inv env db₀ s) {tx : Tx} (htx : (s.calls c).tx? = some tx) :
    env.outcome c s.db =
      txOutcome s.db (fillOrder (env.request c) (env.choices c) s.db tx.order) := by
  obtain ⟨key, hkey, horder⟩ := (h.phases c).opened htx
  have hfree : s.db.orderByKey ((env.request c).userId, key) = none := by
    refine h.keyFree c _ ?_
    rw [Phase.openKey, htx, Option.map_some, horder]
    rfl
  rw [Env.outcome, createOrder]
  simp only [hkey, hfree, horder]

omit [DecidableEq ι] in
theorem Inv.rows_current (h : Inv env db₀ s) {tx : Tx} (htx : (s.calls c).tx? = some tx) :
    ∀ r ∈ tx.rows, r ∈ s.db.products := by
  have hcur := h.current c
  rwa [Phase.rows, htx] at hcur

omit [DecidableEq ι] in
/-- A call that throws would be refused with the same error on its own. -/
theorem Throws.outcome (h : Inv env db₀ s) (hf : FreshIds env db₀) {tx : Tx} {e : Failure}
    (why : Throws env s c (s.calls c) tx e) : env.outcome c s.db = (s.db, .rejected e) := by
  have hph := h.phases c
  have hpast : (s.calls c).past = false := by
    generalize s.calls c = ph at why
    cases why <;> rfl
  have htx : (s.calls c).tx? = some tx := by
    generalize s.calls c = ph at why
    cases why <;> rfl
  rw [h.outcome_open htx]
  have hcur := h.rows_current htx
  generalize s.calls c = ph at why hph
  -- the rows locked so far are those one statement would read now
  have filled : ∀ {ids : List UUID}, (env.request c).ids = .ok ids →
      findByIds (env.choices c) s.db ids = tx.rows →
      fillOrder (env.request c) (env.choices c) s.db tx.order =
        fillRows (env.request c) (env.choices c) s.db tx.order tx.rows := by
    intro ids hids hrows
    rw [fillOrder, hids, ← hrows]
    rfl
  cases why with
  | select herr =>
    rw [fillOrder, herr]
    rfl
  | check herr =>
    obtain ⟨-, -, -, hscan⟩ := hph
    obtain ⟨ids, hids, hrows⟩ := h.findByIds_eq hcur hscan
    rw [filled hids hrows, fillRows, herr]
    rfl
  | insertItems herr =>
    obtain ⟨-, -, hscan, hcheck⟩ := hph
    obtain ⟨ids, hids, hrows⟩ := h.findByIds_eq hcur hscan
    rw [filled hids hrows, fillRows, hcheck]
    simp only [bind, Except.bind, herr]
    rfl
  | writeStocks herr =>
    obtain ⟨-, hscan, partialItems, hcheck, hitems⟩ := hph
    obtain ⟨ids, hids, hrows⟩ := h.findByIds_eq hcur hscan
    rw [filled hids hrows, fillRows, hcheck]
    simp only [bind, Except.bind, hitems, herr]
    rfl
  | readAgain hnone =>
    rw [h.findOne_own hf hph hpast] at hnone
    cases hnone

omit [DecidableEq ι] in
/-- A COMMIT leaves the database and the order `createOrder` gives on its own. -/
theorem Inv.commit_outcome (h : Inv env db₀ s) (hf : FreshIds env db₀) {tx : Tx}
    {result : OrderView} (hc : s.calls c = .reread tx result) :
    env.outcome c s.db = (s.db.apply tx, .created result) := by
  obtain ⟨hfilled, rfl, -⟩ := h.reread_fresh hf hc
  have htx : (s.calls c).tx? = some tx := by rw [hc]; rfl
  obtain ⟨partialItems, products, hcheck, hitems, hstocks⟩ := hfilled.writes
  obtain ⟨ids, hids, hrows⟩ := h.findByIds_eq (h.rows_current htx) hfilled.scanned
  rw [h.outcome_open htx, fillOrder, hids]
  simp only [bind, Except.bind, hrows, fillRows, hcheck, hitems, hstocks]
  have hfind := h.findOne_own hf hfilled (by rw [hc]; rfl)
  have heta : ({ order := tx.order, rows := tx.rows, items := tx.items, stocks := tx.stocks } : Tx)
    = tx := rfl
  rw [heta, hfind]
  rfl

omit [DecidableEq ι] in
/-- The pair of an open transaction is not committed. -/
theorem Inv.open_unknown (h : Inv env db₀ s) {tx : Tx} (htx : (s.calls c).tx? = some tx) {m : Nat} :
    ∀ key, UUID.ofText (env.request c).idempotencyKey = some key →
      s.db.orderByKey ((env.request c).userId, key) ≠ none → m ≤ (s.calls c).connections := by
  intro key hkey hne
  have hpair := ((h.phases c).opened htx).pair
  rw [Request.pair, hkey, Option.map_some, Option.some.injEq] at hpair
  -- its own row is invisible until the COMMIT, and nobody else may insert one
  exact absurd (hpair ▸ h.keyFree c _ (by rw [Phase.openKey, htx]; rfl)) hne

omit [DecidableEq ι] in
theorem outcome_badKey (hkey : UUID.ofText (env.request c).idempotencyKey = none) (db : Db) :
    env.outcome c db = (db, .rejected (.query .invalidText)) := by
  rw [Env.outcome, createOrder]
  simp only [hkey]

omit [DecidableEq ι] in
theorem outcome_known {db : Db} {key : UUID} {o : Order}
    (hkey : UUID.ofText (env.request c).idempotencyKey = some key)
    (ho : db.orderByKey ((env.request c).userId, key) = some o) :
    env.outcome c db = (db, .duplicate (viewOrder (env.choices c) db o)) := by
  rw [Env.outcome, createOrder]
  simp only [hkey, ho]

/-- One step decides a call as `createOrder` would, or changes neither its decision nor the
database. -/
theorem Advance.decides (hadv : Advance env s c s') (h : Inv env db₀ s) (hres : Results env s)
    (hf : FreshIds env db₀) :
    ((s'.calls c).decided = (s.calls c).decided ∧ s'.db = s.db) ∨
    ((s.calls c).decided = none ∧ (s'.calls c).decided = some (env.outcome c s.db).2 ∧
      s'.db = (env.outcome c s.db).1 ∧ 1 ≤ (s.calls c).connections ∧
      (∀ key, UUID.ofText (env.request c).idempotencyKey = some key →
        s.db.orderByKey ((env.request c).userId, key) ≠ none → 2 ≤ (s.calls c).connections)) := by
  cases hadv with
  | badKey hc hkey =>
    refine .inr ⟨by rw [hc]; rfl, ?_, ?_, by rw [hc]; exact le_refl 1, fun key hkey' => ?_⟩
    · rw [outcome_badKey hkey, setPhase_self]
      rfl
    · rw [outcome_badKey hkey]
      rfl
    · rw [hkey] at hkey'
      cases hkey'
  | throws tx e why =>
    have hopen : (s.calls c).tx? = some tx ∧ (s.calls c).decided = none := by
      generalize s.calls c = ph at why
      cases why <;> exact ⟨rfl, rfl⟩
    refine .inr ⟨hopen.2, ?_, ?_, why.connections.ge, h.open_unknown hopen.1⟩
    · rw [why.outcome h hf, throwing_phase]
      rfl
    · rw [why.outcome h hf]
      exact (quiet_throwing s c tx e).db
  | commit tx result hc =>
    refine .inr ⟨by rw [hc]; rfl, ?_, ?_, by rw [hc]; exact le_refl 1,
      h.open_unknown (by rw [hc]; rfl)⟩
    · rw [h.commit_outcome hf hc, Sys.commit]
      simp [Phase.decided]
    · rw [h.commit_outcome hf hc]
      rfl
  | find key o hc hkey ho =>
    refine .inr ⟨by rw [hc]; rfl, ?_, ?_, by rw [hc]; exact Nat.le_succ 1, fun _ _ _ => by
      rw [hc]; exact le_refl 2⟩
    · rw [outcome_known hkey ho]
      simp [Phase.decided]
    · rw [outcome_known hkey ho]
      rfl
  | missing hc ho =>
    -- the insert was refused for an order that is still there
    obtain ⟨pair, hpair, hknown⟩ := hres.refused c (by rw [hc]; rfl)
    obtain ⟨key, hkey, rfl⟩ := pair_eq_some hpair
    exact absurd (ho key hkey) (known_iff.mp hknown)
  | send result hc => exact .inl ⟨by simp [hc, Sys.send, Phase.decided], rfl⟩
  -- the other steps decide nothing
  | _ => exact .inl ⟨by simp_all [Phase.decided], rfl⟩

end Deciding

/-! ## One call at a time -/

/-- The calls of the list run one after the other, each from its start to its end. -/
inductive SerialRun (env : Env ι) (n : Nat) (db₀ : Db) : List ι → Sys ι → Prop
  | nil : SerialRun env n db₀ [] (Sys.initial n db₀)
  | next {order : List ι} {t t' : Sys ι} (c : ι) (h : SerialRun env n db₀ order t)
      (hsteps : (system env n db₀).Steps (onlyCall c) t t') (hdone : (t'.calls c).isDone = true) :
      SerialRun env n db₀ (order ++ [c]) t'

theorem SerialRun.reachable {order : List ι} {t : Sys ι} (h : SerialRun env n db₀ order t) :
    Reachable env n db₀ t := by
  induction h with
  | nil => exact .init rfl
  | next c h hsteps hdone ih => exact ih.steps (hsteps.mono fun _ _ _ => trivial)

/-- `t` is a serial state that has run the calls `s` has decided. -/
structure Simulates (n : Nat) (s t : Sys ι) : Prop where
  db : t.db = s.db
  free : t.free = n
  rowLocks : ∀ id, t.rowLocks id = none
  keyLocks : ∀ key, t.keyLocks key = none
  calls : ∀ c, t.calls c = match (s.calls c).decided with
    | some outcome => .done outcome
    | none => .waiting

section Simulation

variable {s s' : Sys ι} {c : ι}

omit [DecidableEq ι] in
theorem simulates_initial (n : Nat) (db : Db) :
    Simulates n (Sys.initial n db : Sys ι) (Sys.initial n db) where
  db := rfl
  free := rfl
  rowLocks := fun _ => rfl
  keyLocks := fun _ => rfl
  calls := fun _ => rfl

omit [DecidableEq ι] in
theorem Simulates.undecided_step {t : Sys ι} (h : Simulates n s t) (hdb : s'.db = s.db)
    (hdec : ∀ d, (s'.calls d).decided = (s.calls d).decided) : Simulates n s' t where
  db := h.db.trans hdb.symm
  free := h.free
  rowLocks := h.rowLocks
  keyLocks := h.keyLocks
  calls := by
    intro d
    rw [hdec d]
    exact h.calls d

theorem connections_le [Fintype ι] (hr : Reachable env n db₀ s) (c : ι) :
    (s.calls c).connections ≤ n := by
  have hpool := hr.pool
  rw [← Finset.add_sum_erase Finset.univ (fun d => (s.calls d).connections)
    (Finset.mem_univ c)] at hpool
  omega

/-- The serial run goes on with the call that the step decides. -/
theorem Simulates.decided_step {t : Sys ι} (h : Simulates n s t) (ht : Inv env db₀ t)
    (hothers : ∀ d, d ≠ c → s'.calls d = s.calls d) (hnone : (s.calls c).decided = none)
    (hdec : (s'.calls c).decided = some (env.outcome c s.db).2)
    (hdb : s'.db = (env.outcome c s.db).1) (hpos : 1 ≤ n)
    (hdup : ∀ key, UUID.ofText (env.request c).idempotencyKey = some key →
      s.db.orderByKey ((env.request c).userId, key) ≠ none → 2 ≤ n) :
    ∃ t', Solo env c t t' ∧ (t'.calls c).isDone = true ∧ Simulates n s' t' := by
  have hwait : t.calls c = .waiting := by
    rw [h.calls c, hnone]
  have hun : Unhindered env t c := ⟨fun key _ => h.keyLocks _, fun ids _ id _ => h.rowLocks id⟩
  obtain ⟨t', hsteps, hfree, hdb', hcalls, hrows, hkeys⟩ :=
    solo_waiting ht hwait hun (by rw [h.free]; exact hpos) fun key hkey hne => by
      rw [h.free]
      exact hdup key hkey (h.db ▸ hne)
  have hself : t'.calls c = .done (env.outcome c s.db).2 := by
    rw [hcalls, Function.update_self, h.db]
  refine ⟨t', hsteps, by rw [hself]; rfl, ?_, hfree.trans h.free, ?_, ?_, ?_⟩
  · rw [hdb', hdb, h.db]
  · rw [hrows]
    exact h.rowLocks
  · rw [hkeys]
    exact h.keyLocks
  · intro d
    by_cases hd : d = c
    · rw [hd, hself, hdec]
    · rw [hcalls, Function.update_of_ne hd, h.calls d, hothers d hd]

/-- A serial run that has come as far as the decisions of `s`. -/
def Serialized (env : Env ι) (n : Nat) (db₀ : Db) (s : Sys ι) : Prop :=
  ∃ order t, SerialRun env n db₀ order t ∧ order.Nodup ∧
    (∀ c, c ∈ order ↔ (s.calls c).decided ≠ none) ∧ Simulates n s t

theorem Serialized.step [Fintype ι] (h : Serialized env n db₀ s) (hr : Reachable env n db₀ s)
    (hv : db₀.Valid) (hf : FreshIds env db₀) (hadv : s.advance env c = some s') :
    Serialized env n db₀ s' := by
  obtain ⟨order, t, hserial, hnodup, hmem, hsim⟩ := h
  have hcases := advance_cases hadv
  have hothers := hcases.others
  rcases hcases.decides (hr.inv hv hf) (hr.results hv hf) hf with
    ⟨hsame, hdb⟩ | ⟨hnone, hdec, hdb, hpos, hdup⟩
  · have hall : ∀ d, (s'.calls d).decided = (s.calls d).decided := by
      intro d
      by_cases hd : d = c
      · rw [hd, hsame]
      · rw [hothers d hd]
    exact ⟨order, t, hserial, hnodup, fun d => by rw [hall d]; exact hmem d,
      hsim.undecided_step hdb hall⟩
  · have hle := connections_le hr c
    -- c runs as a whole at the moment it decides
    obtain ⟨t', hsteps, hdone, hsim'⟩ := hsim.decided_step (hserial.reachable.inv hv hf) hothers
      hnone hdec hdb (hpos.trans hle) fun key hkey hne => (hdup key hkey hne).trans hle
    have hnew : c ∉ order := fun hc => (hmem c).mp hc hnone
    refine ⟨order ++ [c], t', hserial.next c (hsteps.steps n db₀) hdone, ?_, fun d => ?_, hsim'⟩
    · rw [List.nodup_append]
      exact ⟨hnodup, List.nodup_singleton c, by
        intro a ha b hb hab
        rw [List.mem_singleton.mp hb] at hab
        exact hnew (hab ▸ ha)⟩
    · rw [List.mem_append, List.mem_singleton]
      by_cases hd : d = c
      · rw [hd, hdec]
        simp
      · rw [hothers d hd, hmem d]
        simp [hd]

/-- When all calls have finished, running them one at a time, in an order of their own, gives the
same database and the same outcome for every call. -/
theorem createOrder_serializable [Fintype ι] (hv : db₀.Valid) (hf : FreshIds env db₀)
    (hr : (system env n db₀).Reach ownStep s) (hdone : ∀ c, (s.calls c).isDone = true) :
    ∃ order : List ι, order.Nodup ∧ (∀ c, c ∈ order) ∧
      ∃ t, SerialRun env n db₀ order t ∧ t.db = s.db ∧ t.calls = s.calls := by
  have hser : Serialized env n db₀ s := by
    refine System.Reach.invariant (I := Serialized env n db₀) hr ?_ fun s l s' hr' ih hown hs => ?_
    · intro s h0
      rw [h0]
      refine ⟨[], _, .nil, List.nodup_nil, fun c => ?_, simulates_initial n db₀⟩
      simp [Sys.initial, Phase.decided]
    · obtain ⟨c, rfl⟩ := hown
      cases hs with
      | advance _ hadv => exact ih.step hr'.any hv hf hadv
  obtain ⟨order, t, hserial, hnodup, hmem, hsim⟩ := hser
  have hdecided : ∀ c, ∃ outcome, s.calls c = .done outcome := fun c =>
    Phase.isDone_iff.mp (hdone c)
  refine ⟨order, hnodup, fun c => ?_, t, hserial, hsim.db, funext fun c => ?_⟩
  · -- every finished call has decided, so it stands in the order
    obtain ⟨outcome, hc⟩ := hdecided c
    rw [hmem c, hc]
    simp [Phase.decided]
  · obtain ⟨outcome, hc⟩ := hdecided c
    rw [hsim.calls c, hc]
    rfl

/-- Two submissions of one order that overlap in the shop. -/
theorem createOrder_serializable_shop :
    ∃ (env : Env (Fin 2)) (s : Sys (Fin 2)), (∀ c, (s.calls c).isDone = true) ∧
      ∃ order : List (Fin 2), order.Nodup ∧ (∀ c, c ∈ order) ∧
        ∃ t, SerialRun env 3 shop order t ∧ t.db = s.db ∧ t.calls = s.calls := by
  let env := shopEnv (fun _ => false) fun _ => shopRequest 50 60 [1]
  let p : Sys (Fin 2) → Bool := fun s => (s.calls 0).isDone && (s.calls 1).isDone
  obtain ⟨s, hr, hs⟩ := reach_of_run env 3 shop
    ([0, 1] ++ List.replicate 10 0 ++ List.replicate 4 1)
    (show Option.any p _ = true by decide +kernel)
  simp only [p, Bool.and_eq_true] at hs
  have hfresh : FreshIds env shop := freshIds_shop _ _
  have hdone : ∀ c, (s.calls c).isDone = true := fun c =>
    match c with
    | 0 => hs.1
    | 1 => hs.2
  exact ⟨env, s, hdone, createOrder_serializable (by decide) hfresh hr hdone⟩

end Simulation

end Ecommerce.Orders
