import Ecommerce.Common.UnitOfWork

/-!
# ConnectionLeak — the connections of the unit of work

`release()` stands behind the ROLLBACK of the disposal, and the disposal exists only once the
transaction has been opened.  A call whose runner holds a connection gives it back if and only if it
gets past both (`transaction_releases`).
-/

namespace Ecommerce.UnitOfWork

variable {ω ρ ε : Type}

/-! ## One call -/

/-- Whether the callback asks for an ending, or for the disposal, whose statement does not fail. -/
def Ask.ends (a : Ask ω) : Bool :=
  match a.op with
  | .save _ => false
  | .commit | .rollback | .asyncDispose => !a.fails

/-- What holds of an open runner: the flag tells whether its transaction is active, and it is
released at most once, after the transaction. -/
structure Live (tx : TypeOrmTransaction ω) : Prop where
  connected : tx.runner.connected = true
  active : tx.runner.isTransactionActive = !tx.finished
  unfinished : tx.finished = false → tx.runner.isReleased = false
  releases : tx.runner.releases = tx.runner.isReleased.toNat

/-- The transaction that `create` returns. -/
def started : TypeOrmTransaction ω where
  runner := QueryRunner.create.connect.startTransaction
  finished := false

theorem Live.start : Live (started : TypeOrmTransaction ω) where
  connected := rfl
  active := rfl
  unfinished _ := rfl
  releases := rfl

/-- What a call of the driver may change on the runner. -/
structure SameConnection (r r' : QueryRunner ω) : Prop where
  connected : r'.connected = r.connected
  isReleased : r'.isReleased = r.isReleased
  releases : r'.releases = r.releases

theorem commitTransaction_same (r : QueryRunner ω) (fails : Bool) :
    SameConnection r (r.commitTransaction fails) := by
  unfold QueryRunner.commitTransaction
  split
  · exact ⟨rfl, rfl, rfl⟩
  · split
    · exact ⟨rfl, rfl, rfl⟩
    · cases hs : r.session <;> exact ⟨rfl, rfl, rfl⟩

theorem rollbackTransaction_same (r : QueryRunner ω) (fails : Bool) :
    SameConnection r (r.rollbackTransaction fails) := by
  unfold QueryRunner.rollbackTransaction
  split
  · exact ⟨rfl, rfl, rfl⟩
  · split
    · exact ⟨rfl, rfl, rfl⟩
    · cases hs : r.session <;> exact ⟨rfl, rfl, rfl⟩

theorem save_same (r : QueryRunner ω) (w : ω) (fails : Bool) :
    SameConnection r (r.save w fails) := by
  unfold QueryRunner.save
  split
  · exact ⟨rfl, rfl, rfl⟩
  · cases hs : r.session with
    | idle => cases fails <;> exact ⟨rfl, rfl, rfl⟩
    | inTransaction _ | aborted => exact ⟨rfl, rfl, rfl⟩

theorem save_active (r : QueryRunner ω) (w : ω) (fails : Bool) :
    (r.save w fails).isTransactionActive = r.isTransactionActive := by
  unfold QueryRunner.save
  split
  · rfl
  · cases hs : r.session with
    | idle => cases fails <;> rfl
    | inTransaction _ | aborted => rfl

-- An ending of an active transaction leaves it active just when its statement fails.
theorem commitTransaction_active {r : QueryRunner ω} (h : r.isTransactionActive = true)
    (fails : Bool) : (r.commitTransaction fails).isTransactionActive = fails := by
  cases fails with
  | true => simp [QueryRunner.commitTransaction, h]
  | false => cases hs : r.session <;> simp [QueryRunner.commitTransaction, h, hs]

theorem rollbackTransaction_active {r : QueryRunner ω} (h : r.isTransactionActive = true)
    (fails : Bool) : (r.rollbackTransaction fails).isTransactionActive = fails := by
  cases fails with
  | true => simp [QueryRunner.rollbackTransaction, h]
  | false => cases hs : r.session <;> simp [QueryRunner.rollbackTransaction, h, hs]

theorem Live.settles {tx : TypeOrmTransaction ω} (h : Live tx) (hopen : tx.finished = false)
    (fails : Bool) : tx.runner.settles fails = !fails := by
  rw [QueryRunner.settles, h.active, hopen]
  rfl

-- An unfinished transaction whose runner went through an ending.
theorem Live.ended {tx : TypeOrmTransaction ω} (h : Live tx) (hopen : tx.finished = false)
    {fails : Bool} {r : QueryRunner ω} (hsame : SameConnection tx.runner r)
    (hactive : r.isTransactionActive = fails) :
    Live { runner := r, finished := tx.runner.settles fails } := by
  constructor
  · exact hsame.connected.trans h.connected
  · rw [h.settles hopen, Bool.not_not]
    exact hactive
  · intro _
    exact hsame.isReleased.trans (h.unfinished hopen)
  · rw [hsame.releases, hsame.isReleased]
    exact h.releases

theorem Live.commit {tx : TypeOrmTransaction ω} (h : Live tx) (fails : Bool) :
    Live (tx.commit fails) := by
  unfold TypeOrmTransaction.commit
  split
  · exact h
  · next hopen =>
    rw [Bool.not_eq_true] at hopen
    have hactive : tx.runner.isTransactionActive = true := by rw [h.active, hopen]; rfl
    exact h.ended hopen (commitTransaction_same _ _) (commitTransaction_active hactive fails)

theorem Live.rollback {tx : TypeOrmTransaction ω} (h : Live tx) (fails : Bool) :
    Live (tx.rollback fails) := by
  unfold TypeOrmTransaction.rollback
  split
  · exact h
  · next hopen =>
    rw [Bool.not_eq_true] at hopen
    have hactive : tx.runner.isTransactionActive = true := by rw [h.active, hopen]; rfl
    exact h.ended hopen (rollbackTransaction_same _ _) (rollbackTransaction_active hactive fails)

theorem Live.dispose {tx : TypeOrmTransaction ω} (h : Live tx) (hdone : tx.finished = true) :
    Live tx.dispose := by
  unfold TypeOrmTransaction.dispose
  split
  · exact h
  · next hheld =>
    rw [Bool.not_eq_true] at hheld
    constructor
    · exact h.connected
    · exact h.active
    · intro hopen
      rw [hdone] at hopen
      cases hopen
    · change tx.runner.releases + 1 = 1
      rw [h.releases, hheld]
      rfl

theorem Live.asyncDispose {tx : TypeOrmTransaction ω} (h : Live tx) (fails : Bool) :
    Live (tx.asyncDispose fails) := by
  have hback := h.rollback fails
  unfold TypeOrmTransaction.asyncDispose
  dsimp only
  split
  · next hdone => exact hback.dispose hdone
  · exact hback

theorem Live.ask {tx : TypeOrmTransaction ω} (h : Live tx) (a : Ask ω) : Live (tx.ask a) := by
  unfold TypeOrmTransaction.ask
  cases a.op with
  | save w =>
    have hsame := save_same tx.runner w a.fails
    constructor
    · exact hsame.connected.trans h.connected
    · exact (save_active _ _ _).trans h.active
    · intro hopen
      exact hsame.isReleased.trans (h.unfinished hopen)
    · change (tx.runner.save w a.fails).releases = (tx.runner.save w a.fails).isReleased.toNat
      rw [hsame.releases, hsame.isReleased]
      exact h.releases
  | commit => exact h.commit a.fails
  | rollback => exact h.rollback a.fails
  | asyncDispose => exact h.asyncDispose a.fails

theorem Live.asks {tx : TypeOrmTransaction ω} (h : Live tx) (asks : List (Ask ω)) :
    Live (asks.foldl TypeOrmTransaction.ask tx) := by
  induction asks generalizing tx with
  | nil => exact h
  | cons a asks ih => exact ih (h.ask a)

/-! ### The flag -/

theorem Live.finished_commit {tx : TypeOrmTransaction ω} (h : Live tx) (fails : Bool) :
    (tx.commit fails).finished = (tx.finished || !fails) := by
  unfold TypeOrmTransaction.commit
  cases hf : tx.finished with
  | true => exact hf
  | false => exact h.settles hf fails

theorem Live.finished_rollback {tx : TypeOrmTransaction ω} (h : Live tx) (fails : Bool) :
    (tx.rollback fails).finished = (tx.finished || !fails) := by
  unfold TypeOrmTransaction.rollback
  cases hf : tx.finished with
  | true => exact hf
  | false => exact h.settles hf fails

theorem finished_dispose (tx : TypeOrmTransaction ω) : tx.dispose.finished = tx.finished := by
  unfold TypeOrmTransaction.dispose
  split <;> rfl

theorem Live.finished_asyncDispose {tx : TypeOrmTransaction ω} (h : Live tx) (fails : Bool) :
    (tx.asyncDispose fails).finished = (tx.finished || !fails) := by
  rw [← h.finished_rollback fails]
  unfold TypeOrmTransaction.asyncDispose
  dsimp only
  split
  · exact finished_dispose _
  · rfl

theorem Live.finished_ask {tx : TypeOrmTransaction ω} (h : Live tx) (a : Ask ω) :
    (tx.ask a).finished = (tx.finished || a.ends) := by
  unfold TypeOrmTransaction.ask Ask.ends
  cases a.op with
  | save w => exact (Bool.or_false _).symm
  | commit => exact h.finished_commit a.fails
  | rollback => exact h.finished_rollback a.fails
  | asyncDispose => exact h.finished_asyncDispose a.fails

theorem Live.finished_asks {tx : TypeOrmTransaction ω} (h : Live tx) (asks : List (Ask ω)) :
    (asks.foldl TypeOrmTransaction.ask tx).finished = (tx.finished || asks.any Ask.ends) := by
  induction asks generalizing tx with
  | nil => exact (Bool.or_false _).symm
  | cons a asks ih =>
    rw [List.foldl_cons, ih (h.ask a), h.finished_ask, List.any_cons, Bool.or_assoc]

-- The disposal gives the connection back just when its `rollback` returned.
theorem Live.releases_asyncDispose {tx : TypeOrmTransaction ω} (h : Live tx) (fails : Bool) :
    (tx.asyncDispose fails).runner.releases = (tx.finished || !fails).toNat := by
  have hlive := h.asyncDispose fails
  have hfinished := h.finished_asyncDispose fails
  rw [hlive.releases, ← hfinished]
  congr 1
  cases hdone : (tx.asyncDispose fails).finished with
  | false => exact hlive.unfinished hdone
  | true =>
    unfold TypeOrmTransaction.asyncDispose at hdone ⊢
    dsimp only at hdone ⊢
    cases hback : (tx.rollback fails).finished with
    | false =>
      rw [hback, if_neg Bool.false_ne_true] at hdone
      rw [hback] at hdone
      cases hdone
    | true =>
      rw [if_pos rfl]
      unfold TypeOrmTransaction.dispose
      split
      · next hreleased => exact hreleased
      · rfl

/-! ### The whole call -/

/-- The transaction could be opened, and an ending of the callback or the ROLLBACK of the disposal
does not fail. -/
def Call.closes (call : Call ω ρ ε) : Bool :=
  !call.startFails && (call.asks.any Ask.ends || !call.disposalFails)

/-- A call gives its connection back at most once, and if and only if the transaction was opened
and one of its endings returned. -/
theorem transaction_releases (call : Call ω ρ ε) :
    (transaction call).1.releases = (!call.connectFails && call.closes).toNat := by
  unfold transaction Call.closes
  cases call.connectFails with
  | true => rfl
  | false =>
    cases call.startFails with
    | true => rfl
    | false =>
      have hlive := Live.start.asks call.asks
      have hreleases := hlive.releases_asyncDispose call.disposalFails
      rw [Live.start.finished_asks] at hreleases
      exact hreleases

theorem transaction_connected (call : Call ω ρ ε) :
    (transaction call).1.connected = !call.connectFails := by
  unfold transaction
  cases call.connectFails with
  | true => rfl
  | false =>
    cases call.startFails with
    | true => rfl
    | false =>
      have hlive := (Live.start.asks call.asks).asyncDispose call.disposalFails
      exact hlive.connected

/-! ## Sequences of calls -/

/-- The calls in turn, on a pool with `free` connections: the runners of the calls that settle and
the connections that are free after them.  A call that finds no free connection waits for ever, and
none comes after it. -/
def runCalls : Nat → List (Call ω ρ ε) → List (QueryRunner ω) × Nat
  | free, [] => ([], free)
  | free, call :: calls =>
    let runner := (transaction call).1
    if runner.connected then
      match free with
      | 0 => ([], 0)
      | free + 1 =>
        let (runners, left) := runCalls (free + runner.releases) calls
        (runner :: runners, left)
    else
      let (runners, left) := runCalls free calls
      (runner :: runners, left)

/-- Every runner that got a connection has been released exactly once, and the pool is as full as
before. -/
structure NoLeak (free : Nat) (calls : List (Call ω ρ ε)) : Prop where
  released : ∀ r ∈ (runCalls free calls).1, r.connected = true → r.releases = 1
  restored : (runCalls free calls).2 = free

/-- Whether the call gives back the connection it got, if any. -/
def Call.keepsPool (call : Call ω ρ ε) : Bool := call.connectFails || call.closes

-- A call that is no leak itself leaves the question to the calls after it.
theorem noLeak_of_run {free : Nat} {call : Call ω ρ ε} {calls : List (Call ω ρ ε)}
    (hrun : runCalls free (call :: calls) =
      ((transaction call).1 :: (runCalls free calls).1, (runCalls free calls).2))
    (hthis : (transaction call).1.connected = true → (transaction call).1.releases = 1) :
    NoLeak free (call :: calls) ↔ NoLeak free calls := by
  constructor
  · intro h
    have hreleased := h.released
    have hrestored := h.restored
    rw [hrun] at hreleased hrestored
    exact ⟨fun r hr => hreleased r (List.mem_cons_of_mem _ hr), hrestored⟩
  · intro h
    constructor
    · rw [hrun, List.forall_mem_cons]
      exact ⟨hthis, h.released⟩
    · rw [hrun]
      exact h.restored

theorem noLeak_unconnected {free : Nat} {call : Call ω ρ ε} {calls : List (Call ω ρ ε)}
    (hfails : call.connectFails = true) : NoLeak free (call :: calls) ↔ NoLeak free calls := by
  have hconnected := transaction_connected call
  rw [hfails, Bool.not_true] at hconnected
  apply noLeak_of_run
  · simp [runCalls, hconnected]
  · intro hheld
    rw [hconnected] at hheld
    cases hheld

-- An empty pool stays empty, and no call on it gets a connection.
theorem noLeak_zero (calls : List (Call ω ρ ε)) : NoLeak 0 calls := by
  induction calls with
  | nil => exact ⟨fun r hr => absurd hr List.not_mem_nil, rfl⟩
  | cons call calls ih =>
    cases hfails : call.connectFails with
    | true => exact (noLeak_unconnected hfails).mpr ih
    | false =>
      have hconnected := transaction_connected call
      rw [hfails, Bool.not_false] at hconnected
      have hrun : runCalls 0 (call :: calls) = ([], 0) := by simp [runCalls, hconnected]
      constructor
      · rw [hrun]
        exact fun r hr => absurd hr List.not_mem_nil
      · rw [hrun]

-- The first of the calls answers for itself, and the rest find the pool as full as it did.
theorem noLeak_cons (free : Nat) (call : Call ω ρ ε) (calls : List (Call ω ρ ε)) :
    NoLeak (free + 1) (call :: calls) ↔ call.keepsPool = true ∧ NoLeak (free + 1) calls := by
  unfold Call.keepsPool
  cases hfails : call.connectFails with
  | true =>
    rw [noLeak_unconnected hfails, Bool.true_or]
    exact (and_iff_right rfl).symm
  | false =>
    have hconnected := transaction_connected call
    have hreleases := transaction_releases call
    rw [hfails, Bool.not_false] at hconnected hreleases
    rw [Bool.true_and] at hreleases
    have hrun : runCalls (free + 1) (call :: calls) =
        ((transaction call).1 :: (runCalls (free + (transaction call).1.releases) calls).1,
          (runCalls (free + (transaction call).1.releases) calls).2) := by
      simp [runCalls, hconnected]
    cases hcloses : call.closes with
    | false =>
      rw [hcloses, Bool.toNat_false] at hreleases
      -- a connection that is not given back is a leak at once
      apply iff_of_false
      · intro h
        have hone := h.released (transaction call).1 (by rw [hrun]; exact List.mem_cons_self)
          hconnected
        omega
      · rintro ⟨hkeeps, -⟩
        cases hkeeps
    | true =>
      rw [hcloses, Bool.toNat_true] at hreleases
      -- one given back leaves the pool as it was
      rw [hreleases] at hrun
      rw [noLeak_of_run hrun fun _ => hreleases]
      exact (and_iff_right rfl).symm

/-- A sequence of calls leaks no connection if and only if none is free at its start, or each call
that connects opens its transaction and one of the endings in it returns. -/
theorem noLeak_iff (free : Nat) (calls : List (Call ω ρ ε)) :
    NoLeak free calls ↔ free = 0 ∨ ∀ call ∈ calls, call.keepsPool = true := by
  cases free with
  | zero => exact iff_of_true (noLeak_zero calls) (.inl rfl)
  | succ free =>
    rw [or_iff_right (Nat.succ_ne_zero free)]
    induction calls with
    | nil =>
      apply iff_of_true
      · exact ⟨fun r hr => absurd hr List.not_mem_nil, rfl⟩
      · exact fun call hcall => absurd hcall List.not_mem_nil
    | cons call calls ih => rw [noLeak_cons, ih, List.forall_mem_cons]

/-- The call whose START TRANSACTION fails on the connection it got. -/
def failedStart : Call String Unit String where
  connectFails := false
  startFails := true
  asks := []
  result := .ok ()
  disposalFails := false

/-- A call that connects and cannot start its transaction keeps its connection. -/
theorem failed_start_leaks :
    ¬ ∀ (free : Nat) (calls : List (Call String Unit String)), NoLeak free calls := by
  intro h
  have hrestored := (h 10 [failedStart]).restored
  exact absurd hrestored (by decide)

end Ecommerce.UnitOfWork
