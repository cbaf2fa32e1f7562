import Ecommerce.Orders.ConnectionPool
import Ecommerce.Orders.Idempotency

/-!
# Atomicity — calls that end before their COMMIT

Until its COMMIT a call touches the rest of the state through its locks and its connections only.
So the run without the call's steps is a run as well: it reaches the state in which the call waits,
its locks are free and its connections are back in the pool (`uncommitted_without`).
-/

namespace Ecommerce.Orders

open Locking Transition

variable {ι : Type} [DecidableEq ι] {env : Env ι} {db₀ : Db} {s s' : Sys ι} {c d : ι} {n : Nat}

/-- The call that takes the step. -/
def Label.caller : Label ι → Option ι
  | .advance c => some c
  | .fault c => some c
  | .sendThrows c => some c
  | .kill c => some c
  | .worker => none

/-- The steps of the worker and of every call but `c`. -/
def notBy (c : ι) (_ : Sys ι) (l : Label ι) : Prop := l.caller ≠ some c

/-- No COMMIT of the call has taken effect. -/
def Uncommitted (c : ι) (s : Sys ι) : Prop := ∀ tx, .committed c tx ∉ s.history

/-- The state in which `c` has not begun, and all the rest is as in `s`. -/
def Sys.without (s : Sys ι) (c : ι) : Sys ι where
  db := s.db
  free := s.free + (s.calls c).connections
  rowLocks := s.rowLocks.releaseAll c
  keyLocks := s.keyLocks.releaseAll c
  calls := Function.update s.calls c .waiting
  history := s.history

/-! ## The steps of the others -/

theorem without_calls (hd : d ≠ c) : (s.without c).calls d = s.calls d :=
  Function.update_of_ne hd _ _

-- A state after a step of `d`, field by field.
theorem without_step (hd : d ≠ c) (ph : Phase) (db : Db) (free : Nat)
    (rowLocks : LockTable UUID ι) (keyLocks : LockTable (UUID × UUID) ι)
    (history : List (Event ι)) :
    Sys.without ⟨db, free, rowLocks, keyLocks, Function.update s.calls d ph, history⟩ c =
      ⟨db, free + (s.calls c).connections, rowLocks.releaseAll c, keyLocks.releaseAll c,
        Function.update (s.without c).calls d ph, history⟩ := by
  ext1
  · rfl
  · show free + (Function.update s.calls d ph c).connections = _
    rw [Function.update_of_ne hd.symm]
  · rfl
  · rfl
  · exact Function.update_comm hd ph .waiting s.calls
  · rfl

theorem setPhase_without (hd : d ≠ c) (ph : Phase) :
    (s.setPhase d ph).without c = (s.without c).setPhase d ph :=
  without_step hd ph _ _ _ _ _

theorem releaseLocks_without (s : Sys ι) (c d : ι) :
    (s.releaseLocks d).without c = (s.without c).releaseLocks d := by
  ext1
  · rfl
  · rfl
  · exact LockTable.releaseAll_comm _ _ _
  · exact LockTable.releaseAll_comm _ _ _
  · rfl
  · rfl

theorem throwing_without (hd : d ≠ c) (tx : Tx) (e : Failure) :
    (s.throwing d tx e).without c = (s.without c).throwing d tx e := by
  unfold Sys.throwing
  split
  · rw [setPhase_without hd, releaseLocks_without]
  · exact setPhase_without hd _

theorem Throws.without {ph : Phase} {tx : Tx} {e : Failure} (h : Throws env s d ph tx e) :
    Throws env (s.without c) d ph tx e := by
  cases h with
  | select h => exact .select h
  | check h => exact .check h
  | insertItems h => exact .insertItems h
  | writeStocks h => exact .writeStocks h
  | readAgain h => exact .readAgain h

-- The step takes or gives back a connection.
theorem setPhase_free_without (hd : d ≠ c) (ph : Phase) (m m' : Nat)
    (hm : m + (s.calls c).connections = m') :
    Sys.without { s.setPhase d ph with free := m } c =
      { (s.without c).setPhase d ph with free := m' } := by
  rw [← hm]
  exact without_step hd ph _ _ _ _ _

theorem Advance.without (h : Advance env s d s') (hd : d ≠ c) :
    Advance env (s.without c) d (s'.without c) := by
  have hcalls := without_calls (s := s) hd
  cases h with
  | connect hc hfree =>
    rw [setPhase_free_without hd .begun (s.free - 1) ((s.without c).free - 1)]
    · exact .connect (hcalls.trans hc) (Nat.add_pos_left hfree _)
    · show s.free - 1 + (s.calls c).connections = s.free + (s.calls c).connections - 1
      omega
  | badKey hc hkey =>
    rw [setPhase_without hd]
    exact .badKey (hcalls.trans hc) hkey
  | refused key o hc hkey ho =>
    rw [setPhase_without hd]
    exact .refused key o (hcalls.trans hc) hkey ho
  -- d acquires its key after c's locks are gone: the two orders give one table
  | insert key hc hkey hnew hlock =>
    have hafter := without_step (s := s) hd
      (.inserted (.start (newOrder (env.request d) (env.choices d) key))) s.db s.free s.rowLocks
      (s.keyLocks.acquire ((env.request d).userId, key) d) s.history
    rw [LockTable.acquire_releaseAll _ _ hd] at hafter
    refine hafter ▸ .insert key (hcalls.trans hc) hkey hnew ?_
    exact LockTable.releaseAll_eq_none_of (.inl hlock)
  | throws tx e why =>
    rw [throwing_without hd]
    exact .throws tx e (hcalls ▸ why.without)
  | select tx ids hc hids =>
    rw [setPhase_without hd]
    exact .select tx ids (hcalls.trans hc) hids
  -- a row free in s is free without c, so the same row is read
  | lock tx id todo row hc hlock hrow =>
    have hafter := without_step (s := s) hd
      (.locking { tx with rows := tx.rows ++ [row] } todo) s.db s.free
      (s.rowLocks.acquire id d) s.keyLocks s.history
    rw [LockTable.acquire_releaseAll _ _ hd] at hafter
    refine hafter ▸ .lock tx id todo row (hcalls.trans hc) ?_ hrow
    exact LockTable.releaseAll_eq_none_of (.inl hlock)
  | skip tx id todo hc hlock hrow =>
    rw [setPhase_without hd]
    exact .skip tx id todo (hcalls.trans hc) (LockTable.releaseAll_eq_none_of (.inl hlock)) hrow
  | check tx partialItems products hc hcheck =>
    rw [setPhase_without hd]
    exact .check tx partialItems products (hcalls.trans hc) hcheck
  | insertItems tx partialItems products items hc hitems =>
    rw [setPhase_without hd]
    exact .insertItems tx partialItems products items (hcalls.trans hc) hitems
  | writeStocks tx products stocks hc hstocks =>
    rw [setPhase_without hd]
    exact .writeStocks tx products stocks (hcalls.trans hc) hstocks
  | readAgain tx result hc hresult =>
    rw [setPhase_without hd]
    exact .readAgain tx result (hcalls.trans hc) hresult
  -- the releases of d and of c commute
  | commit tx result hc =>
    have hafter : (s.commit d tx result).without c = (s.without c).commit d tx result := by
      have hlocks := without_step (s := s.releaseLocks d) hd (.committed result) (s.db.apply tx)
        s.free (s.rowLocks.releaseAll d) (s.keyLocks.releaseAll d)
        (s.history ++ [.committed d tx])
      rw [LockTable.releaseAll_comm _ d, LockTable.releaseAll_comm _ d] at hlocks
      exact hlocks
    rw [hafter]
    exact .commit tx result (hcalls.trans hc)
  | release result hc =>
    rw [setPhase_free_without hd _ _ _ (Nat.add_right_comm _ _ _)]
    exact .release result (hcalls.trans hc)
  | send result hc =>
    have hafter : (s.send env d result).without c = (s.without c).send env d result :=
      without_step hd _ _ _ _ _ _
    rw [hafter]
    exact .send result (hcalls.trans hc)
  | connectAgain hc hfree =>
    rw [setPhase_free_without hd .lookup (s.free - 1) ((s.without c).free - 1)]
    · exact .connectAgain (hcalls.trans hc) (Nat.add_pos_left hfree _)
    · show s.free - 1 + (s.calls c).connections = s.free + (s.calls c).connections - 1
      omega
  -- d gives its connection back, c's are counted in: the sums commute
  | find key o hc hkey ho =>
    rw [setPhase_free_without hd _ _ _ (Nat.add_right_comm _ _ _)]
    exact .find key o (hcalls.trans hc) hkey ho
  | missing hc ho =>
    rw [setPhase_free_without hd _ _ _ (Nat.add_right_comm _ _ _)]
    exact .missing (hcalls.trans hc) ho
  | dispose result hc =>
    rw [setPhase_free_without hd _ _ _ (Nat.add_right_comm _ _ _)]
    exact .dispose result (hcalls.trans hc)
  | rollback tx e hc =>
    have hafter := setPhase_free_without (s := s.releaseLocks d) hd (.done (.rejected e)) _ _
      (Nat.add_right_comm s.free 1 (s.calls c).connections)
    rw [releaseLocks_without] at hafter
    exact hafter ▸ .rollback tx e (hcalls.trans hc)

theorem Throws.enabled {ph : Phase} {tx : Tx} {e : Failure} (h : Throws env s d ph tx e)
    (hph : s.calls d = ph) : s.advance env d = some (s.throwing d tx e) := by
  cases h with
  | select h => simp only [Sys.advance, hph, Sys.select, h]
  | check h => simp only [Sys.advance, hph, Sys.check, h]
  | insertItems h => simp only [Sys.advance, hph, Sys.insertItems, h]
  | writeStocks h => simp only [Sys.advance, hph, Sys.writeStocks, h]
  | readAgain h => simp only [Sys.advance, hph, Sys.readAgain, h]

/-- Every listed step can be taken. -/
theorem Advance.enabled (h : Advance env s d s') : s.advance env d = some s' := by
  cases h with
  | connect hc hfree => simp only [Sys.advance, hc, Sys.connect, hfree, if_true]
  | badKey hc hkey => simp only [Sys.advance, hc, Sys.insertOrder, hkey]
  | refused key o hc hkey ho =>
    simp only [Sys.advance, hc, Sys.insertOrder, hkey, ho, Option.isSome_some, if_true]
  | insert key hc hkey hnew hlock => exact advance_insert hc hkey hnew hlock
  | throws tx e why => exact why.enabled rfl
  | select tx ids hc hids => simp only [Sys.advance, hc, Sys.select, hids]
  | lock tx id todo row hc hlock hrow =>
    simp only [Sys.advance, hc, Sys.lockRow, hlock, hrow, if_true]
  | skip tx id todo hc hlock hrow =>
    simp only [Sys.advance, hc, Sys.lockRow, hlock, hrow, if_true]
  | check tx partialItems products hc h => simp only [Sys.advance, hc, Sys.check, h]
  | insertItems tx partialItems products items hc h =>
    simp only [Sys.advance, hc, Sys.insertItems, h]
  | writeStocks tx products stocks hc h => simp only [Sys.advance, hc, Sys.writeStocks, h]
  | readAgain tx result hc h => simp only [Sys.advance, hc, Sys.readAgain, h]
  | commit tx result hc => simp only [Sys.advance, hc]
  | release result hc => simp only [Sys.advance, hc]
  | send result hc => simp only [Sys.advance, hc]
  | connectAgain hc hfree => simp only [Sys.advance, hc, hfree, if_true]
  | find key o hc hkey ho =>
    simp only [Sys.advance, hc, Sys.findOneOrFail, hkey, Option.bind_some, ho]
  | missing hc ho =>
    -- a key that is no uuid finds no order either
    have hnone : (UUID.ofText (env.request d).idempotencyKey).bind
        (fun key => s.db.orderByKey ((env.request d).userId, key)) = none := by
      rw [Option.bind_eq_none_iff]
      exact ho
    simp only [Sys.advance, hc, Sys.findOneOrFail, hnone]
  | dispose result hc => simp only [Sys.advance, hc]
  | rollback tx e hc => simp only [Sys.advance, hc]

theorem fault_without (hd : d ≠ c) : (s.fault d).without c = (s.without c).fault d := by
  unfold Sys.fault
  rw [without_calls hd]
  split
  · exact setPhase_without hd _
  · have hafter := setPhase_free_without (s := s.releaseLocks d) hd
      (.failing none (.query .other)) _ _
      (Nat.add_right_comm s.free ((s.calls d).connections - 1) (s.calls c).connections)
    rw [releaseLocks_without] at hafter
    exact hafter

theorem kill_without (hd : d ≠ c) : (s.kill d).without c = (s.without c).kill d := by
  have hafter := setPhase_free_without (s := s.releaseLocks d) hd (.done .stopped) _ _
    (Nat.add_right_comm s.free (s.calls d).connections (s.calls c).connections)
  rw [releaseLocks_without] at hafter
  unfold Sys.kill
  rw [without_calls hd]
  exact hafter

/-- What the others do, they can do without `c`. -/
theorem Step.without {l : Label ι} (hs : Step env s l s') (hl : l.caller ≠ some c) :
    Step env (s.without c) l (s'.without c) := by
  have hne : ∀ d, l.caller = some d → d ≠ c := fun d hd hdc => hl (hd.trans (congrArg some hdc))
  cases hs with
  | advance d hadv => exact .advance d ((advance_cases hadv).without (hne d rfl)).enabled
  | fault d hph =>
    rw [fault_without (hne d rfl)]
    exact .fault d (by rwa [without_calls (hne d rfl)])
  | sendThrows d result hph =>
    have hafter : (s.sendThrows d).without c = (s.without c).sendThrows d :=
      setPhase_without (hne d rfl) _
    rw [hafter]
    exact .sendThrows d result (by rwa [without_calls (hne d rfl)])
  | kill d hph =>
    rw [kill_without (hne d rfl)]
    exact .kill d (by rwa [without_calls (hne d rfl)])
  | worker db hw => exact .worker db hw

/-! ## The steps of the call -/

-- A step of `c` that writes nothing shows only in the locks, connections and phase of `c`.
theorem without_eq (hdb : s'.db = s.db) (hhistory : s'.history = s.history)
    (hcalls : ∀ d, d ≠ c → s'.calls d = s.calls d)
    (hfree : s'.free + (s'.calls c).connections = s.free + (s.calls c).connections)
    (hrows : s'.rowLocks.releaseAll c = s.rowLocks.releaseAll c)
    (hkeys : s'.keyLocks.releaseAll c = s.keyLocks.releaseAll c) : s'.without c = s.without c := by
  ext1
  · exact hdb
  · exact hfree
  · exact hrows
  · exact hkeys
  · funext d
    show Function.update s'.calls c _ d = Function.update s.calls c _ d
    by_cases hd : d = c
    · rw [hd, Function.update_self, Function.update_self]
    · rw [Function.update_of_ne hd, Function.update_of_ne hd, hcalls d hd]
  · exact hhistory

/-- What a step of a call does to the lock tables, as the others see it. -/
theorem Advance.own_locks (h : Advance env s c s') :
    s'.rowLocks.releaseAll c = s.rowLocks.releaseAll c ∧
      s'.keyLocks.releaseAll c = s.keyLocks.releaseAll c := by
  cases h with
  | insert key hc hkey hnew hlock => exact ⟨rfl, LockTable.releaseAll_acquire hlock⟩
  | lock tx id todo row hc hlock hrow => exact ⟨LockTable.releaseAll_acquire hlock, rfl⟩
  | throws tx e why =>
    unfold Sys.throwing
    split
    · exact ⟨LockTable.releaseAll_releaseAll _ _, LockTable.releaseAll_releaseAll _ _⟩
    · exact ⟨rfl, rfl⟩
  | commit tx result hc | rollback tx e hc =>
    exact ⟨LockTable.releaseAll_releaseAll _ _, LockTable.releaseAll_releaseAll _ _⟩
  | _ => exact ⟨rfl, rfl⟩

theorem fault_locks (s : Sys ι) (c : ι) :
    (s.fault c).rowLocks.releaseAll c = s.rowLocks.releaseAll c ∧
      (s.fault c).keyLocks.releaseAll c = s.keyLocks.releaseAll c := by
  unfold Sys.fault
  split
  · exact ⟨rfl, rfl⟩
  · exact ⟨LockTable.releaseAll_releaseAll _ _, LockTable.releaseAll_releaseAll _ _⟩

/-! ## What the history says of a call -/

/-- A call sends what it has committed, and only then. -/
structure Trace (s : Sys ι) : Prop where
  committed : ∀ c tx, .committed c tx ∈ s.history → (s.calls c).afterCommit = true
  sent : ∀ c m, .sent c m ∈ s.history → ∃ tx, .committed c tx ∈ s.history
  toSend : ∀ c, (s.calls c).toSend = true → ∃ tx, .committed c tx ∈ s.history

theorem Trace.keep (h : Trace s) (hq : Quiet s s' c)
    (hafter : (s.calls c).afterCommit = true → (s'.calls c).afterCommit = true)
    (hsend : (s'.calls c).toSend = true → (s.calls c).toSend = true) : Trace s' := by
  constructor
  · intro d tx hd
    rw [hq.history] at hd
    by_cases hdc : d = c
    · subst hdc
      exact hafter (h.committed d tx hd)
    · rw [hq.others d hdc]
      exact h.committed d tx hd
  · rw [hq.history]
    exact h.sent
  · intro d hd
    rw [hq.history]
    by_cases hdc : d = c
    · subst hdc
      exact h.toSend d (hsend hd)
    · rw [hq.others d hdc] at hd
      exact h.toSend d hd

theorem Trace.commit (h : Trace s) (c : ι) (tx : Tx) (result : OrderView) :
    Trace (s.commit c tx result) := by
  have hself : (s.commit c tx result).calls c = .committed result := by simp [Sys.commit]
  have hother : ∀ d, d ≠ c → (s.commit c tx result).calls d = s.calls d := fun d hd => by
    simp [Sys.commit, hd]
  constructor
  · intro d tx' hd
    by_cases hdc : d = c
    · rw [hdc, hself]
      rfl
    · rcases List.mem_append.mp hd with hd | hd
      · rw [hother d hdc]
        exact h.committed d tx' hd
      · -- the only new commit is c's own
        rw [List.mem_singleton, Event.committed.injEq] at hd
        exact absurd hd.1 hdc
  · intro d m hd
    rcases List.mem_append.mp hd with hd | hd
    · obtain ⟨tx', htx'⟩ := h.sent d m hd
      exact ⟨tx', List.mem_append_left _ htx'⟩
    · rw [List.mem_singleton] at hd
      cases hd
  · intro d hd
    by_cases hdc : d = c
    · rw [hdc]
      exact ⟨tx, List.mem_append_right _ (List.mem_singleton_self _)⟩
    · rw [hother d hdc] at hd
      obtain ⟨tx', htx'⟩ := h.toSend d hd
      exact ⟨tx', List.mem_append_left _ htx'⟩

theorem Trace.send (h : Trace s) {result : OrderView} (hc : s.calls c = .publishing result) :
    Trace (s.send env c result) := by
  have hself : (s.send env c result).calls c = .done (.created result) := by simp [Sys.send]
  have hother : ∀ d, d ≠ c → (s.send env c result).calls d = s.calls d := fun d hd => by
    simp [Sys.send, hd]
  obtain ⟨tx, htx⟩ := h.toSend c (by rw [hc]; rfl)
  constructor
  · intro d tx' hd
    rcases List.mem_append.mp hd with hd | hd
    · by_cases hdc : d = c
      · rw [hdc, hself]
        rfl
      · rw [hother d hdc]
        exact h.committed d tx' hd
    · rw [List.mem_singleton] at hd
      -- a send commits nothing
      cases hd
  · intro d m hd
    rcases List.mem_append.mp hd with hd | hd
    · obtain ⟨tx', htx'⟩ := h.sent d m hd
      exact ⟨tx', List.mem_append_left _ htx'⟩
    · rw [List.mem_singleton, Event.sent.injEq] at hd
      rw [hd.1]
      exact ⟨tx, List.mem_append_left _ htx⟩
  · intro d hd
    by_cases hdc : d = c
    · rw [hdc, hself] at hd
      cases hd
    · rw [hother d hdc] at hd
      obtain ⟨tx', htx'⟩ := h.toSend d hd
      exact ⟨tx', List.mem_append_left _ htx'⟩

theorem Trace.step (h : Trace s) {l : Label ι} (hs : Step env s l s') : Trace s' := by
  cases hs with
  | advance c hadv =>
    have hcases := advance_cases hadv
    rcases hcases.writes with ⟨tx, result, hc, rfl⟩ | ⟨result, hc, rfl⟩ | hq
    · exact h.commit c tx result
    · exact h.send hc
    · exact h.keep hq hcases.afterCommit (hcases.toSend hq.history)
  | fault c hc =>
    -- a fault hits a call before its COMMIT: no past phase comes out of it
    refine h.keep (quiet_fault s c) (fun hafter => ?_) (fun hsend => ?_)
    · rw [(beforeCommit_not_after hc).1] at hafter
      cases hafter
    · rw [fault_phase] at hsend
      split at hsend <;> cases hsend
  | sendThrows c result hc =>
    apply h.keep (quiet_setPhase s c _ s.free)
    · simp [Phase.afterCommit]
    · simp [Phase.toSend]
  | kill c hc =>
    apply h.keep (quiet_kill s c)
    · simp [Sys.kill, Phase.afterCommit]
    · simp [Sys.kill, Phase.toSend]
  | worker db hw => exact ⟨h.committed, h.sent, h.toSend⟩

omit [DecidableEq ι] in
theorem trace_initial (n : Nat) (db : Db) : Trace (Sys.initial n db : Sys ι) where
  committed _ _ hc := by cases hc
  sent _ _ hc := by cases hc
  toSend _ hc := by cases hc

theorem Reachable.trace (hr : Reachable env n db₀ s) : Trace s :=
  System.Reach.invariant (I := Trace) hr (fun _ h0 => by rw [h0]; exact trace_initial n db₀)
    fun _ _ _ _ ih _ hs => ih.step hs

theorem Step.history {l : Label ι} (hs : Step env s l s') : s.history ⊆ s'.history := by
  cases hs with
  | advance c hadv =>
    rcases (advance_cases hadv).writes with ⟨tx, result, hc, rfl⟩ | ⟨result, hc, rfl⟩ | hq
    · exact List.subset_append_left _ _
    · exact List.subset_append_left _ _
    · rw [hq.history]
      exact List.Subset.refl _
  | fault c hc =>
    rw [(quiet_fault s c).history]
    exact List.Subset.refl _
  | _ => exact List.Subset.refl _

/-- Before its COMMIT the others see nothing of what a call does. -/
theorem Step.without_own {l : Label ι} (hs : Step env s l s') (hl : l.caller = some c)
    (h : Trace s) (hnone : Uncommitted c s') : s'.without c = s.without c := by
  -- a call that has not committed has nothing to send
  have hunsent : (s.calls c).toSend = false := by
    rw [← Bool.not_eq_true]
    intro hsend
    obtain ⟨tx, htx⟩ := h.toSend c hsend
    exact hnone tx (hs.history htx)
  cases hs with
  | advance d hadv =>
    obtain rfl : d = c := Option.some.inj hl
    have hcases := advance_cases hadv
    rcases hcases.writes with ⟨tx, result, hc, rfl⟩ | ⟨result, hc, rfl⟩ | hq
    · -- the commit would stand in the history
      exact absurd (List.mem_append_right _ (List.mem_singleton_self _)) (hnone tx)
    · rw [hc] at hunsent
      cases hunsent
    · exact without_eq hq.db hq.history hq.others hcases.connections hcases.own_locks.1
        hcases.own_locks.2
  | fault d hph =>
    obtain rfl : d = c := Option.some.inj hl
    have hq := quiet_fault s d
    exact without_eq hq.db hq.history hq.others (fault_connections hph) (fault_locks s d).1
      (fault_locks s d).2
  | sendThrows d result hph =>
    obtain rfl : d = c := Option.some.inj hl
    rw [hph] at hunsent
    cases hunsent
  | kill d hph =>
    obtain rfl : d = c := Option.some.inj hl
    have hq := quiet_kill s d
    refine without_eq hq.db hq.history hq.others ?_ (LockTable.releaseAll_releaseAll _ _)
      (LockTable.releaseAll_releaseAll _ _)
    simp [Sys.kill, Sys.setPhase, Sys.releaseLocks, Phase.connections]
  | worker db hw => cases hl

/-- What a call has not committed is as if the call had never begun. -/
theorem uncommitted_without (hr : Reachable env n db₀ s) (hnone : Uncommitted c s) :
    (system env n db₀).Reach (notBy c) (s.without c) := by
  refine hr.project_while (P := Uncommitted c) (Sys.without · c) hnone
    (fun _ _ _ hs hafter tx htx => hafter tx (Step.history hs htx)) (fun s h0 => ?_)
    fun s l s' hr' hafter _ hs => ?_
  · rw [h0]
    show Sys.without (Sys.initial n db₀) c = Sys.initial n db₀
    ext1
    · rfl
    · rfl
    · exact LockTable.releaseAll_empty c
    · exact LockTable.releaseAll_empty c
    · exact Function.update_eq_self c _
    · rfl
  · by_cases hl : l.caller = some c
    · exact .inl (hs.without_own hl (Reachable.trace hr') hafter)
    · exact .inr ⟨l, hl, hs.without hl⟩

/-! ## The locks of a call that has ended -/

def Unlocked (c : ι) (s : Sys ι) : Prop :=
  (∀ id, s.rowLocks id ≠ some c) ∧ ∀ key, s.keyLocks key ≠ some c

theorem unlocked_released (c : ι) {s s' : Sys ι} (hrows : s'.rowLocks = s.rowLocks.releaseAll c)
    (hkeys : s'.keyLocks = s.keyLocks.releaseAll c) : Unlocked c s' := by
  unfold Unlocked
  rw [hrows, hkeys]
  exact ⟨LockTable.releaseAll_ne _ c, LockTable.releaseAll_ne _ c⟩

-- What `c` does to the tables is none of `d`'s locks.
theorem Unlocked.step_other (h : Unlocked d s) (hd : d ≠ c)
    (hrows : s'.rowLocks.releaseAll c = s.rowLocks.releaseAll c)
    (hkeys : s'.keyLocks.releaseAll c = s.keyLocks.releaseAll c) : Unlocked d s' := by
  constructor
  · intro id
    rw [ne_eq, LockTable.eq_some_iff_of_releaseAll_eq hrows hd]
    exact h.1 id
  · intro key
    rw [ne_eq, LockTable.eq_some_iff_of_releaseAll_eq hkeys hd]
    exact h.2 key

/-- A call without an open transaction holds no lock. -/
def LocksInTx (s : Sys ι) : Prop := ∀ c, (s.calls c).tx? = none → Unlocked c s

theorem Advance.unlocked (h : Advance env s c s') (hlocks : LocksInTx s)
    (htx : (s'.calls c).tx? = none) : Unlocked c s' := by
  have hbefore : ∀ {ph : Phase}, s.calls c = ph → ph.tx? = none → Unlocked c s :=
    fun hc hph => hlocks c (by rw [hc]; exact hph)
  cases h with
  | connect hc hfree => exact hbefore hc rfl
  | badKey hc hkey => exact hbefore hc rfl
  | refused key o hc hkey ho => exact hbefore hc rfl
  | throws tx e why =>
    -- a failed query has ended the transaction; otherwise it is still open
    rw [throwing_phase] at htx
    unfold Sys.throwing
    split at htx
    · next hquery =>
      rw [if_pos hquery]
      exact unlocked_released c rfl rfl
    · cases htx
  | commit tx result hc => exact unlocked_released c rfl rfl
  | release result hc => exact hbefore hc rfl
  | send result hc => exact hbefore hc rfl
  | connectAgain hc hfree => exact hbefore hc rfl
  | find key o hc hkey ho => exact hbefore hc rfl
  | missing hc ho => exact hbefore hc rfl
  | dispose result hc => exact hbefore hc rfl
  | rollback tx e hc => exact unlocked_released c rfl rfl
  -- in every other step the transaction stays open
  | _ =>
    rw [setPhase_self] at htx
    cases htx

theorem LocksInTx.step (h : LocksInTx s) {l : Label ι} (hs : Step env s l s') : LocksInTx s' := by
  intro d htx
  cases hs with
  | advance c hadv =>
    have hcases := advance_cases hadv
    by_cases hd : d = c
    · subst hd
      exact hcases.unlocked h htx
    · rw [hcases.others d hd] at htx
      exact (h d htx).step_other hd hcases.own_locks.1 hcases.own_locks.2
  | fault c hc =>
    by_cases hd : d = c
    · subst hd
      unfold Sys.fault
      split
      · -- no connection yet, so no lock either
        next hwaiting => exact h d (by rw [hwaiting]; rfl)
      · exact unlocked_released d rfl rfl
    · rw [(quiet_fault s c).others d hd] at htx
      exact (h d htx).step_other hd (fault_locks s c).1 (fault_locks s c).2
  | sendThrows c result hc =>
    by_cases hd : d = c
    · subst hd
      exact h d (by rw [hc]; rfl)
    · rw [Sys.sendThrows, setPhase_of_ne s _ hd] at htx
      exact h d htx
  | kill c hc =>
    by_cases hd : d = c
    · subst hd
      exact unlocked_released d rfl rfl
    · rw [(quiet_kill s c).others d hd] at htx
      exact (h d htx).step_other hd (LockTable.releaseAll_releaseAll _ _)
        (LockTable.releaseAll_releaseAll _ _)
  | worker db hw => exact h d htx

theorem Reachable.locksInTx (hr : Reachable env n db₀ s) : LocksInTx s := by
  refine System.Reach.invariant (I := LocksInTx) hr (fun s h0 => ?_) fun _ _ _ _ ih _ hs =>
    ih.step hs
  intro c _
  rw [h0]
  exact ⟨fun id hid => (by cases hid), fun key hkey => (by cases hkey)⟩

/-! ## Calls that fail -/

/-- An exception inside the unit of work of `c`: what is thrown and the state after it. -/
inductive Raises (env : Env ι) (s : Sys ι) (c : ι) : Failure → Sys ι → Prop
  -- The insert is refused because the key is no `uuid`.
  | badKey (hc : s.calls c = .begun) (hkey : UUID.ofText (env.request c).idempotencyKey = none) :
      Raises env s c (.query .invalidText) (s.setPhase c (.failing none (.query .invalidText)))
  -- `TypeError`s, refused statements, missing products, too little stock, no order on re-read.
  | thrown (tx : Tx) (e : Failure) (why : Throws env s c (s.calls c) tx e) :
      Raises env s c e (s.throwing c tx e)
  -- The order of a refused key is not there for `findOneOrFail`.
  | missing (hc : s.calls c = .lookup)
      (ho : ∀ key, UUID.ofText (env.request c).idempotencyKey = some key →
        s.db.orderByKey ((env.request c).userId, key) = none) :
      Raises env s c .entityNotFound
        { s.setPhase c (.failing none .entityNotFound) with free := s.free + 1 }
  -- The connection or a statement fails, COMMIT included.
  | fault (hc : (s.calls c).beforeCommit = true) : Raises env s c (.query .other) (s.fault c)

/-- How a call ends that has not committed. -/
def Outcome.failedOrDuplicate : Outcome → Bool
  | .rejected e => e ≠ .channel
  | .duplicate _ => true
  | _ => false

/-- The call has ended and left nothing: up to its own phase the state is that of a run without it,
no lock on a key or a row is its own, and no order and no message of it is out. -/
structure LeavesNothing (env : Env ι) (n : Nat) (db₀ : Db) (s : Sys ι) (c : ι) : Prop where
  without : (system env n db₀).Reach (notBy c) (s.setPhase c .waiting)
  unlocked : Unlocked c s
  uncommitted : Uncommitted c s
  unsent : ∀ m, .sent c m ∉ s.history

theorem fillItems_error {lines : List Line} {orderId : UUID} {ps : List Product} {e : Failure}
    (h : fillItems lines orderId ps = .error e) : e ≠ .channel := by
  induction ps with
  | nil => cases h
  | cons p ps ih =>
    rw [fillItems] at h
    split at h
    · cases h
      intro heq
      cases heq
    · split at h
      · cases h
      · next hrest =>
        rw [Except.error.injEq] at h
        exact ih (h ▸ hrest)

theorem saveItems_error {is : List PartialItem} {e : Failure} (h : saveItems is = .error e) :
    e ≠ .channel := by
  cases is with
  | nil => cases h
  | cons i is =>
    rw [saveItems] at h
    split at h
    · cases h
    · cases h
      decide

theorem saveProducts_error {us : List StockUpdate} {e : Failure} (h : saveProducts us = .error e) :
    e ≠ .channel := by
  cases us with
  | nil => cases h
  | cons u us =>
    rw [saveProducts] at h
    split at h
    · cases h
    · cases h
      decide

theorem Request.ids_error {req : Request} {e : Failure} (h : req.ids = .error e) : e ≠ .channel := by
  unfold Request.ids at h
  split at h
  · unfold idParams at h
    split at h
    · cases h
      decide
    · split at h
      · cases h
      · cases h
        decide
  · next hlines =>
    cases h
    rw [CreateOrderDto.lines_error hlines]
    decide

theorem Request.check_error {req : Request} {orderId : UUID} {ps : List Product} {e : Failure}
    (h : req.check orderId ps = .error e) : e ≠ .channel := by
  unfold Request.check at h
  split at h
  · unfold checkProducts at h
    split at h
    · cases h
      intro heq
      cases heq
    · exact fillItems_error h
  · next hlines =>
    cases h
    rw [CreateOrderDto.lines_error hlines]
    decide

omit [DecidableEq ι] in
theorem Throws.ne_channel {ph : Phase} {tx : Tx} {e : Failure} (h : Throws env s c ph tx e) :
    e ≠ .channel := by
  cases h with
  | select h => exact Request.ids_error h
  | check h => exact Request.check_error h
  | insertItems h => exact saveItems_error h
  | writeStocks h => exact saveProducts_error h
  | readAgain h => decide

/-- An exception is on its way out right after it was raised, and never looks like a failed send. -/
theorem Raises.failing {e : Failure} (h : Raises env s c e s') :
    (s'.calls c = .done (.rejected e) ∨ ∃ tx, s'.calls c = .failing tx e) ∧ e ≠ .channel := by
  cases h with
  | badKey hc hkey => exact ⟨.inr ⟨none, setPhase_self s c _⟩, by decide⟩
  | thrown tx e why => exact ⟨.inr ⟨_, throwing_phase s c tx e⟩, why.ne_channel⟩
  | missing hc ho => exact ⟨.inr ⟨none, setPhase_self s c _⟩, by decide⟩
  | fault hc =>
    refine ⟨?_, by decide⟩
    have hphase := fault_phase s c
    split at hphase
    · exact .inl hphase
    · exact .inr ⟨none, hphase⟩

theorem Raises.step {e : Failure} (h : Raises env s c e s') :
    ∃ l, l.caller = some c ∧ Step env s l s' := by
  cases h with
  | badKey hc hkey => exact ⟨.advance c, rfl, .advance c (Advance.badKey hc hkey).enabled⟩
  | thrown tx e why => exact ⟨.advance c, rfl, .advance c (Advance.throws tx e why).enabled⟩
  | missing hc ho => exact ⟨.advance c, rfl, .advance c (Advance.missing hc ho).enabled⟩
  | fault hc => exact ⟨.fault c, rfl, .fault c hc⟩

/-- An exception ends in the rejection, with the next step of the call. -/
theorem failing_rejects {tx : Option Tx} {e : Failure} (hc : s.calls c = .failing tx e) :
    ∃ s', s.advance env c = some s' ∧ s'.calls c = .done (.rejected e) :=
  ⟨_, (Advance.rollback tx e hc).enabled, setPhase_self _ c _⟩

theorem failedOrDuplicate_uncommitted (hr : Reachable env n db₀ s) {outcome : Outcome}
    (hc : s.calls c = .done outcome) (hout : outcome.failedOrDuplicate = true) :
    Uncommitted c s := by
  intro tx htx
  have hafter := (Reachable.trace hr).committed c tx htx
  rw [hc] at hafter
  cases outcome with
  | created v => cases hout
  | stopped => cases hout
  | duplicate v => cases hafter
  | rejected e =>
    cases e with
    | channel => cases hout
    | _ => cases hafter

/-- Whatever is thrown inside the unit of work makes the call reject, and a call that rejects so, or
returns the order of an earlier one, leaves nothing behind. -/
theorem failed_createOrder_leaves_nothing (hr : Reachable env n db₀ s) (c : ι) :
    (∀ e s', Raises env s c e s' →
      (s'.calls c = .done (.rejected e) ∨ ∃ tx, s'.calls c = .failing tx e) ∧ e ≠ .channel) ∧
    (∀ tx e, s.calls c = .failing tx e →
      ∃ s', s.advance env c = some s' ∧ s'.calls c = .done (.rejected e)) ∧
    (∀ outcome, s.calls c = .done outcome → outcome.failedOrDuplicate = true →
      LeavesNothing env n db₀ s c) := by
  refine ⟨fun e s' h => h.failing, fun tx e hc => failing_rejects hc, fun outcome hc hout => ?_⟩
  have hnone := failedOrDuplicate_uncommitted hr hc hout
  have hunlocked : Unlocked c s := Reachable.locksInTx hr c (by rw [hc]; rfl)
  -- an ended call holds nothing: without it, only its phase differs
  have hwithout : s.without c = s.setPhase c .waiting := by
    ext1
    · rfl
    · show s.free + (s.calls c).connections = s.free
      rw [hc]
      rfl
    · exact LockTable.releaseAll_eq_self hunlocked.1
    · exact LockTable.releaseAll_eq_self hunlocked.2
    · rfl
    · rfl
  constructor
  · rw [← hwithout]
    exact uncommitted_without hr hnone
  · exact hunlocked
  · exact hnone
  · intro m hm
    obtain ⟨tx, htx⟩ := (Reachable.trace hr).sent c m hm
    exact hnone tx htx

/-- A call for a product that is not there, and one that goes through. -/
def missingEnv : Env (Fin 2) :=
  shopEnv (fun _ => false) fun c => if c = 0 then shopRequest 1 1 [3] else shopRequest 2 2 [1]

theorem failed_createOrder_leaves_nothing_shop :
    ∃ s, Reachable missingEnv 10 shop s ∧
      s.calls 0 = .done (.rejected (.domain (.cannotFindProducts 1))) ∧
      LeavesNothing missingEnv 10 shop s 0 := by
  obtain ⟨s, hr, hp⟩ := reach_of_run missingEnv 10 shop
    [0, 0, 1, 1, 0, 1, 0, 1, 0, 1, 1, 1, 1, 1, 1]
    (p := fun s => decide (s.calls 0 = .done (.rejected (.domain (.cannotFindProducts 1)))))
    (by decide +kernel)
  have hany := hr.any
  have hc := of_decide_eq_true hp
  exact ⟨s, hany, hc, (failed_createOrder_leaves_nothing hany 0).2.2 _ hc rfl⟩

end Ecommerce.Orders
