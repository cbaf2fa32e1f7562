import Mathlib.Algebra.BigOperators.Ring.Finset
import Mathlib.Data.Fintype.BigOperators
import Ecommerce.Orders.LockOrder

/-!
# ConnectionPool — the second connection of a duplicate

Free connections and connections held add up to the size of the pool.  A state is stuck when nobody
can move, and with acyclic row waits that means: every connection is held by a call whose insert was
refused and which waits for a second connection to look its order up.
-/

namespace Ecommerce.Orders

open Locking Transition

variable {ι : Type} [DecidableEq ι] {env : Env ι} {db₀ : Db} {s s' : Sys ι} {l : Label ι} {n : Nat}

/-! ## Accounting -/

omit [DecidableEq ι] in
theorem Throws.connections {c : ι} {ph : Phase} {tx : Tx} {e : Failure}
    (h : Throws env s c ph tx e) : ph.connections = 1 := by
  cases h <;> rfl

theorem throwing_free (s : Sys ι) (c : ι) (tx : Tx) (e : Failure) :
    (s.throwing c tx e).free = s.free := by
  unfold Sys.throwing
  split <;> rfl

/-- A step of a call moves connections between the pool and that call. -/
theorem Advance.connections {c : ι} (h : Advance env s c s') :
    s'.free + (s'.calls c).connections = s.free + (s.calls c).connections := by
  cases h with
  | throws tx e why =>
    rw [throwing_free, throwing_phase, why.connections]
    rfl
  | connect hc hfree =>
    rw [hc, setPhase_self]
    show s.free - 1 + 1 = s.free + 0
    omega
  | connectAgain hc hfree =>
    rw [hc, setPhase_self]
    show s.free - 1 + 2 = s.free + 1
    omega
  | commit tx result hc => simp [hc, Sys.commit, Sys.setPhase, Sys.releaseLocks, Phase.connections]
  | send result hc => simp [hc, Sys.send, Sys.setPhase, Phase.connections]
  | _ => simp_all [Sys.setPhase, Sys.releaseLocks, Phase.connections]

theorem fault_connections {c : ι} (h : (s.calls c).beforeCommit = true) :
    (s.fault c).free + ((s.fault c).calls c).connections = s.free + (s.calls c).connections := by
  rw [fault_phase]
  unfold Sys.fault
  split
  · rename_i hc
    rw [if_pos hc, hc]
    rfl
  · rename_i hc
    rw [if_neg hc]
    show s.free + ((s.calls c).connections - 1) + 1 = _
    have hpos : 0 < (s.calls c).connections := by
      generalize s.calls c = ph at h hc
      cases ph <;> first | exact Nat.zero_lt_succ _ | exact absurd rfl hc | cases h
    omega

/-- One call changes what it holds by what the pool changes. -/
theorem pool_of_others [Fintype ι] {c : ι} (hothers : ∀ d, d ≠ c → s'.calls d = s.calls d)
    (hself : s'.free + (s'.calls c).connections = s.free + (s.calls c).connections) :
    s'.free + ∑ d, (s'.calls d).connections = s.free + ∑ d, (s.calls d).connections := by
  have hrest : ∑ d ∈ Finset.univ.erase c, (s'.calls d).connections =
      ∑ d ∈ Finset.univ.erase c, (s.calls d).connections :=
    Finset.sum_congr rfl fun d hd => by rw [hothers d (Finset.ne_of_mem_erase hd)]
  rw [← Finset.add_sum_erase _ _ (Finset.mem_univ c),
    ← Finset.add_sum_erase Finset.univ (fun d => (s.calls d).connections) (Finset.mem_univ c), hrest]
  omega

theorem Step.pool [Fintype ι] (hs : Step env s l s') :
    s'.free + ∑ d, (s'.calls d).connections = s.free + ∑ d, (s.calls d).connections := by
  cases hs with
  | advance c hadv =>
    exact pool_of_others (advance_cases hadv).others (advance_cases hadv).connections
  | fault c hc => exact pool_of_others (quiet_fault s c).others (fault_connections hc)
  | sendThrows c result hc =>
    refine pool_of_others (fun d hd => setPhase_of_ne s _ hd) ?_
    simp [Sys.sendThrows, Sys.setPhase, hc, Phase.connections]
  | kill c hc =>
    refine pool_of_others (quiet_kill s c).others ?_
    simp [Sys.kill, Sys.setPhase, Sys.releaseLocks, Phase.connections]
  | worker db hw => rfl

theorem Reachable.pool [Fintype ι] (hr : Reachable env n db₀ s) :
    s.free + ∑ c, (s.calls c).connections = n := by
  refine System.Reach.invariant (I := fun s : Sys ι => s.free + ∑ c, (s.calls c).connections = n) hr
    ?_ fun _ _ _ _ ih _ hs => hs.pool.trans ih
  intro s h0
  rw [h0]
  simp [Sys.initial, Phase.connections]

/-! ## Stuck states -/

/-- Some call is unfinished, and none can take a step. -/
def Sys.stuck (env : Env ι) (s : Sys ι) : Prop :=
  (∃ c, (s.calls c).isDone = false) ∧ ∀ c, s.advance env c = none

/-- The number of calls that wait for a second connection. -/
def Sys.duplicates [Fintype ι] (s : Sys ι) : Nat :=
  (Finset.univ.filter fun c => s.calls c = .duplicate).card

/-- What a call that cannot move waits for. -/
theorem blocked_cases {c : ι} (h : s.advance env c = none) :
    (s.calls c).isDone = true ∨ (s.calls c = .waiting ∧ s.free = 0) ∨
      (s.calls c = .duplicate ∧ s.free = 0) ∨ ∃ d, WaitsFor env s c d := by
  unfold Sys.advance at h
  split at h
  · rename_i hc
    unfold Sys.connect at h
    split at h
    · cases h
    · rename_i hfree
      exact .inr (.inl ⟨hc, by omega⟩)
  · rename_i hc
    simp only [Sys.insertOrder] at h
    split at h
    · cases h
    · rename_i key hkey
      split at h
      · cases h
      · rename_i hnew
        split at h
        · cases h
        · rename_i hlock
          obtain ⟨d, hd⟩ := Option.ne_none_iff_exists'.mp hlock
          -- the unique index makes it wait for the holder of the key
          exact .inr (.inr (.inr ⟨d, .inr ⟨hc, _, by rw [Request.pair, hkey]; rfl,
            by simpa using hnew, hd⟩⟩))
  · cases h
  · cases h
  · rename_i tx id todo hc
    unfold Sys.lockRow at h
    split at h
    · split at h <;> cases h
    · rename_i hlock
      obtain ⟨d, hd⟩ := Option.ne_none_iff_exists'.mp hlock
      -- the row is held
      exact .inr (.inr (.inr ⟨d, .inl ⟨tx, id, todo, hc, hd⟩⟩))
  · cases h
  · cases h
  · cases h
  · cases h
  · cases h
  · cases h
  · rename_i hc
    split at h
    · cases h
    · rename_i hfree
      exact .inr (.inr (.inl ⟨hc, by omega⟩))
  · cases h
  · cases h
  · cases h
  · rename_i o hc
    exact .inl (by rw [hc]; rfl)

/-- With acyclic row waits, nobody waits for another call when nobody can move: otherwise somebody
who is waited for waits for nobody. -/
theorem Inv.no_waits [Finite ι] (h : Inv env db₀ s) (hacyc : Acyclic (RowWaits s))
    (hblocked : ∀ c, s.advance env c = none) (c d : ι) : ¬ WaitsFor env s c d := by
  intro hw
  obtain ⟨tx, htx⟩ := h.waited_for hw
  obtain ⟨a, ⟨txa, ha⟩, hmin⟩ :=
    hacyc.exists_not_waiting (S := fun a => ∃ tx, (s.calls a).tx? = some tx) ⟨d, tx, htx⟩
  rcases blocked_cases (hblocked a) with hdone | ⟨hph, -⟩ | ⟨hph, -⟩ | ⟨b, hrow | ⟨hph, -⟩⟩
  · obtain ⟨outcome, hph⟩ := Phase.isDone_iff.mp hdone
    rw [hph] at ha
    cases ha
  · rw [hph] at ha
    cases ha
  · rw [hph] at ha
    cases ha
  · exact hmin b (h.waited_for (.inl hrow)) hrow
  · rw [hph] at ha
    cases ha

/-- A stuck state has all its connections in the hands of duplicates. -/
theorem Inv.duplicates_of_stuck [Fintype ι] (h : Inv env db₀ s)
    (hpool : s.free + ∑ c, (s.calls c).connections = n) (hacyc : Acyclic (RowWaits s))
    (hstuck : s.stuck env) : s.duplicates = n := by
  obtain ⟨⟨c, hc⟩, hblocked⟩ := hstuck
  -- nobody waits for another call, so all of them wait for the pool
  have hcases : ∀ d, (s.calls d).isDone = true ∨ (s.calls d = .waiting ∧ s.free = 0) ∨
      (s.calls d = .duplicate ∧ s.free = 0) := by
    intro d
    rcases blocked_cases (hblocked d) with hd | hd | hd | ⟨e, hd⟩
    · exact .inl hd
    · exact .inr (.inl hd)
    · exact .inr (.inr hd)
    · exact absurd hd (h.no_waits hacyc hblocked d e)
  have hfree : s.free = 0 := by
    rcases hcases c with hd | hd | hd
    · rw [hc] at hd
      cases hd
    · exact hd.2
    · exact hd.2
  -- an ended or waiting call has no connection, a duplicate has one
  have hconn : ∀ d, (s.calls d).connections = if s.calls d = .duplicate then 1 else 0 := by
    intro d
    rcases hcases d with hd | ⟨hd, -⟩ | ⟨hd, -⟩
    · obtain ⟨outcome, hph⟩ := Phase.isDone_iff.mp hd
      rw [hph]
      rfl
    · rw [hd]
      rfl
    · rw [hd]
      rfl
  rw [hfree, Nat.zero_add, Finset.sum_congr rfl fun d _ => hconn d] at hpool
  rw [← hpool, Sys.duplicates, Finset.card_filter]

omit [DecidableEq ι] in
/-- With `n` duplicates nobody else has a connection, and none is free. -/
theorem exhausted_of_duplicates [Fintype ι] (hpool : s.free + ∑ c, (s.calls c).connections = n)
    (hdup : s.duplicates = n) :
    s.free = 0 ∧ ∀ c, s.calls c ≠ .duplicate → (s.calls c).connections = 0 := by
  have hone : ∀ c ∈ Finset.univ.filter (fun c => s.calls c = .duplicate),
      (s.calls c).connections = 1 := by
    intro c hc
    rw [(Finset.mem_filter.mp hc).2]
    rfl
  have hsum := Finset.sum_filter_add_sum_filter_not Finset.univ (fun c => s.calls c = .duplicate)
    fun c => (s.calls c).connections
  rw [Finset.sum_const_nat hone, mul_one] at hsum
  change s.duplicates + _ = _ at hsum
  have hrest : ∑ c ∈ Finset.univ.filter (fun c => ¬ s.calls c = .duplicate),
      (s.calls c).connections = 0 := by omega
  refine ⟨by omega, fun c hc => ?_⟩
  exact Finset.sum_eq_zero_iff.mp hrest c (Finset.mem_filter.mpr ⟨Finset.mem_univ c, hc⟩)

/-- A state is stuck exactly when the duplicates hold the whole pool and nobody is left to send. -/
theorem Inv.stuck_iff [Fintype ι] (h : Inv env db₀ s)
    (hpool : s.free + ∑ c, (s.calls c).connections = n) (hn : 1 ≤ n)
    (hacyc : Acyclic (RowWaits s)) :
    s.stuck env ↔ s.duplicates = n ∧ ∀ c result, s.calls c ≠ .publishing result := by
  constructor
  · intro hstuck
    refine ⟨h.duplicates_of_stuck hpool hacyc hstuck, fun c result hc => ?_⟩
    have hnone := hstuck.2 c
    simp only [Sys.advance, hc] at hnone
    cases hnone
  · rintro ⟨hdup, hsend⟩
    obtain ⟨hfree, hzero⟩ := exhausted_of_duplicates hpool hdup
    refine ⟨?_, fun c => ?_⟩
    · have hpos : 0 < s.duplicates := by omega
      obtain ⟨c, hc⟩ := Finset.card_pos.mp hpos
      exact ⟨c, by rw [(Finset.mem_filter.mp hc).2]; rfl⟩
    · by_cases hc : s.calls c = .duplicate
      · simp only [Sys.advance, hc, hfree, lt_irrefl, if_false]
      · -- without a connection a call is waiting, publishing or done
        have hconn := hzero c hc
        have hpub := hsend c
        unfold Sys.advance Sys.connect
        generalize s.calls c = ph at hconn hpub ⊢
        cases ph <;> first | rfl | cases hconn
        · rw [hfree]
          rfl
        · exact absurd rfl (hpub _)

/-- The condition on a step: an insert is refused only while fewer than `n - 1` calls wait for their
second connection. -/
def connectionLeft [Fintype ι] (env : Env ι) (n : Nat) (s : Sys ι) (l : Label ι) : Prop :=
  ∀ c pair, l = .advance c → s.calls c = .begun → (env.request c).pair = some pair →
    Known s.db pair → s.duplicates + 1 < n

theorem duplicates_of_others [Fintype ι] {c : ι} (hothers : ∀ d, d ≠ c → s'.calls d = s.calls d)
    (hself : s'.calls c = .duplicate → s.calls c = .duplicate) : s'.duplicates ≤ s.duplicates := by
  refine Finset.card_le_card fun d hd => ?_
  rw [Finset.mem_filter] at hd ⊢
  refine ⟨hd.1, ?_⟩
  by_cases hdc : d = c
  · subst hdc
    exact hself hd.2
  · rw [← hothers d hdc]
    exact hd.2

theorem duplicates_setPhase [Fintype ι] (c : ι) :
    (s.setPhase c .duplicate).duplicates ≤ s.duplicates + 1 := by
  have hsub : (Finset.univ.filter fun d => (s.setPhase c .duplicate).calls d = .duplicate) ⊆
      insert c (Finset.univ.filter fun d => s.calls d = .duplicate) := by
    intro d hd
    rw [Finset.mem_filter] at hd
    rw [Finset.mem_insert, Finset.mem_filter]
    by_cases hdc : d = c
    · exact .inl hdc
    · rw [setPhase_of_ne s _ hdc] at hd
      exact .inr hd
  exact (Finset.card_le_card hsub).trans (Finset.card_insert_le _ _)

/-- A call becomes a duplicate by the refusal of its insert only. -/
theorem Advance.duplicates [Fintype ι] {c : ι} (h : Advance env s c s') :
    s'.duplicates ≤ s.duplicates ∨ (s'.duplicates ≤ s.duplicates + 1 ∧ s.calls c = .begun ∧
      ∃ pair, (env.request c).pair = some pair ∧ Known s.db pair) := by
  have hothers := h.others
  cases h with
  | refused key o hc hkey ho =>
    exact .inr ⟨duplicates_setPhase c, hc, _, by rw [Request.pair, hkey]; rfl,
      known_iff.mpr (by rw [ho]; simp)⟩
  | throws tx e why =>
    refine .inl (duplicates_of_others hothers fun hd => ?_)
    rw [throwing_phase] at hd
    cases hd
  | commit tx result hc =>
    exact .inl (duplicates_of_others hothers fun hd => by simp [Sys.commit] at hd)
  | send result hc =>
    exact .inl (duplicates_of_others hothers fun hd => by simp [Sys.send] at hd)
  | _ => exact .inl (duplicates_of_others hothers fun hd => by simp at hd)

theorem Step.duplicates_lt [Fintype ι] (hs : Step env s l s') (hok : connectionLeft env n s l)
    (h : s.duplicates < n) : s'.duplicates < n := by
  cases hs with
  | advance c hadv =>
    rcases (advance_cases hadv).duplicates with hle | ⟨hle, hc, pair, hpair, hknown⟩
    · omega
    · have := hok c pair rfl hc hpair hknown
      omega
  | fault c hc =>
    refine (duplicates_of_others (quiet_fault s c).others fun hd => ?_).trans_lt h
    rw [fault_phase] at hd
    split at hd <;> cases hd
  | sendThrows c result hc =>
    refine (duplicates_of_others (c := c) (fun d hd => setPhase_of_ne s _ hd) fun hd => ?_).trans_lt h
    simp at hd
  | kill c hc =>
    refine (duplicates_of_others (quiet_kill s c).others fun hd => ?_).trans_lt h
    simp [Sys.kill] at hd
  | worker db hw => exact h

theorem duplicates_lt_of_connectionLeft [Fintype ι] (hn : 1 ≤ n)
    (hr : (system env n db₀).Reach (connectionLeft env n) s) : s.duplicates < n := by
  refine System.Reach.invariant (I := fun s : Sys ι => s.duplicates < n) hr ?_
    fun _ _ _ _ ih hok hs => hs.duplicates_lt hok ih
  intro s h0
  have hzero : s.duplicates = 0 := by
    rw [Sys.duplicates, Finset.card_eq_zero, Finset.filter_eq_empty_iff, h0]
    exact fun c _ hc => by cases hc
  omega

/-- Order creation never gets stuck in a run in which an insert is refused only while the pool has
a second connection to spare for it. -/
theorem createOrder_not_stuck [Fintype ι] (hn : 1 ≤ n) (hv : db₀.Valid) (hf : FreshIds env db₀)
    (hr : (system env n db₀).Reach (connectionLeft env n) s) (hacyc : Acyclic (RowWaits s)) :
    ¬ s.stuck env := by
  intro hstuck
  have hi := Reachable.inv hr.any hv hf
  have hdup := ((hi.stuck_iff (Reachable.pool hr.any) hn hacyc).mp hstuck).1
  have hlt := duplicates_lt_of_connectionLeft hn hr
  omega

/-- A repeat waits for its second connection, and two of the three are free. -/
theorem createOrder_not_stuck_repeat :
    ∃ (env : Env (Fin 2)) (s : Sys (Fin 2)), s.calls 1 = .duplicate ∧ ¬ s.stuck env := by
  let env := shopEnv (fun _ => false) fun _ => shopRequest 50 60 [1]
  let p : Sys (Fin 2) → Bool := fun s => s.calls 1 = .duplicate && ((s.calls 0).todo = [] : Bool)
  obtain ⟨s, hr, hs⟩ := reach_of_run env 3 shop (List.replicate 11 0 ++ [1, 1])
    (show Option.any p _ = true by decide +kernel)
  simp only [p, Bool.and_eq_true, decide_eq_true_eq] at hs
  have hfresh : FreshIds env shop := freshIds_shop _ _
  have hok : ∀ (s : Sys (Fin 2)) l, connectionLeft env 3 s l := by
    intro s l c pair _ hc _ _
    have hlt : s.duplicates < Fintype.card (Fin 2) :=
      Finset.card_lt_univ_of_notMem (x := c) (by simp [hc])
    rw [Fintype.card_fin] at hlt
    omega
  have hacyc : Acyclic (RowWaits s) := by
    intro c hc
    obtain ⟨d, hd, -⟩ := Relation.TransGen.head'_iff.mp hc
    rw [rowWaits_iff] at hd
    match c with
    | 0 => rw [hs.2] at hd; cases hd
    | 1 => rw [hs.1] at hd; cases hd
  exact ⟨env, s, hs.1,
    createOrder_not_stuck (by decide) (by decide) hfresh (hr.mono fun _ _ _ => hok _ _) hacyc⟩

/-- With one connection in the pool a repeat of a finished call waits for ever. -/
theorem createOrder_stuck_duplicate :
    ∃ (env : Env (Fin 2)) (s : Sys (Fin 2)), (system env 1 shop).Reach ownStep s ∧
      Acyclic (RowWaits s) ∧ s.stuck env := by
  let env := shopEnv (fun _ => false) fun _ => shopRequest 50 60 [1]
  let p : Sys (Fin 2) → Bool := fun s => s.calls 1 = .duplicate && ((s.calls 0).todo = [] &&
    ((s.advance env 0).isNone && (s.advance env 1).isNone) : Bool)
  obtain ⟨s, hr, hs⟩ := reach_of_run env 1 shop (List.replicate 11 0 ++ [1, 1])
    (show Option.any p _ = true by decide +kernel)
  simp only [p, Bool.and_eq_true, decide_eq_true_eq, Option.isNone_iff_eq_none] at hs
  obtain ⟨hdup, htodo, h0, h1⟩ := hs
  refine ⟨env, s, hr, fun c hc => ?_, ⟨1, by rw [hdup]; rfl⟩, fun c => ?_⟩
  · obtain ⟨d, hd, -⟩ := Relation.TransGen.head'_iff.mp hc
    rw [rowWaits_iff] at hd
    match c with
    | 0 => rw [htodo] at hd; cases hd
    | 1 => rw [hdup] at hd; cases hd
  · match c with
    | 0 => exact h0
    | 1 => exact h1

end Ecommerce.Orders
