import Mathlib.Algebra.Order.BigOperators.Group.Finset
import Ecommerce.Lib.Fairness
import Ecommerce.Orders.ConnectionPool

/-!
# Termination — every call is answered

A call has a bounded number of statements left, and whatever happens to it leaves it fewer.  So a
run has only finitely many steps of calls, with failures and waits anywhere; and where nobody can
get stuck and nobody is passed over for ever, the last of them leaves every call answered.
-/

namespace Ecommerce.Orders

open Locking Transition

variable {ι : Type} [DecidableEq ι] {env : Env ι} {db₀ : Db} {n : Nat}

/-- The most steps a call still takes; `rows` bounds the rows of its locked read. -/
def Phase.left (rows : Nat) : Phase → Nat
  | .waiting => rows + 10
  | .begun => rows + 9
  | .inserted _ => rows + 8
  | .locking _ todo => todo.length + 7
  | .checked _ _ _ => 6
  | .itemsSaved _ _ => 5
  | .stocksSaved _ => 4
  | .reread _ _ => 3
  | .committed _ => 2
  | .publishing _ => 1
  | .duplicate => 3
  | .lookup => 2
  | .found _ => 1
  | .failing _ _ => 1
  | .done _ => 0

section Steps

variable {s s' : Sys ι} {c : ι} {l : Label ι}

theorem Phase.left_pos {rows : Nat} {ph : Phase} (h : ph.isDone = false) : 0 < ph.left rows := by
  cases ph <;> first | exact Nat.succ_pos _ | cases h

theorem Phase.left_of_beforeCommit (rows : Nat) {ph : Phase} (h : ph.beforeCommit = true) :
    1 < ph.left rows := by
  cases ph <;> first | exact Nat.succ_lt_succ (Nat.succ_pos _) | cases h

omit [DecidableEq ι] in
theorem Throws.left {ph : Phase} {tx : Tx} {e : Failure} (why : Throws env s c ph tx e)
    (rows : Nat) : 1 < ph.left rows := by
  cases why <;> exact Nat.succ_lt_succ (Nat.succ_pos _)

omit [DecidableEq ι] in
theorem Inv.scan_length (h : Inv env db₀ s) (ids : List UUID) :
    ((env.choices c).scan (s.db.matchingIds ids)).length ≤ db₀.products.length := by
  have hlength : s.db.products.length = db₀.products.length := by
    simpa using congrArg List.length h.productIds
  rw [((env.choices c).scan_perm _).length_eq, Db.matchingIds, List.length_map, ← hlength]
  exact List.length_filter_le ..

/-- A step of a call leaves it fewer. -/
theorem Advance.left_lt (h : Advance env s c s') (hi : Inv env db₀ s) :
    (s'.calls c).left db₀.products.length < (s.calls c).left db₀.products.length := by
  cases h with
  | throws tx e why =>
    rw [throwing_phase]
    exact why.left _
  | select tx ids hc hids =>
    rw [hc, setPhase_self]
    have := hi.scan_length (c := c) ids
    simp only [Phase.left]
    omega
  | commit tx result hc => simp [hc, Sys.commit, Phase.left]
  | send result hc => simp [hc, Sys.send, Phase.left]
  | _ => simp_all [Phase.left]

/-- What all calls together have left. -/
def Sys.left [Fintype ι] (rows : Nat) (s : Sys ι) : Nat := ∑ c, (s.calls c).left rows

theorem left_lt_of_others [Fintype ι] {rows : Nat} (hothers : ∀ d, d ≠ c → s'.calls d = s.calls d)
    (hself : (s'.calls c).left rows < (s.calls c).left rows) : s'.left rows < s.left rows := by
  refine Finset.sum_lt_sum (fun d _ => ?_) ⟨c, Finset.mem_univ c, hself⟩
  by_cases hd : d = c
  · rw [hd]
    exact hself.le
  · rw [hothers d hd]

/-- Only the worker leaves the calls what they had. -/
theorem Step.left_lt [Fintype ι] (hs : Step env s l s') (hi : Inv env db₀ s) (hl : l ≠ .worker) :
    s'.left db₀.products.length < s.left db₀.products.length := by
  cases hs with
  | advance c hadv =>
    exact left_lt_of_others (advance_cases hadv).others ((advance_cases hadv).left_lt hi)
  | fault c hc =>
    refine left_lt_of_others (quiet_fault s c).others ?_
    have hbefore := Phase.left_of_beforeCommit db₀.products.length hc
    rw [fault_phase]
    split
    · exact Nat.lt_of_succ_lt hbefore
    · exact hbefore
  | sendThrows c result hc =>
    refine left_lt_of_others (c := c) (fun d hd => setPhase_of_ne s _ hd) ?_
    simp [Sys.sendThrows, hc, Phase.left]
  | kill c hc =>
    refine left_lt_of_others (quiet_kill s c).others ?_
    simp only [Sys.kill, setPhase_self]
    exact Phase.left_pos hc
  | worker db hw => exact absurd rfl hl

omit [DecidableEq ι] in
theorem left_initial [Fintype ι] (rows : Nat) (db : Db) :
    (Sys.initial n db : Sys ι).left rows = Fintype.card ι * (rows + 10) := by
  simp [Sys.left, Sys.initial, Phase.left]

/-! ## Whoever can move can do so until it moves -/

/-- Two states look the same to a call that is about to move. -/
structure SameFor (env : Env ι) (c : ι) (s s' : Sys ι) : Prop where
  call : s'.calls c = s.calls c
  free : s'.free = s.free
  rowLocks : s'.rowLocks = s.rowLocks
  keyLocks : s'.keyLocks = s.keyLocks
  known : ∀ pair, Known s.db pair → Known s'.db pair

theorem SameFor.moves (h : SameFor env c s s') (hmove : s.advance env c ≠ none) :
    s'.advance env c ≠ none := by
  intro hnone
  refine hmove ?_
  rcases blocked_cases hnone with hdone | ⟨hc, hfree⟩ | ⟨hc, hfree⟩ | ⟨d, hrow | hkey⟩
  · obtain ⟨outcome, hc⟩ := Phase.isDone_iff.mp hdone
    rw [h.call] at hc
    simp only [Sys.advance, hc]
  · rw [h.call] at hc
    rw [h.free] at hfree
    simp [Sys.advance, hc, Sys.connect, hfree]
  · rw [h.call] at hc
    rw [h.free] at hfree
    simp [Sys.advance, hc, hfree]
  · obtain ⟨tx, id, todo, hc, hlock⟩ := hrow
    rw [h.call] at hc
    rw [h.rowLocks] at hlock
    simp [Sys.advance, hc, Sys.lockRow, hlock]
  · obtain ⟨hc, pair, hpair, hnew, hlock⟩ := hkey
    obtain ⟨key, hkey, rfl⟩ := pair_eq_some hpair
    rw [h.call] at hc
    rw [h.keyLocks] at hlock
    have hnew : s.db.orderByKey ((env.request c).userId, key) = none := by
      by_contra hne
      exact known_iff.mp (h.known _ (known_iff.mpr hne)) hnew
    simp [Sys.advance, hc, Sys.insertOrder, hkey, hnew, hlock]

end Steps

/-! ## Whole runs -/

section Runs

variable [Fintype ι] {r : System.Run (system env n db₀).idling System.anyStep}

omit [Fintype ι] in
theorem reachable_run (k : Nat) : Reachable env n db₀ (r.state k) :=
  (r.reach k).of_idling fun _ _ _ => trivial

/-- A step of a call is at hand. -/
def OfCall : Option (Label ι) → Prop
  | some .worker => False
  | some _ => True
  | none => False

instance : DecidablePred (OfCall (ι := ι)) := fun l => by
  cases l with
  | none => exact .isFalse id
  | some l => cases l <;> first | exact .isTrue trivial | exact .isFalse id

theorem left_step (hv : db₀.Valid) (hf : FreshIds env db₀) (k : Nat) :
    (r.state (k + 1)).left db₀.products.length ≤ (r.state k).left db₀.products.length ∧
      (OfCall (r.label k) → (r.state (k + 1)).left db₀.products.length <
        (r.state k).left db₀.products.length) := by
  have hi := (reachable_run (r := r) k).inv hv hf
  have hstep := r.step k
  generalize r.label k = l at hstep
  generalize r.state (k + 1) = s' at hstep
  cases l with
  | none =>
    rw [show s' = r.state k from hstep]
    exact ⟨le_refl _, False.elim⟩
  | some l =>
    cases l with
    | worker =>
      cases hstep with
      | worker db hw => exact ⟨le_refl _, False.elim⟩
    | _ =>
      have hlt := Step.left_lt hstep hi (by simp)
      exact ⟨hlt.le, fun _ => hlt⟩

omit [Fintype ι] in
/-- Where no call moves, the calls and what they wait for stay as they are. -/
theorem sameFor_run {m : Nat} (hquiet : ∀ k, m ≤ k → ¬ OfCall (r.label k)) (c : ι) {k : Nat}
    (hk : m ≤ k) : SameFor env c (r.state m) (r.state k) := by
  induction k, hk using Nat.le_induction with
  | base => exact ⟨rfl, rfl, rfl, rfl, fun _ => id⟩
  | succ k hk ih =>
    have hstep := r.step k
    have hlabel := hquiet k hk
    generalize r.label k = l at hstep hlabel
    generalize r.state (k + 1) = s' at hstep
    cases l with
    | none =>
      rw [show s' = r.state k from hstep]
      exact ih
    | some l =>
      cases l with
      | worker =>
        cases hstep with
        | worker db hw =>
          exact ⟨ih.call, ih.free, ih.rowLocks, ih.keyLocks,
            fun pair hknown => (ih.known pair hknown).worker hw⟩
      | _ => exact absurd trivial hlabel

/-- However a run goes on, its calls take no more than this many steps. -/
theorem createOrder_steps_bounded (hv : db₀.Valid) (hf : FreshIds env db₀) (k : Nat) :
    ((Finset.range k).filter fun j => OfCall (r.label j)).card ≤
      Fintype.card ι * (db₀.products.length + 10) := by
  have hinit : r.state 0 = Sys.initial n db₀ := r.init
  have hle := System.Run.lowered_le (r := r) (Sys.left db₀.products.length)
    (fun j => (left_step hv hf j).1) (fun j => (left_step hv hf j).2) k
  rw [hinit, left_initial] at hle
  omega

omit [Fintype ι] in
/-- A call that can move moves in the end. -/
theorem blocked_of_quiet {m : Nat} (hfair : ∀ c, r.Fair fun _ l _ => l = some (.advance c))
    (hquiet : ∀ k, m ≤ k → ¬ OfCall (r.label k)) (c : ι) : (r.state m).advance env c = none := by
  by_contra hmove
  obtain ⟨j, hj, htakes⟩ := hfair c m fun k hk => by
    obtain ⟨s', hs'⟩ := Option.ne_none_iff_exists'.mp ((sameFor_run hquiet c hk).moves hmove)
    exact ⟨some (.advance c), s', trivial, .advance c hs', rfl⟩
  have hlabel : r.label j = some (.advance c) := htakes
  refine hquiet j hj ?_
  rw [hlabel]
  trivial

/-- Where the locked reads visit their rows in one common order and no call is passed over for ever,
every call is answered at last, or the whole pool is held for ever by repeats that wait for a second
connection: there are at least as many calls as connections then. -/
theorem createOrder_answers {before : UUID → UUID → Prop} (hv : db₀.Valid) (hf : FreshIds env db₀)
    (hirr : ∀ a, ¬ before a a) (htrans : ∀ a b c, before a b → before b c → before a c)
    (hscan : ∀ c ids, (env.request c).ids = .ok ids →
      ((env.choices c).scan (db₀.matchingIds ids)).Pairwise before)
    (hfair : ∀ c, r.Fair fun _ l _ => l = some (.advance c)) :
    ∃ m, (∀ k, m ≤ k → ∀ c, ((r.state k).calls c).isDone = true) ∨
      n ≤ Fintype.card ι ∧ ∀ k, m ≤ k → (r.state k).duplicates = n := by
  obtain ⟨m, hm⟩ := System.Run.settles (r := r) (Sys.left db₀.products.length) fun k =>
    (left_step hv hf k).1
  -- from there on only the worker moves
  have hquiet : ∀ k, m ≤ k → ¬ OfCall (r.label k) := by
    intro k hk hcall
    have hlt := (left_step hv hf k).2 hcall
    rw [hm k hk, hm (k + 1) (by omega)] at hlt
    exact lt_irrefl _ hlt
  have hcalls : ∀ k, m ≤ k → (r.state k).calls = (r.state m).calls := fun k hk =>
    funext fun c => (sameFor_run hquiet c hk).call
  refine ⟨m, ?_⟩
  by_cases hdone : ∀ c, ((r.state m).calls c).isDone = true
  · refine .inl fun k hk => ?_
    rw [hcalls k hk]
    exact hdone
  · push Not at hdone
    obtain ⟨c, hc⟩ := hdone
    -- with a call open and nobody able to move the pool is exhausted
    have hr := reachable_run (r := r) m
    have hi := hr.inv hv hf
    have hacyc := hi.waitsFor_acyclic hirr htrans hscan
    have hdup := hi.duplicates_of_stuck hr.pool
      (fun d hd => hacyc d (Relation.TransGen.mono (fun _ _ => Or.inl) d d hd))
      ⟨⟨c, by simpa using hc⟩, blocked_of_quiet hfair hquiet⟩
    refine .inr ⟨hdup ▸ Finset.card_le_univ _, fun k hk => ?_⟩
    rw [Sys.duplicates, hcalls k hk]
    exact hdup

end Runs

/-! ## An order that is submitted twice -/

def repeatEnv : Env (Fin 2) := shopEnv (fun _ => false) fun _ => shopRequest 50 60 [1]

def repeatRun : System.Run (system repeatEnv 3 shop).idling System.anyStep :=
  .ofList (fun s l s' (h : s.perform repeatEnv l = some s') => step_of_perform h) rfl
    (List.replicate 11 (.advance ⟨0, Nat.two_pos⟩) ++
      List.replicate 5 (.advance ⟨1, Nat.one_lt_two⟩)) (by decide +kernel)

theorem repeatRun_done {k : Nat} (hk : 16 ≤ k) (c : Fin 2) :
    ((repeatRun.state k).calls c).isDone = true := by
  have hend : repeatRun.state k = repeatRun.state 16 := System.trace_end hk
  have hdone : ∀ c, ((repeatRun.state 16).calls c).isDone = true := by decide +kernel
  rw [hend]
  exact hdone c

theorem repeatRun_fair (c : Fin 2) : repeatRun.Fair fun _ l _ => l = some (.advance c) := by
  intro k hpossible
  obtain ⟨l, s', -, hs, rfl⟩ := hpossible (max k 16) (Nat.le_max_left k 16)
  have hdone := repeatRun_done (Nat.le_max_right k 16) c
  cases hs with
  | advance _ hadv =>
    obtain ⟨outcome, hc⟩ := Phase.isDone_iff.mp hdone
    simp [Sys.advance, hc] at hadv

/-- Both submissions are answered in the shop. -/
theorem createOrder_answers_repeat :
    ∃ m, ∀ k, m ≤ k → ∀ c, ((repeatRun.state k).calls c).isDone = true := by
  let before : UUID → UUID → Prop := fun a b => (a, b) = (.ofNat 1, .ofNat 2)
  have hirr : ∀ a, ¬ before a a := fun a h =>
    absurd ((congrArg Prod.fst h).symm.trans (congrArg Prod.snd h)) (by decide)
  have htrans : ∀ a b c, before a b → before b c → before a c := fun a b c hab hbc =>
    absurd ((congrArg Prod.snd hab).symm.trans (congrArg Prod.fst hbc)) (by decide)
  have hscan : ∀ c ids, (repeatEnv.request c).ids = .ok ids →
      ((repeatEnv.choices c).scan (shop.matchingIds ids)).Pairwise before := by
    intro c ids hids
    have hsub : (shop.matchingIds ids).Sublist [.ofNat 1, .ofNat 2] :=
      List.Sublist.map (fun p : Product => p.id) (List.filter_sublist (l := shop.products))
    exact (List.pairwise_pair.mpr rfl : [UUID.ofNat 1, .ofNat 2].Pairwise before).sublist hsub
  obtain ⟨m, hdone | ⟨hcard, -⟩⟩ := createOrder_answers (r := repeatRun) (by decide)
    (freshIds_shop _ _) hirr htrans hscan repeatRun_fair
  · exact ⟨m, hdone⟩
  · rw [Fintype.card_fin] at hcard
    omega

theorem createOrder_steps_bounded_repeat :
    ((Finset.range 16).filter fun j => OfCall (repeatRun.label j)).card ≤ 24 :=
  createOrder_steps_bounded (by decide) (freshIds_shop _ _) 16

end Ecommerce.Orders
