import Ecommerce.Platform.OrderLifecycle

/-!
# PageByPage — one page after the other, while the shop goes on

A user asks for page 1, 2, 3 and so on until a page is empty.  Between two pages, and between the two
queries of one page, orders are created and processed, so every page is cut from another list.  New
orders only push the ones behind them to later pages, where the user still comes by.
-/

namespace Ecommerce.Platform

open Transition Orders Worker Auth

def pageQuery (query : OrdersController.ListQuery) (k : Nat) : OrdersController.ListQuery :=
  { query with page := (k + 1 : Nat) }

/-! ## The order of the pages -/

theorem byNewest_refl (o : Order) : byNewest o o := by
  obtain h | h := Std.Total.total (r := byNewest) o o <;> exact h

/-- The ids tell apart what the first query sorts. -/
theorem byNewest_antisymm {db : Db} (hids : (db.orders.map (·.id)).Nodup) {o o' : Order}
    (ho : o ∈ db.orders) (ho' : o' ∈ db.orders) (h : byNewest o o') (h' : byNewest o' o) :
    o = o' := by
  have hkey : (o.createdAt, o.id) = (o'.createdAt, o'.id) :=
    Std.Antisymm.antisymm (r := newestFirst) _ _ h h'
  exact List.inj_on_of_nodup_map hids ho ho' (congrArg Prod.snd hkey)

theorem mem_newestOrders {os : List Order} {o : Order} : o ∈ newestOrders os ↔ o ∈ os :=
  (newestOrders_arranges os).perm.mem_iff

/-- Of at most 2^53 orders the window of page `k + 1` is the slice of that number. -/
theorem window_eq {query : OrdersController.ListQuery} {u : UUID} {db : Db} {k offset : Nat}
    (hlimit : 0 < query.limit) (hfew : (matching (query.options u) u db).length ≤ 2 ^ 53)
    (hsent : rowCount (pageSkip (k + 1 : Nat) query.limit) = .ok offset) :
    window (query.options u) offset u db =
      window (query.options u) (k * query.limit.toNat) u db := by
  obtain ⟨hpage, hskip, -⟩ := pageSkip_of_rowCount hlimit hsent
  have hexact := natCast_mul_toNat hlimit k
  have hpred : ((k + 1 : Nat) : Int) - 1 = k := by omega
  obtain heq | ⟨hlow, hhigh⟩ := pageSkip_skips hpage hlimit hfew hskip
  · rw [hpred, ← hexact, Nat.cast_inj] at heq
    rw [heq]
  · -- both are past the last order
    rw [hpred, ← hexact] at hhigh
    have hlength := (newestOrders_arranges (matching (query.options u) u db)).perm.length_eq
    unfold window
    rw [List.drop_eq_nil_of_le (by omega), List.drop_eq_nil_of_le (by omega)]

/-! ## The databases the pages are read from -/

/-- The ids of page `k + 1` are read from `db k`, and its rows from `db' k`. -/
structure Timeline (db db' : Nat → Db) (last : Nat) : Prop where
  rows : ∀ k ≤ last, Grows (db k) (db' k)
  next : ∀ k < last, Grows (db' k) (db (k + 1))
  ids : ∀ k ≤ last, ((db k).orders.map (·.id)).Nodup
  ids_rows : ∀ k ≤ last, ((db' k).orders.map (·.id)).Nodup

/-- What matches at some page, and is `o` or comes before it, is as it was when all is read. -/
def KeptUpTo (options : LocalFindOptions) (u : UUID) (db db' : Nat → Db) (last : Nat)
    (o : Order) : Prop :=
  ∀ k ≤ last, ∀ p ∈ matching options u (db k), byNewest p o → p ∈ (db' last).orders

section Timeline

variable {db db' : Nat → Db} {last k : Nat} {options : LocalFindOptions} {u : UUID} {o p : Order}

theorem Timeline.grows_last (h : Timeline db db' last) (hk : k ≤ last) :
    Grows (db' k) (db' last) := by
  induction hk using Nat.decreasingInduction with
  | self => exact .refl _
  | of_succ k hk ih => exact ((h.next k hk).trans (h.rows (k + 1) hk)).trans ih

/-- An order that is as it was at the end was so in between. -/
theorem kept_between {db₁ db₂ db₃ : Db} (h : Grows db₁ db₂) (h' : Grows db₂ db₃)
    (hids : (db₃.orders.map (·.id)).Nodup) (ho : o ∈ db₁.orders) (hend : o ∈ db₃.orders) :
    o ∈ db₂.orders := by
  obtain ⟨o₂, ho₂, hbecomes, -⟩ := h o ho
  obtain ⟨o₃, ho₃, hbecomes', -⟩ := h' o₂ ho₂
  have heq : o₃ = o :=
    List.inj_on_of_nodup_map hids ho₃ hend (hbecomes'.id.trans hbecomes.id)
  obtain rfl | ⟨hfresh, hdone⟩ := hbecomes.moved
  · exact ho₂
  · -- once processed, it is never fresh again
    obtain heq' | ⟨hfresh', -⟩ := hbecomes'.moved
    · exact absurd hfresh (not_fresh_of_done (heq ▸ heq' ▸ hdone))
    · exact absurd hfresh' (not_fresh_of_done hdone)

/-- Only the orders that are still `created` are written to. -/
theorem Timeline.keptUpTo (h : Timeline db db' last) (hstatus : options.status ≠ .created) :
    KeptUpTo options u db db' last o := by
  intro k hk p hmatch _
  have hmatch := mem_matching.mp hmatch
  exact stays_of_status ((h.rows k hk).trans (h.grows_last hk)) hmatch.1 fun hcreated =>
    hstatus (hmatch.2.2.1.symm.trans hcreated)

/-- What is kept is there when the rows of its page are read, -/
theorem KeptUpTo.rows (hkept : KeptUpTo options u db db' last o) (h : Timeline db db' last)
    (hk : k ≤ last) (hmatch : p ∈ matching options u (db k)) (hbefore : byNewest p o) :
    p ∈ (db' k).orders :=
  kept_between (h.rows k hk) (h.grows_last hk) (h.ids_rows last (Nat.le_refl last))
    (mem_matching.mp hmatch).1 (hkept k hk p hmatch hbefore)

/-- and matches when the next page is asked for. -/
theorem KeptUpTo.next (hkept : KeptUpTo options u db db' last o) (h : Timeline db db' last)
    (hk : k < last) (hmatch : p ∈ matching options u (db k)) (hbefore : byNewest p o) :
    p ∈ matching options u (db (k + 1)) := by
  have hg := (h.rows (k + 1) hk).trans (h.grows_last hk)
  have hthere := kept_between (h.next k hk) hg (h.ids_rows last (Nat.le_refl last))
    (hkept.rows h hk.le hmatch hbefore) (hkept k hk.le p hmatch hbefore)
  exact mem_matching.mpr ⟨hthere, (mem_matching.mp hmatch).2⟩

theorem KeptUpTo.matching (hkept : KeptUpTo options u db db' last o) (h : Timeline db db' last)
    (ho : o ∈ Orders.matching options u (db 0)) (hk : k ≤ last) :
    o ∈ Orders.matching options u (db k) := by
  induction k with
  | zero => exact ho
  | succ k ih => exact hkept.next h hk (ih (Nat.le_of_succ_le hk)) (byNewest_refl o)

/-- The order is in the window of a page before the last one, if the last one has nothing up to it. -/
theorem KeptUpTo.window {query : OrdersController.ListQuery} (hlimit : 0 < query.limit)
    (hkept : KeptUpTo (query.options u) u db db' last o) (h : Timeline db db' last)
    (ho : o ∈ Orders.matching (query.options u) u (db 0))
    (hend : ∀ p ∈ Orders.window (query.options u) (last * query.limit.toNat) u (db last),
      ¬ byNewest p o) :
    ∃ k < last, o ∈ Orders.window (query.options u) (k * query.limit.toNat) u (db k) := by
  have hnodup : ∀ k ≤ last, (newestOrders (Orders.matching (query.options u) u (db k))).Nodup :=
    fun k hk => (newestOrders_arranges _).perm.nodup_iff.mpr
      ((List.Nodup.of_map _ (h.ids k hk)).filter _)
  have hanti : ∀ k ≤ last, ∀ p ∈ newestOrders (Orders.matching (query.options u) u (db k)),
      byNewest p o → byNewest o p → p = o := fun k hk p hp =>
    byNewest_antisymm (h.ids k hk) (mem_matching.mp (mem_newestOrders.mp hp)).1
      (mem_matching.mp (hkept.matching h ho hk)).1
  obtain ⟨k, hk, hwindow⟩ := Query.exists_page_of_kept (by omega : 0 < query.limit.toNat)
    (fun k _ => List.pairwise_insertionSort byNewest _) hnodup (byNewest_refl o) hanti
    (mem_newestOrders.mpr ho)
    (fun k hk p hp hbefore =>
      mem_newestOrders.mpr (hkept.next h hk (mem_newestOrders.mp hp) hbefore)) hend
  exact ⟨k, hk, hwindow⟩

end Timeline

/-! ## All pages -/

section Pages

variable {db db' : Nat → Db} {last k : Nat} {u : UUID} {o : Order} {Token : Type}
  {jwt : JwtService Token} {config : JwtConfig} {token : Nat → Token} {now : Nat → Nat}
  {query : OrdersController.ListQuery}

/-- One user asks for every page. -/
def SameUser (jwt : JwtService Token) (config : JwtConfig) (token : Nat → Token) (now : Nat → Nat)
    (u : UUID) (last : Nat) : Prop :=
  ∀ k ≤ last, ∃ payload, authenticate jwt config (now k) (some (token k)) = .ok payload ∧
    payload.sub = u.text

/-- A page that is answered has numbers that the database takes. -/
theorem sent_of_page {now : Nat} {token : Token} {payload : JwtPayloadDto} {db db' : Db}
    {dtos : List ListedOrderDto} {scan : Query.Scan OrderRow}
    (hauth : authenticate jwt config now (some token) = .ok payload) (howner : payload.sub = u.text)
    (hlimit : 0 < query.limit)
    (h : getOrdersOver jwt config now token query scan db db' = .ok dtos) :
    query.limit < 2 ^ 63 ∧ ∃ offset, rowCount (pageSkip query.page query.limit) = .ok offset := by
  by_contra hrefused
  have herror : TypeOrmOrdersRepository.findOver scan (query.options u) db db' = .error .other :=
    findOver_error (query.options u) rfl scan hlimit.ne' fun hsent =>
      hrefused ⟨hsent.1.2, hsent.2⟩
  unfold OrdersController.ListQuery.options at herror
  simp only [getOrdersOver, hauth, bind, Except.bind, howner, herror] at h
  cases h

/-- What page `k + 1` lists. -/
theorem Timeline.page (h : Timeline db db' last) (hk : k ≤ last)
    (huser : SameUser jwt config token now u last) (hlimit : 0 < query.limit ∧ query.limit < 2 ^ 63)
    (hfew : (matching (query.options u) u (db k)).length ≤ 2 ^ 53) {offset : Nat}
    (hsent : rowCount (pageSkip (k + 1 : Nat) query.limit) = .ok offset)
    (scan : Query.Scan OrderRow) :
    ∃ orders arranged,
      getOrdersOver jwt config (now k) (token k) (pageQuery query k) scan (db k) (db' k) =
        .ok (orders.map ListedOrder.toDto) ∧
      Query.Arranges newer ((window (query.options u) (k * query.limit.toNat) u (db k)).filter
        (· ∈ (db' k).orders)) arranged ∧
      List.Forall₂ (Shows (db' k)) arranged orders := by
  obtain ⟨payload, hauth, howner⟩ := huser k hk
  rw [← window_eq hlimit.1 hfew hsent]
  have hlimit' : 0 < (pageQuery query k).limit ∧ (pageQuery query k).limit < 2 ^ 63 := hlimit
  exact page_shows (h.rows k hk) (h.ids k hk) (h.ids_rows k hk) hauth howner hlimit' hsent scan

/-- An empty page has nothing up to an order that is kept. -/
theorem Timeline.empty_page (h : Timeline db db' last)
    (huser : SameUser jwt config token now u last) (hlimit : 0 < query.limit ∧ query.limit < 2 ^ 63)
    (hfew : (matching (query.options u) u (db last)).length ≤ 2 ^ 53) {offset : Nat}
    (hsent : rowCount (pageSkip (last + 1 : Nat) query.limit) = .ok offset)
    {scan : Query.Scan OrderRow} (hkept : KeptUpTo (query.options u) u db db' last o)
    (hend : getOrdersOver jwt config (now last) (token last) (pageQuery query last) scan
      (db last) (db' last) = .ok []) :
    ∀ p ∈ window (query.options u) (last * query.limit.toNat) u (db last), ¬ byNewest p o := by
  intro p hwindow hbefore
  obtain ⟨orders, arranged, hpage, harranged, hshows⟩ :=
    h.page (Nat.le_refl last) huser hlimit hfew hsent scan
  rw [hend] at hpage
  have hnil : orders = [] := List.map_eq_nil_iff.mp (Except.ok.inj hpage).symm
  rw [hnil, List.forall₂_nil_right_iff] at hshows
  have hthere := hkept.rows h (Nat.le_refl last) (mem_matching_of_window hwindow) hbefore
  have hmem := harranged.perm.mem_iff.mpr (List.mem_filter.mpr ⟨hwindow, decide_eq_true hthere⟩)
  rw [hshows] at hmem
  cases hmem

variable {ι π : Type} [DecidableEq ι] [DecidableEq π] {env : Env ι} {n : Nat}
  {maxRetries : Number} {db₀ : Db} {s s' : Nat → State ι π}

/-- The run that goes on while the pages up to `last` are read: for page `k + 1` the ids in `s k` and
the rows in `s' k`. -/
structure Reading (env : Env ι) (n : Nat) (maxRetries : Number) (db₀ : Db)
    (s s' : Nat → State ι π) (last : Nat) : Prop where
  start : (system env n maxRetries db₀).Reach System.anyStep (s 0)
  rows : ∀ k ≤ last, (system env n maxRetries db₀).Steps System.anyStep (s k) (s' k)
  next : ∀ k < last, (system env n maxRetries db₀).Steps System.anyStep (s' k) (s (k + 1))

theorem Reading.reach (h : Reading env n maxRetries db₀ s s' last) (hk : k ≤ last) :
    (system env n maxRetries db₀).Reach System.anyStep (s k) := by
  induction k with
  | zero => exact h.start
  | succ k ih => exact ((ih (by omega)).steps (h.rows k (by omega))).steps (h.next k hk)

theorem Reading.timeline (h : Reading env n maxRetries db₀ s s' last) (hv : db₀.Valid)
    (hf : FreshIds env db₀) (hrows : FreshRows env db₀) (hp : Paired db₀) :
    Timeline (fun k => (s k).orders.db) (fun k => (s' k).orders.db) last where
  rows _ hk := grows_run (h.reach hk) hv hf hrows hp (h.rows _ hk)
  next _ hk := grows_run ((h.reach hk.le).steps (h.rows _ hk.le)) hv hf hrows hp (h.next _ hk)
  ids _ hk := ((Reach.orders (h.reach hk)).inv hv hf).valid.orderIds
  ids_rows _ hk := ((Reach.orders ((h.reach hk).steps (h.rows _ hk))).inv hv hf).valid.orderIds

/-- A user who reads page after page until a page is empty, while calls and workers go on between
any two queries, is shown every order that matched in the beginning, as long as at most 2^53 match.
Only who asks for the orders that are still `created` may miss one, if that one or a newer one is
processed meanwhile. -/
theorem pages_miss_nothing (hv : db₀.Valid) (hf : FreshIds env db₀) (hrows : FreshRows env db₀)
    (hp : Paired db₀) (hread : Reading env n maxRetries db₀ s s' last)
    (huser : SameUser jwt config token now u last) (hlimit : 0 < query.limit)
    (hfew : ∀ k ≤ last, (matching (query.options u) u (s k).orders.db).length ≤ 2 ^ 53)
    (scan : Nat → Query.Scan OrderRow)
    (hend : getOrdersOver jwt config (now last) (token last) (pageQuery query last) (scan last)
      (s last).orders.db (s' last).orders.db = .ok [])
    (ho : o ∈ matching (query.options u) u (s 0).orders.db)
    (hkept : query.status = .created → KeptUpTo (query.options u) u (fun k => (s k).orders.db)
      (fun k => (s' k).orders.db) last o) :
    ∃ k < last, ∃ orders : List ListedOrder, ∃ l ∈ orders, Shows (s' k).orders.db o l ∧
      getOrdersOver jwt config (now k) (token k) (pageQuery query k) (scan k) (s k).orders.db
        (s' k).orders.db = .ok (orders.map ListedOrder.toDto) := by
  have h := hread.timeline hv hf hrows hp
  have hkept : KeptUpTo (query.options u) u (fun k => (s k).orders.db)
      (fun k => (s' k).orders.db) last o := by
    by_cases hstatus : query.status = .created
    · exact hkept hstatus
    · exact h.keptUpTo hstatus
  obtain ⟨payload, hauth, howner⟩ := huser last (Nat.le_refl last)
  have hlimit' : 0 < (pageQuery query last).limit := hlimit
  obtain ⟨hfits, offset, hlast⟩ := sent_of_page hauth howner hlimit' hend
  obtain ⟨k, hk, hwindow⟩ := hkept.window hlimit h ho
    (h.empty_page huser ⟨hlimit, hfits⟩ (hfew last (Nat.le_refl last)) hlast hkept hend)
  have hbefore : ((k + 1 : Nat) : Int) ≤ (last + 1 : Nat) := by omega
  obtain ⟨offset', hsent⟩ := rowCount_of_le (by omega) hbefore hlimit hlast
  obtain ⟨orders, arranged, hpage, harranged, hshows⟩ :=
    h.page hk.le huser ⟨hlimit, hfits⟩ (hfew k hk.le) hsent (scan k)
  have hthere := hkept.rows h hk.le (mem_matching_of_window hwindow) (byNewest_refl o)
  have hlisted := harranged.perm.mem_iff.mpr
    (List.mem_filter.mpr ⟨hwindow, decide_eq_true hthere⟩)
  obtain ⟨l, hl, hshow⟩ := Query.exists_of_forall₂ hshows.flip hlisted
  exact ⟨k, hk, orders, l, hl, hshow, hpage⟩

end Pages

/-! ## A second order is placed after the first page -/

section Witness

def twiceEnv : Env (Fin 2) := shopEnv (fun _ => false) fun c => shopRequest 50 (60 + c) [1]

def secondOrder : Order := ⟨.ofNat 101, .ofNat 50, .created, .ofNat 61, 1, 1, none⟩

/-- One order a page. -/
def singlyQuery : OrdersController.ListQuery := { createdQuery with limit := 1 }

theorem second_placed : ∃ s s' : State (Fin 2) Unit,
    (system twiceEnv 3 (.ofInt 3) shop).Reach System.anyStep s ∧
    (system twiceEnv 3 (.ofInt 3) shop).Steps System.anyStep s s' ∧
    s.orders.db.orders = [placedOrder] ∧ s'.orders.db.orders = [placedOrder, secondOrder] := by
  let later : List (Label (Fin 2) Unit) := List.replicate 11 (.calls (.advance 1))
  let placed : State (Fin 2) Unit → Bool := fun s =>
    decide (s.orders.db.orders = [placedOrder]) &&
      (s.performAll twiceEnv (.ofInt 3) ⟨2, 3⟩ later).any
        fun s' => s'.orders.db.orders = [placedOrder, secondOrder]
  have hinit : (system twiceEnv 3 (.ofInt 3) shop).Reach System.anyStep
      (State.initial 3 shop : State (Fin 2) Unit) := .init rfl
  obtain ⟨s, hr, hs⟩ := reach_of_run hinit (List.replicate 11 (.advance 0))
    (fun _ _ _ => trivial) (p := placed) (by decide +kernel)
  simp only [placed, Bool.and_eq_true, decide_eq_true_eq, Option.any_eq_true] at hs
  obtain ⟨horders, s', hrun, horders'⟩ := hs
  exact ⟨s, s', hr, System.Steps.of_run (fun _ => rfl) (fun _ _ _ => rfl)
    (fun _ _ _ => step_of_perform) later (fun _ _ _ => trivial) hrun, horders, horders'⟩

/-- The first order is on page 1, and again on page 2, where the second one has pushed it. -/
theorem pages_miss_nothing_placed : ∃ s s' : State (Fin 2) Unit,
    s.orders.db.orders = [placedOrder] ∧ s'.orders.db.orders = [placedOrder, secondOrder] ∧
    ∃ k < 2, ∃ orders : List ListedOrder, ∃ l ∈ orders,
      Shows (if k = 0 then s else s').orders.db placedOrder l := by
  obtain ⟨s, s', hr, hsteps, horders, horders'⟩ := second_placed
  let page : Nat → State (Fin 2) Unit := fun k => if k = 0 then s else s'
  have hread : Reading twiceEnv 3 (.ofInt 3) shop page page 2 :=
    { start := hr
      rows := fun k hk => .refl
      next := fun k hk => by
        cases k with
        | zero => exact hsteps
        | succ k => exact .refl }
  have huser : SameUser Auth.plainJwt docConfig (fun _ => buyerToken) (fun _ => 1) (.ofNat 50) 2 :=
    fun k hk => ⟨_, buyer_authenticates, rfl⟩
  have hsent : rowCount (pageSkip (pageQuery singlyQuery 2).page (pageQuery singlyQuery 2).limit) =
      .ok 2 :=
    (congrArg rowCount (pageSkip_exact 3 1 (by decide) (by decide))).trans
      (rowCount_ok (by decide))
  have hwindow : window ((pageQuery singlyQuery 2).options (.ofNat 50)) 2 (.ofNat 50)
      s'.orders.db = [] := by
    unfold window matching
    rw [horders']
    decide +kernel
  have hids : (s'.orders.db.orders.map (·.id)).Nodup := by
    rw [horders']
    decide
  have hend : getOrdersOver Auth.plainJwt docConfig 1 buyerToken (pageQuery singlyQuery 2) tableScan
      s'.orders.db s'.orders.db = .ok [] := by
    obtain ⟨orders, arranged, hpage, harranged, hshows⟩ := page_shows (.refl s'.orders.db) hids hids
      buyer_authenticates (show buyer.id.text = (UUID.ofNat 50).text from rfl)
      (by decide : 0 < (pageQuery singlyQuery 2).limit ∧ _) hsent tableScan
    rw [hwindow] at harranged
    rw [List.perm_nil.mp harranged.perm, List.forall₂_nil_left_iff] at hshows
    rwa [hshows] at hpage
  have hkept : KeptUpTo (singlyQuery.options (.ofNat 50)) (.ofNat 50) (fun k => (page k).orders.db)
      (fun k => (page k).orders.db) 2 placedOrder := by
    intro k hk p hp _
    have hmem := (mem_matching.mp hp).1
    show p ∈ s'.orders.db.orders
    rw [horders']
    cases k with
    | zero =>
      have hfirst : p ∈ s.orders.db.orders := hmem
      rw [horders] at hfirst
      exact List.mem_cons.mpr (.inl (List.mem_singleton.mp hfirst))
    | succ k =>
      have hsecond : p ∈ s'.orders.db.orders := hmem
      rwa [horders'] at hsecond
  have hfew (k : Nat) (_ : k ≤ 2) : (matching (singlyQuery.options (.ofNat 50)) (.ofNat 50)
      (page k).orders.db).length ≤ 2 ^ 53 := by
    refine (List.length_filter_le _ _).trans ?_
    cases k with
    | zero =>
      show s.orders.db.orders.length ≤ _
      rw [horders]
      decide
    | succ k =>
      show s'.orders.db.orders.length ≤ _
      rw [horders']
      decide
  have hmatch : placedOrder ∈ matching (singlyQuery.options (.ofNat 50)) (.ofNat 50) s.orders.db := by
    unfold matching
    rw [horders]
    decide +kernel
  obtain ⟨k, hk, orders, l, hl, hshow, -⟩ := pages_miss_nothing (by decide)
    (freshIds_shop _ _) (fun c row hrow => by cases hrow) (fun o ho => by cases ho) hread huser
    (by decide : 0 < singlyQuery.limit) hfew (fun _ => tableScan) hend hmatch fun _ => hkept
  exact ⟨s, s', horders, horders', k, hk, orders, l, hl, hshow⟩

end Witness

end Ecommerce.Platform
