import Ecommerce.Lib.Query

/-!
# Pages — slices of a sorted list, loaded again row by row

A paged query finds out which elements its page has from a sorted list without ties, and loads them
a second time, sorted by a coarser relation.  So every page is an arrangement of its slice, and the
pages together are an arrangement of the whole list.
-/

namespace Query

variable {α β κ κ' ρ : Type}

/-! ## Elements without repetition -/

section EraseDups

variable [DecidableEq α]

/-- The rule for `eraseDups`: what it keeps of a list is its head and what it keeps of the rest
without the head. -/
theorem eraseDups_induction {P : List α → List α → Prop} (nil : P [] [])
    (cons : ∀ a l, P (l.filter (· ≠ a)) (l.filter (· ≠ a)).eraseDups →
      P (a :: l) (a :: (l.filter (· ≠ a)).eraseDups)) (l : List α) : P l l.eraseDups := by
  match l with
  | [] => exact nil
  | a :: l =>
    have hfilter : l.filter (fun b => !b == a) = l.filter (· ≠ a) :=
      List.filter_congr fun b _ => by simp [beq_eq_decide]
    rw [List.eraseDups_cons, hfilter]
    exact cons a l (eraseDups_induction nil cons _)
  termination_by l.length
  decreasing_by exact Nat.lt_succ_of_le (List.length_filter_le ..)

theorem eraseDups_sublist (l : List α) : l.eraseDups.Sublist l :=
  eraseDups_induction (P := fun l ks => ks.Sublist l) (.refl _)
    (fun a _ ih => (ih.trans List.filter_sublist).cons_cons a) l

theorem nodup_eraseDups (l : List α) : l.eraseDups.Nodup := by
  refine eraseDups_induction (P := fun _ ks => ks.Nodup) .nil (fun a l ih => ?_) l
  refine List.nodup_cons.mpr ⟨fun hmem => ?_, ih⟩
  simpa using (List.mem_filter.mp (List.mem_eraseDups.mp hmem)).2

theorem eraseDups_map [DecidableEq β] {f : α → β} (l : List α)
    (h : ∀ a ∈ l, ∀ b ∈ l, f a = f b → a = b) : (l.map f).eraseDups = l.eraseDups.map f := by
  revert h
  refine eraseDups_induction
    (P := fun l ks => (∀ a ∈ l, ∀ b ∈ l, f a = f b → a = b) → (l.map f).eraseDups = ks.map f)
    (fun _ => rfl) (fun a l ih h => ?_) l
  have hrest : (l.map f).filter (fun b => !b == f a) = (l.filter (· ≠ a)).map f := by
    rw [List.filter_map]
    refine congrArg (List.map f) (List.filter_congr fun b hb => ?_)
    have hiff : f b = f a ↔ b = a :=
      ⟨h b (List.mem_cons_of_mem _ hb) a List.mem_cons_self, congrArg f⟩
    simp [beq_eq_decide, hiff]
  rw [List.map_cons, List.eraseDups_cons, hrest, List.map_cons, ih]
  intro b hb c hc
  exact h b (List.mem_cons_of_mem _ (List.mem_filter.mp hb).1) c
    (List.mem_cons_of_mem _ (List.mem_filter.mp hc).1)

end EraseDups

/-- A part of the key that tells the rows apart groups them in the same way. -/
theorem group_comp [DecidableEq κ] [DecidableEq κ'] {key : ρ → κ} {f : κ → κ'} {rows : List ρ}
    (h : ∀ r ∈ rows, ∀ r' ∈ rows, f (key r) = f (key r') → key r = key r') :
    group (fun r => f (key r)) rows = group key rows := by
  have hinj : ∀ k ∈ rows.map key, ∀ k' ∈ rows.map key, f k = f k' → k = k' := by
    intro k hk k' hk'
    obtain ⟨r, hr, rfl⟩ := List.mem_map.mp hk
    obtain ⟨r', hr', rfl⟩ := List.mem_map.mp hk'
    exact h r hr r' hr'
  unfold group
  rw [show rows.map (fun r => f (key r)) = (rows.map key).map f by rw [List.map_map]; rfl,
    eraseDups_map _ hinj, List.map_map]
  refine List.map_congr_left fun k hk => List.filter_congr fun r hr => ?_
  have hiff : f (key r) = f k ↔ key r = k :=
    ⟨hinj _ (List.mem_map_of_mem hr) k (List.mem_eraseDups.mp hk), congrArg f⟩
  simp [hiff]

/-! ## Rows of a join, grouped -/

theorem mem_leftJoin {on : α → β → Bool} {as : List α} {bs : List β} {r : α × Option β}
    (h : r ∈ leftJoin on as bs) : r.1 ∈ as := by
  obtain ⟨a, ha, hr⟩ := List.mem_flatMap.mp h
  rwa [fst_of_mem_matched hr]

theorem exists_mem_leftJoin (on : α → β → Bool) {as : List α} (bs : List β) {a : α} (h : a ∈ as) :
    ∃ r ∈ leftJoin on as bs, r.1 = a := by
  obtain ⟨r, hr⟩ := List.exists_mem_of_ne_nil _ (matched_ne_nil a (bs.filter (on a)))
  exact ⟨r, List.mem_flatMap.mpr ⟨a, h, hr⟩, fst_of_mem_matched hr⟩

section Joined

variable [DecidableEq α]

/-- The rows of one left row are those that match it. -/
theorem leftJoin_filter_fst (on : α → β → Bool) {as : List α} (bs : List β) (hnodup : as.Nodup)
    {a : α} (ha : a ∈ as) :
    (leftJoin on as bs).filter (·.1 = a) = matched a (bs.filter (on a)) := by
  rw [leftJoin_filter on as bs (· = a), List.filter_eq, hnodup.count, if_pos ha]
  exact List.flatMap_singleton ..

/-- Joined rows in any order, grouped: one group for each left row, in the order of their first
rows, with the rows that match it. -/
theorem group_leftJoin {on : α → β → Bool} {as : List α} {bs : List β} {rows : List (α × Option β)}
    (hnodup : as.Nodup) (h : rows.Perm (leftJoin on as bs)) :
    ∃ arranged : List α, arranged.Perm as ∧ arranged.Sublist (rows.map (·.1)) ∧
      group (·.1) rows = arranged.map (fun a => rows.filter (·.1 = a)) ∧
      ∀ a ∈ arranged, (rows.filter (·.1 = a)).Perm (matched a (bs.filter (on a))) := by
  have hmem : ∀ a, a ∈ (rows.map (·.1)).eraseDups ↔ a ∈ as := by
    intro a
    rw [List.mem_eraseDups, (h.map (·.1)).mem_iff, List.mem_map]
    constructor
    · rintro ⟨r, hr, rfl⟩
      exact mem_leftJoin hr
    · exact fun ha => exists_mem_leftJoin on bs ha
  refine ⟨(rows.map (·.1)).eraseDups, ?_, eraseDups_sublist _, rfl, fun a ha => ?_⟩
  · exact (List.perm_ext_iff_of_nodup (nodup_eraseDups _) hnodup).mpr hmem
  · rw [← leftJoin_filter_fst on bs hnodup ((hmem a).mp ha)]
    exact h.filter _

end Joined

theorem forall₂_filterMap {R : α → β → Prop} {f : α → Option β} {as : List α}
    (h : ∀ a ∈ as, ∃ b, f a = some b ∧ R a b) : List.Forall₂ R as (as.filterMap f) := by
  induction as with
  | nil => exact .nil
  | cons a as ih =>
    obtain ⟨b, hb, hr⟩ := h a List.mem_cons_self
    rw [List.filterMap_cons_some hb]
    exact .cons hr (ih fun a' ha' => h a' (List.mem_cons_of_mem _ ha'))

theorem exists_of_forall₂ {α β : Type*} {R : α → β → Prop} {as : List α} {bs : List β}
    (h : List.Forall₂ R as bs) {b : β} (hb : b ∈ bs) : ∃ a ∈ as, R a b := by
  induction h with
  | nil => cases hb
  | @cons a b' as bs hab _ ih =>
    obtain rfl | hrest := List.mem_cons.mp hb
    · exact ⟨a, List.mem_cons_self, hab⟩
    · obtain ⟨a', ha', hR⟩ := ih hrest
      exact ⟨a', List.mem_cons_of_mem _ ha', hR⟩

theorem forall₂_flatMap {ι : Type} {R : α → β → Prop} {f : ι → List α} {g : ι → List β} {is : List ι}
    (h : ∀ i ∈ is, List.Forall₂ R (f i) (g i)) : List.Forall₂ R (is.flatMap f) (is.flatMap g) := by
  induction is with
  | nil => exact .nil
  | cons i is ih =>
    rw [List.flatMap_cons, List.flatMap_cons]
    exact List.rel_append (h i List.mem_cons_self) (ih fun j hj => h j (List.mem_cons_of_mem _ hj))

/-- The number of pages of this size that `n` elements fill or begin. -/
def pageCount (n size : Nat) : Nat := (n + size - 1) / size

theorem lt_pageCount {n size k : Nat} (hsize : 0 < size) : k < pageCount n size ↔ k * size < n := by
  rw [pageCount, ← Nat.succ_le_iff, Nat.le_div_iff_mul_le hsize, Nat.succ_mul]
  omega

theorem le_pageCount_mul {n size : Nat} (hsize : 0 < size) : n ≤ pageCount n size * size :=
  Nat.not_lt.mp fun h => Nat.lt_irrefl _ ((lt_pageCount hsize).mpr h)

theorem pageCount_mul_lt {n size : Nat} (hsize : 0 < size) : pageCount n size * size < n + size := by
  have hdiv := Nat.div_mul_le_self (n + size - 1) size
  unfold pageCount
  omega

/-! ## Arrangements -/

/-- `l` lists the elements of `as` in the order `r`, those that tie in any order. -/
structure Arranges (r : α → α → Prop) (as l : List α) : Prop where
  perm : l.Perm as
  sorted : l.Pairwise r

section Arranges

variable {r : α → α → Prop} {as l : List α}

theorem Arranges.trans {l' : List α} (h : Arranges r as l) (h' : Arranges r l l') :
    Arranges r as l' := ⟨h'.perm.trans h.perm, h'.sorted⟩

/-- What comes before a position of a sorted list is related to what comes after it. -/
theorem pairwise_take_drop (h : l.Pairwise r) (n : Nat) : ∀ a ∈ l.take n, ∀ b ∈ l.drop n, r a b := by
  rw [← List.take_append_drop n l, List.pairwise_append] at h
  exact h.2.2

/-- The first pages of a sorted list, each arranged anew. -/
theorem Arranges.pages (h : l.Pairwise r) {size : Nat} {page : Nat → List α} (n : Nat)
    (hpage : ∀ k < n, Arranges r ((l.drop (k * size)).take size) (page k)) :
    Arranges r (l.take (n * size)) ((List.range n).flatMap page) := by
  induction n with
  | zero => exact ⟨by simp, by simp⟩
  | succ n ih =>
    have hfirst := ih fun k hk => hpage k (Nat.lt_succ_of_lt hk)
    have hlast := hpage n (Nat.lt_succ_self n)
    rw [List.range_succ, List.flatMap_append, List.flatMap_singleton, Nat.succ_mul, List.take_add]
    refine ⟨hfirst.perm.append hlast.perm, List.pairwise_append.mpr ⟨hfirst.sorted, hlast.sorted, ?_⟩⟩
    intro a ha b hb
    exact pairwise_take_drop h (n * size) a (hfirst.perm.mem_iff.mp ha) b
      (List.mem_of_mem_take (hlast.perm.mem_iff.mp hb))

/-- One page of a sorted list, arranged anew, is that page of an arrangement of the whole list. -/
theorem Arranges.page (h : l.Pairwise r) {offset size : Nat} {page : List α}
    (hpage : Arranges r ((l.drop offset).take size) page) :
    ∃ l', Arranges r l l' ∧ (l'.drop offset).take size = page := by
  have hsplit : l = l.take offset ++ ((l.drop offset).take size ++ (l.drop offset).drop size) := by
    rw [List.take_append_drop, List.take_append_drop]
  have hsorted := hsplit ▸ h
  rw [List.pairwise_append, List.pairwise_append] at hsorted
  obtain ⟨hbefore, ⟨-, hafter, hcross⟩, hcross'⟩ := hsorted
  refine ⟨l.take offset ++ (page ++ (l.drop offset).drop size), ⟨?_, ?_⟩, ?_⟩
  · conv_rhs => rw [hsplit]
    exact (hpage.perm.append_right _).append_left _
  · rw [List.pairwise_append, List.pairwise_append]
    refine ⟨hbefore, ⟨hpage.sorted, hafter, fun a ha => hcross a (hpage.perm.mem_iff.mp ha)⟩, ?_⟩
    intro a ha b hb
    refine hcross' a ha b (List.mem_append.mpr ((List.mem_append.mp hb).imp_left ?_))
    exact hpage.perm.mem_iff.mp
  · have hlength : page.length = min size (l.length - offset) := by
      rw [hpage.perm.length_eq, List.length_take, List.length_drop]
    by_cases hoffset : offset ≤ l.length
    · rw [List.drop_left' (by rw [List.length_take]; omega)]
      by_cases hsize : size ≤ l.length - offset
      · rw [List.take_left' (by omega)]
      · rw [List.drop_drop, List.drop_eq_nil_of_le (i := offset + size) (by omega), List.append_nil,
          List.take_of_length_le (by omega)]
    · rw [List.drop_eq_nil_of_le (by simp; omega), List.take_nil]
      exact (List.eq_nil_of_length_eq_zero (by omega)).symm

end Arranges

/-! ## Two slices of one list -/

section Slices

variable {l : List α} {size a b : Nat}

theorem mem_slice {x : α} : x ∈ (l.drop a).take size ↔ ∃ i, i < size ∧ l[a + i]? = some x := by
  rw [List.mem_iff_getElem?]
  constructor
  · rintro ⟨i, hi⟩
    obtain ⟨hlt, -⟩ := List.getElem?_eq_some_iff.mp hi
    have hsize : i < size := lt_of_lt_of_le hlt (List.length_take_le _ _)
    refine ⟨i, hsize, ?_⟩
    rwa [List.getElem?_take_of_lt hsize, List.getElem?_drop] at hi
  · rintro ⟨i, hsize, hi⟩
    refine ⟨i, ?_⟩
    rwa [List.getElem?_take_of_lt hsize, List.getElem?_drop]

/-- An element of a list without duplicates is in the slices around its position. -/
theorem mem_slice_iff (hnodup : l.Nodup) {i : Nat} {x : α} (hi : l[i]? = some x) :
    x ∈ (l.drop a).take size ↔ a ≤ i ∧ i < a + size := by
  rw [mem_slice]
  constructor
  · rintro ⟨j, hj, hx⟩
    obtain ⟨hlt, hi⟩ := List.getElem?_eq_some_iff.mp hi
    obtain ⟨hlt', hx⟩ := List.getElem?_eq_some_iff.mp hx
    have heq := hnodup.getElem_inj_iff.mp (hi.trans hx.symm)
    omega
  · rintro ⟨hle, hlt⟩
    exact ⟨i - a, by omega, by rwa [Nat.add_sub_cancel' hle]⟩

/-- Slices of one size have the same elements only if they begin at one position, or past the end. -/
theorem slice_perm_iff (hnodup : l.Nodup) (hsize : 0 < size) :
    ((l.drop a).take size).Perm ((l.drop b).take size) ↔
      a = b ∨ l.length ≤ a ∧ l.length ≤ b := by
  constructor
  · intro hperm
    -- the first element of a slice is not before the other slice
    have hfirst {a b : Nat} (hperm : ((l.drop a).take size).Perm ((l.drop b).take size))
        (ha : a < l.length) : b ≤ a := by
      have hx := List.getElem?_eq_getElem ha
      have hmem : l[a] ∈ (l.drop a).take size := (mem_slice_iff hnodup hx).mpr (by omega)
      exact ((mem_slice_iff hnodup hx).mp (hperm.mem_iff.mp hmem)).1
    by_cases ha : a < l.length
    · have hle := hfirst hperm ha
      exact .inl (le_antisymm (hfirst hperm.symm (by omega)) hle)
    · by_cases hb : b < l.length
      · exact absurd (hfirst hperm.symm hb) (by omega)
      · exact .inr ⟨by omega, by omega⟩
  · rintro (rfl | ⟨ha, hb⟩)
    · rfl
    · rw [List.drop_eq_nil_of_le ha, List.drop_eq_nil_of_le hb]

/-- Slices of one size that make up the whole list, one after the other, begin where one would cut
it. -/
theorem offsets_of_pages (hnodup : l.Nodup) (hsize : 0 < size) (pages : List (List α))
    (offset : Nat → Nat)
    (hpages : ∀ (i : Nat) (p : List α), pages[i]? = some p → p.Perm ((l.drop (offset i)).take size))
    (hall : pages.flatten.Perm l) (hmono : ∀ i j, i ≤ j → j < pages.length → offset i ≤ offset j)
    (hne : ∀ p ∈ pages, p ≠ []) :
    pages.length = pageCount l.length size ∧ ∀ i < pages.length, offset i = i * size := by
  have hpage {i : Nat} (hi : i < pages.length) : ∃ p, pages[i]? = some p :=
    ⟨_, List.getElem?_eq_getElem hi⟩
  -- a position is on one page only, and on one
  have hlt {i : Nat} (hi : i < pages.length) : offset i < l.length := by
    obtain ⟨p, hp⟩ := hpage hi
    by_contra hge
    have hnil := hpages i p hp
    rw [List.drop_eq_nil_of_le (by omega), List.take_nil, List.perm_nil] at hnil
    exact hne p (List.mem_of_getElem? hp) hnil
  have honce {i j k : Nat} (hi : i < j) (hj : j < pages.length) (hk : k < l.length)
      (hin : offset i ≤ k ∧ k < offset i + size) (hin' : offset j ≤ k ∧ k < offset j + size) :
      False := by
    obtain ⟨p, hp⟩ := hpage (hi.trans hj)
    obtain ⟨p', hp'⟩ := hpage hj
    have hx := List.getElem?_eq_getElem hk
    have hdisjoint := (List.nodup_flatten.mp (hall.nodup_iff.mpr hnodup)).2
    obtain ⟨_, rfl⟩ := List.getElem?_eq_some_iff.mp hp
    obtain ⟨_, rfl⟩ := List.getElem?_eq_some_iff.mp hp'
    exact List.pairwise_iff_getElem.mp hdisjoint i j _ _ hi
      ((hpages i _ hp).mem_iff.mpr ((mem_slice_iff hnodup hx).mpr hin))
      ((hpages j _ hp').mem_iff.mpr ((mem_slice_iff hnodup hx).mpr hin'))
  have hsome {k : Nat} (hk : k < l.length) :
      ∃ i < pages.length, offset i ≤ k ∧ k < offset i + size := by
    have hx := List.getElem?_eq_getElem hk
    obtain ⟨p, hp, hmem⟩ := List.mem_flatten.mp (hall.mem_iff.mpr (List.mem_of_getElem? hx))
    obtain ⟨i, hi⟩ := List.mem_iff_getElem?.mp hp
    refine ⟨i, (List.getElem?_eq_some_iff.mp hi).1, ?_⟩
    exact (mem_slice_iff hnodup hx).mp ((hpages i p hi).mem_iff.mp hmem)
  have hoffset : ∀ i < pages.length, offset i = i * size := by
    intro i hi
    induction i using Nat.strong_induction_on with
    | _ i ih =>
      refine le_antisymm ?_ ?_
      · -- the position where page `i` should begin is on no other page
        by_contra hlate
        obtain ⟨j, hj, hin⟩ := hsome (k := i * size) (by have := hlt hi; omega)
        rcases Nat.lt_or_ge j i with hji | hji
        · have hnext := Nat.mul_le_mul_right size (show j + 1 ≤ i from hji)
          rw [Nat.add_one_mul] at hnext
          rw [ih j hji hj] at hin
          omega
        · have := hmono i j hji hj
          omega
      · -- the position where it begins would be on a page before
        by_contra hearly
        have hj : offset i / size < i := by
          rw [Nat.div_lt_iff_lt_mul hsize]
          omega
        have hdiv := Nat.div_add_mod (offset i) size
        have hmod := Nat.mod_lt (offset i) hsize
        rw [Nat.mul_comm] at hdiv
        refine honce hj hi (hlt hi) ?_ (by omega)
        rw [ih _ hj (hj.trans hi)]
        omega
  refine ⟨le_antisymm ?_ ?_, hoffset⟩
  · by_contra hmany
    have hk : pageCount l.length size < pages.length := by omega
    have hbegun := hlt hk
    rw [hoffset _ hk] at hbegun
    have := le_pageCount_mul (n := l.length) hsize
    omega
  · by_contra hfew
    obtain ⟨j, hj, hin⟩ := hsome ((lt_pageCount hsize).mp (not_le.mp hfew))
    have hnext := Nat.mul_le_mul_right size (show j + 1 ≤ pages.length from hj)
    rw [Nat.add_one_mul] at hnext
    rw [hoffset j hj] at hin
    omega

end Slices

/-! ## A list that changes between two pages -/

section Drift

variable {r : α → α → Prop} {x : α}

/-- If no element up to `x` is lost from one sorted list to another, `x` does not move forward. -/
theorem index_le_of_kept {l l' : List α} (h : l.Pairwise r) (h' : l'.Pairwise r) (hnodup : l.Nodup)
    (hanti : ∀ y ∈ l', r y x → r x y → y = x) {i i' : Nat} (hi : l[i]? = some x)
    (hi' : l'[i']? = some x) (hkept : ∀ y ∈ l, r y x → y ∈ l') : i ≤ i' := by
  obtain ⟨hlt, hx⟩ := List.getElem?_eq_some_iff.mp hi
  obtain ⟨hlt', hx'⟩ := List.getElem?_eq_some_iff.mp hi'
  have hsubset : l.take i ⊆ l'.take i' := by
    intro y hy
    obtain ⟨j, hj, hyj⟩ := List.mem_take_iff_getElem.mp hy
    have hji : j < i := by omega
    have hbefore : r y x := by
      rw [← hyj, ← hx]
      exact List.pairwise_iff_getElem.mp h j i _ hlt hji
    have hne : y ≠ x := by
      rw [← hyj, ← hx]
      exact fun heq => absurd (hnodup.getElem_inj_iff.mp heq) (by omega)
    obtain ⟨k, hk, hyk⟩ := List.getElem_of_mem (hkept y (List.mem_of_mem_take hy) hbefore)
    refine List.mem_take_iff_getElem.mpr ⟨k, ?_, hyk⟩
    -- from `x` on there is nothing that comes before it
    have hki : k < i' := by
      by_contra hge
      obtain rfl | hgt := Nat.eq_or_lt_of_le (Nat.le_of_not_lt hge)
      · exact hne (hyk.symm.trans hx')
      · have hafter : r x y := by
          rw [← hyk, ← hx']
          exact List.pairwise_iff_getElem.mp h' i' k hlt' hk hgt
        exact hne (hanti y (hyk ▸ List.getElem_mem hk) hbefore hafter)
    omega
  have hlength := (List.subperm_of_subset (hnodup.sublist (List.take_sublist i l)) hsubset).length_le
  rw [List.length_take, List.length_take] at hlength
  omega

/-- A position that only grows, by any amount, and ends up before page `n` was on an earlier page at
the time of that page. -/
theorem exists_page_of_le {index : Nat → Nat} {size n : Nat} (h : ∀ k < n, index k ≤ index (k + 1))
    (hend : index n < n * size) : ∃ k < n, k * size ≤ index k ∧ index k < (k + 1) * size := by
  induction n with
  | zero => omega
  | succ n ih =>
    by_cases hn : index n < n * size
    · obtain ⟨k, hk, hpage⟩ := ih (fun k hk => h k (Nat.lt_succ_of_lt hk)) hn
      exact ⟨k, Nat.lt_succ_of_lt hk, hpage⟩
    · have hle := h n (Nat.lt_succ_self n)
      exact ⟨n, Nat.lt_succ_self n, Nat.le_of_not_lt hn, Nat.lt_of_le_of_lt hle hend⟩

/-- Reading page after page of a list that changes in between finds `x`, if nothing up to `x` is lost
on the way and there is nothing up to `x` on the last page. -/
theorem exists_page_of_kept {l : Nat → List α} {size n : Nat} (hsize : 0 < size)
    (hsorted : ∀ k ≤ n, (l k).Pairwise r) (hnodup : ∀ k ≤ n, (l k).Nodup) (hrefl : r x x)
    (hanti : ∀ k ≤ n, ∀ y ∈ l k, r y x → r x y → y = x) (hx : x ∈ l 0)
    (hkept : ∀ k < n, ∀ y ∈ l k, r y x → y ∈ l (k + 1))
    (hend : ∀ y ∈ ((l n).drop (n * size)).take size, ¬ r y x) :
    ∃ k < n, x ∈ ((l k).drop (k * size)).take size := by
  have hmem : ∀ k ≤ n, x ∈ l k := by
    intro k hk
    induction k with
    | zero => exact hx
    | succ k ih => exact hkept k hk x (ih (Nat.le_of_succ_le hk)) hrefl
  have hindex : ∀ k, ∃ i : Nat, k ≤ n → (l k)[i]? = some x := by
    intro k
    by_cases hk : k ≤ n
    · obtain ⟨i, hi⟩ := List.mem_iff_getElem?.mp (hmem k hk)
      exact ⟨i, fun _ => hi⟩
    · exact ⟨0, fun h => absurd h hk⟩
  choose index hindex using hindex
  have hgrows : ∀ k < n, index k ≤ index (k + 1) := fun k hk =>
    index_le_of_kept (hsorted k hk.le) (hsorted (k + 1) hk) (hnodup k hk.le) (hanti (k + 1) hk)
      (hindex k hk.le) (hindex (k + 1) hk) (hkept k hk)
  have hlast : index n < n * size := by
    by_contra hge
    obtain ⟨hlt, hxn⟩ := List.getElem?_eq_some_iff.mp (hindex n (Nat.le_refl n))
    have hfirst : n * size < (l n).length := by omega
    -- the first element of the last page is `x` or comes before it
    refine hend (l n)[n * size] ?_ ?_
    · refine List.mem_iff_getElem?.mpr ⟨0, ?_⟩
      rw [List.getElem?_take_of_lt hsize, List.getElem?_drop, Nat.add_zero]
      exact List.getElem?_eq_getElem hfirst
    · obtain heq | hgt := Nat.eq_or_lt_of_le (Nat.le_of_not_lt hge)
      · have heq' : (l n)[n * size] = x := by
          rw [← hxn]
          exact getElem_congr_idx heq
        rw [heq']
        exact hrefl
      · rw [← hxn]
        exact List.pairwise_iff_getElem.mp (hsorted n (Nat.le_refl n)) _ _ hfirst hlt hgt
  obtain ⟨k, hk, hle, hlt⟩ := exists_page_of_le hgrows hlast
  refine ⟨k, hk, List.mem_iff_getElem?.mpr ⟨index k - k * size, ?_⟩⟩
  rw [Nat.succ_mul] at hlt
  rw [List.getElem?_take_of_lt (by omega), List.getElem?_drop, Nat.add_sub_cancel' hle]
  exact hindex k hk.le

end Drift

end Query
