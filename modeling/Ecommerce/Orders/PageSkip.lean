import Ecommerce.Orders.Paging

/-!
# PageSkip — the offset of a page, in doubles

`(page - 1) * limit` is exact up to 2^53.  Beyond that it is rounded, and still grows with the page.
-/

namespace Ecommerce.Orders

open Binary64 Query

variable {page limit skip : Int} {offset : Nat}

theorem pageSkip_exact (page limit : Int) (hpage : |page - 1| ≤ 2 ^ 53)
    (h : |(page - 1) * limit| ≤ 2 ^ 53) :
    pageSkip page limit = .ofInt ((page - 1) * limit) := by
  rw [pageSkip, Number.minus_safe hpage, Number.times_safe h]

theorem pageSkip_first (limit : Int) : pageSkip 1 limit = .ofInt 0 := by
  simpa using pageSkip_exact 1 limit (by simp) (by simp)

/-- The offset is rounded twice. -/
theorem pageSkip_cases (page : Int) (hlimit : 1 ≤ limit) :
    pageSkip page limit = .infinity ∨ pageSkip page limit = .negInfinity ∨
      ∃ skip : Int, pageSkip page limit = .ofInt skip ∧
        nearest (nearest (page - 1 : Int) * limit) = skip := by
  rw [pageSkip, Number.minus_ofInt]
  rcases Number.round_int (page - 1) with hinf | hneg | ⟨k, hk, hround⟩
  · exact .inl (by rw [hinf, Number.infinity_times hlimit])
  · exact .inr (.inl (by rw [hneg, Number.negInfinity_times hlimit]))
  · rw [hround, Number.times_ofInt, hk, ← Int.cast_mul]
    rcases Number.round_int (k * limit) with hinf | hneg | ⟨j, hj, hround'⟩
    · exact .inl hinf
    · exact .inr (.inl hneg)
    · exact .inr (.inr ⟨j, hround', hj⟩)

theorem nearest_of_pageSkip (hlimit : 1 ≤ limit) (h : pageSkip page limit = .ofInt skip) :
    nearest (nearest (page - 1 : Int) * limit) = skip := by
  rcases pageSkip_cases page hlimit with hinf | hneg | ⟨skip', hskip, hnearest⟩
  · rw [hinf] at h
    cases h
  · rw [hneg] at h
    cases h
  · rw [hskip, Number.ofInt_inj] at h
    rw [hnearest, h]

theorem pageSkip_mono {page' skip' : Int} (hpage : page ≤ page') (hlimit : 1 ≤ limit)
    (h : pageSkip page limit = .ofInt skip) (h' : pageSkip page' limit = .ofInt skip') :
    skip ≤ skip' := by
  have hminus : nearest (page - 1 : Int) ≤ nearest (page' - 1 : Int) :=
    nearest_mono (Int.cast_le.mpr (by omega))
  have hnonneg : (0 : ℚ) ≤ limit := Int.cast_nonneg (by omega)
  have hproduct := nearest_mono (mul_le_mul_of_nonneg_right hminus hnonneg)
  rw [nearest_of_pageSkip hlimit h, nearest_of_pageSkip hlimit h'] at hproduct
  exact_mod_cast hproduct

/-- What is at least 2^53 is not rounded below it. -/
theorem le_pageSkip (hlimit : 1 ≤ limit) (hlarge : 2 ^ 53 ≤ (page - 1) * limit)
    (h : pageSkip page limit = .ofInt skip) : 2 ^ 53 ≤ skip := by
  have hbound : ((2 ^ 53 : Int) : ℚ) ≤ nearest (page - 1 : Int) * limit := by
    rcases le_total (page - 1) (2 ^ 53) with hpage | hpage
    · have hpos : 0 < page - 1 := (pos_iff_pos_of_mul_pos (by omega)).mpr hlimit
      rw [nearest_intCast (abs_le.mpr ⟨by omega, hpage⟩)]
      exact_mod_cast hlarge
    · have hminus : ((2 ^ 53 : Int) : ℚ) ≤ nearest (page - 1 : Int) :=
        le_nearest (by decide) (Int.cast_le.mpr hpage)
      exact hminus.trans (le_mul_of_one_le_right
        ((Int.cast_nonneg (by decide)).trans hminus) (by exact_mod_cast hlimit))
  have hle := le_nearest (by decide) hbound
  rw [nearest_of_pageSkip hlimit h] at hle
  exact_mod_cast hle

/-- Of at most 2^53 elements a rounded offset skips as many as the exact one. -/
theorem pageSkip_skips {n : Nat} (hpage : 1 ≤ page) (hlimit : 1 ≤ limit) (hn : n ≤ 2 ^ 53)
    (h : pageSkip page limit = .ofInt skip) :
    skip = (page - 1) * limit ∨ (n : Int) ≤ skip ∧ (n : Int) ≤ (page - 1) * limit := by
  have hn' : (n : Int) ≤ 2 ^ 53 := by exact_mod_cast hn
  rcases le_total ((page - 1) * limit) (2 ^ 53) with hsmall | hlarge
  · have hnonneg : 0 ≤ (page - 1) * limit := Int.mul_nonneg (by omega) (by omega)
    have hle : page - 1 ≤ (page - 1) * limit := le_mul_of_one_le_right (by omega) hlimit
    rw [pageSkip_exact _ _ (abs_le.mpr ⟨by omega, by omega⟩) (abs_le.mpr ⟨by omega, hsmall⟩),
      Number.ofInt_inj] at h
    exact .inl h.symm
  · have := le_pageSkip hlimit hlarge h
    exact .inr ⟨by omega, by omega⟩

/-- What the offset of page `k + 1` is for. -/
theorem natCast_mul_toNat (hlimit : 1 ≤ limit) (k : Nat) :
    ((k * limit.toNat : Nat) : Int) = k * limit := by
  rw [Nat.cast_mul, Int.toNat_of_nonneg (by omega)]

/-- Of at most 2^52 orders no offset up to that of the first empty page is rounded, if the limit is a
double. -/
theorem pageSkip_upTo {n k : Nat} (hlimit : 1 ≤ limit) (hn : n ≤ 2 ^ 52)
    (hdouble : Number.round limit = .ofInt limit) (hk : k ≤ pageCount n limit.toNat) :
    pageSkip (k + 1 : Nat) limit = .ofInt (k * limit) := by
  have hsize : 0 < limit.toNat := by omega
  have hpred : ((k + 1 : Nat) : Int) - 1 = k := by omega
  by_cases hmany : 1 < k
  · -- the limit is small as well
    have hlow := (lt_pageCount (n := n) hsize).mp (hmany.trans_le hk)
    have hproduct := (Nat.mul_le_mul_right limit.toNat hk).trans_lt (pageCount_mul_lt hsize)
    have hcount : k ≤ k * limit.toNat := Nat.le_mul_of_pos_right _ hsize
    have hskip := pageSkip_exact (k + 1 : Nat) limit
      (by rw [hpred, abs_le]; omega)
      (by rw [hpred, ← natCast_mul_toNat hlimit k, abs_le]; omega)
    rwa [hpred] at hskip
  · obtain rfl | rfl : k = 0 ∨ k = 1 := by omega
    · simpa using pageSkip_first limit
    · rw [pageSkip, Number.minus_safe (by decide), Number.times_ofInt]
      simpa using hdouble

/-- An offset that the database takes is that of a page. -/
theorem pageSkip_of_rowCount (hlimit : 1 ≤ limit)
    (h : rowCount (pageSkip page limit) = .ok offset) :
    1 ≤ page ∧ pageSkip page limit = .ofInt offset ∧ (offset : Int) < 2 ^ 63 := by
  rcases pageSkip_cases page hlimit with hinf | hneg | ⟨skip, hskip, hnearest⟩
  · rw [hinf] at h
    cases h
  · rw [hneg] at h
    cases h
  · rw [hskip, rowCount_ofInt] at h
    split_ifs at h with hrange
    obtain rfl := Except.ok.inj h
    refine ⟨?_, by rw [hskip, Int.toNat_of_nonneg hrange.1], by omega⟩
    -- a page before the first one has a negative offset
    by_contra hpage
    have hminus : nearest (page - 1 : Int) ≤ ((-1 : Int) : ℚ) :=
      nearest_le (by decide) (Int.cast_le.mpr (by omega))
    have hproduct : nearest (page - 1 : Int) * limit ≤ ((-1 : Int) : ℚ) := by
      have hone : (1 : ℚ) ≤ limit := by exact_mod_cast hlimit
      push_cast at hminus ⊢
      nlinarith
    have hle := nearest_le (by decide) hproduct
    rw [hnearest, Int.cast_le] at hle
    omega

/-- If the database takes the offset of a page, it takes those of the pages before. -/
theorem rowCount_of_le {page' : Int} (hpage : 1 ≤ page) (hle : page ≤ page') (hlimit : 1 ≤ limit)
    (h : rowCount (pageSkip page' limit) = .ok offset) :
    ∃ offset', rowCount (pageSkip page limit) = .ok offset' := by
  obtain ⟨-, hskip, hlt⟩ := pageSkip_of_rowCount hlimit h
  rw [pageSkip, Number.minus_ofInt] at hskip
  rcases Number.round_int (page' - 1) with hinf | hneg | ⟨k, -, hround⟩
  · rw [hinf, Number.infinity_times hlimit] at hskip
    cases hskip
  · rw [hneg, Number.negInfinity_times hlimit] at hskip
    cases hskip
  · obtain ⟨j, hj, hnonneg, hjk⟩ :=
      Number.round_of_le (a := page - 1) (by omega) (by omega) hround
    rw [hround, Number.times_ofInt] at hskip
    obtain ⟨skip, hproduct, hpos, hbound⟩ := Number.round_of_le
      (Int.mul_nonneg hnonneg (by omega)) (mul_le_mul_of_nonneg_right hjk (by omega)) hskip
    refine ⟨skip.toNat, ?_⟩
    rw [pageSkip, Number.minus_ofInt, hj, Number.times_ofInt, hproduct,
      rowCount_ok ⟨hpos, by omega⟩]

end Ecommerce.Orders
