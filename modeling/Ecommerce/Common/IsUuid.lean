import Ecommerce.Common.Uuid

/-!
# IsUuid — the validator `@IsUUID()`

The validator wants the hyphens in their places and takes either letter case.  What it accepts the
database reads, and writes back as the same text just when that has no upper-case letter.
-/

namespace Ecommerce

namespace UUID

/-- A hyphen after 8, 12, 16 and 20 digits, and a digit of either case everywhere else. -/
def fitsAt (place : Char × Nat) : Bool :=
  if place.2 ∈ [8, 13, 18, 23] then place.1 = '-' else (hexValue place.1).isSome

def hasShape (cs : List Char) : Bool := cs.length = 36 && cs.zipIdx.all fitsAt

/-- The pattern of `@IsUUID()`: versions 1 to 8 of the usual variant, the nil and the max uuid. -/
def isUUID (s : String) : Bool :=
  let digits := s.toList.filterMap hexValue
  hasShape s.toList &&
    ((digits[12]?.any (fun d => 1 ≤ d.val ∧ d.val ≤ 8) &&
        digits[16]?.any (fun d => 8 ≤ d.val ∧ d.val ≤ 11)) ||
      digits.all (· = 0) || digits.all (· = 15))

/-- Whether a letter of the text is an upper-case one. -/
def hasUpper (s : String) : Bool := s.toList.any Char.isUpper

/-! ## Single digits -/

theorem hexValue_cases {c : Char} {d : Fin 16} (h : hexValue c = some d) :
    (48 ≤ c.toNat ∧ c.toNat ≤ 57 ∧ d = Fin.ofNat 16 (c.toNat - 48)) ∨
    (97 ≤ c.toNat ∧ c.toNat ≤ 102 ∧ d = Fin.ofNat 16 (c.toNat - 87)) ∨
    (65 ≤ c.toNat ∧ c.toNat ≤ 70 ∧ d = Fin.ofNat 16 (c.toNat - 55)) := by
  unfold hexValue at h
  dsimp only at h
  split at h
  · next hrange => exact .inl ⟨hrange.1, hrange.2, (Option.some.inj h).symm⟩
  · split at h
    · next hrange => exact .inr (.inl ⟨hrange.1, hrange.2, (Option.some.inj h).symm⟩)
    · split at h
      · next hrange => exact .inr (.inr ⟨hrange.1, hrange.2, (Option.some.inj h).symm⟩)
      · cases h

theorem digit_ne_hyphen {c : Char} (h : (hexValue c).isSome = true) : c ≠ '-' := by
  rintro rfl
  revert h
  decide

theorem digit_ne_brace {c : Char} (h : (hexValue c).isSome = true) : c ≠ '{' := by
  rintro rfl
  revert h
  decide

theorem hexChar_isUpper (d : Fin 16) : (hexChar d).isUpper = false := by
  revert d
  decide

theorem isUpper_iff (c : Char) : c.isUpper = true ↔ 65 ≤ c.toNat ∧ c.toNat ≤ 90 := by
  show decide (c.toNat ≥ 65 ∧ c.toNat ≤ 90) = true ↔ _
  rw [decide_eq_true_eq]

/-- A digit is written back as it was just when it is no upper-case letter. -/
theorem hexChar_digit {c : Char} {d : Fin 16} (h : hexValue c = some d) :
    hexChar d = c ↔ c.isUpper = false := by
  constructor
  · intro heq
    rw [← heq]
    exact hexChar_isUpper d
  · intro hlower
    rw [← Bool.not_eq_true, isUpper_iff] at hlower
    rcases hexValue_cases h with ⟨hlo, hhi, rfl⟩ | ⟨hlo, hhi, rfl⟩ | ⟨hlo, hhi, rfl⟩
    · have hval : (Fin.ofNat 16 (c.toNat - 48)).val = c.toNat - 48 := Nat.mod_eq_of_lt (by omega)
      rw [hexChar, hval, if_pos (by omega), Nat.add_sub_cancel' hlo, Char.ofNat_toNat]
    · have hval : (Fin.ofNat 16 (c.toNat - 87)).val = c.toNat - 87 := Nat.mod_eq_of_lt (by omega)
      rw [hexChar, hval, if_neg (by omega), Nat.add_sub_cancel' (by omega), Char.ofNat_toNat]
    · omega

/-! ## Whole texts -/

-- The text is cut in halves because a pattern of thirty-six characters is too long.
theorem readDigits_halves {l r : List Char} (hl : l.length = 18) (hr : r.length = 18)
    (hall : (l ++ r).zipIdx.all fitsAt = true) :
    readDigits (l ++ r) = some ((l ++ r).filterMap hexValue) ∧
      ∀ u : UUID, u.digits = (l ++ r).filterMap hexValue →
        (u.text.toList = l ++ r ↔ (l ++ r).any Char.isUpper = false) := by
  match l, hl, r, hr with
  | [a0, a1, a2, a3, a4, a5, a6, a7, y0, b0, b1, b2, b3, y1, c0, c1, c2, c3], _,
    [y2, d0, d1, d2, d3, y3, e0, e1, e2, e3, e4, e5, e6, e7, e8, e9, e10, e11], _ =>
    simp [fitsAt, Option.isSome_iff_exists] at hall
    obtain ⟨⟨x0, h0⟩, ⟨x1, h1⟩, ⟨x2, h2⟩, ⟨x3, h3⟩, ⟨x4, h4⟩, ⟨x5, h5⟩, ⟨x6, h6⟩, ⟨x7, h7⟩, rfl,
      ⟨x8, h8⟩, ⟨x9, h9⟩, ⟨x10, h10⟩, ⟨x11, h11⟩, rfl, ⟨x12, h12⟩, ⟨x13, h13⟩, ⟨x14, h14⟩,
      ⟨x15, h15⟩, rfl, ⟨x16, h16⟩, ⟨x17, h17⟩, ⟨x18, h18⟩, ⟨x19, h19⟩, rfl, ⟨x20, h20⟩, ⟨x21, h21⟩,
      ⟨x22, h22⟩, ⟨x23, h23⟩, ⟨x24, h24⟩, ⟨x25, h25⟩, ⟨x26, h26⟩, ⟨x27, h27⟩, ⟨x28, h28⟩,
      ⟨x29, h29⟩, ⟨x30, h30⟩, ⟨x31, h31⟩⟩ := hall
    have hhyphen : hexValue '-' = none := by decide
    constructor
    · simp [readDigits, readClosed, readBytes, digit_ne_brace, digit_ne_hyphen, *]
    · intro u hu
      simp [*] at hu
      simp [text, hexChar_digit, *]

/-- What the validator accepts the database reads, and writes back as the same text if and only if
no letter of it is an upper-case one. -/
theorem ofText_isUUID {s : String} (h : isUUID s = true) :
    ∃ u, ofText s = some u ∧ (u.text = s ↔ hasUpper s = false) := by
  unfold isUUID hasShape at h
  simp only [Bool.and_eq_true, decide_eq_true_eq] at h
  obtain ⟨⟨hlen, hall⟩, -⟩ := h
  have hhalves : s.toList.take 18 ++ s.toList.drop 18 = s.toList := List.take_append_drop 18 _
  have hread := readDigits_halves (l := s.toList.take 18) (r := s.toList.drop 18)
    (by rw [List.length_take, hlen]; rfl) (by rw [List.length_drop, hlen])
    (by rwa [hhalves])
  rw [hhalves] at hread
  obtain ⟨hdigits, htext⟩ := hread
  refine ⟨⟨_, readDigits_length hdigits⟩, ?_, ?_⟩
  · unfold ofText
    split
    · next ds hds =>
      congr 2
      exact Option.some.inj (hds.symm.trans hdigits)
    · next hnone =>
      rw [hdigits] at hnone
      cases hnone
  · rw [hasUpper, ← htext ⟨_, readDigits_length hdigits⟩ rfl, String.toList_inj]

end UUID

end Ecommerce
