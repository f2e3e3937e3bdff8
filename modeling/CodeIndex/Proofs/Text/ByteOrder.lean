import Mathlib
import CodeIndex.Text.Utf8

/-!
# Texts in the order of their bytes

Tables sort names by their bytes, and texts compare by their characters. The two orders are one: of two
characters the smaller one has the smaller bytes, and no character's bytes begin with another's. The
first byte tells how many follow, and a character with more bytes has a greater first byte.

Main result: `lt_iff_encode_lt`.
-/

namespace CodeIndex

/-- Whatever follows, the smaller character has the smaller bytes. -/
theorem encodeChar_append_lt {a b : Char} (h : a < b) (s t : Text.Bytes) :
    String.utf8EncodeChar a ++ s < String.utf8EncodeChar b ++ t := by
  have hlt : a.val.toNat < b.val.toNat := h
  have hbound : b.val.toNat < 0x110000 := by
    rcases b.valid with hvalid | hvalid
    · omega
    · exact hvalid.2
  unfold String.utf8EncodeChar
  simp only
  generalize a.val.toNat = m, b.val.toNat = n at hlt hbound
  -- bytes that follow do not matter, since the two differ before
  by_cases hst : s < t
  all_goals
    split_ifs
    all_goals
      simp (disch := omega) only [List.cons_append, List.nil_append, List.cons_lt_cons_iff,
        UInt8.lt_iff_toNat_lt, ← UInt8.toNat_inj, UInt8.toNat_ofNat', Nat.reducePow, hst, and_true,
        and_false, or_false, Nat.mod_eq_of_lt]
      omega

theorem encode_lt_of_lt {s t : List Char} (h : s < t) : Text.encode s < Text.encode t := by
  unfold Text.encode
  induction s generalizing t with
  | nil =>
    cases t with
    | nil => exact absurd h (List.not_lt_nil _)
    | cons b t =>
      rw [List.flatMap_nil, List.flatMap_cons]
      cases hb : String.utf8EncodeChar b with
      | nil => exact absurd hb String.utf8EncodeChar_ne_nil
      | cons byte rest => exact List.nil_lt_cons _ _
  | cons a s ih =>
    cases t with
    | nil => exact absurd h (List.not_lt_nil _)
    | cons b t =>
      rw [List.flatMap_cons, List.flatMap_cons]
      rcases List.cons_lt_cons_iff.mp h with hab | ⟨rfl, hst⟩
      · exact encodeChar_append_lt hab _ _
      · exact List.append_left_lt (ih hst)

/-- **Texts are in the order of their bytes.** -/
theorem lt_iff_encode_lt (a b : String) : a < b ↔ Text.encode a.toList < Text.encode b.toList := by
  constructor
  · exact fun h => encode_lt_of_lt (String.lt_iff_toList_lt.mp h)
  · intro h
    rcases lt_trichotomy a b with hab | rfl | hba
    · exact hab
    · exact absurd h (List.lt_irrefl _)
    · exact absurd (encode_lt_of_lt (String.lt_iff_toList_lt.mp hba)) (List.lt_asymm h)

end CodeIndex
