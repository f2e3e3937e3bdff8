import Mathlib
import CodeIndex.Text.Utf8

/-!
# Encoded texts are read back

The bytes of a character announce themselves: the first one says how many follow and how the second one
is bounded, and each later one carries six bits. So a character is read back from its bytes, whatever
bytes come behind them, and with it a whole text.

A byte below 128 stands for its own character and for no other. A text can therefore be cut at line feeds
before or after it is encoded.

Main results:
  * `decode?_encode` — what is encoded is decoded to the same text;
  * `newline_mem_encode` — the byte of a line feed stands in a text's bytes iff the character stands in it.
-/

namespace CodeIndex.Text

/-! ## §1. One character. -/

theorem toNat_ofNat {n : Nat} (h : n < 256) : (UInt8.ofNat n).toNat = n := by
  rw [UInt8.toNat_ofNat']
  exact Nat.mod_eq_of_lt h

/-- Each later byte adds six bits. -/
theorem readTail_byte (count bits m : Nat) (rest : Bytes) :
    readTail (count + 1) bits (UInt8.ofNat (m % 64 + 128) :: rest)
      = readTail count (bits * 64 + m % 64) rest := by
  have hbyte : (UInt8.ofNat (m % 64 + 128)).toNat = m % 64 + 128 := toNat_ofNat (by omega)
  have hrange : (0x80 ≤ UInt8.ofNat (m % 64 + 128) && UInt8.ofNat (m % 64 + 128) ≤ 0xBF) = true := by
    simp only [Bool.and_eq_true, decide_eq_true_eq, UInt8.le_iff_toNat_le, hbyte]
    show 128 ≤ m % 64 + 128 ∧ m % 64 + 128 ≤ 191
    omega
  rw [readTail, if_pos hrange, hbyte]
  show readTail count (bits * 64 + (m % 64 + 128 - 128)) rest = _
  rw [Nat.add_sub_cancel]

/-- A character of several bytes is read by what its first byte announces, and the bounds of the second. -/
theorem readChar_of_lead {b : UInt8} {lead : Lead} {m : Nat} (hfirst : 128 ≤ b.toNat)
    (hlead : Lead.of? b = some lead) (hlow : lead.low.toNat ≤ m % 64 + 128)
    (hhigh : m % 64 + 128 ≤ lead.high.toNat) (rest : Bytes) :
    readChar b (UInt8.ofNat (m % 64 + 128) :: rest) =
      match readTail lead.further (lead.bits * 64 + m % 64) rest with
      | .ok (n, rest) => .ok (Char.ofNat n, rest)
      | .error rest => .error rest := by
  have hbyte : (UInt8.ofNat (m % 64 + 128)).toNat = m % 64 + 128 := toNat_ofNat (by omega)
  have hseveral : ¬ b < 0x80 := by
    rw [UInt8.lt_iff_toNat_lt]
    show ¬ b.toNat < 128
    omega
  have hrange : (lead.low ≤ UInt8.ofNat (m % 64 + 128) && UInt8.ofNat (m % 64 + 128) ≤ lead.high) = true := by
    simp only [Bool.and_eq_true, decide_eq_true_eq, UInt8.le_iff_toNat_le, hbyte]
    exact ⟨hlow, hhigh⟩
  unfold readChar
  rw [if_neg hseveral, hlead]
  simp only [hrange, if_true, hbyte]
  show (match readTail lead.further (lead.bits * 64 + (m % 64 + 128 - 128)) rest with
    | .ok (n, rest) => Except.ok (Char.ofNat n, rest)
    | .error rest => .error rest) = _
  rw [Nat.add_sub_cancel]

/-- The first byte of two. -/
theorem lead_two {m : Nat} (hlow : 2 ≤ m) (hhigh : m < 32) :
    Lead.of? (UInt8.ofNat (m + 192)) = some ⟨m, 0x80, 0xBF, 0⟩ := by
  interval_cases m <;> rfl

/-- The first byte of three: a small code point has a shorter form, and some code points are no characters. -/
theorem lead_three {m : Nat} (h : m < 16) :
    Lead.of? (UInt8.ofNat (m + 224)) =
      some ⟨m, if m = 0 then 0xA0 else 0x80, if m = 13 then 0x9F else 0xBF, 1⟩ := by
  interval_cases m <;> rfl

/-- The first byte of four: a small code point has a shorter form, and there is a last one. -/
theorem lead_four {m : Nat} (h : m < 5) :
    Lead.of? (UInt8.ofNat (m + 240)) =
      some ⟨m, if m = 0 then 0x90 else 0x80, if m = 4 then 0x8F else 0xBF, 2⟩ := by
  interval_cases m <;> rfl

theorem readChar_one {n : Nat} (h : n ≤ 127) (rest : Bytes) :
    readChar (UInt8.ofNat n) rest = .ok (Char.ofNat n, rest) := by
  have hbyte : (UInt8.ofNat n).toNat = n := toNat_ofNat (by omega)
  have hsmall : UInt8.ofNat n < 0x80 := by
    rw [UInt8.lt_iff_toNat_lt, hbyte]
    show n < 128
    omega
  unfold readChar
  rw [if_pos hsmall, hbyte]

theorem readChar_two {n : Nat} (hlow : 127 < n) (hhigh : n ≤ 2047) (rest : Bytes) :
    readChar (UInt8.ofNat (n / 64 % 32 + 192)) (UInt8.ofNat (n % 64 + 128) :: rest)
      = .ok (Char.ofNat n, rest) := by
  have hfirst : 128 ≤ (UInt8.ofNat (n / 64 % 32 + 192)).toNat := by
    rw [toNat_ofNat (by omega)]
    omega
  have hlead := lead_two (show 2 ≤ n / 64 % 32 by omega) (by omega)
  have hvalue : n / 64 % 32 * 64 + n % 64 = n := by omega
  rw [readChar_of_lead hfirst hlead (by show 128 ≤ _; omega) (by show _ ≤ 191; omega)]
  simp only [readTail, hvalue]

theorem readChar_three {n : Nat} (hlow : 2047 < n) (hhigh : n ≤ 65535) (hscalar : n < 0xD800 ∨ 0xDFFF < n)
    (rest : Bytes) :
    readChar (UInt8.ofNat (n / 4096 % 16 + 224))
      (UInt8.ofNat (n / 64 % 64 + 128) :: UInt8.ofNat (n % 64 + 128) :: rest) = .ok (Char.ofNat n, rest) := by
  have hfirst : 128 ≤ (UInt8.ofNat (n / 4096 % 16 + 224)).toNat := by
    rw [toNat_ofNat (by omega)]
    omega
  have hlead := lead_three (show n / 4096 % 16 < 16 by omega)
  have hvalue : (n / 4096 % 16 * 64 + n / 64 % 64) * 64 + n % 64 = n := by omega
  have hleast : (if n / 4096 % 16 = 0 then (0xA0 : UInt8) else 0x80).toNat ≤ n / 64 % 64 + 128 := by
    split_ifs
    · show 160 ≤ _
      omega
    · show 128 ≤ _
      omega
  have hgreatest : n / 64 % 64 + 128 ≤ (if n / 4096 % 16 = 13 then (0x9F : UInt8) else 0xBF).toNat := by
    split_ifs
    · show _ ≤ 159
      omega
    · show _ ≤ 191
      omega
  rw [readChar_of_lead hfirst hlead hleast hgreatest]
  simp only [readTail_byte]
  rw [readTail, hvalue]

theorem readChar_four {n : Nat} (hlow : 65535 < n) (hhigh : n < 0x110000) (rest : Bytes) :
    readChar (UInt8.ofNat (n / 262144 % 8 + 240))
      (UInt8.ofNat (n / 4096 % 64 + 128) :: UInt8.ofNat (n / 64 % 64 + 128) :: UInt8.ofNat (n % 64 + 128)
        :: rest) = .ok (Char.ofNat n, rest) := by
  have hfirst : 128 ≤ (UInt8.ofNat (n / 262144 % 8 + 240)).toNat := by
    rw [toNat_ofNat (by omega)]
    omega
  have hlead := lead_four (show n / 262144 % 8 < 5 by omega)
  have hvalue : ((n / 262144 % 8 * 64 + n / 4096 % 64) * 64 + n / 64 % 64) * 64 + n % 64 = n := by omega
  have hleast : (if n / 262144 % 8 = 0 then (0x90 : UInt8) else 0x80).toNat ≤ n / 4096 % 64 + 128 := by
    split_ifs
    · show 144 ≤ _
      omega
    · show 128 ≤ _
      omega
  have hgreatest : n / 4096 % 64 + 128 ≤ (if n / 262144 % 8 = 4 then (0x8F : UInt8) else 0xBF).toNat := by
    split_ifs
    · show _ ≤ 143
      omega
    · show _ ≤ 191
      omega
  rw [readChar_of_lead hfirst hlead hleast hgreatest]
  simp only [readTail_byte]
  rw [readTail, hvalue]

/-- **A character** is read back from its bytes, whatever follows them. -/
theorem readChar_utf8EncodeChar (c : Char) :
    ∃ b more, String.utf8EncodeChar c = b :: more ∧ ∀ rest, readChar b (more ++ rest) = .ok (c, rest) := by
  have hvalid : c.val.toNat < 0xD800 ∨ 0xDFFF < c.val.toNat ∧ c.val.toNat < 0x110000 := c.valid
  have hback : Char.ofNat c.val.toNat = c := Char.ofNat_toNat c
  unfold String.utf8EncodeChar
  simp only
  generalize c.val.toNat = n at hvalid hback
  subst hback
  split_ifs with hone htwo hthree
  · exact ⟨_, _, rfl, fun rest => readChar_one hone rest⟩
  · exact ⟨_, _, rfl, fun rest => readChar_two (by omega) htwo rest⟩
  · exact ⟨_, _, rfl, fun rest => readChar_three (by omega) hthree (by omega) rest⟩
  · exact ⟨_, _, rfl, fun rest => readChar_four (by omega) (by omega) rest⟩

/-! ## §2. Whole texts. -/

theorem encode_append (s t : List Char) : encode (s ++ t) = encode s ++ encode t := List.flatMap_append

theorem encode_cons (c : Char) (s : List Char) : encode (c :: s) = String.utf8EncodeChar c ++ encode s :=
  List.flatMap_cons

theorem byteLength_append (s t : List Char) : byteLength (s ++ t) = byteLength s + byteLength t := by
  have htotal (counts : List Nat) : total counts = counts.sum := rfl
  unfold byteLength
  rw [htotal, htotal, htotal, List.map_append, List.sum_append]

/-- Decoding takes a whole text, one character in each round. -/
theorem decodeWith_encode (onBad : Option Char) (s acc : List Char) {fuel : Nat} (h : (encode s).length ≤ fuel) :
    decodeWith onBad fuel (encode s) acc = some (acc.reverse ++ s) := by
  induction s generalizing acc fuel with
  | nil =>
    rw [List.append_nil]
    cases fuel <;> rfl
  | cons c s ih =>
    obtain ⟨b, more, hbytes, hread⟩ := readChar_utf8EncodeChar c
    rw [encode_cons, hbytes, List.cons_append] at h ⊢
    rw [List.length_cons, List.length_append] at h
    obtain ⟨fuel, rfl⟩ := Nat.exists_eq_add_of_le' (Nat.le_trans (by omega) h : 1 ≤ fuel)
    rw [decodeWith, hread]
    simp only
    rw [ih (c :: acc) (by omega), List.reverse_cons, List.append_assoc, List.singleton_append]

/-- **An encoded text** is decoded to the same text. -/
theorem decode?_encode (s : List Char) : decode? (encode s) = some s :=
  decodeWith_encode none s [] (Nat.le_refl _)

/-! ## §3. Line feeds. -/

/-- A byte below 128 stands for its own character only. -/
theorem mem_utf8EncodeChar {b : UInt8} (hb : b.toNat < 128) {c : Char} :
    b ∈ String.utf8EncodeChar c ↔ c.toNat = b.toNat := by
  show b ∈ String.utf8EncodeChar c ↔ c.val.toNat = b.toNat
  have hbyte {m : Nat} (hm : m < 256) : b = UInt8.ofNat m ↔ m = b.toNat := by
    rw [← UInt8.toNat_inj, toNat_ofNat hm, eq_comm]
  have hlater {m : Nat} (hlow : 128 ≤ m) (hhigh : m < 256) : b ≠ UInt8.ofNat m := by
    intro heq
    have hm := (hbyte hhigh).mp heq
    omega
  unfold String.utf8EncodeChar
  simp only
  split_ifs
  all_goals
    simp only [List.mem_cons, List.not_mem_nil, or_false]
  · exact hbyte (by omega)
  all_goals
    constructor
    · intro h
      casesm* _ ∨ _
      all_goals exact absurd ‹b = _› (hlater (by omega) (by omega))
    · intro h
      omega

/-- **A line feed** stands in the bytes of a text iff it stands in the text. -/
theorem newline_mem_encode {s : List Char} : 10 ∈ encode s ↔ '\n' ∈ s := by
  unfold encode
  rw [List.mem_flatMap]
  constructor
  · intro h
    obtain ⟨c, hc, hmem⟩ := h
    have hten : c.toNat = '\n'.toNat := (mem_utf8EncodeChar (by decide)).mp hmem
    rwa [← Char.toNat_inj.mp hten]
  · intro h
    exact ⟨'\n', h, (mem_utf8EncodeChar (by decide)).mpr rfl⟩

end CodeIndex.Text
