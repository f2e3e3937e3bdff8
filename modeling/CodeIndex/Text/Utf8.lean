import CodeIndex.Word

/-!
# Text as bytes

Files hold bytes, and most of this library works on characters. `encode` writes a text as UTF-8;
`decode?` reads one back and refuses anything that is not UTF-8; `decodeLossy` puts a replacement
character in place of each maximal piece that is not.

A sequence of bytes for one character is read by its first byte, which fixes how many continuation
bytes follow and the range of the first of them. That range is what excludes overlong forms,
surrogates and code points past the last one.
-/

namespace CodeIndex.Text

/-- The bytes of a file or message. -/
abbrev Bytes := List UInt8

/-- The UTF-8 form of a text. -/
def encode (s : List Char) : Bytes := s.flatMap String.utf8EncodeChar

/-- How many bytes the UTF-8 form has. -/
def byteLength (s : List Char) : Nat := total (s.map Char.utf8Size)

/-! ## §1. One character. -/

/-- What a first byte announces: the bits it carries, the bounds of the second byte, and how many
further continuation bytes follow that one. -/
structure Lead where
  bits : Nat
  low : UInt8
  high : UInt8
  further : Nat

/-- The announcement of a first byte of a sequence of two or more; `none` for any other byte. -/
def Lead.of? (b : UInt8) : Option Lead :=
  let n := b.toNat
  if 0xC2 ≤ n && n ≤ 0xDF then some ⟨n - 0xC0, 0x80, 0xBF, 0⟩
  else if n == 0xE0 then some ⟨0, 0xA0, 0xBF, 1⟩
  else if n == 0xED then some ⟨0xD, 0x80, 0x9F, 1⟩
  else if 0xE1 ≤ n && n ≤ 0xEF then some ⟨n - 0xE0, 0x80, 0xBF, 1⟩
  else if n == 0xF0 then some ⟨0, 0x90, 0xBF, 2⟩
  else if 0xF1 ≤ n && n ≤ 0xF3 then some ⟨n - 0xF0, 0x80, 0xBF, 2⟩
  else if n == 0xF4 then some ⟨4, 0x80, 0x8F, 2⟩
  else none

/-- Read `count` continuation bytes after the bits read so far. The result is the code point with
the rest, or the rest after the longest valid piece. -/
def readTail : (count bits : Nat) → Bytes → Except Bytes (Nat × Bytes)
  | 0, bits, rest => .ok (bits, rest)
  | count + 1, bits, b :: rest =>
    if 0x80 ≤ b && b ≤ 0xBF then readTail count (bits * 64 + (b.toNat - 0x80)) rest
    else .error (b :: rest)
  | _ + 1, _, [] => .error []

/-- Read one character whose first byte is `b`. The result is the character with the rest, or the
rest after the longest piece that could have started one. -/
def readChar (b : UInt8) (rest : Bytes) : Except Bytes (Char × Bytes) :=
  if b < 0x80 then .ok (Char.ofNat b.toNat, rest)
  else
    match Lead.of? b, rest with
    | some lead, b' :: rest' =>
      if lead.low ≤ b' && b' ≤ lead.high then
        match readTail lead.further (lead.bits * 64 + (b'.toNat - 0x80)) rest' with
        | .ok (n, rest'') => .ok (Char.ofNat n, rest'')
        | .error rest'' => .error rest''
      else .error rest
    | _, _ => .error rest

/-! ## §2. Whole texts. -/

/-- Read all of `bytes`; `onBad` says what stands for a piece that is not UTF-8, `none` to refuse
the whole text. Every round takes at least one byte, so `fuel` need not exceed the length. -/
def decodeWith (onBad : Option Char) : (fuel : Nat) → Bytes → List Char → Option (List Char)
  | 0, _, acc => some acc.reverse
  | _ + 1, [], acc => some acc.reverse
  | fuel + 1, b :: rest, acc =>
    match readChar b rest with
    | .ok (c, rest') => decodeWith onBad fuel rest' (c :: acc)
    | .error rest' =>
      match onBad with
      | some c => decodeWith onBad fuel rest' (c :: acc)
      | none => none

/-- The text that `bytes` encode, or `none` when they are not UTF-8. -/
def decode? (bytes : Bytes) : Option (List Char) := decodeWith none bytes.length bytes []

/-- The character that stands for what could not be read. -/
def replacement : Char := Char.ofNat 0xFFFD

/-- The text that `bytes` encode, each maximal piece that is not UTF-8 replaced. -/
def decodeLossy (bytes : Bytes) : List Char :=
  (decodeWith (some replacement) bytes.length bytes []).getD []

end CodeIndex.Text
