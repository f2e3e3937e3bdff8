/-!
# Content digests

The BLAKE3 hash, by which unchanged content is recognised. The content is cut into chunks of 1024
bytes, each chunk into blocks of 64; a chunk is folded block by block into eight words. Chunks are
the leaves of a binary tree whose left side is as large a full tree as leaves something for the
right, and an inner node mixes the eight words of its two sides. The digest is what the topmost
node gives when it is marked as the root.
-/

namespace CodeIndex.Digest

/-! ## §1. Mixing. -/

/-- Sixteen words, or the eight that are passed up the tree. -/
abbrev Words := Array UInt32

/-- The words that every hash starts from. -/
def seed : Words :=
  #[0x6A09E667, 0xBB67AE85, 0x3C6EF372, 0xA54FF53A, 0x510E527F, 0x9B05688C, 0x1F83D9AB, 0x5BE0CD19]

/-- Rotation to the right. -/
def rotateRight (x : UInt32) (n : UInt32) : UInt32 := (x >>> n) ||| (x <<< (32 - n))

/-- Mix two message words into four state words. -/
def quarter (v : Words) (a b c d : Nat) (x y : UInt32) : Words :=
  let va := v.getD a 0 + v.getD b 0 + x
  let vd := rotateRight (v.getD d 0 ^^^ va) 16
  let vc := v.getD c 0 + vd
  let vb := rotateRight (v.getD b 0 ^^^ vc) 12
  let va := va + vb + y
  let vd := rotateRight (vd ^^^ va) 8
  let vc := vc + vd
  let vb := rotateRight (vb ^^^ vc) 7
  (((v.setIfInBounds a va).setIfInBounds b vb).setIfInBounds c vc).setIfInBounds d vd

/-- One round: the four columns, then the four diagonals. -/
def round (v m : Words) : Words :=
  let w (i : Nat) : UInt32 := m.getD i 0
  let v := quarter v 0 4 8 12 (w 0) (w 1)
  let v := quarter v 1 5 9 13 (w 2) (w 3)
  let v := quarter v 2 6 10 14 (w 4) (w 5)
  let v := quarter v 3 7 11 15 (w 6) (w 7)
  let v := quarter v 0 5 10 15 (w 8) (w 9)
  let v := quarter v 1 6 11 12 (w 10) (w 11)
  let v := quarter v 2 7 8 13 (w 12) (w 13)
  quarter v 3 4 9 14 (w 14) (w 15)

/-- The order in which the next round takes the message words. -/
def permute (m : Words) : Words :=
  #[2, 6, 3, 10, 7, 0, 4, 13, 1, 11, 12, 5, 9, 14, 15, 8].map fun i => m.getD i 0

/-- The remaining rounds, the message permuted between two of them. -/
def rounds : Nat → Words → Words → Words
  | 0, v, _ => v
  | 1, v, m => round v m
  | n + 2, v, m => rounds (n + 1) (round v m) (permute m)

/-! ## §2. Nodes. -/

/-- A node before it is compressed: what comes in, the sixteen message words, the number of the
chunk, how many of the 64 bytes are content, and what kind of node it is. -/
structure Node where
  chain : Words
  block : Words
  counter : UInt64
  length : UInt32
  flags : UInt32

/-- The first block of a chunk. -/
def chunkStart : UInt32 := 1

/-- The last block of a chunk. -/
def chunkEnd : UInt32 := 2

/-- An inner node. -/
def inner : UInt32 := 4

/-- The topmost node. -/
def root : UInt32 := 8

/-- The eight words that a node passes on, with further flags set. -/
def Node.compress (n : Node) (flags : UInt32) : Words :=
  let v := n.chain ++ seed.extract 0 4
    ++ #[n.counter.toUInt32, (n.counter >>> 32).toUInt32, n.length, n.flags ||| flags]
  let v := rounds 7 v n.block
  (Array.range 8).map fun i => v.getD i 0 ^^^ v.getD (i + 8) 0

/-- Four bytes as a word, the least significant first. -/
def word : List UInt8 → UInt32
  | [] => 0
  | b :: rest => b.toUInt32 ||| (word rest <<< 8)

/-- Up to 64 bytes as sixteen words, the missing ones zero. -/
def blockWords (bytes : List UInt8) : Words :=
  ((List.range 16).map fun i => word ((bytes.drop (4 * i)).take 4)).toArray

/-! ## §3. The tree. -/

/-- How many bytes a block holds. -/
def blockSize : Nat := 64

/-- How many bytes a chunk holds. -/
def chunkSize : Nat := 1024

/-- The node of a chunk: its last block, after all before it have been compressed. A chunk has at
most sixteen blocks. -/
def chunkNode (counter : UInt64) : (blocks : Nat) → Words → UInt32 → List UInt8 → Node
  | 0, chain, flags, bytes => ⟨chain, blockWords bytes, counter, bytes.length.toUInt32, flags⟩
  | blocks + 1, chain, flags, bytes =>
    if bytes.length ≤ blockSize then
      ⟨chain, blockWords bytes, counter, bytes.length.toUInt32, flags ||| chunkEnd⟩
    else
      let node : Node := ⟨chain, blockWords (bytes.take blockSize), counter, 64, flags⟩
      chunkNode counter blocks (node.compress 0) 0 (bytes.drop blockSize)

/-- The node above two sides. -/
def parentNode (left right : Words) : Node := ⟨seed, left ++ right, 0, 64, inner⟩

/-- How many bytes of a content of more than one chunk go to the left: the largest number of whole
chunks that is a power of two and leaves at least one byte. -/
def leftLength (length : Nat) : Nat := chunkSize * Nat.pow 2 ((length - 1) / chunkSize).log2

/-- The topmost node over some content whose first chunk has the given number. Each level has at
most half of the chunks of the one above, so `depth` bounds the number of chunks by `2 ^ depth`. -/
def treeNode : (depth counter : Nat) → List UInt8 → Node
  | 0, counter, bytes => chunkNode counter.toUInt64 16 seed chunkStart bytes
  | depth + 1, counter, bytes =>
    if bytes.length ≤ chunkSize then chunkNode counter.toUInt64 16 seed chunkStart bytes
    else
      let n := leftLength bytes.length
      let left := treeNode depth counter (bytes.take n)
      let right := treeNode depth (counter + n / chunkSize) (bytes.drop n)
      parentNode (left.compress 0) (right.compress 0)

/-- The number of levels that any content of fewer than `2 ^ 64` bytes fits in. -/
def maxLevels : Nat := 54

/-! ## §4. The digest. -/

/-- The four bytes of a word in hexadecimal, the least significant byte first. -/
def wordHex (w : UInt32) : List Char :=
  (List.range 4).flatMap fun i =>
    let b := (w.toNat / Nat.pow 256 i) % 256
    [Nat.digitChar (b / 16), Nat.digitChar (b % 16)]

/-- The digest of some content, in hexadecimal. -/
def ofBytes (bytes : List UInt8) : String :=
  String.ofList (((treeNode maxLevels 0 bytes).compress root).toList.flatMap wordHex)

end CodeIndex.Digest
