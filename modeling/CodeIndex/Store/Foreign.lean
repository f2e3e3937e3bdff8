import CodeIndex.Text.Utf8

/-!
# Files that hold no index

What can be made of a file in the place of an index. A file with no bytes or with one has not been
written to yet, and an index may be made in it. So it may in a database that another program has
begun. Such a database starts with a header:

  bytes  0–15   a signature
  bytes 16–17   the size of a page, a power of two
  byte  19      the version of the format
  byte  20      the bytes at the end of a page that are not used
  bytes 21–23   three fixed numbers
  bytes 24–27   how often the database has changed
  bytes 28–31   how many pages there are, of worth if bytes 92–95 repeat bytes 24–27
  byte  100     the kind of the first page, after the header

Any other file is no database.
-/

namespace CodeIndex.Foreign

open Text (Bytes)

/-- What a file that holds no index is. -/
inductive Kind where
  /-- A file in which an index may be made. -/
  | vacant
  /-- A database that is not whole. -/
  | damaged
  /-- No database. -/
  | other
  deriving DecidableEq, Repr

/-- The signature of a database. -/
def signature : Bytes := [83, 81, 76, 105, 116, 101, 32, 102, 111, 114, 109, 97, 116, 32, 51, 0]

/-- The byte at a place, which is zero past the end. -/
def byteAt (bytes : Bytes) (place : Nat) : Nat := (bytes[place]?.getD 0).toNat

/-- The number in four bytes, the highest first. -/
def wordAt (bytes : Bytes) (place : Nat) : Nat :=
  ((byteAt bytes place * 256 + byteAt bytes (place + 1)) * 256 + byteAt bytes (place + 2)) * 256
    + byteAt bytes (place + 3)

/-- The size of a page: two bytes, of which the second counts for the highest digit. -/
def pageSize (bytes : Bytes) : Nat := byteAt bytes 16 * 256 + byteAt bytes 17 * 65536

/-- The sizes that a page can have. -/
def pageSizes : List Nat := [512, 1024, 2048, 4096, 8192, 16384, 32768, 65536]

/-- The least number of bytes of a page that are used. -/
def leastUsed : Nat := 480

/-- Whether bytes begin with the header of a database. -/
def hasHeader (bytes : Bytes) : Bool :=
  signature.isPrefixOf bytes
    && byteAt bytes 19 ≤ 2
    && [byteAt bytes 21, byteAt bytes 22, byteAt bytes 23] == [64, 32, 32]
    && pageSizes.contains (pageSize bytes)
    && leastUsed + byteAt bytes 20 ≤ pageSize bytes

/-- How many pages the bytes have, the last of which may be cut short. -/
def pagesHeld (bytes : Bytes) : Nat := (bytes.length + pageSize bytes - 1) / pageSize bytes

/-- How many pages the header claims, where it claims a number at all. -/
def pagesClaimed (bytes : Bytes) : Nat :=
  if wordAt bytes 24 = wordAt bytes 92 then wordAt bytes 28 else 0

/-- Whether all pages are there and the first is one of a table. -/
def isWhole (bytes : Bytes) : Bool :=
  pagesClaimed bytes ≤ pagesHeld bytes && [5, 13].contains (byteAt bytes 100)

/-- What a file with the given bytes is. -/
def kindOf (bytes : Bytes) : Kind :=
  if bytes.length ≤ 1 then .vacant
  else if !hasHeader bytes then .other
  else if isWhole bytes then .vacant
  else .damaged

end CodeIndex.Foreign
