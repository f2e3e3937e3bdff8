import CodeIndex.Digest.Blake3
import CodeIndex.Text.Blank
import CodeIndex.Text.Utf8

/-!
# Digests of signatures

A signature is compared by its words alone, so that a change of layout is no change of signature.
-/

namespace CodeIndex.Digest

/-- A signature with its blanks trimmed and every run of them made one space. -/
def normalSignature (signature : String) : String :=
  String.ofList (Text.collapse signature.toList)

/-- The digest of a text. -/
def ofText (s : String) : String := ofBytes (Text.encode s.toList)

/-- The digest of a signature's normal form. -/
def ofSignature (signature : String) : String := ofText (normalSignature signature)

end CodeIndex.Digest
