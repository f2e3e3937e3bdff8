import CodeIndex.Digest.Signature
import CodeIndex.Store.Basic

/-!
# Comparing a file with its snapshot

The symbols of a file are compared with those it had when it was last compared, by name; of several
declarations of one name the first counts. The comparison takes the place of the old snapshot. A file
without a snapshot has nothing to be compared with, and only the snapshot is taken.
-/

namespace CodeIndex

/-- The first declaration of each name, in the order of the names. -/
def firstDeclarations (symbols : List Symbol) : List (String × Symbol) :=
  symbols.foldr (fun s acc => insertSorted s.name s acc) []

/-- What a snapshot keeps of a symbol. -/
def SnapshotEntry.ofSymbol (s : Symbol) : SnapshotEntry :=
  ⟨s.name, s.kind, s.signature, Digest.ofSignature s.signature⟩

/-- What happened to a symbol of the old snapshot. -/
def changeOf? (current : List (String × Symbol)) (old : SnapshotEntry) : Option SymbolChange :=
  match current.lookup old.name with
  | none => some (SymbolChange.of .removed old.name old.kind (some old.signature) none)
  | some new =>
    if Digest.ofSignature new.signature = old.sigHash then none
    else some (SymbolChange.of .sigChanged old.name new.kind (some old.signature) (some new.signature))

/-- A symbol that the old snapshot does not have. -/
def additionOf? (previous : List SnapshotEntry) (new : Symbol) : Option SymbolChange :=
  if previous.any (·.name == new.name) then none
  else some (SymbolChange.of .added new.name new.kind none (some new.signature))

/-- The changes from a snapshot to the symbols that a file has now: removals and changed signatures
in the order of the names, then additions in the order of the names. -/
def changesBetween (previous : List SnapshotEntry) (current : List (String × Symbol)) :
    List SymbolChange :=
  previous.filterMap (changeOf? current) ++ (current.map (·.2)).filterMap (additionOf? previous)

/-- Compare a file with its snapshot and take a new one. -/
def Store.computeDiff (s : Store) (path : String) (symbols : List Symbol) : Store × FileDiff :=
  let current := firstDeclarations symbols
  let taken := s.replaceSnapshot path (current.map fun (_, symbol) => .ofSymbol symbol)
  match s.snapshot? path with
  | none => (taken, ⟨path, true, []⟩)
  | some previous => (taken, ⟨path, false, changesBetween previous current⟩)

end CodeIndex
