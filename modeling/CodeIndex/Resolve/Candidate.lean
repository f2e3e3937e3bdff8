import CodeIndex.Path

/-!
# Where an import may lead

A relative import names a file by the way to it from the importing one, often without extension. The
files it may mean are tried in a fixed order: the path as written, the path with each extension, the
source that a name of compiled output stands for, and the entry files of a directory of that name.
-/

namespace CodeIndex.Resolve

/-- The extensions that are tried after the bare path, in order. -/
def extensions : List String :=
  [".ts", ".tsx", ".js", ".jsx", ".mjs", ".cjs", ".py", ".rs", ".go", ".java", ".h", ".hpp", ".c",
   ".cc", ".cpp"]

/-- The files of a directory that stand for it, in order. -/
def entryFiles : List String :=
  ["index.ts", "index.tsx", "index.js", "index.jsx", "__init__.py", "mod.rs"]

/-- The extensions of compiled output, each with those of the sources it may come from. -/
def compiled : List (String × List String) :=
  [(".js", [".ts", ".tsx"]), (".jsx", [".tsx"])]

/-! ## §1. Folding. -/

/-- Go one segment further from a place given by its segments, innermost first; `none` when that
leads above the root. -/
def step? (place : Path.Segments) (segment : List Char) : Option Path.Segments :=
  if segment = [] then some place
  else if segment = ['.'] then some place
  else if segment = ['.', '.'] then
    match place with
    | [] => none
    | _ :: outer => some outer
  else some (segment :: place)

/-- The place that segments lead to from the root. -/
def fold? (segments : Path.Segments) : Option Path.Segments :=
  (segments.foldlM step? []).map List.reverse

/-- The segments of the directory that a file is in. -/
def directory (path : String) : Path.Segments := (Path.segments path.toList).dropLast

/-- The segments of the path that a specifier means in the given file; `none` when it leads above
the root. -/
def target? (importer specifier : String) : Option Path.Segments :=
  fold? (directory importer ++ Path.segments specifier.toList)

/-! ## §2. Candidates. -/

/-- The paths that the given segments may stand for, in the order they are tried. -/
def spellings (segments : Path.Segments) : List (List Char) :=
  let path := Path.joinSegments segments
  let bare := if path.isEmpty then [] else path :: extensions.map (path ++ ·.toList)
  let sources := compiled.flatMap fun (extension, others) =>
    if extension.toList.isSuffixOf path then
      others.map (path.take (path.length - extension.toList.length) ++ ·.toList)
    else []
  let entries := entryFiles.map fun name => Path.joinSegments (segments ++ [name.toList])
  bare ++ sources ++ entries

/-- The project paths that a relative import may mean, in the order they are tried. -/
def candidates (importer specifier : String) : List String :=
  match target? importer specifier with
  | some segments =>
    ((spellings segments).filter (!·.isEmpty)).eraseDups.map String.ofList
  | none => []

end CodeIndex.Resolve
