import CodeIndex.Json.Decode
import CodeIndex.Json.Reader

/-!
# Configuration

What is indexed, how documents are cut, and at which counts a pattern of work is reported. Every
setting has a default. A configuration file gives some of them; the first file among the candidates
that can be read counts, and one that cannot be read is as good as absent.
-/

namespace CodeIndex

/-! ## §1. Settings. -/

/-- The counts at which patterns of unproductive work are reported. -/
structure Thresholds where
  /-- Accesses to one subject. -/
  redundantAccess : UInt32
  /-- Attempts of one search without a result. -/
  failedSearch : UInt32
  /-- Failures of one tool on one file. -/
  toolError : UInt32
  /-- Changes of and accesses to one file within the window. -/
  thrashEvents : UInt32
  /-- The length of that window in seconds. -/
  thrashWindow : Int
  deriving DecidableEq, Repr

/-- The thresholds that hold where none are given. -/
def Thresholds.default : Thresholds := ⟨5, 3, 3, 4, 300⟩

/-- The settings of an index. -/
structure Config where
  /-- The source files of each language, by name of the language in order. -/
  codeGlobs : List (String × List String)
  /-- The documents. -/
  docGlobs : List String
  /-- What is never indexed. -/
  ignoreGlobs : List String
  /-- The lines in a chunk of a document that is not Markdown. -/
  chunkLines : Nat
  /-- The size past which a file is reported and not read. -/
  maxFileBytes : Nat
  thresholds : Thresholds
  deriving DecidableEq, Repr

/-- Files anywhere below the root with one of the given extensions. -/
def anywhere (extensions : List String) : List String := extensions.map ("**/*." ++ ·)

/-- The settings that hold where none are given. -/
def Config.default : Config where
  codeGlobs :=
    [("c", anywhere ["c", "h"]),
     ("cpp", anywhere ["cpp", "cc", "cxx", "hpp"]),
     ("go", anywhere ["go"]),
     ("java", anywhere ["java"]),
     ("javascript", anywhere ["js", "jsx", "mjs", "cjs"]),
     ("python", anywhere ["py"]),
     ("rust", anywhere ["rs"]),
     ("typescript", anywhere ["ts", "tsx", "mts", "cts"])]
  docGlobs := anywhere ["md", "mdx", "txt", "rst", "json", "yaml", "yml", "toml"]
  ignoreGlobs :=
    [".git", ".hg", ".svn", ".vigil", "node_modules", "bower_components", "dist", "build", "out",
     "coverage", ".next", "target", "__pycache__", ".venv", "venv", ".tox", "vendor"].map
        (fun dir => "**/" ++ dir ++ "/**")
      ++ ["*.min.js", "*.map", "package-lock.json", "yarn.lock", "pnpm-lock.yaml",
          "Cargo.lock"].map ("**/" ++ ·)
  chunkLines := 40
  maxFileBytes := 1024 * 1024
  thresholds := Thresholds.default

/-- All globs for source files. -/
def Config.allCodeGlobs (c : Config) : List String := c.codeGlobs.flatMap (·.2)

/-! ## §2. Settings as data. -/

/-- The fields of the thresholds, in order. -/
def Thresholds.fields : List String :=
  ["redundant_access_count", "failed_search_attempts", "tool_error_count", "thrash_event_count",
   "thrash_window_secs"]

/-- A count of 32 bits. -/
def Json.count? (v : Json) : Option UInt32 := (Json.unsigned? 32 v).map UInt32.ofNat

/-- The thresholds that a value gives. -/
def Thresholds.ofJson? (v : Json) : Option Thresholds := do
  let d := Thresholds.default
  match ← v.record? fields with
  | [a, b, c, e, w] =>
    return ⟨← Json.orElse? Json.count? d.redundantAccess a,
      ← Json.orElse? Json.count? d.failedSearch b,
      ← Json.orElse? Json.count? d.toolError c,
      ← Json.orElse? Json.count? d.thrashEvents e,
      ← Json.orElse? Json.signed? d.thrashWindow w⟩
  | _ => none

/-- The thresholds as a value, fields in order. -/
def Thresholds.toJson (t : Thresholds) : Json :=
  .obj [("redundant_access_count", .nat t.redundantAccess),
    ("failed_search_attempts", .nat t.failedSearch),
    ("tool_error_count", .nat t.toolError),
    ("thrash_event_count", .nat t.thrashEvents),
    ("thrash_window_secs", .int t.thrashWindow)]

/-- The fields of the settings, in order. -/
def Config.fields : List String :=
  ["code_globs", "doc_globs", "ignore_patterns", "doc_chunk_lines", "max_file_bytes", "patterns"]

/-- A list of texts. -/
def Json.strings? : Json → Option (List String) := Json.list? Json.asStr?

/-- Put an entry in its place among entries sorted by name; one with the same name gives way. -/
def insertSorted (name : String) (value : α) : List (String × α) → List (String × α)
  | [] => [(name, value)]
  | (other, old) :: rest =>
    if name < other then (name, value) :: (other, old) :: rest
    else if name = other then (name, value) :: rest
    else (other, old) :: insertSorted name value rest

/-- Lists of texts by name, sorted. -/
def Json.stringTable? : Json → Option (List (String × List String))
  | .obj members =>
    members.foldlM (fun acc (name, v) => do return insertSorted name (← v.strings?) acc) []
  | _ => none

/-- The settings that a value gives. -/
def Config.ofJson? (v : Json) : Option Config := do
  let d := Config.default
  match ← v.record? fields with
  | [code, docs, ignore, lines, size, patterns] =>
    return ⟨← Json.orElse? Json.stringTable? d.codeGlobs code,
      ← Json.orElse? Json.strings? d.docGlobs docs,
      ← Json.orElse? Json.strings? d.ignoreGlobs ignore,
      ← Json.orElse? (Json.unsigned? 64) d.chunkLines lines,
      ← Json.orElse? (Json.unsigned? 64) d.maxFileBytes size,
      ← Json.orElse? Thresholds.ofJson? d.thresholds patterns⟩
  | _ => none

/-- The settings as a value, fields in order, as a configuration file has them. -/
def Config.toJson (c : Config) : Json :=
  .obj [("code_globs", .obj (c.codeGlobs.map fun (name, globs) => (name, .list .str globs))),
    ("doc_globs", .list .str c.docGlobs),
    ("ignore_patterns", .list .str c.ignoreGlobs),
    ("doc_chunk_lines", .nat c.chunkLines),
    ("max_file_bytes", .nat c.maxFileBytes),
    ("patterns", c.thresholds.toJson)]

/-! ## §3. Configuration files. -/

/-- The members of an object that have one of the given names. A name that cannot be read stays, so
that it is refused with the rest. -/
def Json.Written.keepMembers (names : List String) : Json.Written → Json.Written
  | .object members =>
    .object (members.filter fun (name, _) =>
      match Json.Written.text? name with
      | some name => names.contains name
      | none => true)
  | w => w

/-- What is written, without the members that no setting has. -/
def Config.keepSettings (w : Json.Written) : Json.Written :=
  match w.keepMembers Config.fields with
  | .object members =>
    .object (members.map fun (name, v) =>
      if Json.Written.text? name == some "patterns" then (name, v.keepMembers Thresholds.fields)
      else (name, v))
  | .list items =>
    .list (items.zipIdx.map fun (v, i) =>
      if i = 5 then v.keepMembers Thresholds.fields else v)
  | w => w

/-- The settings that the text of a file gives. -/
def Config.read? (text : List Char) : Option Config := do
  (← (keepSettings (← Json.Written.read? text)).value?) |> Config.ofJson?

/-- The settings of the first candidate that can be read, else the defaults. A candidate is the text
of a file, `none` where there is no file or its bytes are no text. -/
def Config.load (candidates : List (Option (List Char))) : Config :=
  (candidates.findSome? fun text => text.bind Config.read?).getD Config.default

end CodeIndex
