import CodeIndex.Config
import CodeIndex.Selection.GlobSet
import CodeIndex.Source.Language

/-!
# What is indexed

Three sets of globs decide about a path: one for what is never indexed, one for source files and
one for documents, asked in this order. A path that somebody names is indexed in any case, and then
only its class is in question.
-/

namespace CodeIndex

/-- How a file is indexed: by its declarations, or by chunks of its text. -/
inductive FileClass where
  | code
  | doc
  deriving DecidableEq, Repr

/-- The word for a class of files. -/
def FileClass.name : FileClass → String
  | .code => "code"
  | .doc => "doc"

instance : Vocabulary FileClass where
  what := "file class"
  all := [.code, .doc]
  name := FileClass.name

/-- Whether one of the globs matches a path. -/
def anyGlob (globs : List Glob) (path : String) : Bool := globs.any (·.selects path)

/-- The globs that decide about paths. -/
structure FileFilter where
  code : List Glob
  docs : List Glob
  ignore : List Glob

namespace FileFilter

/-- The filter of a configuration. -/
def ofConfig (c : Config) : Except Glob.Fault FileFilter := do
  return ⟨← Glob.readAll c.allCodeGlobs, ← Glob.readAll c.docGlobs, ← Glob.readAll c.ignoreGlobs⟩

/-- Whether a path is never indexed. -/
def ignores (f : FileFilter) (path : String) : Bool := anyGlob f.ignore path

/-- Whether nothing below a directory is looked at, told by the fate of one path in it. -/
def prunes (f : FileFilter) (dir : String) : Bool := f.ignores (dir ++ "/_")

/-- The class under which a path is indexed; a path that could be both is a source file. -/
def classify? (f : FileFilter) (path : String) : Option FileClass :=
  if f.ignores path then none
  else if anyGlob f.code path then some .code
  else if anyGlob f.docs path then some .doc
  else none

/-- The class of a path that is indexed whether or not a glob selects it. -/
def classOf (f : FileFilter) (path : String) : FileClass :=
  match f.classify? path with
  | some c => c
  | none => if (Language.ofPath path).isSource then .code else .doc

end FileFilter

end CodeIndex
