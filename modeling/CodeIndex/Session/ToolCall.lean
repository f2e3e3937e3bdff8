import CodeIndex.Json.Decode
import CodeIndex.Text.Blank

/-!
# Tool calls

A call that an agent made, with its arguments and its result. What the call was about is read from
them: the file and the symbol of a lookup, the query of a search. Texts are trimmed, and a blank one
counts as not given.
-/

namespace CodeIndex

/-- A call of a tool. -/
structure ToolCall where
  tool : String
  args : Json
  result : Json
  isError : Bool

/-- What a tool does. -/
inductive ToolKind where
  /-- It reads one file or symbol. -/
  | lookup
  /-- It searches the index. -/
  | search
  /-- Anything else. -/
  | other
  deriving DecidableEq, Repr

/-- The word for what a tool does. -/
def ToolKind.name : ToolKind → String
  | .lookup => "lookup"
  | .search => "search"
  | .other => "other"

/-- What a tool does, told by its name. -/
def ToolKind.ofTool (tool : String) : ToolKind :=
  if ["get_symbol", "get_file_outline", "get_dependencies", "get_imported_by",
      "read_file"].contains tool then .lookup
  else if ["search", "search_symbols", "search_docs"].contains tool then .search
  else .other

namespace ToolCall

/-! ## §1. Calls as data. -/

/-- Any value. -/
def anyValue? (v : Json) : Option Json := some v

/-- The call that a value gives. -/
def ofJson? (v : Json) : Option ToolCall := do
  match ← v.record? ["tool", "args", "result", "is_error"] with
  | [tool, args, result, isError] =>
    return ⟨← Json.required? Json.asStr? tool, ← Json.orElse? anyValue? .null args,
      ← Json.orElse? anyValue? .null result, ← Json.orElse? Json.bool? false isError⟩
  | _ => none

/-- A call as a value. -/
def toJson (c : ToolCall) : Json :=
  .obj [("tool", .str c.tool), ("args", c.args), ("result", c.result), ("is_error", .bool c.isError)]

/-! ## §2. What a call was about. -/

/-- What the tool does. -/
def kind (c : ToolCall) : ToolKind := ToolKind.ofTool c.tool

/-- The first of the named members that is a text with more than blanks in it, trimmed. -/
def textAt? (names : List String) (v : Json) : Option String :=
  names.findSome? fun name =>
    match (v.member? name).bind Json.asStr? with
    | some s =>
      let trimmed := Text.trim s.toList
      if trimmed.isEmpty then none else some (String.ofList trimmed)
    | none => none

/-- The members that name a file. -/
def fileNames : List String := ["file", "path", "file_path"]

/-- The file that the arguments name. -/
def fileArg? (c : ToolCall) : Option String := textAt? fileNames c.args

/-- The file that the call was about: the one that the arguments name, else the one that the result
of a successful call names. -/
def targetFile? (c : ToolCall) : Option String :=
  match c.fileArg? with
  | some file => some file
  | none => if c.isError then none else textAt? fileNames c.result

/-- The symbol that the arguments name. -/
def symbolArg? (c : ToolCall) : Option String := textAt? ["symbol", "symbol_name", "name"] c.args

/-- The query that the arguments give. -/
def queryArg? (c : ToolCall) : Option String := textAt? ["query", "q"] c.args

/-! ## §3. Empty results. -/

/-- The members that hold what a lookup or search found. -/
def listNames : List String :=
  ["results", "matches", "symbols", "dependencies", "imported_by", "chunks", "items"]

mutual

/-- Whether a result holds nothing: it is absent, a blank text, an empty list or object, or an
object in which everything found is nothing. -/
def isVoid : Json → Bool
  | .null => true
  | .str s => Text.allBlank s.toList
  | .arr items => items.isEmpty
  | .obj members =>
    if members.any fun (name, _) => listNames.contains name then allVoid members
    else members.isEmpty
  | .bool _ => false
  | .num _ => false

/-- Whether all members that hold what was found hold nothing. -/
def allVoid : List (String × Json) → Bool
  | [] => true
  | (name, v) :: rest => (!listNames.contains name || isVoid v) && allVoid rest

end

/-- Whether the call found nothing. -/
def foundNothing (c : ToolCall) : Bool := isVoid c.result

end ToolCall

end CodeIndex
