import CodeIndex.Json.Value
import CodeIndex.Text.Search
import CodeIndex.Word

/-!
# Command lines

How the words of a command line are read. A word that starts with a dash is an option, by a long name
after two dashes or by letters after one; what an option takes is attached to it or is the next word.
After a lone `--` every word is an argument by its place. Options and other arguments mix freely.

A value is looked at when the next argument begins, or at the end of the line. This decides which of
two faults of a line is the one reported.
-/

namespace CodeIndex.CommandLine

/-! ## §1. Arguments. -/

/-- What an argument takes. -/
inductive Form where
  /-- Nothing; it is given or it is not. -/
  | flag
  /-- Nothing; it asks for help on a command, or on the program. -/
  | help (topic : Option String)
  /-- Nothing; it asks for the version. -/
  | version
  /-- A text. -/
  | text
  /-- A text that is not empty. -/
  | path
  /-- A number, which has a default. -/
  | number (default : Nat)
  deriving DecidableEq, Repr

/-- An argument of a command. -/
structure Argument where
  /-- Its name, which is its long option if it has one. -/
  name : String
  short : Option Char
  form : Form
  /-- Whether it may be given more than once. -/
  repeats : Bool
  /-- What it is for. -/
  about : String
  deriving DecidableEq, Repr

/-- Whether a value is part of an argument. -/
def Form.takesValue : Form → Bool
  | .text | .path | .number _ => true
  | .flag | .help _ | .version => false

/-- Whether a value is part of the argument. -/
def Argument.takesValue (a : Argument) : Bool := a.form.takesValue

/-- A command: its options, and its arguments by place, those that must be given first. -/
structure Grammar where
  options : List Argument
  places : List Argument
  /-- How many of the arguments by place must be given. -/
  required : Nat
  /-- The commands below it. -/
  commands : List String

/-- Why a command line is not read to a command. -/
inductive Refusal where
  | helpOnMissing
  | missingSubcommand
  | invalidSubcommand
  | unknownArgument
  | missingRequired
  | invalidValue
  | valueValidation
  | conflict
  | tooManyValues
  /-- Help is asked for, on a command or on the program. -/
  | displayHelp (topic : Option String)
  | displayVersion
  deriving DecidableEq, Repr

/-- The word for why a command line is not read. -/
def Refusal.name : Refusal → String
  | .helpOnMissing => "DisplayHelpOnMissingArgumentOrSubcommand"
  | .missingSubcommand => "MissingSubcommand"
  | .invalidSubcommand => "InvalidSubcommand"
  | .unknownArgument => "UnknownArgument"
  | .missingRequired => "MissingRequiredArgument"
  | .invalidValue => "InvalidValue"
  | .valueValidation => "ValueValidation"
  | .conflict => "ArgumentConflict"
  | .tooManyValues => "TooManyValues"
  | .displayHelp _ => "DisplayHelp"
  | .displayVersion => "DisplayVersion"

/-! ## §2. Values. -/

/-- The value of a digit. -/
def digit? (c : Char) : Option Nat := if '0' ≤ c && c ≤ '9' then some (c.toNat - 48) else none

/-- The number that digits write. -/
def digits? (cs : List Char) : Option Nat :=
  if cs.isEmpty then none
  else cs.foldlM (fun acc c => (digit? c).map fun d => (acc * 10 + d : Nat)) 0

/-- The number that a text writes, with or without a plus sign, if it is below two to the 64th. -/
def number? (s : String) : Option Nat :=
  let n := match s.toList with
    | '+' :: rest => digits? rest
    | cs => digits? cs
  n.bind fun n => if n < unsignedEnd then some n else none

/-- Whether a value is one that the argument takes. -/
def Argument.check (a : Argument) (value : String) : Except Refusal Unit :=
  match a.form with
  | .number _ => if (number? value).isSome then .ok () else .error .valueValidation
  | .path => if value.isEmpty then .error .invalidValue else .ok ()
  | _ => .ok ()

/-! ## §3. Reading. -/

/-- A line being read: the arguments found, with their values; the argument that is not yet settled,
with the values read for it; whether that argument waits for a value; and what holds of the words to
come. -/
structure Reading where
  found : List (String × List String)
  pending : Option (Argument × List String)
  waiting : Bool
  /-- Whether a lone `--` has been read. -/
  onlyPlaces : Bool
  /-- The arguments by place that are still to come. -/
  places : List Argument

namespace Reading

/-- Nothing read of a line with the given arguments by place. -/
def start (places : List Argument) : Reading := ⟨[], none, false, false, places⟩

/-- The values of an argument. -/
def values (r : Reading) (name : String) : List String :=
  (r.found.filter (·.1 == name)).flatMap (·.2)

/-- Whether an argument was found. -/
def has (r : Reading) (name : String) : Bool := r.found.any (·.1 == name)

/-- Take an argument with its values as found. -/
def record (r : Reading) (a : Argument) (values : List String) : Except Refusal Reading := do
  match a.form with
  | .help topic => throw (.displayHelp topic)
  | .version => throw .displayVersion
  | _ =>
    if a.takesValue && values.isEmpty then throw .invalidValue
    if !a.repeats && r.has a.name then throw .conflict
    values.forM a.check
    return { r with found := r.found ++ [(a.name, values)] }

/-- Settle the argument that is not yet settled. -/
def settle (r : Reading) : Except Refusal Reading :=
  match r.pending with
  | some (a, values) => { r with pending := none, waiting := false }.record a values
  | none => .ok r

/-- Take an option, with the value attached to it. -/
def option (r : Reading) (a : Argument) (attached : Option String) : Except Refusal Reading := do
  let r ← r.settle
  if a.takesValue then
    match attached with
    | some value => r.record a [value]
    | none => return { r with pending := some (a, []), waiting := true }
  else r.record a []

/-- Take a word as the value that is waited for. -/
def giveValue (r : Reading) (word : String) : Reading :=
  { r with pending := r.pending.map fun (a, values) => (a, values ++ [word]), waiting := false }

/-- Take a word as an argument by its place. `unplaced` is the complaint where there is none. -/
def place (r : Reading) (word : String) (unplaced : Refusal) : Except Refusal Reading :=
  match r.places with
  | [] => .error unplaced
  | a :: later =>
    match r.pending with
    | some (b, values) =>
      if a.repeats && b = a then .ok { r with pending := some (a, values ++ [word]) }
      else do
        let r ← r.settle
        return { r with pending := some (a, [word]), places := if a.repeats then r.places else later }
    | none =>
      .ok { r with pending := some (a, [word]), places := if a.repeats then r.places else later }

end Reading

/-- The option with a long name. -/
def Grammar.long? (g : Grammar) (name : String) : Option Argument :=
  g.options.find? (·.name == name)

/-- The option with a letter. -/
def Grammar.short? (g : Grammar) (letter : Char) : Option Argument :=
  g.options.find? (·.short == some letter)

/-- Take a word that starts with two dashes, given without them. -/
def Grammar.readLong (g : Grammar) (r : Reading) (word : List Char) : Except Refusal Reading :=
  let (name, attached) := match Text.cut? ['='] word with
    | some (name, value) => (name, some (String.ofList value))
    | none => (word, none)
  match g.long? (String.ofList name) with
  | some a =>
    if !a.takesValue && attached.isSome then .error .tooManyValues else r.option a attached
  | none => .error .unknownArgument

/-- Take the letters after one dash. What follows the letter of an option that takes a value is that
value, but for an equals sign in front of it. -/
def Grammar.readShort (g : Grammar) (r : Reading) : List Char → Except Refusal Reading
  | [] => .ok r
  | letter :: rest =>
    match g.short? letter with
    | some a =>
      if a.takesValue then
        let attached := match rest with
          | [] => none
          | '=' :: value => some value
          | value => some value
        r.option a (attached.map String.ofList)
      else do g.readShort (← r.option a none) rest
    | none => .error .unknownArgument

/-- The complaint about a word that has no place. -/
def Grammar.unplaced (g : Grammar) (r : Reading) (word : String) : Refusal :=
  if g.commands.isEmpty then .unknownArgument
  else if r.onlyPlaces && g.commands.contains word then .unknownArgument
  else .invalidSubcommand

/-- Read the words of a line up to the command in it, if there is one; the result has the name of the
command with the words after it. -/
def Grammar.read (g : Grammar) (r : Reading) :
    List String → Except Refusal (Reading × Option (String × List String))
  | [] => .ok (r, none)
  | word :: rest =>
    if r.onlyPlaces then do g.read (← r.place word (g.unplaced r word)) rest
    else if !r.waiting && g.commands.contains word then .ok (r, some (word, rest))
    else
      match word.toList with
      | ['-', '-'] => g.read { r with onlyPlaces := true } rest
      | '-' :: '-' :: name => do g.read (← g.readLong r name) rest
      | '-' :: letter :: letters => do g.read (← g.readShort r (letter :: letters)) rest
      | _ =>
        if r.waiting then g.read (r.giveValue word) rest
        else do g.read (← r.place word (g.unplaced r word)) rest

/-! ## §4. The commands of the program. -/

/-- What the program is asked to do. -/
inductive Command where
  /-- Set the project up; `force` replaces settings that are there. -/
  | init (force : Bool)
  /-- Index the project and resolve its imports. -/
  | index (force : Bool) (paths : List String)
  /-- Resolve the imports anew. -/
  | resolve
  /-- Report on the index and its most central files. -/
  | status (top : Nat)
  /-- Search symbols or documents. -/
  | search (query : String) (docs : Bool) (limit : Nat)
  /-- Report what a file imports and what imports it. -/
  | deps (path : String)
  /-- List, search or export what sessions observed. -/
  | observations (session : Option String) (all : Bool) (query : Option String) (toFile : Bool)
      (limit : Nat)
  /-- Keep the index current as files change. -/
  | watch
  /-- Print the version. -/
  | version
  deriving DecidableEq, Repr

/-- A command for a project. -/
structure Invocation where
  /-- The project root, where one is given. -/
  root : Option String
  command : Command
  deriving DecidableEq, Repr

/-- The option for the project root, which every command has. -/
def rootOption : Argument :=
  ⟨"root", none, .path, false, "Project root (defaults to the current directory)"⟩

/-- The option for help on a command, or on the program. -/
def helpOption (topic : Option String) : Argument :=
  ⟨"help", some 'h', .help topic, false, "Print help"⟩

/-- The option for the version. -/
def versionOption : Argument := ⟨"version", some 'V', .version, false, "Print version"⟩

/-- The option for the number of results. -/
def limitOption (default : Nat) : Argument := ⟨"limit", some 'l', .number default, false, ""⟩

/-- A command of the program: what it is for, and what is its own in its grammar. -/
structure Topic where
  name : String
  about : String
  options : List Argument
  places : List Argument
  required : Nat

/-- How many central files are listed where no number is given. -/
def defaultTop : Nat := 10

/-- How many hits are listed where no number is given. -/
def defaultHits : Nat := 20

/-- How many observations are listed where no number is given. -/
def defaultObservations : Nat := 50

/-- The commands. -/
def commands : List Topic :=
  [⟨"init", "Create the project data directory and a default config",
     [⟨"force", none, .flag, false, "Overwrite an existing config"⟩], [], 0⟩,
   ⟨"index", "Index the project, then resolve imports",
     [⟨"force", some 'f', .flag, false, "Re-parse files whose content hash is unchanged"⟩],
     [⟨"paths", none, .path, true, "Extra files or directories to index regardless of globs"⟩], 0⟩,
   ⟨"resolve", "Rebuild the import graph from the indexed files", [], [], 0⟩,
   ⟨"status", "Show index statistics and the most central files",
     [⟨"top", some 't', .number defaultTop, false, "Number of central files to list"⟩], [], 0⟩,
   ⟨"search", "Full-text search over symbols or document chunks",
     [⟨"docs", none, .flag, false, "Search documentation chunks instead of symbols"⟩,
      limitOption defaultHits],
     [⟨"query", none, .text, false, ""⟩], 1⟩,
   ⟨"deps", "Show what a file imports and what imports it", [],
     [⟨"path", none, .text, false, ""⟩], 1⟩,
   ⟨"observations", "List or search recorded observations",
     [⟨"session", some 's', .text, false, "Restrict to one session"⟩,
      ⟨"all", none, .flag, false, "Include stale observations"⟩,
      ⟨"query", some 'q', .text, false, "Full-text query over observation text"⟩,
      ⟨"export", none, .flag, false,
        "Write the session's events to a JSONL file instead of listing"⟩,
      limitOption defaultObservations], [], 0⟩,
   ⟨"watch", "Watch the project and re-index files as they change", [], [], 0⟩,
   ⟨"version", "Print version information", [], [], 0⟩]

/-- The command that lists the others. Its words are names of commands, not arguments. -/
def helpTopic : Topic :=
  ⟨"help", "Print this message or the help of the given subcommand(s)", [],
    [⟨"command", none, .text, true, "Print help for the subcommand(s)"⟩], 0⟩

/-- The program before its command. -/
def program : Grammar where
  options := [rootOption, helpOption none, versionOption]
  places := []
  required := 0
  commands := commands.map (·.name) ++ [helpTopic.name]

/-- The grammar of a command. -/
def Topic.grammar (e : Topic) : Grammar :=
  ⟨e.options ++ [rootOption, helpOption (some e.name)], e.places, e.required, []⟩

/-- The grammar of the command of a name. -/
def grammarOf (name : String) : Grammar :=
  match commands.find? (·.name == name) with
  | some e => e.grammar
  | none => ⟨[], [], 0, []⟩

/-- The only value of an argument. -/
def Reading.value? (r : Reading) (name : String) : Option String := (r.values name).head?

/-- The value of an argument that takes a number, else its default. -/
def Reading.number (r : Reading) (name : String) (default : Nat) : Nat :=
  ((r.value? name).bind number?).getD default

/-- The command that a line read to its end gives. -/
def Reading.command (r : Reading) (name : String) : Command :=
  match name with
  | "init" => .init (r.has "force")
  | "index" => .index (r.has "force") (r.values "paths")
  | "resolve" => .resolve
  | "status" => .status (r.number "top" defaultTop)
  | "search" => .search ((r.value? "query").getD "") (r.has "docs") (r.number "limit" defaultHits)
  | "deps" => .deps ((r.value? "path").getD "")
  | "observations" =>
    .observations (r.value? "session") (r.has "all") (r.value? "query") (r.has "export")
      (r.number "limit" defaultObservations)
  | "watch" => .watch
  | _ => .version

/-- Read the words after the command that lists the others. -/
def readHelp : List String → Refusal
  | [] => .displayHelp none
  | [name] => if program.commands.contains name then .displayHelp (some name) else .invalidSubcommand
  | _ => .invalidSubcommand

/-- Read the words after a command. -/
def readCommand (name : String) (words : List String) : Except Refusal Reading := do
  let g := grammarOf name
  let (r, _) ← g.read (Reading.start g.places) words
  let r ← r.settle
  if (g.places.take g.required).any fun a => !r.has a.name then throw .missingRequired
  return r

/-- Read a command line. A project root given after the command counts before one given in front of
it. -/
def parse (words : List String) : Except Refusal Invocation := do
  let (r, command) ← program.read (Reading.start program.places) words
  match command with
  | some (name, rest) =>
    if name == helpTopic.name then throw (readHelp rest)
    let inner ← readCommand name rest
    let outer ← r.settle
    return ⟨(inner.value? "root").or (outer.value? "root"), inner.command name⟩
  | none =>
    let r ← r.settle
    throw (if r.found.isEmpty then .helpOnMissing else .missingSubcommand)

/-! ## §5. Commands as data. -/

/-- A command as a value. -/
def Command.toJson : Command → Json
  | .init force => .obj [("name", .str "init"), ("force", .bool force)]
  | .index force paths =>
    .obj [("name", .str "index"), ("force", .bool force), ("paths", .list .str paths)]
  | .resolve => .obj [("name", .str "resolve")]
  | .status top => .obj [("name", .str "status"), ("top", .nat top)]
  | .search query docs limit =>
    .obj [("name", .str "search"), ("query", .str query), ("docs", .bool docs), ("limit", .nat limit)]
  | .deps path => .obj [("name", .str "deps"), ("path", .str path)]
  | .observations session all query toFile limit =>
    .obj [("name", .str "observations"), ("session", .opt .str session), ("all", .bool all),
      ("query", .opt .str query), ("export", .bool toFile), ("limit", .nat limit)]
  | .watch => .obj [("name", .str "watch")]
  | .version => .obj [("name", .str "version")]

/-- A command for a project as a value. -/
def Invocation.toJson (i : Invocation) : Json :=
  .obj [("root", .opt .str i.root), ("command", i.command.toJson)]

end CodeIndex.CommandLine
