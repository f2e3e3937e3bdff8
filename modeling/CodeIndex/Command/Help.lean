import CodeIndex.Command.Arguments

/-!
# Help on commands

What is printed when help is asked for: what the command is for, a line that shows how it is called,
and a section each for the commands, the arguments by place and the options. The explanations of a
section stand below each other, two blanks after the longest of its labels.
-/

namespace CodeIndex.CommandLine

/-! ## §1. Labels. -/

/-- The name of the program. -/
def programName : String := "vigil"

/-- What the program is for. -/
def programAbout : String := "Incremental code index and session memory for coding agents"

/-- The name of the value of an argument. -/
def Argument.valueName (a : Argument) : String := a.name.toUpper

/-- An argument by its place: in angle brackets if it must be given, else in square ones. -/
def Argument.placeLabel (a : Argument) (isRequired : Bool) : String :=
  (if isRequired then "<" ++ a.valueName ++ ">" else "[" ++ a.valueName ++ "]")
    ++ (if a.repeats then "..." else "")

/-- An option with its letter and its value. Options without a letter leave room for one. -/
def Argument.optionLabel (a : Argument) : String :=
  (match a.short with
    | some c => "-" ++ c.toString ++ ", "
    | none => "    ")
    ++ "--" ++ a.name ++ (if a.takesValue then " <" ++ a.valueName ++ ">" else "")

/-- What an argument is for, and its default. -/
def Argument.explanation (a : Argument) : String :=
  match a.form with
  | .number default =>
    (if a.about.isEmpty then "" else a.about ++ " ") ++ "[default: " ++ toString default ++ "]"
  | _ => a.about

/-! ## §2. Sections. -/

/-- A line of a section: what is explained, and the explanation. -/
structure HelpLine where
  label : String
  explanation : String

/-- The places of a command, those that must be given first. -/
def placeLines (places : List Argument) (required : Nat) : List HelpLine :=
  (places.take required).map (fun a => ⟨a.placeLabel true, a.explanation⟩)
    ++ (places.drop required).map fun a => ⟨a.placeLabel false, a.explanation⟩

/-- The lines of some options. -/
def optionLines (options : List Argument) : List HelpLine :=
  options.map fun a => ⟨a.optionLabel, a.explanation⟩

/-- The lines of some commands. -/
def commandLines (topics : List Topic) : List HelpLine :=
  topics.map fun e => ⟨e.name, e.about⟩

/-- A line whose label is given the room of `width` characters. -/
def HelpLine.render (width : Nat) (l : HelpLine) : String :=
  "  " ++ l.label ++ String.ofList (List.replicate (width - l.label.length + 2) ' ') ++ l.explanation

/-- A section with its heading; nothing if it has no lines. -/
def renderSection (heading : String) (lines : List HelpLine) : List String :=
  if lines.isEmpty then []
  else
    let width := (lines.map (·.label.length)).foldl max 0
    [heading ++ ":\n" ++ String.intercalate "\n" (lines.map (HelpLine.render width))]

/-! ## §3. Texts. -/

/-- A text of help: what for, how to call it, and sections, with a blank line between them. -/
def helpText (about usage : String) (sections : List String) : String :=
  String.intercalate "\n\n" (about :: ("Usage: " ++ programName ++ usage) :: sections) ++ "\n"

/-- The help on the program. -/
def programHelp : String :=
  helpText programAbout " [OPTIONS] <COMMAND>"
    (renderSection "Commands" (commandLines (commands ++ [helpTopic]))
      ++ renderSection "Options" (optionLines program.options))

/-- The help on a command with some options in all. -/
def Topic.help (e : Topic) (options : List Argument) : String :=
  let places := placeLines e.places e.required
  helpText e.about
    (" " ++ e.name ++ (if options.isEmpty then "" else " [OPTIONS]")
      ++ String.join (places.map fun l => " " ++ l.label))
    (renderSection "Arguments" places ++ renderSection "Options" (optionLines options))

/-- The help on a command, or on the program. -/
def helpOn : Option String → String
  | none => programHelp
  | some name =>
    match commands.find? (·.name == name) with
    | some e => e.help e.grammar.options
    | none => helpTopic.help []

end CodeIndex.CommandLine
