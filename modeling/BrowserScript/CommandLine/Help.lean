import BrowserScript.CommandLine.Arguments

/-!
Help pages: what a command does, how it is written, and what may follow it. Options stand in the
order of their levels. Where a description does not fit into a line beside a wide option, all
descriptions of the list stand on lines of their own.
-/

namespace BrowserScript.CommandLine

def programName : String := "herbie"

/-- The word for the value of an option. -/
def Flag.valueWord (f : Flag) : String :=
  String.ofList (f.name.toList.map fun c => if c = '-' then '_' else c.toUpper)

/-- What is said about an option besides its description. -/
def Flag.remarks (env : Environment) (f : Flag) : List String :=
  let fallback := f.fallback.map fun name =>
    "[env: " ++ name ++ "=" ++ (env.get? name).getD "" ++ "]"
  let default := f.default.map fun value =>
    "[default: " ++ (if value.contains ' ' then "\"" ++ value ++ "\"" else value) ++ "]"
  [fallback, default].filterMap id

/-- An entry of a list: a term, what stands before it, and what it means. -/
structure Entry where
  term : String
  lead : String := ""
  about : String
deriving DecidableEq, Repr

/-- The room before a long option, which its letter may fill. -/
def letterRoom : Option Char → String
  | some c => String.ofList ['-', c, ',', ' ']
  | none => "    "

def Flag.entry (env : Environment) (f : Flag) : Entry where
  term := "--" ++ f.name ++ " <" ++ f.valueWord ++ ">"
  lead := letterRoom f.letter
  about := " ".intercalate ((f.about :: f.remarks env).filter (· != ""))

/-- Where an option stands in the list: by its place on its level, then by letter or name. -/
def Flag.key (place : Nat) (f : Flag) : Nat × String :=
  (place, (f.letter.map fun c => String.ofList [c]).getD f.name)

/-- The options of a level and those that may stand everywhere. -/
def Level.sortedOptions (l : Level) : List Flag :=
  let keyed (fs : List Flag) : List ((Nat × String) × Flag) :=
    fs.zipIdx.map fun (f, place) => (f.key place, f)
  ((keyed everywhere ++ keyed l.options).mergeSort fun ((i, s), _) ((j, t), _) =>
    i < j || i == j && s ≤ t).map (·.2)

def lineWidth : Nat := 100

/-- Whether a description is too long for the line when the terms take so much room. -/
def Entry.overflows (room : Nat) (e : Entry) : Bool :=
  40 * lineWidth < 100 * room && lineWidth - room < e.about.length

def blanks (n : Nat) : String := String.ofList (List.replicate n ' ')

/-- The lines of a list. -/
def listing (title : String) (entries : List Entry) : List String :=
  let widest := (entries.map (·.term.length)).foldl max 2
  let apart := entries.any (·.overflows (widest + 12))
  (title ++ ":") :: entries.flatMap fun e =>
    if apart then [blanks 2 ++ e.lead ++ e.term, blanks 10 ++ e.about]
    else [blanks 2 ++ e.lead ++ e.term ++ blanks (widest + 2 - e.term.length) ++ e.about]

namespace Level

def commandEntries (l : Level) : List Entry :=
  l.commands.map (fun (name, below) => { term := name, about := below.about })
    ++ [{ term := "help", about := "Print this message or the help of the given subcommand(s)" }]

/-- The options, with those that print the help and the version. -/
def optionEntries (l : Level) (env : Environment) (versioned : Bool) : List Entry :=
  l.sortedOptions.map (·.entry env)
    ++ [{ term := "--help", lead := letterRoom (some 'h'), about := "Print help" }]
    ++ if versioned then
        [{ term := "--version", lead := letterRoom (some 'V'), about := "Print version" }]
      else []

def pathEntries (l : Level) : List Entry :=
  l.paths.map fun (name, about) => { term := "<" ++ name ++ ">", about }

/-- How a command with a path is written. -/
def usage (l : Level) (path : List String) : String :=
  " ".intercalate <| ["Usage:", programName] ++ path ++ ["[OPTIONS]"]
    ++ l.pathEntries.map (·.term) ++ if l.commands.isEmpty then [] else ["<COMMAND>"]

/-- The help page of a command with a path. -/
def page (l : Level) (env : Environment) (path : List String) : String :=
  let lists := [
    if l.commands.isEmpty then [] else "" :: listing "Commands" l.commandEntries,
    if l.paths.isEmpty then [] else "" :: listing "Arguments" l.pathEntries,
    "" :: listing "Options" (l.optionEntries env path.isEmpty)]
  "\n".intercalate ([l.about, "", l.usage path] ++ lists.flatten)

/-- The command that a path leads to. -/
def below? (l : Level) : List String → Option Level
  | [] => some l
  | name :: path => (l.command? name).bind (below? · path)

end Level

/-- The help page of the command with a path, or of the program. -/
def helpPage (env : Environment) (path : List String) : String :=
  match grammar.below? path with
  | some level => level.page env path
  | none => grammar.page env []

end BrowserScript.CommandLine
