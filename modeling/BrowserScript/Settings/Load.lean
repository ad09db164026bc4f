import BrowserScript.Settings.Basic
import BrowserScript.Toml.Reader

/-!
Settings from TOML texts. References to variables are looked up in the order of the text, and each
is replaced wherever it then stands, also in what replaced an earlier one.
-/

namespace BrowserScript

/-- Variables with their values; the first of a name counts. -/
abbrev Environment := List (String × String)

namespace Environment

def get? (env : Environment) (name : String) : Option String :=
  (env.find? (·.1 == name)).map (·.2)

/-- The name of the reference whose opening is already read, and what follows it. -/
def name? (cs : List Char) : Option (List Char × List Char) :=
  match cs.takeWhile (· != '\x7d'), cs.dropWhile (· != '\x7d') with
  | [], _ => none
  | _, [] => none
  | name, _ :: rest => some (name, rest)

/-- The names of the references in a text, from the left, none inside another. `skip` characters
of one are still to be passed over. -/
def namesFrom (skip : Nat) : List Char → List (List Char)
  | [] => []
  | c :: cs =>
    match skip with
    | n + 1 => namesFrom n cs
    | 0 =>
      match c, cs with
      | '$', '\x7b' :: r =>
        match name? r with
        | some (name, _) => name :: namesFrom (name.length + 2) cs
        | none => namesFrom 0 cs
      | _, _ => namesFrom 0 cs

def names (cs : List Char) : List (List Char) := namesFrom 0 cs

def reference (name : List Char) : List Char := "$\x7b".toList ++ name ++ ['\x7d']

/-- A text with its references replaced. -/
def expand (env : Environment) (text : String) : Except Settings.Error String := do
  let expanded ← (names text.toList).foldlM (fun cs name =>
    match env.get? (String.ofList name) with
    | some v => .ok (Text.replaceAll (reference name) v.toList cs)
    | none => .error (.unsetVariable (String.ofList name))) text.toList
  return String.ofList expanded

end Environment

namespace Settings

/-- A path whose tilde in front stands for the home directory. -/
def expandHome (home path : String) : String :=
  match path.toList with
  | ['~'] => home
  | '~' :: '/' :: rest => home ++ String.ofList ('/' :: rest)
  | _ => path

/-- Where settings are looked for. -/
def defaultPath (home : String) : String :=
  home ++ (if Text.endsWith home "/" then "" else "/") ++ ".herbie/config.toml"

def parse (env : Environment) (text : String) : Except Error Settings := do
  let expanded ← env.expand text
  match (Toml.parse? expanded).bind fun v => ofJson? v.toJson with
  | some s => .ok s
  | none => .error .notToml

/-- Settings from the text of a file, if there is one. -/
def load (env : Environment) (path : String) (text : Option String) : Except Error Settings :=
  match text with
  | none => .error (.notFound path)
  | some text =>
    match parse env text with
    | .error .notToml => .error (.invalidFormat path)
    | found => found

/-- A file that is missing leaves all at its default. -/
def loadOrDefault (env : Environment) (path : String) (text : Option String) :
    Except Error Settings :=
  match load env path text with
  | .error (.notFound _) => .ok {}
  | found => found

end Settings

end BrowserScript
