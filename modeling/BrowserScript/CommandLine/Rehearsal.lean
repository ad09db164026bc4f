import BrowserScript.CommandLine.Execute
import BrowserScript.CommandLine.Host
import BrowserScript.DevTools.Rehearsal

/-!
A world outside the program that plays a script: a rehearsed browser, files in memory, and a
console that keeps what it is given.
-/

namespace BrowserScript.CommandLine

structure Rehearsal where
  browser : DevTools.Rehearsal
  files : Store.File.Files := []
  environment : Environment := []
  printed : String := ""
  /-- The lines of the log, the latest first. -/
  logged : List (Severity × String) := []

namespace Rehearsal

/-- Every new identity is the same. -/
def identity : String := "<id>"

/-- A path from the folder where the program runs. -/
def near (path : String) : String :=
  match path.toList with
  | '.' :: '/' :: rest => String.ofList rest
  | _ => path

def nearFile : (r : Store.File.Request) → StateM Store.File.Files (Except Store.Error r.Result)
  | .makeFolder path => Store.File.perform (.makeFolder (near path))
  | .read path => Store.File.perform (.read (near path))
  | .write path text => Store.File.perform (.write (near path) text)
  | .rename source target => Store.File.perform (.rename (near source) (near target))

def console : (r : Console.Request) → StateM Rehearsal r.Result
  | .print text => modify fun o => { o with printed := o.printed ++ text }
  | .log severity text => modify fun o => { o with logged := (severity, text) :: o.logged }
  | .identity => return identity
  | .time => return ""
  | .valueOf name => return (← get).environment.get? name

def host : Host (StateM Rehearsal) where
  network now r := modifyGet fun o =>
    match o.browser.serve? now r with
    | some (a, browser) => (some a, { o with browser })
    | none => (none, o)
  arrival connection := return (← get).browser.due connection
  file r := modifyGet fun o =>
    let (a, files) := (nearFile r).run o.files
    (a, { o with files })
  console := console
  pass _ _ := return

/-- The scene of what runs in a rehearsal. -/
def scene : Tasks.Scene signature Job (StateT Office (StateM Rehearsal)) := host.scene

/-- Play the whole program in the folder where the files are. One that waits for ever has no end. -/
def play (r : Rehearsal) (words : List String) : Option Exit × Rehearsal :=
  let machine : Tasks.Machine signature Job Exit := {}
  let (((exits, _), _), r) := (machine.run scene [program words "."] {}).run r
  (exits.head?.join, r)

end Rehearsal

end BrowserScript.CommandLine
