import BrowserScript.CommandLine.Execute
import BrowserScript.CommandLine.Host
import Std.Time.Format
import Std.Time.Zoned

/-!
The program on the machine where it runs. There is no network here: no browser can be reached.
-/

namespace BrowserScript.CommandLine

/-- An effect whose failure is an error of the state. -/
def tried (a : IO α) : IO (Except Store.Error α) := do
  try return .ok (← a)
  catch e => return .error (.io (toString e))

def onDisk : (r : Store.File.Request) → IO (Except Store.Error r.Result)
  | .makeFolder path => tried ((Store.File.folderOf? path).elim (return) (IO.FS.createDirAll ·))
  | .read path => tried do
    try return some (← IO.FS.readFile path)
    catch
      | .noFileOrDirectory .. => return none
      | e => throw e
  | .write path text => tried (IO.FS.writeFile path text)
  | .rename source target => tried (IO.FS.rename source target)

/-- Sixteen bytes as a random identity of the fourth version. -/
def identityOf (bytes : List UInt8) : String :=
  let fixed := bytes.zipIdx.map fun (b, i) =>
    if i = 6 then b % 16 + 64 else if i = 8 then b % 64 + 128 else b
  let digits := fixed.flatMap fun b =>
    [Nat.digitChar (b.toNat / 16), Nat.digitChar (b.toNat % 16)]
  let part (start length : Nat) : String := String.ofList ((digits.drop start).take length)
  "-".intercalate [part 0 8, part 8 4, part 12 4, part 16 4, part 20 12]

def onTerminal : (r : Console.Request) → IO r.Result
  | .print text => do
    let out ← IO.getStdout
    out.putStr text
    out.flush
  | .log severity text => IO.eprintln (severity.word ++ " " ++ text)
  | .identity => return identityOf (← IO.getRandomBytes 16).toList
  | .time => return (Std.Time.DateTime.ofTimestamp (← Std.Time.Timestamp.now)
      Std.Time.TimeZone.ZoneRules.UTC).toISO8601String
  | .valueOf name => IO.getEnv name

def unreachable : String := "error sending request"

def offline : (r : DevTools.Network.Request) → Option r.Result
  | .fetch .. | .connect _ | .send .. => some (.error unreachable)
  | .receive _ => none

def machineHost : Host IO where
  network _ r := return offline r
  arrival _ := return none
  file := onDisk
  console := onTerminal
  pass now later := IO.sleep (later - now).toUInt32

end BrowserScript.CommandLine

open BrowserScript CommandLine in
def main (words : List String) : IO UInt32 := do
  let home := (← IO.getEnv "HOME").getD "."
  let machine : Tasks.Machine CommandLine.signature Job Exit := {}
  let ((exits, _), _) ← (machine.run machineHost.scene [program words home]).run {}
  let exit := exits.head?.join.getD .misuse
  match exit with
  | .success => pure ()
  | .failure fault => IO.eprintln fault.toText
  | .misuse => IO.eprintln (grammar.usage [])
  return exit.code.toUInt32
