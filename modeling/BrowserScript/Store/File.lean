import BrowserScript.Store.Basic

/-!
The state in one file. A new document is written beside its place and then moved there; every
change reads the whole document and puts a new one in its place.
-/

namespace BrowserScript.Store.File

/-- One step on the files of a directory. -/
inductive Request
  /-- Make the folder a file is to stand in. -/
  | makeFolder (path : String)
  | read (path : String)
  | write (path text : String)
  | rename (source target : String)

/-- There may be no file to read. -/
def Request.Result : Request → Type
  | .read _ => Option String
  | .makeFolder _ | .write .. | .rename .. => Unit

def signature : Signature := ⟨Request, fun r => Except Error r.Result⟩

abbrev Access (α : Type) : Type := ExceptT Error (Prog signature) α

def ask (r : Request) : Access r.Result := ExceptT.mk (Prog.request (S := signature) r)

def makeFolder (path : String) : Access Unit := ask (.makeFolder path)

def read (path : String) : Access (Option String) := ask (.read path)

def write (path text : String) : Access Unit := ask (.write path text)

def rename (source target : String) : Access Unit := ask (.rename source target)

/-- A file name without its extension. A dot at its beginning begins no extension. -/
def stem (name : List Char) : List Char :=
  match (name.reverse.dropWhile (· != '.')).drop 1 with
  | [] => name
  | before => before.reverse

/-- Where a new document is written before it takes its place. -/
def temporary (path : String) : String :=
  let reversed := path.toList.reverse
  let name := (reversed.takeWhile (· != '/')).reverse
  let folder := (reversed.dropWhile (· != '/')).reverse
  String.ofList (folder ++ stem name ++ ".json.tmp".toList)

def load (path : String) : Access State :=
  return ((← read path).map State.ofText).getD {}

def save (path : String) (s : State) : Access Unit := do
  write (temporary path) s.toText
  rename (temporary path) path

def update (path : String) (change : State → State) : Access Unit := do
  save path (change (← load path))

/-- Answer a request from the file at a path. -/
def serve (path : String) (r : Store.Request) : Access r.Result := do
  match r.change? with
  | none => return r.find (← load path)
  | some change =>
    update path change
    return r.find {}

def importKeywords (path : String) (tables : KeywordTables) : Access Unit :=
  update path fun s => { s with keywords := s.keywords.merge tables }

/-! ## Files in memory -/

/-- Texts by path. -/
abbrev Files := List (String × String)

namespace Files

def text? (files : Files) (path : String) : Option String :=
  (files.find? (·.1 == path)).map (·.2)

def remove (files : Files) (path : String) : Files := files.filter (·.1 != path)

def put (files : Files) (path text : String) : Files := (path, text) :: files.remove path

/-- The names of the files without their folders. -/
def names (files : Files) : List String :=
  (files.map fun (path, _) => (path.splitOn "/").getLast?.getD path).mergeSort (· ≤ ·)

/-- Whether files stand below a path. -/
def isFolder (files : Files) (path : String) : Bool :=
  files.any fun (p, _) => Text.startsWith p (path ++ "/")

end Files

def missing : Error := .io "No such file or directory (os error 2)"

def folderInPlace : Error := .io "Is a directory (os error 21)"

/-- The folder of a path; none for a bare name. -/
def folderOf? (path : String) : Option String :=
  match (path.toList.reverse.dropWhile (· != '/')).drop 1 with
  | [] => none
  | folder => some (String.ofList folder.reverse)

/-- Why a folder cannot be made. -/
def obstacle? (files : Files) (folder : String) : Option Error :=
  if (files.text? folder).isSome then some (.io "File exists (os error 17)")
  else if files.any fun (p, _) => Text.startsWith folder (p ++ "/") then
    some (.io "Not a directory (os error 20)")
  else none

def orDone (e : Option Error) : Except Error Unit :=
  match e with
  | some e => .error e
  | none => .ok ()

def perform : (r : Request) → StateM Files (Except Error r.Result)
  | .makeFolder path => do
    let files ← get
    return orDone ((folderOf? path).bind (obstacle? files))
  | .read path => do
    let files ← get
    return if files.isFolder path then .error folderInPlace else .ok (files.text? path)
  | .write path text => do
    if (← get).isFolder path then return .error folderInPlace
    modify fun files => files.put path text
    return .ok ()
  | .rename source target => do
    match (← get).text? source with
    | none => return .error missing
    | some text =>
      if (← get).isFolder target then return .error folderInPlace
      modify fun files => (files.remove source).put target text
      return .ok ()

end BrowserScript.Store.File
