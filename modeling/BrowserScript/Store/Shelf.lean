import BrowserScript.Store.File

/-!
Where the state is kept while a session is tried out: in memory, or in a file among files in
memory.
-/

namespace BrowserScript.Store

inductive Shelf
  | memory (s : State)
  | file (files : File.Files) (path : String)

def Shelf.serve (r : Request) : StateM Shelf (Except Error r.Result)
  | .memory s =>
    let (a, s) := (Store.serve r).run s
    (a, .memory s)
  | .file files path =>
    let (a, files) := ((File.serve path r).run.run File.perform).run files
    (a, .file files path)

end BrowserScript.Store
