import BrowserScript.Page.Basic
import BrowserScript.Program.Basic

/-!
What a page can be asked. Every answer may be an error instead.
-/

namespace BrowserScript.Page

inductive Request
  | xpath (expression : String) (context : Option Handle)
  | first (selector : String)
  | all (selector : String)
  | byId (id : String)
  | tag (el : Handle)
  | text (el : Handle)
  | innerText (el : Handle)
  | attribute (el : Handle) (name : String)
  | property (el : Handle) (name : String)
  | setProperty (el : Handle) (name : String) (value : PropertyValue)
  | visibility (el : Handle)
  | isConnected (el : Handle)
  | dispatch (target : EventTarget) (event : Event)
  | focus (el : Handle)
  | blur (el : Handle)
  | title
  | url
  | navigate (url : String)

def Request.name : Request → String
  | .xpath .. => "evaluate_xpath"
  | .first _ => "query_selector"
  | .all _ => "query_selector_all"
  | .byId _ => "element_by_id"
  | .tag _ => "tag_name"
  | .text _ => "text_content"
  | .innerText _ => "inner_text"
  | .attribute .. => "attribute"
  | .property .. => "property"
  | .setProperty .. => "set_property"
  | .visibility _ => "visibility"
  | .isConnected _ => "is_connected"
  | .dispatch .. => "dispatch_event"
  | .focus _ => "focus"
  | .blur _ => "blur"
  | .title => "title"
  | .url => "url"
  | .navigate _ => "navigate"

def Request.Result : Request → Type
  | .xpath .. | .all _ => List Handle
  | .first _ | .byId _ => Option Handle
  | .tag _ | .text _ | .innerText _ | .title | .url => String
  | .attribute .. => Option String
  | .property .. => Option PropertyValue
  | .visibility _ => Visibility
  | .isConnected _ => Bool
  | .setProperty .. | .dispatch .. | .focus _ | .blur _ | .navigate _ => Unit

def signature : Signature := ⟨Request, fun r => Except Error r.Result⟩

/-- A page and a clock. -/
abbrev timed : Signature := signature.sum clock

/-- A program over a page that ends with the first error. -/
abbrev Access (α : Type) : Type := ExceptT Error (Prog signature) α

def ask (r : Request) : Access r.Result := ExceptT.mk (Prog.request (S := signature) r)

/-- The program of an access, with the error as a value. -/
def Access.result (a : Access α) : Prog signature (Except Error α) := ExceptT.run a

def xpath (expression : String) (context : Option Handle) : Access (List Handle) :=
  ask (.xpath expression context)

def first (selector : String) : Access (Option Handle) := ask (.first selector)

def all (selector : String) : Access (List Handle) := ask (.all selector)

def byId (id : String) : Access (Option Handle) := ask (.byId id)

def tag (el : Handle) : Access String := ask (.tag el)

def text (el : Handle) : Access String := ask (.text el)

def innerText (el : Handle) : Access String := ask (.innerText el)

def attributeOf (el : Handle) (name : String) : Access (Option String) :=
  ask (.attribute el name)

def property (el : Handle) (name : String) : Access (Option PropertyValue) :=
  ask (.property el name)

def setProperty (el : Handle) (name : String) (value : PropertyValue) : Access Unit :=
  ask (.setProperty el name value)

def visibility (el : Handle) : Access Visibility := ask (.visibility el)

def dispatch (target : EventTarget) (event : Event) : Access Unit := ask (.dispatch target event)

def focus (el : Handle) : Access Unit := ask (.focus el)

def blur (el : Handle) : Access Unit := ask (.blur el)

def title : Access String := ask .title

def url : Access String := ask .url

def navigate (url : String) : Access Unit := ask (.navigate url)

/-- Go on with a value in place of an error. -/
def Access.orElse (a : Access α) (default : α) : Access α := tryCatch a fun _ => pure default

/-- Whether an element is part of the document; one that cannot be asked is not. -/
def isAttached (el : Handle) : Access Bool := Access.orElse (ask (.isConnected el)) false

end BrowserScript.Page
