import BrowserScript.Json.Decode
import BrowserScript.Text.Search
import BrowserScript.Url.Basic

/-!
Keywords: names that stand for locators. A keyword with a variable has places that the quoted
words of a command fill. Some keywords hold everywhere, others on the pages of a domain; the tables
of domains are sorted by domain.
-/

namespace BrowserScript

structure Keyword where
  name : String
  xpath : String
  hasVariable : Bool
deriving DecidableEq, Repr

namespace Keyword

/-- The place a variable is put into. -/
def placeholder : String := "\x7b$\x7d"

def new (name xpath : String) : Keyword := ⟨name, xpath, Text.occursIn placeholder xpath⟩

def toJson (k : Keyword) : Json :=
  .object [("keyword", .string k.name), ("xpath", .string k.xpath),
    ("hasVariable", .bool k.hasVariable)]

def ofJson? (j : Json) : Option Keyword := do
  match ← Json.record ["keyword", "xpath", "hasVariable"] 2 j with
  | [name, xpath, filled] =>
    some ⟨← Json.required Json.asString name, ← Json.required Json.asString xpath,
      ← Json.withDefault false Json.asBool filled⟩
  | _ => none

/-- The first keyword of that name. -/
def lookup (name : String) (keywords : List Keyword) : Option Keyword :=
  keywords.find? (·.name == name)

/-- Put a keyword in place of the first of its name, or at the end. -/
def insert (k : Keyword) : List Keyword → List Keyword
  | [] => [k]
  | old :: rest => if old.name = k.name then k :: rest else old :: insert k rest

/-- Put in the incoming keywords one after another. -/
def merge (keywords incoming : List Keyword) : List Keyword :=
  incoming.foldl (fun known k => insert k known) keywords

/-! ## Domains -/

/-- The last two labels of a host. Suffixes that are shared by many sites are not recognised:
`a.example.co.uk` gives `co.uk`. -/
def registrableDomain (host : String) : String :=
  match (Text.splitOn '.' host.toList).reverse with
  | last :: second :: _ => String.ofList (second ++ '.' :: last)
  | _ => host

def domainOfUrl (url : String) : Option String :=
  ((Url.parse? url).bind Url.hostName?).map registrableDomain

end Keyword

/-! ## Tables -/

structure KeywordTables where
  shared : List Keyword := []
  domains : List (String × List Keyword) := []
deriving DecidableEq, Repr

namespace KeywordTables

/-- The keywords of a domain, none when the domain has no table. -/
def ofDomain (t : KeywordTables) (domain : String) : List Keyword :=
  ((t.domains.find? (·.1 == domain)).map (·.2)).getD []

/-- Change the table of a domain, which is empty when it does not exist yet. -/
def updateDomain (domain : String) (change : List Keyword → List Keyword) :
    List (String × List Keyword) → List (String × List Keyword)
  | [] => [(domain, change [])]
  | (d, ks) :: rest =>
    if domain = d then (d, change ks) :: rest
    else if domain < d then (domain, change []) :: (d, ks) :: rest
    else (d, ks) :: updateDomain domain change rest

/-- Import tables: a keyword that is known in its scope is replaced, others are added. -/
def merge (t incoming : KeywordTables) : KeywordTables where
  shared := Keyword.merge t.shared incoming.shared
  domains := incoming.domains.foldl
    (fun known (domain, ks) => updateDomain domain (Keyword.merge · ks) known) t.domains

def toFields (t : KeywordTables) : Json.Fields :=
  [("globalKeywords", .array (t.shared.map Keyword.toJson)),
    ("localKeywords", .object (t.domains.map fun (d, ks) => (d, .array (ks.map Keyword.toJson))))]

def toJson (t : KeywordTables) : Json := .object t.toFields

def sortDomains (domains : List (String × List Keyword)) : List (String × List Keyword) :=
  domains.foldl (fun known (d, ks) => updateDomain d (fun _ => ks) known) []

def ofFields? (shared domains : Option Json) : Option KeywordTables := do
  let shared ← Json.withDefault [] (Json.asList Keyword.ofJson?) shared
  let domains ← Json.withDefault [] (Json.asMap (Json.asList Keyword.ofJson?)) domains
  some ⟨shared, sortDomains domains⟩

def ofJson? (j : Json) : Option KeywordTables := do
  match ← Json.record ["globalKeywords", "localKeywords"] 0 j with
  | [shared, domains] => ofFields? shared domains
  | _ => none

end KeywordTables

end BrowserScript
