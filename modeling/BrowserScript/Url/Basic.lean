import BrowserScript.Url.Host
import BrowserScript.Decimal.Text

/-!
URLs by the rules of the URL standard: reading a text, alone or relative to another URL, and
writing the normal form.
-/

namespace BrowserScript

namespace Url

/-- The path of a URL: a plain text, or segments that each follow a slash. -/
inductive Path
  | flat (text : String)
  | segments (ss : List String)
deriving DecidableEq, Repr

end Url

structure Url where
  scheme : String
  username : String := ""
  password : String := ""
  host : Option String := none
  port : Option Nat := none
  path : Url.Path := .segments []
  query : Option String := none
  fragment : Option String := none
deriving DecidableEq, Repr

namespace Url

inductive SchemeKind
  | file | special | plain
deriving DecidableEq

def kindOf (scheme : String) : SchemeKind :=
  if scheme == "file" then .file
  else if ["http", "https", "ws", "wss", "ftp"].contains scheme then .special
  else .plain

def SchemeKind.isSpecial (k : SchemeKind) : Bool := k != .plain

def defaultPort (scheme : String) : Option Nat :=
  match scheme with
  | "http" | "ws" => some 80
  | "https" | "wss" => some 443
  | "ftp" => some 21
  | _ => none

def isSlash (k : SchemeKind) (c : Char) : Bool := c == '/' || (k.isSpecial && c == '\\')

def segmentsOf (u : Url) : List String :=
  match u.path with
  | .segments ss => ss
  | .flat _ => []

def isDriveLetter (s : String) : Bool :=
  match s.toList with
  | [c, d] => Text.isAsciiLetter c && (d == ':' || d == '|')
  | _ => false

def isNormalDriveLetter (s : String) : Bool :=
  match s.toList with
  | [c, ':'] => Text.isAsciiLetter c
  | _ => false

/-- Leave the last segment, but never a drive letter. -/
def shorten (k : SchemeKind) (ss : List String) : List String :=
  match k, ss with
  | .file, [s] => if isNormalDriveLetter s then [s] else []
  | _, ss => ss.dropLast

def isSingleDot (s : String) : Bool := [".", "%2e"].contains (Text.asciiLowered s)

def isDoubleDot (s : String) : Bool :=
  ["..", ".%2e", "%2e.", "%2e%2e"].contains (Text.asciiLowered s)

/-- Split at slashes. -/
def splitSlashes (k : SchemeKind) (piece : List Char) : List Char → List (List Char)
  | [] => [piece.reverse]
  | c :: cs =>
    if isSlash k c then piece.reverse :: splitSlashes k [] cs
    else splitSlashes k (c :: piece) cs

/-- Add segments to a path; dots stay in the segment or leave it. -/
def addSegments (k : SchemeKind) (path : List String) : List (List Char) → List String
  | [] => path
  | raw :: rest =>
    let s := String.ofList (percentEncode pathSet raw)
    let last := rest.isEmpty
    let path :=
      if isDoubleDot s then
        let path := shorten k path
        if last then path ++ [""] else path
      else if isSingleDot s then
        if last then path ++ [""] else path
      else if k == .file && path.isEmpty && isDriveLetter s then
        path ++ [String.ofList (s.toList.take 1 ++ [':'])]
      else path ++ [s]
    addSegments k path rest

/-- A file path does not start with empty segments. -/
def dropEmpty : List String → List String
  | "" :: s :: rest => dropEmpty (s :: rest)
  | ss => ss

def readPath (k : SchemeKind) (path : List String) (cs : List Char) : Path :=
  let ss := addSegments k path (splitSlashes k [] cs)
  .segments (if k == .file then dropEmpty ss else ss)

def isPathEnd (c : Char) : Bool := c == '?' || c == '#'

/-- The query and the fragment at the end of a URL. -/
def withTail (u : Url) (cs : List Char) : Url :=
  let set := if (kindOf u.scheme).isSpecial then specialQuerySet else querySet
  let fragment (cs : List Char) : String := String.ofList (percentEncode fragmentSet cs)
  match cs with
  | '?' :: cs =>
    let query := String.ofList (percentEncode set (cs.takeWhile (· != '#')))
    match cs.dropWhile (· != '#') with
    | _ :: rest => { u with query := some query, fragment := some (fragment rest) }
    | [] => { u with query := some query, fragment := none }
  | '#' :: cs => { u with fragment := some (fragment cs) }
  | _ => u

/-- The path, the query and the fragment. -/
def withPath (u : Url) (path : List String) (cs : List Char) : Url :=
  withTail { u with path := readPath (kindOf u.scheme) path (cs.takeWhile (!isPathEnd ·)) }
    (cs.dropWhile (!isPathEnd ·))

/-- What follows an authority: the path starts at a slash, if there is any. -/
def withRootedPath (u : Url) (cs : List Char) : Url :=
  let k := kindOf u.scheme
  match cs with
  | [] => if k.isSpecial then { u with path := .segments [""] } else u
  | c :: rest =>
    if isSlash k c then withPath u [] rest
    else if !k.isSpecial && isPathEnd c then withTail u (c :: rest)
    else withPath u [] (c :: rest)

/-- The end of the host: a colon outside brackets, or the end of the authority. -/
def hostLength (inside : Bool) : List Char → Nat
  | [] => 0
  | c :: cs =>
    if c == ':' && !inside then 0
    else 1 + hostLength (if c == '[' then true else if c == ']' then false else inside) cs

def readPort (scheme : String) (cs : List Char) : Except Error (Option Nat) :=
  if !cs.all Text.isAsciiDigit then .error .port
  else
    let n := Decimal.digitsValue cs
    if 65535 < n then .error .port
    else if cs.isEmpty || defaultPort scheme == some n then .ok none
    else .ok (some n)

/-- Split at the last at sign. -/
def splitUserinfo (cs : List Char) : Option (List Char) × List Char :=
  let back := cs.reverse
  match back.dropWhile (· != '@') with
  | _ :: user => (some user.reverse, (back.takeWhile (· != '@')).reverse)
  | [] => (none, cs)

def withUserinfo (u : Url) (cs : List Char) : Url :=
  let encode (cs : List Char) : String := String.ofList (percentEncode userinfoSet cs)
  { u with
    username := encode (cs.takeWhile (· != ':'))
    password := encode ((cs.dropWhile (· != ':')).drop 1) }

/-- User, host, port and what follows them. -/
def readAuthority (u : Url) (cs : List Char) : Except Error Url := do
  let k := kindOf u.scheme
  let ends (c : Char) : Bool := isSlash k c || isPathEnd c
  let authority := cs.takeWhile (!ends ·)
  let rest := cs.dropWhile (!ends ·)
  let (userinfo, hostPort) := splitUserinfo authority
  if userinfo == some [] && hostPort.isEmpty && !rest.isEmpty then throw .emptyHost
  let u := withUserinfo u (userinfo.getD [])
  let n := hostLength false hostPort
  let hostText := hostPort.take n
  let portText := hostPort.drop n
  if k.isSpecial && hostText.isEmpty then throw .emptyHost
  let host ← if k.isSpecial then specialHost hostText else plainHost hostText
  if host.isEmpty && !portText.isEmpty then throw .emptyHost
  let port ← if portText.isEmpty then pure none else readPort u.scheme (portText.drop 1)
  if host.isEmpty && (u.username != "" || u.password != "") then throw .emptyHost
  return withRootedPath { u with host := some host, port } rest

/-- Whether the text starts with a drive letter that is a whole segment. -/
def startsWithDriveLetter (cs : List Char) : Bool :=
  isDriveLetter (String.ofList (cs.take 2))
    && (match cs.drop 2 with
      | [] => true
      | c :: _ => isSlash .file c || isPathEnd c)

/-- What follows the scheme of a file URL. -/
def readFile (base : Option Url) (cs : List Char) : Except Error Url := do
  let u : Url := { scheme := "file", host := some "" }
  match cs with
  | a :: b :: rest =>
    if isSlash .file a && isSlash .file b then
      let ends (c : Char) : Bool := isSlash .file c || isPathEnd c
      let hostText := rest.takeWhile (!ends ·)
      let after := rest.dropWhile (!ends ·)
      if isDriveLetter (String.ofList hostText) then return withPath u [] rest
      else if hostText.isEmpty then return withRootedPath u after
      else
        let host ← specialHost hostText
        let u := withRootedPath { u with host := some (if host == "localhost" then "" else host) }
          after
        return match u.segmentsOf with
          | s :: _ => if isNormalDriveLetter s then { u with host := some "" } else u
          | [] => u
    else return fromBase u (a :: b :: rest)
  | cs => return fromBase u cs
where
  /-- A file URL without two slashes takes what it lacks from the base. -/
  fromBase (u : Url) (cs : List Char) : Url :=
    match cs with
    | [] =>
      match base with
      | some b => { b with fragment := none }
      | none => withPath u [] []
    | c :: rest =>
      if isSlash .file c then
        match base with
        | some b =>
          if startsWithDriveLetter rest then withPath u [] rest
          else
            match b.segmentsOf with
            | s :: _ =>
              if isNormalDriveLetter s then withPath u [s] rest
              else withPath { u with host := b.host } [] rest
            | [] => withPath { u with host := b.host } [] rest
        | none => withPath u [] rest
      else
        match base with
        | none => withPath u [] (c :: rest)
        | some b =>
          if c == '?' then withTail { b with query := none, fragment := none } (c :: rest)
          else if c == '#' then withTail { b with fragment := none } (c :: rest)
          else if startsWithDriveLetter (c :: rest) then withPath u [] (c :: rest)
          else
            withPath { b with query := none, fragment := none }
              (shorten .file b.segmentsOf) (c :: rest)

/-- A text without a scheme, seen from the base. -/
def readRelative (base : Url) (cs : List Char) : Except Error Url :=
  match cs with
  | [] => .ok { base with fragment := none }
  | c :: rest =>
    if c == '?' then .ok (withTail { base with query := none, fragment := none } cs)
    else if c == '#' then .ok (withTail { base with fragment := none } cs)
    else
      let base' := { base with query := none, fragment := none }
      if c == '/' || c == '\\' then
        match rest with
        | d :: rest' =>
          if d == '/' || d == '\\' then
            let rest' :=
              if (kindOf base.scheme).isSpecial then rest'.dropWhile (isSlash .special) else rest'
            readAuthority { scheme := base.scheme } rest'
          else .ok (withPath base' [] rest)
        | [] => .ok (withPath base' [] rest)
      else .ok (withPath base' base.segmentsOf.dropLast cs)

/-- Split off the scheme and its colon. -/
def scheme? (cs : List Char) : Option (String × List Char) :=
  let isSchemeChar (c : Char) : Bool :=
    Text.isAsciiLetter c || Text.isAsciiDigit c || c == '+' || c == '-' || c == '.'
  match cs with
  | c :: _ =>
    if Text.isAsciiLetter c then
      match cs.dropWhile isSchemeChar with
      | ':' :: rest =>
        some (String.ofList ((cs.takeWhile isSchemeChar).map Text.asciiLower), rest)
      | _ => none
    else none
  | [] => none

/-- Blanks and controls at the ends and line breaks and tabs anywhere do not count. -/
def cleaned (text : String) : List Char :=
  let isEdge (c : Char) : Bool := c.toNat ≤ 0x20
  let cs := ((text.toList.dropWhile isEdge).reverse.dropWhile isEdge).reverse
  cs.filter fun c => c != '\t' && c != '\n' && c != '\r'

/-- The URL a text stands for, relative to the base if there is one. -/
def parse (base : Option Url) (text : String) : Except Error Url :=
  let cs := cleaned text
  match scheme? cs with
  | some (scheme, rest) =>
    match kindOf scheme with
    | .file => readFile (base.filter (·.scheme == "file")) rest
    | .special =>
      let slashes := (rest.takeWhile (isSlash .special)).length
      match base.filter fun b => b.scheme == scheme && slashes < 2 with
      | some b => readRelative b rest
      | none => readAuthority { scheme } (rest.dropWhile (isSlash .special))
    | .plain =>
      match rest with
      | '/' :: '/' :: rest => readAuthority { scheme } rest
      | '/' :: rest => .ok (withPath { scheme } [] rest)
      | rest =>
        let path := String.ofList (percentEncode controlSet (rest.takeWhile (!isPathEnd ·)))
        .ok (withTail { scheme, path := .flat path } (rest.dropWhile (!isPathEnd ·)))
  | none =>
    match base with
    | none => .error .relativeWithoutBase
    | some b =>
      match b.path with
      | .flat _ =>
        if cs.head? == some '#' then .ok (withTail { b with fragment := none } cs)
        else .error .relativeToFlat
      | .segments _ =>
        if b.scheme == "file" then readFile (some b) cs else readRelative b cs

def parse? (text : String) : Option Url := (parse none text).toOption

/-- The host, none when it is missing or empty. -/
def hostName? (u : Url) : Option String := u.host.filter (· != "")

def pathText (u : Url) : String :=
  match u.path with
  | .flat text => text
  | .segments ss => String.join (ss.map ("/" ++ ·))

def authorityText (u : Url) : String :=
  match u.host with
  | none =>
    match u.path with
    | .segments ("" :: _ :: _) => "/."
    | _ => ""
  | some host =>
    "//" ++ u.username ++ (if u.password == "" then "" else ":" ++ u.password)
      ++ (if u.username == "" && u.password == "" then "" else "@") ++ host
      ++ (match u.port with
        | some p => ":" ++ toString p
        | none => "")

def toText (u : Url) : String :=
  u.scheme ++ ":" ++ u.authorityText ++ u.pathText
    ++ (match u.query with
      | some q => "?" ++ q
      | none => "")
    ++ (match u.fragment with
      | some f => "#" ++ f
      | none => "")

/-- The text of a link seen from a page. Where either of them is no URL, the link stays as it
is. -/
def resolve (base link : String) : String :=
  match (parse none base).bind fun b => parse (some b) link with
  | .ok u => u.toText
  | .error _ => link

end Url

end BrowserScript
