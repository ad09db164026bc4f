import BrowserScript.Keyword.Basic
import BrowserScript.Command.Basic

/-!
Keywords in effect for a page, and the locators they stand for.
-/

namespace BrowserScript

/-- The shared keywords and those of the page's domain, which go first. -/
structure KeywordSet where
  shared : List Keyword := []
  ofPage : List Keyword := []

namespace KeywordSet

def lookup (ks : KeywordSet) (name : String) : Option Keyword :=
  Keyword.lookup name ks.ofPage <|> Keyword.lookup name ks.shared

end KeywordSet

namespace Keyword

/-- Put quoted texts into the places of the template, the first into the first place left. -/
def fill (template : String) (fillings : List String) : String :=
  String.ofList <|
    fillings.foldl
      (fun xpath v => Text.replaceFirst placeholder.toList ('\'' :: v.toList ++ ['\'']) xpath)
      template.toList

end Keyword

namespace Command

/-- The quoted words that fill a keyword: of a command that takes a value, all but the first. -/
def fillings (c : Command) : List String :=
  match c.verb with
  | some "type" | some "verify" | some "select" => c.quotedLiterals.drop 1
  | _ => c.quotedLiterals

/-- Replace a locator that names a keyword by what the keyword stands for. A verify command ends
with its locator. -/
def resolve (c : Command) (keywords : KeywordSet) : Command :=
  match c.inIndex with
  | none => c
  | some i =>
    match c.code[i + 1]? with
    | none => c
    | some operand =>
      let c := if c.isVerify then { c with code := c.code.take (i + 2) } else c
      let name := unquote operand
      if name.toList.head? == some '/' then c
      else
        match keywords.lookup name with
        | none => c
        | some k =>
          let xpath := if k.hasVariable then Keyword.fill k.xpath c.fillings else k.xpath
          { c with
            code := c.code.set (i + 1) xpath
            verifyLocator :=
              if c.isVerify && c.verifyLocator.isSome then some xpath else c.verifyLocator }

end Command

end BrowserScript
