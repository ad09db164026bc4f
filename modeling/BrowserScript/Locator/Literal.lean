import BrowserScript.Text.Search

/-!
Texts as literals of expressions. Literals have no escapes, so a text with both kinds of quotes is
put together from pieces.
-/

namespace BrowserScript.Locator

def singleQuoted (cs : List Char) : List Char := '\'' :: cs ++ ['\'']

/-- An expression whose value is the text. -/
def literal (s : String) : String :=
  let cs := s.toList
  String.ofList <|
    if !cs.contains '\'' then singleQuoted cs
    else if !cs.contains '"' then '"' :: cs ++ ['"']
    else
      let pieces := (Text.splitOn '\'' cs).map singleQuoted
      "concat(".toList ++ (pieces.intersperse ", \"'\", ".toList).flatten ++ [')']

end BrowserScript.Locator
