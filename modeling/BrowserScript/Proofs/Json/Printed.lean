import BrowserScript.Proofs.Json.Scanning

/-!
Printed values as tokens.
-/

namespace BrowserScript.Json

mutual

/-- No numbers but integers, and those in range. -/
def Exact : Json → Prop
  | .int n => IsWord n
  | .float _ => False
  | .array items => ExactItems items
  | .object fields => ExactFields fields
  | _ => True

def ExactItems : List Json → Prop
  | [] => True
  | item :: rest => Exact item ∧ ExactItems rest

def ExactFields : Fields → Prop
  | [] => True
  | (_, value) :: rest => Exact value ∧ ExactFields rest

end

mutual

def tokens : Json → List Token
  | .array items => .openBracket :: itemTokens items ++ [.closeBracket]
  | .object fields => .openBrace :: fieldTokens fields ++ [.closeBrace]
  | .string s => [.text s]
  | other => [.scalar other]

def itemTokens : List Json → List Token
  | [] => []
  | [item] => tokens item
  | item :: rest => tokens item ++ .comma :: itemTokens rest

def fieldTokens : Fields → List Token
  | [] => []
  | [(name, value)] => .text name :: .colon :: tokens value
  | (name, value) :: rest => .text name :: .colon :: tokens value ++ .comma :: fieldTokens rest

end

section Pieces

variable {xs ys : List Char} {us vs : List Token}

theorem Spells.newline (h : Spells xs us) (level : Nat) :
    Closes (xs ++ (newline level).toList) us := by
  have line := closes_newline level
  rw [Json.newline, String.toList_append] at line ⊢
  have closes := h.append_closes (by decide) line
  rwa [List.append_nil] at closes

theorem Spells.comma (h : Spells xs us) : Closes (xs ++ ",".toList) (us ++ [.comma]) :=
  h.append_closes (by decide) fun _ => rfl

theorem Spells.enclosed (h : Spells xs us) {opening closing : Char} {first last : Token}
    (opens : Closes [opening] [first]) (closes : Closes [closing] [last]) (level : Nat) :
    Spells ([opening] ++ xs ++ (Json.newline level).toList ++ [closing]) (first :: us ++ [last]) :=
  (((opens.append_spells h).newline level).append closes).spells

end Pieces

/-- A name with the beginning of its line and a colon. -/
theorem closes_name (level : Nat) (name : String) :
    Closes ((newline level).toList ++ (quote name).toList ++ ": ".toList) [.text name, .colon] :=
  ((closes_newline level).append (closes_quote name)).append fun _ => rfl

theorem spells_word {word : String} {t : Token} (bare : word.toList.all isBare)
    (ne : word.toList ≠ []) (token : bareToken? word.toList = some t) : Spells word.toList [t] :=
  spells_bare (List.all_eq_true.mp bare) ne token

mutual

theorem spells_prettyAt (level : Nat) : (j : Json) → Exact j →
    Spells (prettyAt level j).toList (tokens j)
  | .null, _ => (spells_word rfl (by decide) rfl : Spells "null".toList _)
  | .bool true, _ => (spells_word rfl (by decide) rfl : Spells "true".toList _)
  | .bool false, _ => (spells_word rfl (by decide) rfl : Spells "false".toList _)
  | .int n, word => spells_int word
  | .string s, _ => (closes_quote s).spells
  | .array [], _ => (Closes.spells fun _ => rfl : Spells "[]".toList _)
  | .array (item :: rest), exact_ => by
      have items := spells_prettyItems (level + 1) (item :: rest) exact_
      simp only [prettyAt, String.toList_append]
      exact items.enclosed (fun _ => rfl) (fun _ => rfl) level
  | .object [], _ => (Closes.spells fun _ => rfl : Spells "\x7b\x7d".toList _)
  | .object (field :: rest), exact_ => by
      have fields := spells_prettyFields (level + 1) (field :: rest) exact_
      simp only [prettyAt, String.toList_append]
      exact fields.enclosed (fun _ => rfl) (fun _ => rfl) level

theorem spells_prettyItems (level : Nat) : (items : List Json) → ExactItems items →
    Spells (prettyItems level items).toList (itemTokens items)
  | [], _ => closes_nil.spells
  | [item], exact_ => by
      simp only [prettyItems, String.toList_append]
      exact (closes_newline level).append_spells (spells_prettyAt level item exact_.1)
  | item :: next :: rest, exact_ => by
      have first := (closes_newline level).append_spells (spells_prettyAt level item exact_.1)
      have others := spells_prettyItems level (next :: rest) exact_.2
      simp only [prettyItems, String.toList_append]
      simpa [itemTokens] using first.comma.append_spells others

theorem spells_prettyFields (level : Nat) : (fields : Fields) → ExactFields fields →
    Spells (prettyFields level fields).toList (fieldTokens fields)
  | [], _ => closes_nil.spells
  | [(name, value)], exact_ => by
      simp only [prettyFields, String.toList_append]
      exact (closes_name level name).append_spells (spells_prettyAt level value exact_.1)
  | (name, value) :: next :: rest, exact_ => by
      have first := (closes_name level name).append_spells (spells_prettyAt level value exact_.1)
      have others := spells_prettyFields level (next :: rest) exact_.2
      simp only [prettyFields, String.toList_append]
      simpa [fieldTokens] using first.comma.append_spells others

end

theorem tokens?_pretty {j : Json} (exact_ : Exact j) :
    tokens? (pretty j).toList = some (tokens j) :=
  tokens?_of_spells (spells_prettyAt 0 j exact_)

end BrowserScript.Json
