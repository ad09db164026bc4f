import BrowserScript.Proofs.Dom.Planting
import Mathlib.Data.List.Chain

/-!
Documents from texts without markup, where `<` may stand but starts nothing. The reader stops at
each `<`, makes a text of all it has read and keeps that as the beginning of the next text, so what
stands before a `<` is read again with it. Main statement: `textContent_unmarked`.
-/

namespace BrowserScript

namespace Html

/-! ## What is read at a bracket -/

/-- Whether a `<` before that character starts a tag, a comment or a declaration. -/
def opensMarkup (c : Char) : Bool := isTagChar c || c == '/' || c == '!' || c == '?'

/-- No `<` starts anything. -/
def Unmarked (cs : List Char) : Prop :=
  cs.IsChain fun a b => a = '<' → opensMarkup b = false

instance (cs : List Char) : Decidable (Unmarked cs) :=
  inferInstanceAs (Decidable (List.IsChain _ cs))

/-- What stands before each `<`, from the first to the last. -/
def beforeBrackets : List Char → List (List Char)
  | [] => []
  | c :: cs => (if c = '<' then [[]] else []) ++ (beforeBrackets cs).map (c :: ·)

theorem mem_beforeBrackets {p cs : List Char} : p ∈ beforeBrackets cs ↔ p ++ ['<'] <+: cs := by
  induction cs generalizing p with
  | nil => simp [beforeBrackets]
  | cons c cs ih =>
      have here : p ∈ (if c = '<' then [[]] else []) ↔ p = [] ∧ c = '<' := by
        split_ifs with bracket <;> simp [bracket]
      rw [beforeBrackets, List.mem_append, here, List.mem_map]
      cases p with
      | nil => simp [List.cons_prefix_cons, eq_comm]
      | cons a p => simp [List.cons_prefix_cons, ih, and_comm, eq_comm]

/-- Nothing but what starts a text stands before a bracket unless there is one behind the first
character. -/
theorem forall_beforeBrackets_eq_nil_iff {cs : List Char} :
    (∀ p ∈ beforeBrackets cs, p = []) ↔ '<' ∉ cs.tail := by
  constructor
  · intro all bracket
    obtain ⟨p, rest, same⟩ := List.append_of_mem bracket
    cases cs with
    | nil => cases bracket
    | cons c cs =>
        obtain rfl : cs = p ++ '<' :: rest := same
        have before : c :: p ∈ beforeBrackets (c :: (p ++ '<' :: rest)) :=
          mem_beforeBrackets.mpr ⟨rest, by simp⟩
        cases all _ before
  · intro free p before
    obtain ⟨rest, rfl⟩ := mem_beforeBrackets.mp before
    cases p with
    | nil => rfl
    | cons a p => exact absurd (by simp) free

theorem startTag?_of_not_isTagChar {cs : List Char}
    (other : ∀ c ∈ cs.head?, isTagChar c = false) : startTag? cs = none := by
  have none : cs.takeWhile isTagChar = [] := by
    cases cs with
    | nil => rfl
    | cons c cs => exact List.takeWhile_cons_of_neg (by simp [other c rfl])
  rw [startTag?, none]
  rfl

/-- The text so far is a part and stays held. -/
theorem tokensFrom_bracket {cs : List Char}
    (other : ∀ c ∈ cs.head?, opensMarkup c = false) (held : List Char) :
    tokensFrom held ('<' :: cs) = heldText held ++ tokensFrom ('<' :: held) cs := by
  have none : startTag? cs = none := startTag?_of_not_isTagChar fun c first => by
    have := other c first
    simp only [opensMarkup, Bool.or_eq_false_iff] at this
    exact this.1.1.1
  rw [tokensFrom.eq_def]
  refine (if_neg (by decide)).trans (congrArg (heldText held ++ ·) ?_)
  have never (x : Char) (opens : opensMarkup x = true) (rest : List Char) : cs ≠ x :: rest := by
    rintro rfl
    cases opens.symm.trans (other x rfl)
  split
  · exact absurd rfl (never '!' rfl _)
  · exact absurd rfl (never '!' rfl _)
  · exact absurd rfl (never '?' rfl _)
  · exact absurd rfl (never '/' rfl _)
  · split
    · next found => cases none.symm.trans found
    · rfl

/-- The texts that are read, given what stands before each bracket and the whole. -/
def readTexts (portions : List (List Char)) : List (List Char) :=
  (portions.filter (· ≠ [])).map decode

theorem flatten_readTexts (portions : List (List Char)) :
    (readTexts portions).flatten = portions.flatMap decode := by
  induction portions with
  | nil => rfl
  | cons p portions ih =>
      rw [List.flatMap_cons, ← ih]
      cases p <;> rfl

theorem flatMap_heldText (portions : List (List Char)) :
    (portions.flatMap fun p => heldText (p.reverse ++ [])) = (readTexts portions).map .text := by
  induction portions with
  | nil => rfl
  | cons p portions ih =>
      rw [List.flatMap_cons, ih]
      cases p <;> simp [heldText, readTexts]

theorem tokensFrom_unmarked {cs : List Char} (plain : Unmarked cs) (held : List Char) :
    tokensFrom held cs =
      (beforeBrackets cs ++ [cs]).flatMap fun p => heldText (p.reverse ++ held) := by
  induction cs generalizing held with
  | nil =>
      rw [tokensFrom]
      exact (List.flatMap_singleton ..).symm
  | cons c cs ih =>
      obtain ⟨next, rest⟩ := List.isChain_cons.mp plain
      have longer : (beforeBrackets cs).map (c :: ·) ++ [c :: cs] =
          (beforeBrackets cs ++ [cs]).map (c :: ·) := by
        rw [List.map_append, List.map_singleton]
      have read : ((beforeBrackets cs ++ [cs]).map (c :: ·)).flatMap
          (fun p => heldText (p.reverse ++ held)) = tokensFrom (c :: held) cs := by
        rw [ih rest, List.flatMap_map]
        simp only [List.reverse_cons, List.append_assoc, List.singleton_append]
      rw [beforeBrackets, List.append_assoc, longer, List.flatMap_append, read]
      by_cases bracket : c = '<'
      · subst bracket
        rw [tokensFrom_bracket fun b first => next b first rfl, if_pos rfl, List.flatMap_singleton]
        rfl
      · rw [tokensFrom_cons bracket, if_neg bracket]
        rfl

theorem tokens_unmarked {cs : List Char} (plain : Unmarked cs) :
    tokens cs = (readTexts (beforeBrackets cs ++ [cs])).map .text := by
  rw [tokens, tokensFrom_unmarked plain, flatMap_heldText]

/-- The reader takes some text for every text. -/
theorem decode_eq_nil_iff {cs : List Char} : decode cs = [] ↔ cs = [] := by
  constructor
  · intro none
    cases cs with
    | nil => rfl
    | cons c cs =>
        rw [decode, decodeFrom] at none
        split_ifs at none
        split at none <;> cases none
  · rintro rfl
    rfl

namespace Content

/-- A row of texts. -/
def ofTexts : List (List Char) → Content
  | [] => .empty
  | cs :: texts => .text cs (ofTexts texts)

theorem tokens_ofTexts (texts : List (List Char)) :
    (ofTexts texts).tokens = texts.map .text := by
  induction texts with
  | nil => rfl
  | cons cs texts ih => exact congrArg (Token.text cs :: ·) ih

theorem size_ofTexts (texts : List (List Char)) : (ofTexts texts).size = texts.length := by
  induction texts with
  | nil => rfl
  | cons cs texts ih => rw [ofTexts, size, ih, List.length_cons, Nat.add_comm]

end Content

end Html

namespace Dom

open Html (Content)

theorem plants_ofTexts (base : NodeId) (texts : List (List Char)) :
    Plants base (Content.ofTexts texts) := by
  induction texts with
  | nil => exact plants_empty
  | cons cs texts ih => exact plants_text ih

/-- The texts of a row, taken by their numbers. -/
theorem filterMap_text? {d : Dom} {parent : NodeId} (texts : List (List Char))
    (before : List Node) {first : NodeId} (length : before.length = first)
    (shape : d.nodes.toList = before ++ (Content.ofTexts texts).nodes parent first) :
    (List.range' first texts.length).filterMap d.text? = texts.map String.ofList := by
  induction texts generalizing before first with
  | nil => rfl
  | cons cs texts ih =>
      subst length
      have own : d.text? before.length = some (String.ofList cs) := by
        rw [text?, getElem?_of_shape shape]
      rw [Content.ofTexts, Content.nodes, List.append_cons] at shape
      have longer (x : Node) : (before ++ [x]).length = before.length + 1 := List.length_append
      have later := ih _ (longer _) shape
      rw [List.length_cons, List.range'_succ, List.filterMap_cons, own, later, List.map_cons]

theorem join_map_ofList (texts : List (List Char)) :
    String.join (texts.map String.ofList) = String.ofList texts.flatten := by
  induction texts with
  | nil => rfl
  | cons cs texts ih =>
      rw [List.map_cons, String.join_cons, ih, List.flatten_cons, String.ofList_append]

/-- A text without markup, `<` anywhere included, is read with all that stands before a bracket once
more for each bracket: the text of the document is the decoded input exactly when there is no
bracket behind the first character. -/
theorem textContent_unmarked (markup : String) (plain : Html.Unmarked markup.toList) :
    (ofMarkup markup).textContent root = String.ofList
      ((Html.beforeBrackets markup.toList).flatMap Html.decode ++ Html.decode markup.toList) ∧
    ((ofMarkup markup).textContent root = String.ofList (Html.decode markup.toList) ↔
      '<' ∉ markup.toList.tail) := by
  let texts := Html.readTexts (Html.beforeBrackets markup.toList ++ [markup.toList])
  have parts : Html.tokens markup.toList = (Content.ofTexts texts).tokens := by
    rw [Html.tokens_unmarked plain, Content.tokens_ofTexts]
  obtain ⟨read, below⟩ := ofMarkup_planted parts (plants_ofTexts root texts)
  rw [Content.size_ofTexts] at below
  have each : (List.range' 1 texts.length).filterMap (ofMarkup markup).text? =
      texts.map String.ofList := filterMap_text? texts [_] rfl read
  have content : (ofMarkup markup).textContent root = String.ofList
      ((Html.beforeBrackets markup.toList).flatMap Html.decode ++
        Html.decode markup.toList) := by
    rw [textContent, (forest_ofMarkup markup).text?_root, below]
    dsimp only
    rw [each, join_map_ofList, Html.flatten_readTexts, List.flatMap_append,
      List.flatMap_singleton]
  refine ⟨content, ?_⟩
  rw [content, String.ofList_inj, List.append_left_eq_self, List.flatMap_eq_nil_iff]
  simp only [Html.decode_eq_nil_iff]
  exact Html.forall_beforeBrackets_eq_nil_iff

namespace Bracketed

def comparison : String := "a < b &lt; c"

/-- What stands before the bracket is there twice. -/
theorem textContent_comparison :
    Html.Unmarked comparison.toList ∧
    String.ofList (Html.decode comparison.toList) = "a < b < c" ∧
    (ofMarkup comparison).textContent root = "a a < b < c" ∧
    (ofMarkup comparison).textContent root ≠
      String.ofList (Html.decode comparison.toList) := by
  have plain : Html.Unmarked comparison.toList := by decide +kernel
  obtain ⟨content, whole⟩ := textContent_unmarked comparison plain
  refine ⟨plain, by decide +kernel, ?_, fun same => absurd (whole.mp same) (by decide +kernel)⟩
  rw [content]
  decide +kernel

end Bracketed

end Dom

end BrowserScript
