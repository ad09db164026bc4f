import BrowserScript.Proofs.Keyword.Resolution
import BrowserScript.Proofs.Text.Pieces
import BrowserScript.Proofs.XPath.Stops
import Mathlib.Data.List.Infix

/-!
Keywords with variables: a template is cut at its places, and each place takes one text as a
literal. Places are filled from the left, in what was filled before, and with one kind of quotes; so
a text comes out whole just when it has no such quote, and no place that a later text could fill.
-/

namespace BrowserScript

namespace Keyword

open Text (splitAt? splitAt?_append splitAt?_eq_none_iff eq_of_splitAt? replaceFirst)
open XPath (Token tokens? tokens?_append_stop tokens?_quoted)

variable {t more : List Char} {v : String} {vs us : List String}

/-! ## Filling places -/

/-- A text without places. -/
def Placeless (t : List Char) : Prop := ¬ placeholder.toList <:+: t

instance (t : List Char) : Decidable (Placeless t) := inferInstanceAs (Decidable (¬ _))

theorem placeholder_ne_nil : placeholder.toList ≠ [] := by decide

theorem quote_notMem_placeholder : '\'' ∉ placeholder.toList := by decide

theorem placeholder_eq : placeholder.toList = ['\x7b', '$', '\x7d'] := rfl

/-- Places do not overlap, so the first one is where the first piece ends. -/
theorem Placeless.split_eq (free : Placeless t) (more : List Char) :
    splitAt? placeholder.toList (t ++ (placeholder.toList ++ more)) = some (t, more) := by
  induction t with
  | nil => rfl
  | cons c cs ih =>
      obtain ⟨here, later⟩ := not_or.mp (mt List.infix_cons_iff.mpr free)
      have missing : ¬ placeholder.toList <+: c :: (cs ++ (placeholder.toList ++ more)) := by
        rw [placeholder_eq] at here ⊢
        match cs with
        | [] | [_] => simp [List.cons_prefix_cons]
        | d :: e :: es => simpa [List.cons_prefix_cons] using here
      rw [List.cons_append, Text.splitAt?_cons_of_missing missing, ih later]
      rfl

/-- A text in single quotes, and what stands behind it. -/
def quotedBefore (v : String) (more : List Char) : List Char := '\'' :: (v.toList ++ '\'' :: more)

theorem Placeless.filled_eq (free : Placeless t) (vs : List String) : filled vs t = t := by
  induction vs with
  | nil => rfl
  | cons v vs ih =>
      have kept (by_ : List Char) : replaceFirst placeholder.toList by_ t = t := by
        rw [replaceFirst, splitAt?_eq_none_iff.mpr free]
      rw [filled, List.foldl_cons, kept]
      exact ih

/-- Where no place is before a quote, only what comes after the quote is filled. -/
theorem Placeless.filled_append (free : Placeless t) (vs : List String) (more : List Char) :
    filled vs (t ++ '\'' :: more) = t ++ '\'' :: filled vs more := by
  induction vs generalizing more with
  | nil => rfl
  | cons v vs ih =>
      have later (by_ : List Char) : replaceFirst placeholder.toList by_ (t ++ '\'' :: more) =
          t ++ '\'' :: replaceFirst placeholder.toList by_ more := by
        rw [replaceFirst, replaceFirst,
          splitAt?_append free quote_notMem_placeholder placeholder_ne_nil]
        cases splitAt? placeholder.toList more with
        | none => rfl
        | some s => simp
      rw [filled, List.foldl_cons, later]
      exact ih _

theorem Placeless.filled_cons (free : Placeless t) (v : String) (vs : List String)
    (more : List Char) : filled (v :: vs) (t ++ (placeholder.toList ++ more)) =
      filled vs (t ++ quotedBefore v more) := by
  rw [filled, List.foldl_cons, replaceFirst, free.split_eq more]
  simp [quotedBefore, filled]

/-! ## Texts that come out whole -/

/-- The text of a template: pieces, with a place before each but the first. -/
def template (first : List Char) (others : List (List Char)) : List Char :=
  first ++ others.flatMap (placeholder.toList ++ ·)

/-- The tokens of the pieces, with a literal in each place. -/
def woven (first : List Token) (others : List (List Token)) (vs : List String) : List Token :=
  first ++ (List.zipWith (fun v ts => .literal v :: ts) vs others).flatten

/-- Texts that come out whole in so many places: none has the quote that is put around it, and none
before the last has a place that a text after it is put into. -/
structure Whole (places : Nat) (vs : List String) : Prop where
  enough : places ≤ vs.length
  noQuote : ∀ v ∈ vs.take places, '\'' ∉ v.toList
  noPlace : ∀ v ∈ vs.dropLast.take places, Placeless v.toList

theorem whole_zero (vs : List String) : Whole 0 vs := ⟨Nat.zero_le _, by simp, by simp⟩

theorem not_whole_nil (n : Nat) : ¬ Whole (n + 1) [] := fun h => absurd h.enough (by simp)

theorem whole_cons_iff {n : Nat} : Whole (n + 1) (v :: vs) ↔
    ('\'' ∉ v.toList ∧ (vs = [] ∨ Placeless v.toList)) ∧ Whole n vs := by
  constructor
  · rintro ⟨enough, noQuote, noPlace⟩
    rw [List.take_succ_cons, List.forall_mem_cons] at noQuote
    refine ⟨⟨noQuote.1, ?_⟩, Nat.le_of_succ_le_succ enough, noQuote.2, ?_⟩
    · cases vs with
      | nil => exact .inl rfl
      | cons w ws => exact .inr (noPlace v List.mem_cons_self)
    · cases vs with
      | nil => simp
      | cons w ws => exact fun u mem => noPlace u (List.mem_cons_of_mem _ mem)
  · rintro ⟨⟨quote, place⟩, enough, noQuote, noPlace⟩
    refine ⟨Nat.succ_le_succ enough, List.forall_mem_cons.mpr ⟨quote, noQuote⟩, ?_⟩
    cases vs with
    | nil => simp
    | cons w ws =>
        exact List.forall_mem_cons.mpr ⟨place.resolve_left (List.cons_ne_nil w ws), noPlace⟩

section Tokens

variable {ts : List Token} (read : tokens? t = some ts)
include read

theorem tokens?_quotedBefore (noQuote : '\'' ∉ v.toList) (more : List Char) :
    tokens? (t ++ quotedBefore v more) =
      (tokens? more).map fun others => ts ++ .literal v :: others := by
  rw [quotedBefore, tokens?_append_stop rfl read, tokens?_quoted (.inr rfl) noQuote,
    Option.map_map, String.ofList_toList]
  rfl

/-- Where a quote comes too early, the literal is another text. -/
theorem tokens?_ne_of_shorter {p : List Char} (shorter : p.length < v.toList.length)
    (more : List Char) (others : List Token) :
    tokens? (t ++ '\'' :: (p ++ '\'' :: more)) ≠ some (ts ++ .literal v :: others) := by
  obtain ⟨q, rest, split, noQuote, le⟩ : ∃ q rest, p ++ '\'' :: more = q ++ '\'' :: rest ∧
      '\'' ∉ q ∧ q.length ≤ p.length := by
    by_cases quote : '\'' ∈ p
    · obtain ⟨q, rest, rfl, noQuote⟩ := List.eq_append_cons_of_mem quote
      exact ⟨q, rest ++ '\'' :: more, by simp, noQuote, by simp⟩
    · exact ⟨p, more, rfl, quote, Nat.le_refl _⟩
  intro same
  have early := tokens?_quotedBefore (v := String.ofList q) read (by simpa using noQuote) rest
  rw [quotedBefore, String.toList_ofList, ← split, same] at early
  obtain ⟨others', -, whole⟩ := Option.map_eq_some_iff.mp early.symm
  have literal := (List.cons.inj (List.append_cancel_left whole)).1
  have text : q = v.toList := by rw [← Token.literal.inj literal, String.toList_ofList]
  exact absurd (text ▸ le) (Nat.not_le.mpr shorter)

/-- A place that is left is no token. -/
theorem tokens?_of_place (more : List Char) :
    tokens? (t ++ (placeholder.toList ++ more)) = none := by
  have stuck : tokens? (placeholder.toList ++ more) = none := by
    rw [placeholder_eq, List.cons_append, tokens?]
    rfl
  rw [placeholder_eq, List.cons_append, tokens?_append_stop rfl read, ← List.cons_append,
    ← placeholder_eq, stuck]
  rfl

end Tokens

theorem Placeless.append_quote (free : Placeless t) (other : Placeless more) :
    Placeless (t ++ '\'' :: more) := by
  rw [Placeless, ← splitAt?_eq_none_iff,
    splitAt?_append free quote_notMem_placeholder placeholder_ne_nil,
    splitAt?_eq_none_iff.mpr other]
  rfl

theorem filled_quotedBefore (free : Placeless t) (whole : vs = [] ∨ Placeless v.toList)
    (more : List Char) :
    filled vs (t ++ quotedBefore v more) = t ++ quotedBefore v (filled vs more) := by
  rcases whole with rfl | whole
  · rfl
  · have later := (free.append_quote whole).filled_append vs more
    simpa [quotedBefore] using later

/-- A text that does not come out whole ends too early. -/
theorem exists_shorter (free : Placeless t)
    (torn : ¬ ('\'' ∉ v.toList ∧ (vs = [] ∨ Placeless v.toList))) (more : List Char) :
    ∃ p rest, p.length < v.toList.length ∧
      filled vs (t ++ quotedBefore v more) = t ++ '\'' :: (p ++ '\'' :: rest) := by
  by_cases whole : vs = [] ∨ Placeless v.toList
  · -- nothing is put into the text itself, so its own quote ends it
    obtain ⟨p, rest, split, -⟩ := List.eq_append_cons_of_mem
      (Classical.not_not.mp fun noQuote => torn ⟨noQuote, whole⟩)
    refine ⟨p, rest ++ '\'' :: filled vs more, by simp [split], ?_⟩
    rw [filled_quotedBefore free whole, quotedBefore, split]
    simp
  · obtain ⟨some, place⟩ := not_or.mp whole
    obtain ⟨w, ws, rfl⟩ := List.exists_cons_of_ne_nil some
    obtain ⟨⟨p, rest⟩, found⟩ := Option.ne_none_iff_exists'.mp
      (mt splitAt?_eq_none_iff.mp place)
    obtain ⟨split, first⟩ := eq_of_splitAt? placeholder_ne_nil found
    refine ⟨p, filled ws (w.toList ++ '\'' :: (rest ++ '\'' :: more)), ?_, ?_⟩
    · rw [split, List.length_append, List.length_append, placeholder_eq]
      simp only [List.length_cons]
      omega
    · have filled := (free.append_quote first).filled_cons w ws (rest ++ '\'' :: more)
      rw [quotedBefore, (free.append_quote first).filled_append] at filled
      simpa [quotedBefore, split] using filled

/-- A filled template has the tokens of its pieces, and each text as one literal, just when all
texts come out whole. -/
theorem tokens?_filled_iff {first : List Char} {others : List (List Char)} {head : List Token}
    {tails : List (List Token)} (free : ∀ p ∈ first :: others, Placeless p)
    (read : tokens? first = some head)
    (reads : List.Forall₂ (fun p ts => tokens? p = some ts) others tails)
    (given : vs <+: us) :
    tokens? (filled vs (template first others)) = some (woven head tails us) ↔
      Whole others.length vs := by
  induction reads generalizing first head vs us with
  | nil =>
      have alone : template first [] = first := by simp [template]
      rw [alone, (free first List.mem_cons_self).filled_eq, read]
      simp [woven, whole_zero]
  | @cons p ts others tails read' reads ih =>
      obtain ⟨here, later⟩ := List.forall_mem_cons.mp free
      have opened : template first (p :: others) =
          first ++ (placeholder.toList ++ template p others) := by simp [template]
      rw [opened, List.length_cons]
      cases vs with
      | nil =>
          rw [filled, List.foldl_nil, tokens?_of_place read]
          simp [not_whole_nil]
      | cons v vs =>
          obtain ⟨us, rfl, within⟩ := List.cons_prefix_iff.mp given
          have tokens : woven head (ts :: tails) (v :: us) =
              head ++ .literal v :: woven ts tails us := by simp [woven]
          rw [here.filled_cons, whole_cons_iff, tokens]
          by_cases whole : '\'' ∉ v.toList ∧ (vs = [] ∨ Placeless v.toList)
          · rw [filled_quotedBefore here whole.2, tokens?_quotedBefore read whole.1,
              Option.map_eq_some_iff]
            rw [and_iff_right whole, ← ih later read' within]
            constructor
            · rintro ⟨rest, found, same⟩
              rw [found, (List.cons.inj (List.append_cancel_left same)).2]
            · exact fun found => ⟨_, found, rfl⟩
          · obtain ⟨p, rest, shorter, text⟩ :=
              exists_shorter here whole (template p others)
            rw [text]
            exact iff_of_false (tokens?_ne_of_shorter read shorter _ _) fun h => whole h.1

end Keyword

namespace Command

open Keyword (Placeless Whole IsPath template woven)
open XPath (Token tokens? tokens?_next tokens?_name endsName_cons)

variable {c : Command} {keywords : KeywordSet} {k : Keyword} {w : String}

/-- Texts that stand behind the operand of a verify command fill no place. -/
theorem fillings_settled (c : Command) : c.settled.fillings <+: c.fillings := by
  cases here : c.inIndex with
  | none =>
      have same : c.settled = c := by rw [settled, here]
      rw [same]
  | some i =>
      have verb : c.settled.verb = c.verb := verb_of_take (take_settled here)
      have code : c.settled.code <+: c.code := by
        rw [settled_eq here]
        split
        · exact List.take_prefix _ _
        · exact List.prefix_refl _
      have literals : c.settled.quotedLiterals <+: c.quotedLiterals := (code.filter _).map _
      rw [fillings, fillings, verb]
      split
      · exact literals.drop 1
      · exact literals.drop 1
      · exact literals.drop 1
      · exact literals

/-- What a keyword with places stands for is read as its pieces with a literal in each place, just
when the texts of the command come out whole. -/
theorem operand_tokens_iff {first : List Char} {others : List (List Char)} {head : List Token}
    {tails : List (List Token)} (operand : c.operand = some w) (name : ¬ IsPath (unquote w))
    (known : keywords.lookup (unquote w) = some k)
    (pieces : k.xpath.toList = template first others)
    (free : ∀ p ∈ first :: others, Placeless p) (read : tokens? first = some head)
    (reads : List.Forall₂ (fun p ts => tokens? p = some ts) others tails) :
    ∃ xpath, (c.resolve keywords).operand = some xpath ∧
      (tokens? xpath.toList = some (woven head tails c.fillings) ↔
        others = [] ∨ k.hasVariable ∧ Whole others.length c.settled.fillings) := by
  have named : c.keyword? keywords = some k := by
    rw [keyword?_of_operand operand, if_neg name, known]
  refine ⟨_, operand_resolve_of_named named, ?_⟩
  have filled {vs : List String} (given : vs <+: c.fillings) :=
    Keyword.tokens?_filled_iff free read reads given
  rw [Keyword.standsFor]
  split
  · next variable_ =>
      rw [Keyword.toList_fill, pieces, filled (fillings_settled c), and_iff_right variable_]
      constructor
      · exact .inr
      · rintro (rfl | whole)
        · exact Keyword.whole_zero _
        · exact whole
  · next fixed =>
      have unfilled := filled List.nil_prefix
      rw [Keyword.filled, List.foldl_nil, ← pieces] at unfilled
      rw [unfilled]
      cases others with
      | nil => simp [Keyword.whole_zero]
      | cons p ps => simp [fixed, Keyword.not_whole_nil]

namespace Sample

def table : KeywordSet := { ofPage := [.new "cell" "//tr[td=\x7b$\x7d]//td[.=\x7b$\x7d]"] }

/-- The second text has a place, a bracket and quotes of the other kind. -/
def cell : Command where
  line := 0
  code := ["click", "in", "'cell'", "'\x7b$\x7d \"]'"]
  src := "click on 'cell' '\x7b$\x7d \"]'"
  timeout := 0

theorem tokens_first : tokens? "//tr[td=".toList =
    some [.doubleSlash, .name "tr", .leftBracket, .name "td", .eq] := by
  change tokens? ('/' :: '/' :: (['t', 'r'] ++ '[' :: (['t', 'd'] ++ ['=']))) = _
  rw [tokens?_next rfl rfl, tokens?_name (by decide) (endsName_cons rfl _), tokens?_next rfl rfl,
    tokens?_name (by decide) (endsName_cons rfl _), tokens?_next rfl rfl, tokens?]
  rfl

theorem tokens_second : tokens? "]//td[.=".toList =
    some [.rightBracket, .doubleSlash, .name "td", .leftBracket, .dot, .eq] := by
  change tokens? (']' :: '/' :: '/' :: (['t', 'd'] ++ '[' :: ['.', '='])) = _
  rw [tokens?_next rfl rfl, tokens?_next rfl rfl, tokens?_name (by decide) (endsName_cons rfl _),
    tokens?_next rfl rfl, tokens?_next rfl rfl, tokens?_next rfl rfl, tokens?]
  rfl

theorem tokens_third : tokens? "]".toList = some [.rightBracket] := by
  change tokens? [']'] = _
  rw [tokens?_next rfl rfl, tokens?]
  rfl

end Sample

/-- The texts are the name and what follows it; the second has a place, and no text comes after. -/
theorem operand_tokens_iff_cell :
    ∃ xpath, (Sample.cell.resolve Sample.table).operand = some xpath ∧
      tokens? xpath.toList = some [.doubleSlash, .name "tr", .leftBracket, .name "td", .eq,
        .literal "cell", .rightBracket, .doubleSlash, .name "td", .leftBracket, .dot, .eq,
        .literal "\x7b$\x7d \"]", .rightBracket] := by
  obtain ⟨xpath, operand, read⟩ := @operand_tokens_iff Sample.cell Sample.table
    (.new "cell" "//tr[td=\x7b$\x7d]//td[.=\x7b$\x7d]") "'cell'" "//tr[td=".toList
    ["]//td[.=".toList, "]".toList] _ _ rfl (by decide) rfl rfl (by decide) Sample.tokens_first
    (.cons Sample.tokens_second (.cons Sample.tokens_third .nil))
  have texts : Sample.cell.fillings = ["cell", "\x7b$\x7d \"]"] := by decide
  have whole : Whole 2 Sample.cell.settled.fillings := ⟨by decide, by decide, by decide⟩
  have tokens := read.mpr (.inr ⟨rfl, whole⟩)
  rw [texts] at tokens
  exact ⟨xpath, operand, tokens⟩

end Command

end BrowserScript
