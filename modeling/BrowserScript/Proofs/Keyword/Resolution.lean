import BrowserScript.Keyword.Resolve

/-!
Looking up the keyword of a command. Only the operand changes, and what repeats it; a verify command
ends with its operand. What a keyword stands for is a path and names no keyword, so a second lookup
changes nothing more.
-/

namespace BrowserScript

namespace Keyword

/-- A path, which is no name. -/
def IsPath (s : String) : Prop := s.toList.head? = some '/'

instance (s : String) : Decidable (IsPath s) := inferInstanceAs (Decidable (_ = _))

theorem head?_replaceFirst {text : List Char} (path : text.head? = some '/') (by_ : List Char) :
    (Text.replaceFirst placeholder.toList by_ text).head? = some '/' := by
  obtain ⟨rest, rfl⟩ := List.head?_eq_some_iff.mp path
  have other : Text.after? placeholder.toList ('/' :: rest) = none := rfl
  rw [Text.replaceFirst, Text.splitAt?, other]
  cases Text.splitAt? placeholder.toList rest <;> rfl

/-- A text with its places filled, one after the other. -/
def filled (vs : List String) (text : List Char) : List Char :=
  vs.foldl (fun xpath v =>
    Text.replaceFirst placeholder.toList ('\'' :: v.toList ++ ['\'']) xpath) text

theorem toList_fill (template : String) (vs : List String) :
    (fill template vs).toList = filled vs template.toList := String.toList_ofList

theorem head?_filled {text : List Char} (path : text.head? = some '/') (vs : List String) :
    (filled vs text).head? = some '/' := by
  induction vs generalizing text with
  | nil => exact path
  | cons v vs ih => exact ih (head?_replaceFirst path _)

theorem isPath_fill {template : String} (path : IsPath template) (fillings : List String) :
    IsPath (fill template fillings) := by
  rw [IsPath, toList_fill]
  exact head?_filled path fillings

/-- What a keyword stands for in a command. -/
def standsFor (k : Keyword) (c : Command) : String :=
  if k.hasVariable then fill k.xpath c.fillings else k.xpath

theorem isPath_standsFor {k : Keyword} (path : IsPath k.xpath) (c : Command) :
    IsPath (k.standsFor c) := by
  unfold standsFor
  split
  · exact isPath_fill path _
  · exact path

end Keyword

theorem KeywordSet.mem_of_lookup {keywords : KeywordSet} {name : String} {k : Keyword}
    (found : keywords.lookup name = some k) : k ∈ keywords.ofPage ++ keywords.shared := by
  rw [lookup] at found
  cases ofPage : Keyword.lookup name keywords.ofPage with
  | some k' =>
      rw [ofPage] at found
      obtain rfl := Option.some.inj found
      exact List.mem_append_left _ (List.mem_of_find?_eq_some ofPage)
  | none =>
      rw [ofPage] at found
      exact List.mem_append_right _ (List.mem_of_find?_eq_some found)

namespace Command

open Keyword (IsPath)

variable {c d : Command} {keywords : KeywordSet} {i : Nat} {w : String} {k : Keyword}

theorem unquote_of_isPath (path : IsPath w) : unquote w = w := by
  rw [unquote, if_neg]
  rw [isQuoted, path]
  simp

/-- Where the first connective stands is settled by the words up to there. -/
theorem inIndex_of_take (same : d.code.take (i + 1) = c.code.take (i + 1))
    (here : c.inIndex = some i) : d.inIndex = some i := by
  have cut := congrArg (List.findIdx? (· == connective)) same
  rw [List.findIdx?_take, List.findIdx?_take] at cut
  change d.inIndex.bind _ = c.inIndex.bind _ at cut
  rw [here, Option.bind_some, Option.guard_pos (by simp)] at cut
  obtain ⟨j, there, guarded⟩ := Option.bind_eq_some_iff.mp cut
  rw [there, (Option.guard_eq_some_iff.mp guarded).1]

theorem verb_of_take (same : d.code.take (i + 1) = c.code.take (i + 1)) : d.verb = c.verb := by
  have first := congrArg List.head? same
  rwa [List.head?_take, List.head?_take, if_neg (Nat.succ_ne_zero i),
    if_neg (Nat.succ_ne_zero i)] at first

theorem operand_eq (here : c.inIndex = some i) : c.operand = c.code[i + 1]? := by
  rw [operand, here, Option.bind_some]

/-! ## The two changes -/

/-- A verify command without what follows its operand. Others stay as they are. -/
def settled (c : Command) : Command :=
  match c.inIndex with
  | some i => if c.isVerify then { c with code := c.code.take (i + 2) } else c
  | none => c

/-- The command with another operand, which the locator of a verification repeats. -/
def withOperand (c : Command) (w : String) : Command :=
  match c.inIndex with
  | some i =>
    { c with
      code := c.code.set (i + 1) w
      verifyLocator := if c.isVerify && c.verifyLocator.isSome then some w else c.verifyLocator }
  | none => c

/-- The keyword that a command names with its operand. -/
def keyword? (c : Command) (keywords : KeywordSet) : Option Keyword :=
  (c.locator.filter (·.toList.head? != some '/')).bind keywords.lookup

section Index

variable (here : c.inIndex = some i)
include here

theorem settled_eq :
    c.settled = { c with code := if c.isVerify then c.code.take (i + 2) else c.code } := by
  rw [settled, here]
  cases c.isVerify <;> rfl

theorem withOperand_eq (w : String) : c.withOperand w =
    { c with
      code := c.code.set (i + 1) w
      verifyLocator :=
        if c.isVerify && c.verifyLocator.isSome then some w else c.verifyLocator } := by
  rw [withOperand, here]

theorem take_settled : c.settled.code.take (i + 1) = c.code.take (i + 1) := by
  rw [settled_eq here]
  split
  · exact List.take_take.trans (congrArg (c.code.take ·) (Nat.min_eq_left (Nat.le_succ _)))
  · rfl

theorem take_withOperand (w : String) :
    (c.withOperand w).code.take (i + 1) = c.code.take (i + 1) := by
  rw [withOperand_eq here]
  exact List.take_set_of_le (Nat.le_refl _)

theorem drop_settled :
    c.settled.code.drop (i + 2) = if c.isVerify then [] else c.code.drop (i + 2) := by
  rw [settled_eq here]
  split
  · exact List.drop_take_self
  · rfl

theorem drop_withOperand (w : String) :
    (c.withOperand w).code.drop (i + 2) = c.code.drop (i + 2) := by
  rw [withOperand_eq here]
  exact List.drop_set_of_lt (Nat.lt_succ_self _)

theorem inIndex_settled : c.settled.inIndex = some i := inIndex_of_take (take_settled here) here

theorem inIndex_withOperand (w : String) : (c.withOperand w).inIndex = some i :=
  inIndex_of_take (take_withOperand here w) here

theorem operand_settled : c.settled.operand = c.operand := by
  rw [operand_eq (inIndex_settled here), operand_eq here, settled_eq here]
  split
  · exact List.getElem?_take_of_lt (Nat.lt_succ_self _)
  · rfl

theorem operand_withOperand (some : c.operand.isSome) (w : String) :
    (c.withOperand w).operand = .some w := by
  rw [operand_eq here] at some
  obtain ⟨old, there⟩ := Option.isSome_iff_exists.mp some
  obtain ⟨within, -⟩ := List.getElem?_eq_some_iff.mp there
  rw [operand_eq (inIndex_withOperand here w), withOperand_eq here]
  exact List.getElem?_set_self within

theorem settled_of_drop (ends : c.isVerify → c.code.drop (i + 2) = []) : c.settled = c := by
  rw [settled_eq here]
  split
  · next verify => rw [List.take_of_length_le (List.drop_eq_nil_iff.mp (ends verify))]
  · rfl

end Index

theorem keyword?_of_operand (there : c.operand = some w) (keywords : KeywordSet) :
    c.keyword? keywords = if IsPath (unquote w) then none else keywords.lookup (unquote w) := by
  rw [keyword?, locator, there, Option.map_some, Option.filter_some]
  by_cases path : IsPath (unquote w)
  · rw [if_pos path, if_neg (by rw [path]; decide)]
    rfl
  · rw [if_neg path, if_pos (by simpa [IsPath] using path)]
    rfl

theorem keyword?_of_no_operand (missing : c.operand = none) (keywords : KeywordSet) :
    c.keyword? keywords = none := by
  rw [keyword?, locator, missing]
  rfl

theorem settled_of_no_operand (missing : c.operand = none) : c.settled = c := by
  cases here : c.inIndex with
  | none => rw [settled, here]
  | some i =>
      rw [operand_eq here, List.getElem?_eq_none_iff] at missing
      exact settled_of_drop here fun _ => List.drop_eq_nil_iff.mpr (Nat.le_succ_of_le missing)

/-- A lookup settles the command, and puts what a keyword stands for in its place. -/
theorem resolve_eq (c : Command) (keywords : KeywordSet) : c.resolve keywords =
    match c.keyword? keywords with
    | none => c.settled
    | some k => c.settled.withOperand (k.standsFor c.settled) := by
  cases here : c.inIndex with
  | none =>
      have missing : c.operand = none := by rw [operand, here]; rfl
      rw [resolve, here, keyword?_of_no_operand missing, settled_of_no_operand missing]
  | some i =>
      cases there : c.operand with
      | none =>
          rw [keyword?_of_no_operand there, settled_of_no_operand there]
          rw [operand_eq here] at there
          rw [resolve, here]
          simp only [there]
      | some w =>
          have kept : (if c.isVerify = true then { c with code := c.code.take (i + 2) } else c) =
              c.settled := by rw [settled, here]
          rw [keyword?_of_operand there]
          rw [operand_eq here] at there
          rw [resolve, here]
          simp only [there, kept]
          by_cases path : IsPath (unquote w)
          · rw [if_pos path, if_pos (by simpa [IsPath] using path)]
          · rw [if_neg path, if_neg (by simpa [IsPath] using path)]
            cases keywords.lookup (unquote w) with
            | none => rfl
            | some k => exact (withOperand_eq (inIndex_settled here) _).symm

theorem resolve_of_unnamed (unnamed : c.keyword? keywords = none) :
    c.resolve keywords = c.settled := by
  rw [resolve_eq, unnamed]

theorem resolve_of_named (named : c.keyword? keywords = some k) :
    c.resolve keywords = c.settled.withOperand (k.standsFor c.settled) := by
  rw [resolve_eq, named]

/-! ## What stays -/

theorem settled_frame (c : Command) : c.settled = { c with code := c.settled.code } := by
  unfold settled
  split
  · split <;> rfl
  · rfl

theorem withOperand_frame (c : Command) (w : String) : c.withOperand w =
    { c with
      code := (c.withOperand w).code
      verifyLocator := (c.withOperand w).verifyLocator } := by
  unfold withOperand
  split <;> rfl

theorem exists_index_of_named (named : c.keyword? keywords = some k) :
    ∃ i w, c.inIndex = some i ∧ c.operand = some w ∧ ¬ IsPath (unquote w) ∧
      keywords.lookup (unquote w) = some k := by
  cases there : c.operand with
  | none =>
      rw [keyword?_of_no_operand there] at named
      cases named
  | some w =>
      obtain ⟨i, here, -⟩ := Option.bind_eq_some_iff.mp there
      rw [keyword?_of_operand there] at named
      split at named
      · cases named
      · next relative => exact ⟨i, w, here, rfl, relative, named⟩

/-- A lookup keeps the words before the operand, and those behind it of a command that does not
verify. -/
theorem resolve_around (here : c.inIndex = some i) (keywords : KeywordSet) :
    (c.resolve keywords).code.take (i + 1) = c.code.take (i + 1) ∧
      (c.resolve keywords).code.drop (i + 2) =
        if c.isVerify then [] else c.code.drop (i + 2) := by
  have there := inIndex_settled here
  cases named : c.keyword? keywords with
  | none =>
      rw [resolve_of_unnamed named]
      exact ⟨take_settled here, drop_settled here⟩
  | some k =>
      rw [resolve_of_named named, take_withOperand there, drop_withOperand there]
      exact ⟨take_settled here, drop_settled here⟩

theorem resolve_inIndex (c : Command) (keywords : KeywordSet) :
    (c.resolve keywords).inIndex = c.inIndex := by
  cases here : c.inIndex with
  | some i => exact inIndex_of_take (resolve_around here keywords).1 here
  | none => rw [resolve, here, here]

theorem resolve_verb (c : Command) (keywords : KeywordSet) :
    (c.resolve keywords).verb = c.verb := by
  cases here : c.inIndex with
  | some i => exact verb_of_take (resolve_around here keywords).1
  | none => rw [resolve, here]

theorem settled_resolve (c : Command) (keywords : KeywordSet) :
    (c.resolve keywords).settled = c.resolve keywords := by
  cases here : c.inIndex with
  | none => rw [settled, resolve_inIndex, here]
  | some i =>
      refine settled_of_drop ((resolve_inIndex c keywords).trans here) fun verify => ?_
      rw [isVerify, resolve_verb] at verify
      rw [(resolve_around here keywords).2]
      exact if_pos verify

theorem operand_resolve_of_unnamed (unnamed : c.keyword? keywords = none) :
    (c.resolve keywords).operand = c.operand := by
  rw [resolve_of_unnamed unnamed]
  cases here : c.inIndex with
  | none => rw [settled, here]
  | some i => exact operand_settled here

theorem operand_resolve_of_named (named : c.keyword? keywords = some k) :
    (c.resolve keywords).operand = some (k.standsFor c.settled) := by
  obtain ⟨i, w, here, there, -⟩ := exists_index_of_named named
  rw [resolve_of_named named]
  refine operand_withOperand (inIndex_settled here) ?_ _
  rw [operand_settled here, there]
  rfl

/-- What a keyword stands for is a path, so after a lookup no keyword is named. -/
theorem keyword?_resolve (paths : ∀ k ∈ keywords.ofPage ++ keywords.shared, IsPath k.xpath)
    (c : Command) : (c.resolve keywords).keyword? keywords = none := by
  cases named : c.keyword? keywords with
  | none => rw [keyword?, locator, operand_resolve_of_unnamed named, ← locator, ← keyword?, named]
  | some k =>
      obtain ⟨_, _, -, -, -, found⟩ := exists_index_of_named named
      have path : IsPath (k.standsFor c.settled) :=
        Keyword.isPath_standsFor (paths k (KeywordSet.mem_of_lookup found)) _
      rw [keyword?_of_operand (operand_resolve_of_named named), unquote_of_isPath path, if_pos path]

theorem verifyLocator_resolve (c : Command) (keywords : KeywordSet) :
    (c.resolve keywords).verifyLocator = c.verifyLocator ∨
      c.isVerify ∧ c.verifyLocator.isSome ∧
        (c.resolve keywords).verifyLocator = (c.resolve keywords).operand := by
  cases named : c.keyword? keywords with
  | none =>
      rw [resolve_of_unnamed named, settled_frame]
      exact .inl rfl
  | some k =>
      obtain ⟨i, _, here, -⟩ := exists_index_of_named named
      have verb : c.settled.isVerify = c.isVerify := by
        rw [isVerify, verb_of_take (take_settled here), ← isVerify]
      have located : c.settled.verifyLocator = c.verifyLocator := by rw [settled_frame]
      rw [operand_resolve_of_named named, resolve_of_named named,
        withOperand_eq (inIndex_settled here), verb, located]
      dsimp only
      split
      · next both =>
          obtain ⟨verify, some⟩ := Bool.and_eq_true_iff.mp both
          exact .inr ⟨verify, some, rfl⟩
      · exact .inl rfl

/-- What a lookup of keywords may make of a command. The commands below it are no part of it. -/
structure Resolved (keywords : KeywordSet) (c r : Command) : Prop where
  frame : r = { c with code := r.code, verifyLocator := r.verifyLocator }
  verb : r.verb = c.verb
  inIndex : r.inIndex = c.inIndex
  around : ∀ i, c.inIndex = some i → r.code.take (i + 1) = c.code.take (i + 1) ∧
    r.code.drop (i + 2) = if c.isVerify then [] else c.code.drop (i + 2)
  without : c.operand = none → r = c
  unnamed : ∀ w, c.operand = some w →
    (IsPath w ∨ IsPath (unquote w) ∨ keywords.lookup (unquote w) = none) →
      r.operand = some w ∧ r.verifyLocator = c.verifyLocator
  named : ∀ w k, c.operand = some w → ¬ IsPath (unquote w) →
    keywords.lookup (unquote w) = some k → r.operand = some (k.standsFor c.settled)
  mirrored : r.verifyLocator = c.verifyLocator ∨
    c.isVerify ∧ c.verifyLocator.isSome ∧ r.verifyLocator = r.operand

theorem resolved_resolve (c : Command) (keywords : KeywordSet) :
    Resolved keywords c (c.resolve keywords) where
  frame := by
    cases named : c.keyword? keywords with
    | none => rw [resolve_of_unnamed named, settled_frame]
    | some k =>
        rw [resolve_of_named named, withOperand_frame, settled_frame]
  verb := resolve_verb c keywords
  inIndex := resolve_inIndex c keywords
  around _ here := resolve_around here keywords
  without missing := by
    rw [resolve_of_unnamed (keyword?_of_no_operand missing keywords), settled_of_no_operand missing]
  unnamed w there kept := by
    have unnamed : c.keyword? keywords = none := by
      rw [keyword?_of_operand there]
      rcases kept with path | path | unknown
      · exact if_pos ((unquote_of_isPath path).symm ▸ path)
      · exact if_pos path
      · rw [unknown, ite_self]
    rw [operand_resolve_of_unnamed unnamed, resolve_of_unnamed unnamed, settled_frame]
    exact ⟨there, rfl⟩
  named w k there relative found := by
    refine operand_resolve_of_named ?_
    rw [keyword?_of_operand there, if_neg relative, found]
  mirrored := verifyLocator_resolve c keywords

/-- Where all keywords stand for paths, a lookup changes the operand and what goes with it only, and
a second lookup changes nothing. -/
theorem resolve_settles
    (paths : ∀ k ∈ keywords.ofPage ++ keywords.shared, IsPath k.xpath) (c : Command) :
    Resolved keywords c (c.resolve keywords) ∧
      (c.resolve keywords).resolve keywords = c.resolve keywords :=
  ⟨resolved_resolve c keywords,
    (resolve_of_unnamed (keyword?_resolve paths c)).trans (settled_resolve c keywords)⟩

namespace Sample

def banners : KeywordSet := { shared := [.new "banner" "//div[@id=\x7b$\x7d]"] }

/-- A statement with a second connective, whose locator is a keyword. -/
def greeting : Command where
  line := 3
  code := ["verify", "\"Hi\"", "in", "\"banner\"", "in", "\"footer\""]
  src := "verify 'Hi' in 'banner' in 'footer'"
  timeout := 0
  verifyLocator := some "banner"

def greetingResolved : Command :=
  { greeting with
    code := ["verify", "\"Hi\"", "in", "//div[@id='banner']"]
    verifyLocator := some "//div[@id='banner']" }

theorem resolve_greeting : greeting.resolve banners = greetingResolved := by decide +kernel

end Sample

theorem resolve_settles_greeting :
    (∀ k ∈ Sample.banners.ofPage ++ Sample.banners.shared, IsPath k.xpath) ∧
      Resolved Sample.banners Sample.greeting Sample.greetingResolved ∧
        Sample.greetingResolved.resolve Sample.banners = Sample.greetingResolved := by
  have paths : ∀ k ∈ Sample.banners.ofPage ++ Sample.banners.shared, IsPath k.xpath := by
    decide +kernel
  have settles := resolve_settles paths Sample.greeting
  rw [Sample.resolve_greeting] at settles
  exact ⟨paths, settles⟩

end Command

end BrowserScript
