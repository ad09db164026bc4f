import BrowserScript.Proofs.Selector.Accepted
import BrowserScript.Proofs.XPath.Reading

/-!
Selectors written as expressions. A compound is a step to its tag, or to any element, with one
predicate for each test; a chain starts anywhere below the document and goes on below or to a child;
groups are united. The text is read back as the expression it is meant to be.
-/

namespace BrowserScript

open XPath (Token Expr Step NodeTest Reader Reads tokens? tokens?_blank tokens?_next tokens?_comma
  tokens?_sign tokens?_name EndsName endsName_cons attributeOf callTokens)

namespace Selector

/-- A test that an element with the tag has to pass. -/
inductive Test
  | has (name : String)
  | equals (name value : String)
  | classed (name : String)
deriving DecidableEq

def AttributeTest.test (t : AttributeTest) : Test :=
  (t.value.map (.equals t.name)).getD (.has t.name)

def Compound.tests (c : Compound) : List Test :=
  c.id.toList.map (.equals "id") ++ c.classes.map .classed ++ c.attributes.map (·.test)

theorem forall_mem_tests {c : Compound} {p : Test → Prop} (id : ∀ value, p (.equals "id" value))
    (classes : ∀ name ∈ c.classes, p (.classed name)) (attributes : ∀ t ∈ c.attributes, p t.test) :
    ∀ t ∈ c.tests, p t := by
  intro t mem
  rw [Compound.tests, List.mem_append, List.mem_append, List.mem_map, List.mem_map,
    List.mem_map] at mem
  rcases mem with (⟨value, -, rfl⟩ | ⟨name, mem, rfl⟩) | ⟨t, mem, rfl⟩
  · exact id value
  · exact classes name mem
  · exact attributes t mem

/-! ## Texts -/

/-- What stands between the brackets of a predicate. -/
def Test.condition : Test → String
  | .has name => "@" ++ name
  | .equals name value => "@" ++ name ++ "=" ++ Locator.literal value
  | .classed name =>
    "contains(concat(' ', normalize-space(@class), ' '), " ++ Locator.literal (" " ++ name ++ " ")
      ++ ")"

def Test.xpath (t : Test) : String := "[" ++ t.condition ++ "]"

def Compound.xpath (c : Compound) : String :=
  c.tag.getD "*" ++ String.join (c.tests.map Test.xpath)

def Combinator.xpath : Combinator → String
  | .descendant => "//"
  | .child => "/"

def Chain.xpath : Chain → String
  | .one c => "//" ++ c.xpath
  | .next front k c => front.xpath ++ k.xpath ++ c.xpath

end Selector

/-- The groups of a selector as a union of paths. -/
def Selector.xpath (s : Selector) : String := " | ".intercalate (s.chains.map Selector.Chain.xpath)

namespace Selector

/-! ## Tokens -/

/-- The tokens between the brackets of a predicate. -/
def Test.tokens : Test → List Token
  | .has name => [.at, .name name]
  | .equals name value => .at :: .name name :: .eq :: Locator.literalTokens value
  | .classed name =>
    callTokens .contains
      [callTokens .concat
        [[.literal " "], callTokens .normalizeSpace [[.at, .name "class"]], [.literal " "]],
        Locator.literalTokens (" " ++ name ++ " ")]

def Compound.tokens (c : Compound) : List Token :=
  (c.tag.map Token.name).getD .star ::
    c.tests.flatMap fun t => .leftBracket :: (t.tokens ++ [.rightBracket])

def Combinator.token : Combinator → Token
  | .descendant => .doubleSlash
  | .child => .slash

/-- The tokens after the first slashes. -/
def Chain.tokens : Chain → List Token
  | .one c => c.tokens
  | .next front k c => front.tokens ++ k.token :: c.tokens

/-- The tokens of the first group and of all others. -/
def groupTokens (first : Chain) (more : List Chain) : List Token :=
  .doubleSlash :: first.tokens ++ more.flatMap fun c => .pipe :: .doubleSlash :: c.tokens

/-! ## Expressions -/

def Test.expr : Test → Expr
  | .has name => attributeOf name
  | .equals name value => .compare .eq (attributeOf name) (Locator.literalExpr value)
  | .classed name =>
    .call .contains
      [.call .concat [.literal " ", .call .normalizeSpace [attributeOf "class"], .literal " "],
        Locator.literalExpr (" " ++ name ++ " ")]

def Compound.nodeTest (c : Compound) : NodeTest :=
  (c.tag.map fun t => NodeTest.name (Text.asciiLowered t)).getD .any

def Compound.step (c : Compound) : Step := .step .child c.nodeTest (c.tests.map Test.expr)

/-- The steps after the first one, which leads anywhere below the document. -/
def Chain.steps : Chain → List Step
  | .one c => [c.step]
  | .next front .descendant c => front.steps ++ [.anywhere, c.step]
  | .next front .child c => front.steps ++ [c.step]

def Chain.path (c : Chain) : Expr := .path true (.anywhere :: c.steps)

/-- The expression of several groups. -/
def unionOf (first : Chain) (more : List Chain) : Expr :=
  if more.isEmpty then first.path else .union ((first :: more).map Chain.path)

/-! ## From tokens to expressions -/

open XPath (expr disjunction)

variable {inner : Reader Expr} {rest : List Token} {c : Compound} {t : Test}

theorem equality_equals (name value : String) (ends : XPath.Ends 4 rest) :
    XPath.equality (disjunction inner) ((Test.equals name value).tokens ++ rest) =
      some ((Test.equals name value).expr, rest) :=
  XPath.equality_of_paths (XPath.path_attribute name (XPath.ends_cons (by decide) _))
    (Locator.path_literal value (ends.mono (by decide))) (List.suffix_append ..).length_le ends

/-- The conditions of a predicate are at most four brackets deep. -/
theorem reads_test (depth : Nat) (t : Test) : Reads (expr (depth + 4)) t.tokens t.expr := by
  cases t with
  | has name => exact XPath.reads_attribute _ name
  | equals name value =>
      refine ⟨fun more rest same => (by cases same), fun rest ends => ?_⟩
      exact XPath.readerAt_of_le (r := 2) (k := 4) (by decide) (by decide) (by decide)
        (equality_equals name value (ends.mono (by decide))) (ends.mono (by decide))
  | classed name =>
      have space : Reads (expr (depth + 2)) [.literal " "] (.literal " ") :=
        XPath.reads_literal _ " "
      have normalized := XPath.reads_call .normalizeSpace
        (.cons (XPath.reads_attribute (expr depth) "class") .nil) rfl
      have joined := XPath.reads_call .concat
        (.cons space (.cons normalized (.cons space .nil))) rfl
      have name := Locator.reads_literal (expr (depth + 1)) (" " ++ name ++ " ")
      exact XPath.reads_call .contains (.cons joined (.cons name .nil)) rfl

/-- Behind a compound a step begins or ends, but goes not on. -/
theorem step_compound (reads : ∀ t ∈ c.tests, Reads inner t.tokens t.expr)
    (ends : XPath.Ends 9 rest) : XPath.step inner (c.tokens ++ rest) = some (c.step, rest) := by
  have read := XPath.predicates_each reads (ends.ne (by decide))
  refine XPath.step_child c.tag ?_ ?_ read <;>
  · intro ts
    cases c.tests with
    | nil => exact ends.ne (by decide) ts
    | cons t more =>
        intro same
        cases same

theorem ends_combinator (k : Combinator) (ts : List Token) : XPath.Ends 9 (k.token :: ts) := by
  cases k <;> exact XPath.ends_cons (by decide) ts

/-- All steps of a chain are read up to the next group. -/
theorem steps_chain (chain : Chain)
    (reads : ∀ c ∈ chain.compounds, ∀ t ∈ c.tests, Reads inner t.tokens t.expr)
    (ends : XPath.Ends 8 rest) :
    XPath.steps inner (chain.tokens ++ rest) = some (chain.steps, rest) := by
  obtain ⟨round, start, next, stop⟩ := XPath.steps_rounds inner
  -- a chain is read from its front on, so what follows the front is general
  have fronts : ∀ rest, XPath.Ends 9 rest →
      XPath.steps inner (chain.tokens ++ rest) = Text.loop round chain.steps rest := by
    clear ends
    induction chain with
    | one c =>
        intro rest ends
        exact start _ _ _ (step_compound (reads c List.mem_cons_self) ends)
    | next front k c ih =>
        intro rest ends
        have last := step_compound (reads c (List.mem_append_right _ List.mem_cons_self)) ends
        have text : (Chain.next front k c).tokens ++ rest =
            front.tokens ++ k.token :: (c.tokens ++ rest) := by
          simp [Chain.tokens]
        have less : rest.length < (k.token :: (c.tokens ++ rest)).length :=
          Nat.lt_succ_of_le (List.suffix_append ..).length_le
        obtain ⟨slash, slashes⟩ := next front.steps _ _ _ last
        rw [text, ih (fun c mem => reads c (List.mem_append_left _ mem)) _ (ends_combinator k _)]
        cases k with
        | child => exact Text.loop_next slash less
        | descendant => exact Text.loop_next slashes less
  rw [fronts rest (ends.mono (Nat.le_succ 8))]
  exact Text.loop_stop (stop _ _ (ends.ne (by decide)) (ends.ne (by decide)))

theorem path_chain (chain : Chain)
    (reads : ∀ c ∈ chain.compounds, ∀ t ∈ c.tests, Reads inner t.tokens t.expr)
    (ends : XPath.Ends 8 rest) :
    XPath.path inner (.doubleSlash :: chain.tokens ++ rest) = some (chain.path, rest) := by
  simp [XPath.path, steps_chain chain reads ends, Chain.path]

/-! Nothing is deeper than it has tokens. -/

theorem sublist_flatMap {α β : Type} {a : α} {as : List α} (mem : a ∈ as) (f : α → List β) :
    (f a).Sublist (as.flatMap f) :=
  List.sublist_flatten_of_mem (List.mem_map_of_mem mem)

theorem four_le_length_compound (mem : t ∈ c.tests) : 4 ≤ c.tokens.length := by
  have short : 2 ≤ t.tokens.length := by
    cases t <;> simp [Test.tokens, callTokens]
  have part := (sublist_flatMap mem fun t => Token.leftBracket :: (t.tokens ++ [.rightBracket]))
  have length := part.length_le
  rw [List.length_cons, List.length_append, List.length_singleton] at length
  rw [Compound.tokens, List.length_cons]
  omega

theorem sublist_chain {chain : Chain} (mem : c ∈ chain.compounds) :
    c.tokens.Sublist chain.tokens := by
  induction chain with
  | one d =>
      obtain rfl := List.mem_singleton.mp mem
      exact .refl _
  | next front k d ih =>
      obtain before | last := List.mem_append.mp mem
      · exact (ih before).trans (List.sublist_append_left ..)
      · obtain rfl := List.mem_singleton.mp last
        exact (List.sublist_cons_self ..).trans (List.sublist_append_right ..)

theorem sublist_groups {chain first : Chain} {more : List Chain} (mem : chain ∈ first :: more) :
    chain.tokens.Sublist (groupTokens first more) := by
  obtain rfl | later := List.mem_cons.mp mem
  · exact (List.sublist_cons_self ..).trans (List.sublist_append_left ..)
  · have part := sublist_flatMap later fun c => Token.pipe :: .doubleSlash :: c.tokens
    exact ((List.sublist_cons_self ..).trans (List.sublist_cons_self ..)).trans
      (part.trans (List.sublist_append_right ..))

theorem ofTokens?_groups (first : Chain) (more : List Chain) :
    Expr.ofTokens? (groupTokens first more) = some (unionOf first more) := by
  have reads : ∀ chain ∈ first :: more, ∀ c ∈ chain.compounds, ∀ t ∈ c.tests,
      Reads (expr (groupTokens first more).length) t.tokens t.expr := by
    intro chain mem c mem' t mem''
    have deep := Nat.le_trans (four_le_length_compound mem'')
      ((sublist_chain mem').trans (sublist_groups mem)).length_le
    obtain ⟨depth, length⟩ := Nat.exists_eq_add_of_le' deep
    rw [length]
    exact reads_test depth t
  have whole : XPath.union (expr (groupTokens first more).length) (groupTokens first more) =
      some (unionOf first more, []) := by
    have read := XPath.union_each
      (fun chain mem rest ends => path_chain chain (reads chain mem) ends) (XPath.ends_nil 7)
    rwa [List.append_nil] at read
  simp only [Expr.ofTokens?, expr, XPath.disjunction_of_union whole]

/-! ## From texts to tokens -/

/-- The names of attributes a test speaks of. -/
def Test.names : Test → List String
  | .has name | .equals name _ => [name]
  | .classed _ => []

/-- The classes of an element between single spaces, as the test of a class speaks of them. -/
theorem tokens?_spacedClasses (rest : List Char) :
    tokens? ("concat(' ', normalize-space(@class), ' ')".toList ++ rest) =
      (tokens? rest).map (callTokens .concat
        [[.literal " "], callTokens .normalizeSpace [[.at, .name "class"]], [.literal " "]] ++ ·) := by
  have left := tokens?_sign '(' rfl (fun _ => rfl)
  have right := tokens?_sign ')' rfl (fun _ => rfl)
  have space (cs : List Char) :
      tokens? ('\'' :: ([' '] ++ '\'' :: cs)) = (tokens? cs).map (.literal " " :: ·) :=
    XPath.tokens?_quoted (.inr rfl) (by decide) cs
  have text : "concat(' ', normalize-space(@class), ' ')".toList ++ rest =
      "concat".toList ++ '(' :: '\'' :: ([' '] ++ '\'' :: ',' :: ' ' ::
        ("normalize-space".toList ++ '(' :: '@' :: ("class".toList ++ ')' ::
          ',' :: ' ' :: '\'' :: ([' '] ++ '\'' :: ')' :: rest)))) := rfl
  rw [text, tokens?_name rfl (endsName_cons rfl _), left, space, tokens?_comma,
    tokens?_name rfl (endsName_cons rfl _), left, tokens?_sign '@' rfl (fun _ => rfl),
    tokens?_name rfl (endsName_cons rfl _), right, tokens?_comma, space, right]
  simp [Function.comp_def, callTokens, XPath.listed, XPath.Function.word]

theorem tokens?_condition (t : Test) (named : ∀ name ∈ t.names, Token.isName name.toList)
    {rest : List Char} (ends : EndsName rest) :
    tokens? (t.condition.toList ++ rest) = (tokens? rest).map (t.tokens ++ ·) := by
  have sign := tokens?_sign '@' rfl (fun _ => rfl)
  cases t with
  | has name =>
      have text : (Test.has name).condition.toList ++ rest = '@' :: (name.toList ++ rest) := by
        change ("@" ++ name).toList ++ rest = _
        simp
      rw [text, sign, tokens?_name (named name List.mem_cons_self) ends]
      simp [Function.comp_def, Test.tokens]
  | equals name value =>
      have text : (Test.equals name value).condition.toList ++ rest =
          '@' :: (name.toList ++ '=' :: ((Locator.literal value).toList ++ rest)) := by
        change ("@" ++ name ++ "=" ++ Locator.literal value).toList ++ rest = _
        simp
      rw [text, sign, tokens?_name (named name List.mem_cons_self) (endsName_cons rfl _),
        tokens?_sign '=' rfl (fun _ => rfl), Locator.tokens?_literal]
      simp [Function.comp_def, Test.tokens]
  | classed name =>
      have text : (Test.classed name).condition.toList ++ rest =
          "contains".toList ++ '(' :: ("concat(' ', normalize-space(@class), ' ')".toList ++
            ',' :: ' ' :: ((Locator.literal (" " ++ name ++ " ")).toList ++ ')' :: rest)) := by
        change ("contains(concat(' ', normalize-space(@class), ' '), " ++
          Locator.literal (" " ++ name ++ " ") ++ ")").toList ++ rest = _
        simp
      rw [text, tokens?_name rfl (endsName_cons rfl _), tokens?_sign '(' rfl (fun _ => rfl),
        tokens?_spacedClasses, tokens?_comma, Locator.tokens?_literal,
        tokens?_sign ')' rfl (fun _ => rfl)]
      simp [Function.comp_def, Test.tokens, callTokens, XPath.listed, XPath.Function.word]

theorem tokens?_test (t : Test) (named : ∀ name ∈ t.names, Token.isName name.toList)
    (rest : List Char) :
    tokens? (t.xpath.toList ++ rest) =
      (tokens? rest).map (.leftBracket :: (t.tokens ++ [.rightBracket]) ++ ·) := by
  have text : t.xpath.toList ++ rest = '[' :: (t.condition.toList ++ ']' :: rest) := by
    simp [Test.xpath]
  rw [text, tokens?_sign '[' rfl (fun _ => rfl), tokens?_condition t named (endsName_cons rfl rest),
    tokens?_sign ']' rfl (fun _ => rfl)]
  simp [Function.comp_def]

theorem tokens?_tests {ts : List Test}
    (named : ∀ t ∈ ts, ∀ name ∈ t.names, Token.isName name.toList) (rest : List Char) :
    tokens? ((String.join (ts.map Test.xpath)).toList ++ rest) =
      (tokens? rest).map
        ((ts.flatMap fun t => .leftBracket :: (t.tokens ++ [.rightBracket])) ++ ·) := by
  induction ts with
  | nil => simp
  | cons t ts ih =>
      obtain ⟨first, named⟩ := List.forall_mem_cons.mp named
      have read := tokens?_test t first ((String.join (ts.map Test.xpath)).toList ++ rest)
      rw [ih named, Option.map_map] at read
      simpa [Function.comp_def] using read

/-- The names of a compound can be written in expressions. -/
structure Compound.Named (c : Compound) : Prop where
  tag : ∀ name ∈ c.tag, Token.isName name.toList
  tests : ∀ t ∈ c.tests, ∀ name ∈ t.names, Token.isName name.toList

theorem tokens?_compound (named : c.Named) {rest : List Char} (ends : EndsName rest) :
    tokens? (c.xpath.toList ++ rest) = (tokens? rest).map (c.tokens ++ ·) := by
  have tests := tokens?_tests named.tests rest
  have follows : EndsName ((String.join (c.tests.map Test.xpath)).toList ++ rest) := by
    cases c.tests with
    | nil => simpa using ends
    | cons t ts =>
        have text : (String.join ((t :: ts).map Test.xpath)).toList ++ rest =
            '[' :: (t.condition.toList ++ ']' ::
              ((String.join (ts.map Test.xpath)).toList ++ rest)) := by
          simp [Test.xpath]
        rw [text]
        exact endsName_cons rfl _
  rw [Compound.xpath, Compound.tokens, String.toList_append, List.append_assoc]
  cases tag : c.tag with
  | none =>
      have star := tokens?_sign '*' rfl (fun _ => rfl)
        ((String.join (c.tests.map Test.xpath)).toList ++ rest)
      rw [tests] at star
      simpa [Function.comp_def] using star
  | some name =>
      have read := tokens?_name (named.tag name tag) follows
      rw [tests] at read
      simpa [Function.comp_def] using read

theorem tokens?_combinator (k : Combinator) {rest : List Char} (other : ∀ cs, rest ≠ '/' :: cs) :
    tokens? (k.xpath.toList ++ rest) = (tokens? rest).map (k.token :: ·) := by
  cases k with
  | descendant =>
      have text : Combinator.descendant.xpath.toList ++ rest = '/' :: '/' :: rest := rfl
      rw [text]
      exact tokens?_next rfl rfl
  | child =>
      have text : Combinator.child.xpath.toList ++ rest = '/' :: rest := rfl
      rw [text]
      exact tokens?_next rfl (Token.next?_slash other)

/-- A compound begins with a sign or a name, never with a slash. -/
theorem Compound.Named.begins (named : c.Named) (rest cs : List Char) :
    c.xpath.toList ++ rest ≠ '/' :: cs := by
  rw [Compound.xpath, String.toList_append, List.append_assoc]
  cases tag : c.tag with
  | none =>
      intro same
      exact absurd (List.cons.inj same).1 (by decide)
  | some name =>
      have start := (Bool.and_eq_true_iff.mp (named.tag name tag)).1
      rw [Option.getD_some]
      cases letters : name.toList with
      | nil =>
          rw [letters] at start
          cases start
      | cons d ds =>
          rw [letters] at start
          intro same
          obtain rfl := (List.cons.inj same).1
          have start : Token.isNameStart '/' := start
          exact absurd start (by decide)

theorem tokens?_chain {chain : Chain} (named : ∀ c ∈ chain.compounds, c.Named) {rest : List Char}
    (ends : EndsName rest) :
    tokens? (chain.xpath.toList ++ rest) =
      (tokens? rest).map (.doubleSlash :: chain.tokens ++ ·) := by
  induction chain generalizing rest with
  | one c =>
      have named := named c List.mem_cons_self
      have read := tokens?_combinator .descendant (named.begins rest)
      rw [tokens?_compound named ends, Option.map_map] at read
      rw [Chain.xpath, String.toList_append, List.append_assoc]
      exact read
  | next front k c ih =>
      have last := named c (List.mem_append_right _ List.mem_cons_self)
      have slash : EndsName (k.xpath.toList ++ (c.xpath.toList ++ rest)) := by
        cases k <;> exact endsName_cons rfl _
      have read := ih (fun c mem => named c (List.mem_append_left _ mem)) slash
      rw [tokens?_combinator k (last.begins rest), tokens?_compound last ends, Option.map_map,
        Option.map_map] at read
      simpa [Chain.xpath, Chain.tokens, Function.comp_def] using read

theorem toList_groups (first : String) (more : List String) :
    (" | ".intercalate (first :: more)).toList =
      first.toList ++ more.flatMap fun s => ' ' :: '|' :: ' ' :: s.toList := by
  rw [String.toList_intercalate]
  exact Text.intercalate_map_cons [' ', '|', ' '] String.toList first more

theorem tokens?_groups {first : Chain} {more : List Chain}
    (named : ∀ chain ∈ first :: more, ∀ c ∈ chain.compounds, c.Named) :
    tokens? (" | ".intercalate ((first :: more).map Chain.xpath)).toList =
      some (groupTokens first more) := by
  obtain ⟨start, later⟩ := List.forall_mem_cons.mp named
  have pipe (cs : List Char) :
      tokens? (' ' :: '|' :: ' ' :: cs) = (tokens? cs).map (.pipe :: ·) := by
    rw [tokens?_blank rfl, tokens?_sign '|' rfl (fun _ => rfl), tokens?_blank rfl]
  have ends (more : List Chain) :
      EndsName (more.flatMap fun c => ' ' :: '|' :: ' ' :: c.xpath.toList) := by
    cases more with
    | nil =>
        intro c mem
        cases mem
    | cons c more => exact endsName_cons rfl _
  have others : tokens? (more.flatMap fun c => ' ' :: '|' :: ' ' :: c.xpath.toList) =
      some (more.flatMap fun c => .pipe :: .doubleSlash :: c.tokens) := by
    clear named
    induction more with
    | nil => rw [List.flatMap_nil, tokens?, List.flatMap_nil]
    | cons c more ih =>
        obtain ⟨first, later⟩ := List.forall_mem_cons.mp later
        have read := pipe (c.xpath.toList ++
          more.flatMap fun c => ' ' :: '|' :: ' ' :: c.xpath.toList)
        rw [tokens?_chain first (ends more), ih later] at read
        simpa using read
  rw [List.map_cons, toList_groups, List.flatMap_map, tokens?_chain start (ends more), others]
  rfl

/-- The expression of a selector, read back. -/
theorem parse?_xpath {first : Chain} {more : List Chain}
    (named : ∀ chain ∈ first :: more, ∀ c ∈ chain.compounds, c.Named) :
    Expr.parse? (Selector.mk (first :: more)).xpath = some (unionOf first more) := by
  rw [Expr.parse?, Selector.xpath, tokens?_groups named]
  exact ofTokens?_groups first more

end Selector

end BrowserScript
