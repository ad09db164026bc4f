import BrowserScript.Command.Document
import BrowserScript.Proofs.Json.Decoding

/-!
Command trees in documents: a tree is read from its document as it was, and a document takes two
levels for each level of commands.
-/

namespace BrowserScript

theorem Subject.named?_word (t : Subject) : Subject.named? t.word = some t := by
  cases t <;> rfl

theorem Operator.named?_word (o : Operator) : Operator.named? o.word = some o := by
  cases o <;> rfl

namespace Block

mutual

def height : Block → Nat
  | .node _ body => heightAll body + 1

def heightAll : List Block → Nat
  | [] => 0
  | b :: rest => max (height b) (heightAll rest)

end

/-- Lines and times fit a word of 64 bits. -/
def Words (cs : List Command) : Prop := ∀ c ∈ cs, c.line < 1 <<< 64 ∧ c.timeout < 1 <<< 64

/-- The fields of a command's document, with the documents of the commands below it. -/
def documentFields (c : Command) (body : List Json) : List (String × Option Json) :=
  [("line", some (.ofNat c.line)), ("code", some (.array (c.code.map .string))),
    ("src", some (.string c.src)), ("timeout", some (.ofNat c.timeout)),
    ("subcommands", some (.array body)),
    ("verifyType", c.verifyType.map fun t => .string t.word),
    ("verifyOperator", c.verifyOperator.map fun o => .string o.word),
    ("verifyExpected", c.verifyExpected.map .string),
    ("verifyLocator", c.verifyLocator.map .string),
    ("verifyTarget", c.verifyTarget.map .string), ("header", c.header.map .string)]

theorem toJson_node (c : Command) (body : List Block) :
    toJson (.node c body) = .ofFields (documentFields c (toJsonAll body)) := by
  rw [toJson, documentFields]

theorem record_documentFields (c : Command) (body : List Json) :
    Json.record fieldNames 4 (.ofFields (documentFields c body)) =
      some ((documentFields c body).map (·.2)) := by
  have nodup : fieldNames.Nodup := by decide
  exact @Json.record_ofFields (documentFields c body) nodup 4

/-- A command is read from its fields, whatever they are. -/
theorem ofJsonAt_of_record {n : Nat} {j : Json} {c : Command} {body : List Block}
    {line code src timeout below type operator expected locator target header : Option Json}
    (record : Json.record fieldNames 4 j = some [line, code, src, timeout, below, type, operator,
      expected, locator, target, header])
    (hline : Json.required Json.asWord line = some c.line)
    (hcode : Json.required (Json.asList Json.asString) code = some c.code)
    (hsrc : Json.required Json.asString src = some c.src)
    (htimeout : Json.required Json.asWord timeout = some c.timeout)
    (htype : Json.optional (Json.asName Subject.named?) type = some c.verifyType)
    (hoperator : Json.optional (Json.asName Operator.named?) operator = some c.verifyOperator)
    (hexpected : Json.optional Json.asString expected = some c.verifyExpected)
    (hlocator : Json.optional Json.asString locator = some c.verifyLocator)
    (htarget : Json.optional Json.asString target = some c.verifyTarget)
    (hheader : Json.optional Json.asString header = some c.header)
    (hbelow : Json.withDefault [] (Json.asList (ofJsonAt n)) below = some body) :
    ofJsonAt (n + 1) j = some (.node c body) := by
  simp only [ofJsonAt, record, hline, hcode, hsrc, htimeout, htype, hoperator, hexpected, hlocator,
    htarget, hheader, hbelow, Option.bind_eq_bind, Option.bind_some]

theorem ofJsonAt_node {c : Command} {body : List Block} {n : Nat}
    (line : c.line < 1 <<< 64) (timeout : c.timeout < 1 <<< 64)
    (below : (toJsonAll body).mapM (ofJsonAt n) = some body) :
    ofJsonAt (n + 1) (toJson (.node c body)) = some (.node c body) := by
  have record := record_documentFields c (toJsonAll body)
  rw [← toJson_node] at record
  exact ofJsonAt_of_record record
    (by rw [Json.required_some, Json.asWord_ofNat line])
    (by rw [Json.required_some, Json.asList_strings])
    rfl
    (by rw [Json.required_some, Json.asWord_ofNat timeout])
    (Json.optional_map (fun t _ => Subject.named?_word t) nofun)
    (Json.optional_map (fun o _ => Operator.named?_word o) nofun)
    (Json.optional_strings _) (Json.optional_strings _) (Json.optional_strings _)
    (Json.optional_strings _) below

mutual

/-- A command is read from its document if the reading goes down far enough. -/
theorem ofJsonAt_toJson : (b : Block) → {n : Nat} → height b ≤ n → Words (preorder b) →
    ofJsonAt n (toJson b) = some b
  | .node c body, n, deep, words => by
      obtain ⟨n, rfl⟩ := Nat.exists_eq_add_of_le' (Nat.le_trans (Nat.le_add_left 1 _) deep)
      obtain ⟨⟨line, timeout⟩, below⟩ := List.forall_mem_cons.mp words
      exact ofJsonAt_node line timeout (mapM_toJsonAll body (Nat.le_of_succ_le_succ deep) below)

theorem mapM_toJsonAll : (bs : List Block) → {n : Nat} → heightAll bs ≤ n → Words (preorderAll bs) →
    (toJsonAll bs).mapM (ofJsonAt n) = some bs
  | [], _, _, _ => rfl
  | b :: rest, n, deep, words => by
      obtain ⟨first, others⟩ := Nat.max_le.mp deep
      obtain ⟨words, more⟩ := List.forall_mem_append.mp words
      rw [toJsonAll, List.mapM_cons, ofJsonAt_toJson b first words, mapM_toJsonAll rest others more]
      rfl

end

/-! ## How deep documents nest -/

theorem depth_strings (ws : List String) : Json.depth (.array (ws.map .string)) = 1 := by
  have flat : Json.depthItems (ws.map .string) ≤ 0 :=
    Json.depthItems_map (f := Json.string) (fun _ => rfl) ws
  rw [Json.depth, Nat.le_zero.mp flat]

theorem depth_optional {α : Type} {f : α → Json} (flat : ∀ a, Json.depth (f a) = 0)
    (x : Option α) : ((x.map f).map Json.depth).getD 0 = 0 := by
  cases x with
  | none => rfl
  | some a => exact flat a

theorem depth_documentFields (c : Command) (body : List Json) :
    Json.depthFields (Json.present (documentFields c body)) = Json.depthItems body + 1 := by
  have texts : ∀ x : Option String, ((x.map Json.string).map Json.depth).getD 0 = 0 :=
    depth_optional fun _ => rfl
  have types : ((c.verifyType.map fun t => Json.string t.word).map Json.depth).getD 0 = 0 :=
    depth_optional (fun _ => rfl) _
  have operators : ((c.verifyOperator.map fun o => Json.string o.word).map Json.depth).getD 0 = 0 :=
    depth_optional (fun _ => rfl) _
  simp only [documentFields, Json.depthFields_present_cons, Option.map_some, Option.getD_some,
    texts, types, operators, depth_strings]
  simp only [Json.ofNat, Json.depth, Json.present, List.filterMap_nil, Json.depthFields]
  omega

mutual

/-- A document takes two levels for each level of commands. -/
theorem depth_toJson : (b : Block) → Json.depth (toJson b) = 2 * height b
  | .node c body => by
      rw [toJson_node, Json.ofFields_eq, Json.depth, depth_documentFields,
        depthItems_toJsonAll body, height]
      omega

theorem depthItems_toJsonAll : (bs : List Block) →
    Json.depthItems (toJsonAll bs) = 2 * heightAll bs
  | [] => rfl
  | b :: rest => by
      rw [toJsonAll, Json.depthItems, heightAll, depth_toJson b, depthItems_toJsonAll rest,
        Nat.mul_max_mul_left]

end

theorem exact_strings (ws : List String) : Json.Exact (.array (ws.map .string)) := by
  refine Json.exactItems_iff.mpr fun v mem => ?_
  obtain ⟨w, -, rfl⟩ := List.mem_map.mp mem
  trivial

theorem exact_documentFields {c : Command} {body : List Json} (line : c.line < 1 <<< 64)
    (timeout : c.timeout < 1 <<< 64) (below : Json.ExactItems body) :
    Json.ExactFields (Json.present (documentFields c body)) := by
  have optional : ∀ {α : Type} {f : α → Json} {x : Option α}, (∀ a, Json.Exact (f a)) →
      ∀ v ∈ x.map f, Json.Exact v := by
    intro α f x texts v mem
    obtain ⟨a, -, rfl⟩ := Option.map_eq_some_iff.mp mem
    exact texts a
  have given : ∀ {j : Json}, Json.Exact j → ∀ v ∈ some j, Json.Exact v := by
    rintro j is v ⟨⟩
    exact is
  simp only [documentFields, Json.exactFields_present_cons]
  exact ⟨given (Json.isWord_natCast line), given (exact_strings c.code), given trivial,
    given (Json.isWord_natCast timeout), given below, optional fun _ => trivial,
    optional fun _ => trivial, optional fun _ => trivial, optional fun _ => trivial,
    optional fun _ => trivial, optional fun _ => trivial, trivial⟩

mutual

theorem exact_toJson : (b : Block) → Words (preorder b) → Json.Exact (toJson b)
  | .node c body, words => by
      obtain ⟨⟨line, timeout⟩, below⟩ := List.forall_mem_cons.mp words
      rw [toJson_node, Json.ofFields_eq]
      exact exact_documentFields line timeout (exactItems_toJsonAll body below)

theorem exactItems_toJsonAll : (bs : List Block) → Words (preorderAll bs) →
    Json.ExactItems (toJsonAll bs)
  | [], _ => trivial
  | b :: rest, words => by
      obtain ⟨words, more⟩ := List.forall_mem_append.mp words
      exact ⟨exact_toJson b words, exactItems_toJsonAll rest more⟩

end

/-! ## Trees that were read -/

theorem record_of_ofJsonAt {n : Nat} {j : Json} {b : Block} (read : ofJsonAt (n + 1) j = some b) :
    ∃ fs line code timeout below, Json.record fieldNames 4 j = some fs ∧ some code ∈ fs ∧
      (∀ v ∈ below, some v ∈ fs) ∧ Json.required Json.asWord line = some b.command.line ∧
      Json.asList Json.asString code = some b.command.code ∧
      Json.required Json.asWord timeout = some b.command.timeout ∧
      Json.withDefault [] (Json.asList (ofJsonAt n)) below = some b.body := by
  obtain ⟨fs, record, read⟩ := Option.bind_eq_some_iff.mp read
  split at read
  · simp only [Option.bind_eq_bind, Option.bind_eq_some_iff] at read
    obtain ⟨l, line, ws, code, src, -, t, timeout, type, -, op, -, e, -, lo, -, ta, -, he, -,
      body, below, is⟩ := read
    cases is
    obtain ⟨code', rfl, words⟩ := Option.bind_eq_some_iff.mp code
    exact ⟨_, _, code', _, _, record, by simp, fun v is => by simp [Option.mem_def.mp is], line,
      words, timeout, below⟩
  · cases read

/-- What holds of each command that is read holds of all that are read. -/
theorem of_mapM_ofJsonAt {n : Nat}
    (each : ∀ j b, ofJsonAt n j = some b → 2 * height b ≤ Json.depth j ∧ Words (preorder b)) :
    ∀ {items : List Json} {bs : List Block}, items.mapM (ofJsonAt n) = some bs →
      2 * heightAll bs ≤ Json.depthItems items ∧ Words (preorderAll bs) := by
  intro items
  induction items with
  | nil =>
      rintro bs ⟨⟩
      exact ⟨Nat.le_refl _, List.forall_mem_nil _⟩
  | cons item rest ih =>
      intro bs read
      rw [List.mapM_cons] at read
      obtain ⟨b, first, read⟩ := Option.bind_eq_some_iff.mp read
      obtain ⟨bs, others, read⟩ := Option.bind_eq_some_iff.mp read
      cases read
      obtain ⟨low, words⟩ := each item b first
      obtain ⟨lows, more⟩ := ih others
      refine ⟨?_, List.forall_mem_append.mpr ⟨words, more⟩⟩
      rw [heightAll, Json.depthItems]
      omega

theorem of_ofJsonAt {n : Nat} : ∀ j b, ofJsonAt n j = some b →
    2 * height b ≤ Json.depth j ∧ Words (preorder b) := by
  induction n with
  | zero => nofun
  | succ n ih =>
      intro j b read
      obtain ⟨fs, line, code, timeout, below, record, coded, under, hline, hcode, htimeout,
        hbelow⟩ := record_of_ofJsonAt read
      obtain ⟨c, body⟩ := b
      obtain ⟨l, rfl, hline⟩ := Option.bind_eq_some_iff.mp hline
      obtain ⟨t, rfl, htimeout⟩ := Option.bind_eq_some_iff.mp htimeout
      have numbers := And.intro (Json.asWord_lt hline) (Json.asWord_lt htimeout)
      -- the words of the command are a list: even without a body there are two levels
      have inner := Json.depth_of_record record coded
      obtain ⟨words, rfl, -⟩ := Json.asList_eq_some hcode
      rw [Json.depth] at inner
      rw [height, preorder]
      cases below with
      | none =>
          cases hbelow
          refine ⟨?_, List.forall_mem_cons.mpr ⟨numbers, List.forall_mem_nil _⟩⟩
          clear numbers
          rw [heightAll]
          omega
      | some v =>
          have deeper := Json.depth_of_record record (under v rfl)
          obtain ⟨items, rfl, hbelow⟩ := Json.asList_eq_some hbelow
          obtain ⟨low, words⟩ : 2 * heightAll body ≤ _ ∧ _ := of_mapM_ofJsonAt ih hbelow
          rw [Json.depth] at deeper
          refine ⟨?_, List.forall_mem_cons.mpr ⟨numbers, words⟩⟩
          clear numbers
          omega

end Block

end BrowserScript
