import BrowserScript.Proofs.Command.Document
import BrowserScript.Proofs.Json.Building
import BrowserScript.Proofs.Keyword.Document
import BrowserScript.Store.State

/-!
States in documents. A state whose command tree does not nest too deep is read as it was written,
and what is read out of any text is such a state.
-/

namespace BrowserScript.Store

open Block (Words)

/-- A command tree with numbers of 64 bits whose document nests less deep than is allowed. -/
structure Fits (tree : List Block) : Prop where
  words : Words (Block.preorderAll tree)
  shallow : Json.depth (.array (Block.toJsonAll tree)) < Json.deepest

/-- The state can be kept in a document: its domains stand in order, its numbers have 64 bits, and
its tree fits. -/
structure State.Storable (s : State) : Prop where
  sorted : KeywordTables.Sorted s.keywords.domains
  cursor : ∀ line ∈ s.cursor, line < 1 <<< 64
  tree : Fits s.tree

variable {s : State} {tree : List Block}

theorem depth_tree (tree : List Block) :
    Json.depth (.array (Block.toJsonAll tree)) = 2 * Block.heightAll tree + 1 := by
  rw [Json.depth, Block.depthItems_toJsonAll]

theorem Fits.read (fits : Fits tree) :
    Block.listOfJson? (.array (Block.toJsonAll tree)) = some tree := by
  have shallow := fits.shallow
  rw [depth_tree, Json.deepest] at shallow
  exact Block.mapM_toJsonAll tree (by omega) fits.words

namespace State

def documentFields (s : State) : List (String × Option Json) :=
  [("globalKeywords", some (KeywordTables.keywordsJson s.keywords.shared)),
    ("localKeywords", some (KeywordTables.domainsJson s.keywords.domains)),
    ("herbiestartline", some (Json.ofOption .ofNat s.cursor)), ("herbie_stop", some (.bool s.stop)),
    ("cmdtree", some (.array (Block.toJsonAll s.tree)))]

theorem toJson_eq (s : State) : s.toJson = .object (Json.present s.documentFields) := by
  rfl

theorem read_cursor {cursor : Option Nat} (small : ∀ line ∈ cursor, line < 1 <<< 64) :
    Json.optional Json.asWord (some (Json.ofOption .ofNat cursor)) = some cursor := by
  cases cursor with
  | none => rfl
  | some line => exact Json.optional_some (Json.asWord_ofNat (small line rfl)) nofun

theorem exact_cursor {cursor : Option Nat} (small : ∀ line ∈ cursor, line < 1 <<< 64) :
    Json.Exact (Json.ofOption .ofNat cursor) := by
  cases cursor with
  | none => trivial
  | some line => exact Json.isWord_natCast (small line rfl)

theorem depth_cursor (cursor : Option Nat) : Json.depth (Json.ofOption .ofNat cursor) = 0 := by
  cases cursor <;> rfl

/-- A state is read from its fields, whatever they are. -/
theorem ofJson?_of_record {fields : Json.Fields} {shared domains cursor stop tree : Option Json}
    (record : Json.record fieldNames 0 (.object fields) =
      some [shared, domains, cursor, stop, tree])
    (hkeywords : KeywordTables.ofFields? shared domains = some s.keywords)
    (hcursor : Json.optional Json.asWord cursor = some s.cursor)
    (hstop : Json.withDefault false Json.asBool stop = some s.stop)
    (htree : Json.withDefault [] Block.listOfJson? tree = some s.tree) :
    ofJson? (.object fields) = some s := by
  simp only [ofJson?, record, hkeywords, hcursor, hstop, htree, Option.bind_eq_bind,
    Option.bind_some]

theorem ofJson?_toJson (storable : s.Storable) : ofJson? s.toJson = some s := by
  have nodup : fieldNames.Nodup := by decide
  have record : Json.record fieldNames 0 (.object (Json.present s.documentFields)) =
      some (s.documentFields.map (·.2)) := @Json.record_ofFields s.documentFields nodup 0
  rw [toJson_eq]
  exact ofJson?_of_record record (KeywordTables.ofFields?_toFields storable.sorted)
    (read_cursor storable.cursor) rfl storable.tree.read

theorem Storable.exact (storable : s.Storable) : Json.Exact s.toJson := by
  rw [toJson_eq]
  exact ⟨KeywordTables.exact_keywordsJson _, KeywordTables.exact_domainsJson _,
    exact_cursor storable.cursor, trivial, Block.exactItems_toJsonAll _ storable.tree.words,
    trivial⟩

theorem Storable.depth_le (storable : s.Storable) : Json.depth s.toJson ≤ Json.deepest := by
  have shared := KeywordTables.depth_keywordsJson s.keywords.shared
  have domains := KeywordTables.depth_domainsJson s.keywords.domains
  have tree := storable.tree.shallow
  have flag : Json.depth (.bool s.stop) = 0 := rfl
  -- only the tree can nest deep
  rw [Json.deepest] at tree
  rw [toJson_eq, Json.depth, documentFields, Json.deepest]
  simp only [Json.depthFields_present_cons, Option.map_some, Option.getD_some, depth_cursor, flag]
  simp only [Json.present, List.filterMap_nil, Json.depthFields]
  omega

/-- What was written is read again. -/
theorem ofText_toText (storable : s.Storable) : ofText s.toText = s := by
  rw [ofText, toText, Json.parse?_pretty storable.exact storable.depth_le, Option.bind_some,
    ofJson?_toJson storable]
  rfl

/-! ## States that were read -/

theorem storable_empty : State.Storable {} where
  sorted := .nil
  cursor := nofun
  tree := ⟨List.forall_mem_nil _, by decide⟩

theorem fits_of_read {tree : List Block} {j : Option Json}
    (read : Json.withDefault [] Block.listOfJson? j = some tree)
    (depth : ∀ v ∈ j, Json.depth v < Json.deepest) : Fits tree := by
  cases j with
  | none =>
      cases read
      exact storable_empty.tree
  | some v =>
      obtain ⟨items, rfl, blocks⟩ := Json.asList_eq_some read
      obtain ⟨low, words⟩ := Block.of_mapM_ofJsonAt Block.of_ofJsonAt blocks
      have room := depth _ rfl
      refine ⟨words, ?_⟩
      rw [depth_tree]
      rw [Json.depth] at room
      omega

theorem storable_of_ofJson? {j : Json} (read : ofJson? j = some s)
    (depth : Json.depth j ≤ Json.deepest) : s.Storable := by
  cases j with
  | object fields =>
      obtain ⟨fs, record, read⟩ := Option.bind_eq_some_iff.mp read
      split at read
      · simp only [Option.bind_eq_bind, Option.bind_eq_some_iff] at read
        obtain ⟨tables, keywords, line, cursor, stop, -, blocks, tree, is⟩ := read
        cases is
        refine ⟨KeywordTables.sorted_of_ofFields? keywords, fun n is => ?_, ?_⟩
        · obtain ⟨j, word⟩ := Json.optional_eq_some cursor is
          exact Json.asWord_lt word
        · refine fits_of_read tree fun v is => ?_
          cases is
          exact Nat.lt_of_lt_of_le (Json.depth_of_record record (by simp)) depth
      · cases read
  | _ => cases read

/-- Whatever text is read as a state. -/
theorem storable_ofText (text : String) : (ofText text).Storable := by
  rw [ofText]
  cases read : (Json.parse? text).bind ofJson? with
  | none => exact storable_empty
  | some s =>
      obtain ⟨j, parsed, read⟩ := Option.bind_eq_some_iff.mp read
      exact storable_of_ofJson? read (Json.depth_of_parse? parsed)

end State

end BrowserScript.Store
