import BrowserScript.Selector.Parser
import Mathlib.Data.List.Basic

/-!
What a selector that was read is made of: at least one group, and in each compound names in lower
case, out of the characters of names, and classes that are not empty.
-/

namespace BrowserScript

namespace Text

theorem asciiLower_cases (c : Char) :
    asciiLower c = c ∨ ∃ n < 26, asciiLower c = Char.ofNat (n + 97) := by
  unfold asciiLower
  split
  · next upper =>
      have low : 65 ≤ c.toNat := UInt32.le_iff_toNat_le.mp upper.1
      have high : c.toNat ≤ 90 := UInt32.le_iff_toNat_le.mp upper.2
      refine .inr ⟨c.toNat - 65, by omega, congrArg Char.ofNat ?_⟩
      omega
  · exact .inl rfl

theorem asciiLower_asciiLower (c : Char) : asciiLower (asciiLower c) = asciiLower c := by
  obtain same | ⟨n, less, letter⟩ := asciiLower_cases c
  · rw [same, same]
  · have all : ∀ n < 26, asciiLower (Char.ofNat (n + 97)) = Char.ofNat (n + 97) := by decide
    rw [letter, all n less]

end Text

namespace Selector

variable {c c' : Compound} {cs rest : List Char} {name : String}

/-- A name as it is kept: in lower case, out of the characters of names. -/
structure Spelled (name : String) : Prop where
  lowered : Text.asciiLowered name = name
  letters : ∀ c ∈ name.toList, isNameChar c

structure Compound.Spelled (c : Compound) : Prop where
  tag : ∀ name ∈ c.tag, Selector.Spelled name
  classes : ∀ name ∈ c.classes, name.toList ≠ [] ∧ ∀ c ∈ name.toList, isNameChar c
  attributes : ∀ t ∈ c.attributes, Selector.Spelled t.name

theorem isNameChar_asciiLower {c : Char} (letter : isNameChar c) :
    isNameChar (Text.asciiLower c) := by
  obtain same | ⟨n, less, lower⟩ := Text.asciiLower_cases c
  · rwa [same]
  · have all : ∀ n < 26, isNameChar (Char.ofNat (n + 97)) := by decide
    rw [lower]
    exact all n less

theorem spelled_asciiLowered (letters : ∀ c ∈ name.toList, isNameChar c) :
    Spelled (Text.asciiLowered name) where
  lowered := by
    rw [Text.asciiLowered, Text.asciiLowered, String.toList_ofList, List.map_map]
    have twice : Text.asciiLower ∘ Text.asciiLower = Text.asciiLower :=
      funext Text.asciiLower_asciiLower
    rw [twice]
  letters c mem := by
    rw [Text.asciiLowered, String.toList_ofList] at mem
    obtain ⟨d, there, rfl⟩ := List.mem_map.mp mem
    exact isNameChar_asciiLower (letters d there)

theorem of_name? (read : name? cs = some name) :
    name.toList ≠ [] ∧ ∀ c ∈ name.toList, isNameChar c := by
  rw [name?] at read
  split at read
  · next good =>
      obtain rfl := Option.some.inj read
      obtain ⟨some, letters⟩ := Bool.and_eq_true_iff.mp good
      rw [String.toList_ofList]
      exact ⟨by simpa using some, List.all_eq_true.mp letters⟩
  · cases read

theorem of_attributeTest? {t : AttributeTest} (read : attributeTest? cs = some t) :
    Spelled t.name := by
  simp only [attributeTest?] at read
  split at read
  · obtain ⟨name, named, rfl⟩ := Option.map_eq_some_iff.mp read
    exact spelled_asciiLowered (of_name? named).2
  · obtain ⟨name, named, read⟩ := Option.bind_eq_some_iff.mp read
    obtain ⟨value, -, read⟩ := Option.bind_eq_some_iff.mp read
    obtain rfl := Option.some.inj read
    exact spelled_asciiLowered (of_name? named).2

theorem forall_mem_snoc {α : Type} {p : α → Prop} {xs : List α} {x : α} (all : ∀ y ∈ xs, p y)
    (last : p x) : ∀ y ∈ xs ++ [x], p y := by
  intro y mem
  obtain before | mem := List.mem_append.mp mem
  · exact all y before
  · obtain rfl := List.mem_singleton.mp mem
    exact last

/-- Each part that is read keeps a compound well spelled. -/
theorem spelled_parts (spelled : c.Spelled) (read : parts c cs = some (c', rest)) :
    c'.Spelled := by
  fun_induction parts c cs with
  | case1 c =>
      obtain ⟨rfl, -⟩ := Prod.mk.inj (Option.some.inj read)
      exact spelled
  | case2 c r id named ih => exact ih ⟨spelled.tag, spelled.classes, spelled.attributes⟩ read
  | case4 c r name named ih =>
      exact ih ⟨spelled.tag, forall_mem_snoc spelled.classes (of_name? named),
        spelled.attributes⟩ read
  | case6 c r x rest' test found tested ih =>
      exact ih ⟨spelled.tag, spelled.classes,
        forall_mem_snoc spelled.attributes (of_attributeTest? tested)⟩ read
  | case8 c x r ends =>
      obtain ⟨rfl, -⟩ := Prod.mk.inj (Option.some.inj read)
      exact spelled
  | case3 | case5 | case7 | case9 => cases read

theorem spelled_empty : Compound.Spelled {} where
  tag _ mem := by cases mem
  classes _ mem := by cases mem
  attributes _ mem := by cases mem

theorem spelled_compound (read : compound? cs = some (c, rest)) : c.Spelled := by
  unfold compound? at read
  split at read
  · cases read
  · next x r =>
      split at read
      · exact spelled_parts spelled_empty read
      · split at read
        · next letter =>
            have letters : ∀ y ∈ x :: r.takeWhile isNameChar, isNameChar y :=
              List.forall_mem_cons.mpr ⟨letter, fun y mem => List.all_eq_true.mp
                List.all_takeWhile y mem⟩
            refine spelled_parts ?_ read
            refine Compound.Spelled.mk ?_ spelled_empty.classes spelled_empty.attributes
            intro name mem
            obtain rfl := Option.some.inj mem
            refine spelled_asciiLowered ?_
            rwa [String.toList_ofList]
        · split at read
          · cases read
          · exact spelled_parts spelled_empty read

/-- The compounds of a chain, each after what stands before it. -/
def Chain.compounds : Chain → List Compound
  | .one c => [c]
  | .next front _ c => front.compounds ++ [c]

theorem spelled_chainFrom {front chain : Chain} {k : Combinator}
    (spelled : ∀ c ∈ front.compounds, c.Spelled) (read : chainFrom front k cs = some chain) :
    ∀ c ∈ chain.compounds, c.Spelled := by
  fun_induction chainFrom front k cs with
  | case2 =>
      obtain rfl := Option.some.inj read
      exact spelled
  | case4 front k cs c r rest sign free ih => exact ih spelled read
  | case5 front k cs c r rest sign last more found ih =>
      exact ih (forall_mem_snoc spelled (spelled_compound found)) read
  | case1 | case3 | case6 => cases read

theorem spelled_chain {chain : Chain} (read : chain? cs = some chain) :
    ∀ c ∈ chain.compounds, c.Spelled := by
  obtain ⟨⟨first, rest⟩, found, read⟩ := Option.bind_eq_some_iff.mp read
  have start : ∀ c ∈ (Chain.one first).compounds, c.Spelled :=
    List.forall_mem_singleton.mpr (spelled_compound found)
  exact spelled_chainFrom start read

theorem groupsFrom_ne_nil (quote : Option Char) (depth : Int) (piece cs : List Char) :
    groupsFrom quote depth piece cs ≠ [] := by
  fun_induction groupsFrom quote depth piece cs with
  | case1 | case6 => exact List.cons_ne_nil _ _
  | _ => assumption

/-- Where all of a list is read, each result is that of an entry. -/
theorem of_mapM {α β : Type} {f : α → Option β} {xs : List α} {ys : List β}
    (read : xs.mapM f = some ys) :
    ys.length = xs.length ∧ ∀ y ∈ ys, ∃ x ∈ xs, f x = some y := by
  induction xs generalizing ys with
  | nil =>
      obtain rfl := Option.some.inj read
      exact ⟨rfl, fun y mem => absurd mem List.not_mem_nil⟩
  | cons x xs ih =>
      rw [List.mapM_cons] at read
      obtain ⟨y, first, read⟩ := Option.bind_eq_some_iff.mp read
      obtain ⟨more, later, read⟩ := Option.bind_eq_some_iff.mp read
      obtain rfl := Option.some.inj read
      obtain ⟨length, each⟩ := ih later
      refine ⟨congrArg Nat.succ length, ?_⟩
      refine List.forall_mem_cons.mpr ⟨⟨x, List.mem_cons_self, first⟩, ?_⟩
      intro z mem
      obtain ⟨w, there, found⟩ := each z mem
      exact ⟨w, List.mem_cons_of_mem x there, found⟩

/-- An accepted selector has groups, and its compounds are well spelled. -/
theorem spelled_of_parse {text : String} {selector : Selector}
    (accepted : parse text = .ok selector) :
    selector.chains ≠ [] ∧ ∀ chain ∈ selector.chains, ∀ c ∈ chain.compounds, c.Spelled := by
  unfold parse at accepted
  split at accepted
  · next found =>
      obtain rfl := Except.ok.inj accepted
      obtain ⟨chains, read, rfl⟩ := Option.map_eq_some_iff.mp found
      obtain ⟨length, each⟩ := of_mapM read
      constructor
      · rw [← List.length_pos_iff, length]
        exact List.length_pos_iff.mpr (groupsFrom_ne_nil none 0 [] text.toList)
      · intro chain mem
        obtain ⟨group, -, read⟩ := each chain mem
        exact spelled_chain read
  · cases accepted

end Selector

end BrowserScript
