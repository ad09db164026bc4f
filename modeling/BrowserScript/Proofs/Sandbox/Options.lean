import BrowserScript.Proofs.Page.OptionQuery
import BrowserScript.Proofs.Sandbox.Notice
import Mathlib.Data.List.Find

/-!
What choosing an option does to a document. By its value the first option is chosen that has it, as
an attribute or as its text; a query then finds the first that has it as an attribute. Both are
selected, and only they. Every property of an element that is not part of the list reads as before,
but for the value of a list around this one, which has the same options below it.
-/

namespace BrowserScript.Sandbox

open Dom (NodeId Agrees Everywhere)
open Page (PropertyValue)

variable {d : Dom} {doc doc' : Document} {list n o : NodeId} {value name : String}

/-! ## Properties that stay -/

section Same

variable {Q : NodeId → String → Prop} {B : NodeId → Prop}
  (same : Agrees Everywhere Q B doc.dom doc'.dom)
include same

theorem shownOption_same (below : ∀ o ∈ doc.dom.options n, Q o "selected") :
    Document.shownOption doc'.dom n = Document.shownOption doc.dom n := by
  have selected : (doc.dom.options n).find? doc'.dom.isOptionSelected =
      (doc.dom.options n).find? doc.dom.isOptionSelected :=
    List.find?_congr fun o mem => same.isOptionSelected (below o mem) trivial
  have touched : (doc.dom.options n).find? (fun o => (doc'.dom.property? o "selected").isSome) =
      (doc.dom.options n).find? fun o => (doc.dom.property? o "selected").isSome :=
    List.find?_congr fun o mem => congrArg Option.isSome (same.property o _ (below o mem))
  simp only [Document.shownOption, same.options, selected, ← List.isSome_find?, touched]

/-- A property depends on the node itself, its attributes and the page, and the value of a list on
the marks of its options too. -/
theorem property?_same (url : doc'.url = doc.url) (own : ∀ key ∈ [name, "selected"], Q n key)
    (below : name = "value" → doc.dom.tag? n = some "select" →
      ∀ o ∈ doc.dom.options n, Q o "selected") :
    doc'.property? n name = doc.property? n name := by
  have attr (name : String) : doc'.dom.attribute? n name = doc.dom.attribute? n name :=
    same.attr n name trivial
  have property : doc'.dom.property? n name = doc.dom.property? n name :=
    same.property n name (own name List.mem_cons_self)
  have value : doc'.dom.optionValue = doc.dom.optionValue :=
    funext fun o => same.optionValue trivial
  have text := same.textContent n
  have inner := same.innerText everywhere_styled n
  have selected : doc'.dom.isOptionSelected n = doc.dom.isOptionSelected n :=
    same.isOptionSelected (own "selected" (by simp)) trivial
  unfold Document.property?
  simp only [same.tag, attr, property, value, text, inner, selected, Dom.hasAttribute, url]
  cases tag : doc.dom.tag? n with
  | none => rfl
  | some tag =>
      simp only [Option.bind_eq_bind, Option.bind_some]
      split
      · split
        case h_4 => rw [shownOption_same same (below rfl tag)]
        all_goals rfl
      all_goals rfl

end Same

/-! ## The choice -/

/-- The first option that has the value. -/
def firstOption (d : Dom) (list : NodeId) (value : String) : Option NodeId :=
  (d.options list).find? fun o => d.optionValue o == value

/-- The document when the first option with the value was chosen and the one that a query for the
value finds was selected again. -/
def chosen (d : Dom) (list : NodeId) (value : String) : Dom :=
  (d.firstCarrier list value).elim (Document.chooseOption d list value) fun o =>
    (Document.chooseOption d list value).setProperty o "selected" (.bool true)

/-- An option that is chosen in one of the two ways. -/
def IsChosen (d : Dom) (list : NodeId) (value : String) (o : NodeId) : Prop :=
  o ∈ firstOption d list value ∨ o ∈ d.firstCarrier list value

instance : Decidable (IsChosen d list value o) := inferInstanceAs (Decidable (_ ∨ _))

theorem mem_of_firstOption (first : firstOption d list value = some o) :
    o ∈ d.options list ∧ d.optionValue o = value :=
  ⟨List.mem_of_find?_eq_some first, by simpa using List.find?_some first⟩

theorem mem_of_firstCarrier (first : d.firstCarrier list value = some o) :
    o ∈ d.options list ∧ d.optionValue o = value := by
  obtain ⟨mem, written⟩ := Dom.mem_carriers_iff.mp (Dom.mem_carriers_of_first first)
  exact ⟨mem, by rw [Dom.optionValue, written, Option.getD_some]⟩

theorem IsChosen.mem (is : IsChosen d list value o) :
    o ∈ d.options list ∧ d.optionValue o = value :=
  is.elim mem_of_firstOption mem_of_firstCarrier

/-- Without an option of the value nothing is chosen. -/
theorem IsChosen.isSome (is : IsChosen d list value o) : (firstOption d list value).isSome := by
  rw [Option.isSome_iff_ne_none]
  intro none
  exact List.find?_eq_none.mp none o is.mem.1 (beq_iff_eq.mpr is.mem.2)

/-- In the document the two rules differ only when the first option has the value as its text. -/
theorem firstCarrier_of_written (inside : d.isConnected list)
    (first : firstOption d list value = some o) (written : d.hasAttribute o "value") :
    d.firstCarrier list value = some o := by
  obtain ⟨own, before, after, split, earlier⟩ := List.find?_eq_some_iff_append.mp first
  have carries : d.attribute? o "value" = some value := by
    obtain ⟨v, found⟩ := Option.isSome_iff_exists.mp written
    rw [Dom.optionValue, found, Option.getD_some, beq_iff_eq] at own
    rw [found, own]
  rw [Dom.firstCarrier, if_pos inside, Dom.carriers, List.head?_filter]
  refine List.find?_eq_some_iff_append.mpr
    ⟨beq_iff_eq.mpr carries, before, after, split, fun a mem => ?_⟩
  have other := earlier a mem
  rw [Bool.not_eq_true', beq_eq_false_iff_ne] at other ⊢
  rintro found
  exact other (by rw [Dom.optionValue, found, Option.getD_some])

theorem isElement_of_mem_options (mem : o ∈ d.options list) : d.isElement o :=
  Dom.Forest.isElement_of_mem_below (List.mem_of_mem_filter mem)

theorem agrees_chooseOption (d : Dom) (list : NodeId) (value : String) :
    Agrees Everywhere (fun k other => k ∈ d.options list → other ≠ "selected") (fun _ => True) d
      (Document.chooseOption d list value) :=
  d.agrees_setProperties_of_mem "selected" (d.options list) _

theorem firstCarrier_chooseOption (d : Dom) (list : NodeId) (value : String) :
    (Document.chooseOption d list value).firstCarrier list value = d.firstCarrier list value := by
  have same := agrees_chooseOption d list value
  have carriers : (Document.chooseOption d list value).carriers list value =
      d.carriers list value := by
    unfold Dom.carriers
    rw [same.options]
    exact List.filter_congr fun o _ => by rw [same.attr o "value" trivial]
  rw [Dom.firstCarrier, Dom.firstCarrier, same.isConnected, carriers]

theorem agrees_chosen (d : Dom) (list : NodeId) (value : String) :
    Agrees Everywhere (fun k other => k ∈ d.options list → other ≠ "selected") (fun _ => True) d
      (chosen d list value) := by
  unfold chosen
  cases again : d.firstCarrier list value with
  | none => exact agrees_chooseOption d list value
  | some o =>
      refine (agrees_chooseOption d list value).trans ((Dom.agrees_setProperty ..).mono ?_)
      rintro k other free rfl
      exact free (mem_of_firstCarrier again).1

theorem property?_chooseOption (mem : o ∈ d.options list) :
    (Document.chooseOption d list value).property? o "selected" =
      some (.bool (some o == firstOption d list value)) :=
  Dom.property?_setProperties_of_mem (isElement_of_mem_options mem) mem

theorem property?_chosen (mem : o ∈ d.options list) :
    (chosen d list value).property? o "selected" = some (.bool (IsChosen d list value o)) := by
  have once (apart : ∀ again ∈ d.firstCarrier list value, again ≠ o) :
      (Document.chooseOption d list value).property? o "selected" =
        some (.bool (IsChosen d list value o)) := by
    have is : IsChosen d list value o ↔ some o = firstOption d list value := by
      rw [eq_comm]
      exact or_iff_left fun again => apart o again rfl
    rw [property?_chooseOption mem]
    refine congrArg (some ∘ PropertyValue.bool) (Bool.eq_iff_iff.mpr ?_)
    rw [beq_iff_eq, decide_eq_true_iff, is]
  unfold chosen
  cases found : d.firstCarrier list value with
  | none => exact once fun again found' => by cases found.symm.trans found'
  | some again =>
      rw [Option.elim_some]
      by_cases same : again = o
      · subst same
        have element : (Document.chooseOption d list value).isElement again := by
          rw [(agrees_chooseOption d list value).isElement]
          exact isElement_of_mem_options mem
        rw [Dom.property?_setProperty_self element, decide_eq_true (.inr found)]
      · rw [Dom.property?_setProperty_of_ne same]
        exact once fun other found' => Option.some.inj (found.symm.trans found') ▸ same

theorem isOptionSelected_chosen (mem : o ∈ d.options list) :
    (chosen d list value).isOptionSelected o = decide (IsChosen d list value o) := by
  rw [Dom.isOptionSelected, property?_chosen mem]
  rfl

theorem shownOption_chosen (d : Dom) (list : NodeId) (value : String) :
    Document.shownOption (chosen d list value) list =
      (d.options list).find? fun o => IsChosen d list value o := by
  have selected : (d.options list).find? (chosen d list value).isOptionSelected =
      (d.options list).find? fun o => IsChosen d list value o :=
    List.find?_congr fun o mem => isOptionSelected_chosen mem
  unfold Document.shownOption
  simp only [(agrees_chosen d list value).options, selected]
  cases found : (d.options list).find? fun o => IsChosen d list value o with
  | some o => rfl
  | none =>
      -- every option was selected or deselected, so the first one is not shown by itself
      cases options : d.options list with
      | nil => rfl
      | cons o rest =>
          have touched : (chosen d list value).property? o "selected" = _ :=
            property?_chosen (options ▸ List.mem_cons_self)
          simp [touched]

theorem property?_selected (tag : doc.dom.tag? o = some "option") :
    doc.property? o "selected" = some (.bool (doc.dom.isOptionSelected o)) := by
  unfold Document.property?
  dsimp only
  rw [tag]
  rfl

theorem selected_chosen (chose : doc'.dom = chosen d list value) (mem : o ∈ d.options list) :
    doc'.property? o "selected" = some (.bool (IsChosen d list value o)) := by
  have tag : (chosen d list value).tag? o = some "option" := by
    rw [(agrees_chosen d list value).tag]
    exact (Dom.mem_options_iff.mp mem).2
  rw [property?_selected (by rw [chose, tag]), chose, isOptionSelected_chosen mem]

theorem property?_value (tag : doc.dom.tag? list = some "select") :
    doc.property? list "value" =
      some (.text (((Document.shownOption doc.dom list).map doc.dom.optionValue).getD "")) := by
  unfold Document.property?
  dsimp only
  rw [tag]
  rfl

theorem value_chosen (chose : doc'.dom = chosen d list value) (tag : d.tag? list = some "select") :
    doc'.property? list "value" =
      some (.text (if (firstOption d list value).isSome then value else "")) := by
  have same := agrees_chosen d list value
  have own : doc'.dom.optionValue = d.optionValue := by
    rw [chose]
    exact funext fun o => same.optionValue trivial
  rw [property?_value (by rw [chose, same.tag, tag]), own, chose, shownOption_chosen]
  cases shown : (d.options list).find? fun o => IsChosen d list value o with
  | some o =>
      have is : IsChosen d list value o := by simpa using List.find?_some shown
      rw [if_pos is.isSome, Option.map_some, Option.getD_some, is.mem.2]
  | none =>
      have none : ¬ (firstOption d list value).isSome := fun some => by
        obtain ⟨c, first⟩ := Option.isSome_iff_exists.mp some
        have is : IsChosen d list value c := .inl first
        exact List.find?_eq_none.mp shown c is.mem.1 (decide_eq_true is)
      rw [if_neg none]
      rfl

/-- One option is chosen when there is one with the value and the query finds no other. -/
theorem existsUnique_chosen_iff :
    (∃! o, o ∈ d.options list ∧ IsChosen d list value o) ↔
      (firstOption d list value).isSome ∧
        ∀ o ∈ d.firstCarrier list value, o ∈ firstOption d list value := by
  constructor
  · rintro ⟨o, ⟨-, is⟩, unique⟩
    obtain ⟨c, first⟩ := Option.isSome_iff_exists.mp is.isSome
    have own : c = o := unique c ⟨(mem_of_firstOption first).1, .inl first⟩
    refine ⟨is.isSome, fun again found => ?_⟩
    have same : again = o := unique again ⟨(mem_of_firstCarrier found).1, .inr found⟩
    rwa [same, ← own]
  · rintro ⟨some, only⟩
    obtain ⟨c, first⟩ := Option.isSome_iff_exists.mp some
    refine ⟨c, ⟨(mem_of_firstOption first).1, .inl first⟩, ?_⟩
    rintro o ⟨-, is⟩
    have again : firstOption d list value = .some o := is.elim id (only o)
    exact Option.some.inj (again.symm.trans first)

theorem property?_outside (f : doc.dom.Forest) (chose : doc'.dom = chosen doc.dom list value)
    (url : doc'.url = doc.url) (other : n ≠ list) (outside : n ∉ doc.dom.descendants list)
    (around : name = "value" → doc.dom.tag? n = some "select" → list ∉ doc.dom.descendants n) :
    doc'.property? n name = doc.property? n name := by
  have same := agrees_chosen doc.dom list value
  rw [← chose] at same
  refine property?_same same url (fun _ _ mem => ?_) fun named tag o mem mem' => ?_
  · exact absurd (Dom.mem_options_iff.mp mem).1 outside
  · have below := (Dom.mem_options_iff.mp mem).1
    exact absurd (Dom.mem_options_iff.mp mem').1
      (f.notMem_descendants other outside (around named tag) below)

end BrowserScript.Sandbox
