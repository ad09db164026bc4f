import BrowserScript.Dom.Style

/-!
What stays the same when elements of a document change and no node moves. Two documents with the
same nodes in the same places may differ in some attributes, in properties and in boxes; what is
read without these reads the same in both.
-/

namespace BrowserScript.Dom

variable {A Q : NodeId → String → Prop} {B : NodeId → Prop} {d d' d'' : Dom} {n : NodeId}

/-- The same nodes in the same places, with the same attributes where `A` holds, the same
properties where `Q` holds and the same boxes where `B` holds. -/
structure Agrees (A Q : NodeId → String → Prop) (B : NodeId → Prop) (d d' : Dom) : Prop where
  size : d'.size = d.size
  parent : ∀ n, d'.parent n = d.parent n
  children : ∀ n, d'.children n = d.children n
  text : ∀ n, d'.text? n = d.text? n
  tag : ∀ n, d'.tag? n = d.tag? n
  attr : ∀ n name, A n name → d'.attribute? n name = d.attribute? n name
  property : ∀ n name, Q n name → d'.property? n name = d.property? n name
  box : ∀ n, B n → (d'.element? n).bind (·.size) = (d.element? n).bind (·.size)

theorem Agrees.refl (d : Dom) : Agrees A Q B d d where
  size := rfl
  parent _ := rfl
  children _ := rfl
  text _ := rfl
  tag _ := rfl
  attr _ _ _ := rfl
  property _ _ _ := rfl
  box _ _ := rfl

theorem Agrees.trans (first : Agrees A Q B d d') (second : Agrees A Q B d' d'') :
    Agrees A Q B d d'' where
  size := second.size.trans first.size
  parent n := (second.parent n).trans (first.parent n)
  children n := (second.children n).trans (first.children n)
  text n := (second.text n).trans (first.text n)
  tag n := (second.tag n).trans (first.tag n)
  attr n name so := (second.attr n name so).trans (first.attr n name so)
  property n name so := (second.property n name so).trans (first.property n name so)
  box n so := (second.box n so).trans (first.box n so)

namespace Agrees

variable (same : Agrees A Q B d d')
include same

theorem isElement (n : NodeId) : d'.isElement n = d.isElement n := by
  have tags := congrArg Option.isSome (same.tag n)
  simpa [tag?, Dom.isElement] using tags

theorem ancestors (n : NodeId) : d'.ancestors n = d.ancestors n := by
  fun_induction Dom.ancestors d n with
  | case1 n top =>
      rw [Dom.ancestors, same.parent, top]
  | case2 n p below less ih =>
      rw [Dom.ancestors, same.parent, below]
      simp only [less, if_true, ih]
  | case3 n p below notLess =>
      rw [Dom.ancestors, same.parent, below]
      simp only [notLess, if_false]

theorem isConnected (n : NodeId) : d'.isConnected n = d.isConnected n := by
  rw [Dom.isConnected, Dom.isConnected, same.ancestors]

theorem tree (n : NodeId) : d'.tree n = d.tree n := by
  fun_induction Dom.tree d n with
  | case1 n ih =>
      rw [Dom.tree, same.children, same.size]
      congr 1
      congr 1
      funext c
      split
      · rename_i later
        rw [ih c later]
      · rfl

theorem descendants (n : NodeId) : d'.descendants n = d.descendants n := by
  rw [Dom.descendants, Dom.descendants, same.tree]

theorem textContent (n : NodeId) : d'.textContent n = d.textContent n := by
  rw [Dom.textContent, Dom.textContent, same.text, same.descendants, funext same.text]

theorem options (n : NodeId) : d'.options n = d.options n := by
  simp only [Dom.options, descendantElements, same.descendants, funext same.isElement, same.tag]

theorem optionValue (written : A n "value") : d'.optionValue n = d.optionValue n := by
  rw [Dom.optionValue, Dom.optionValue, same.attr n "value" written, same.textContent]

theorem isOptionSelected (own : Q n "selected") (written : A n "selected") :
    d'.isOptionSelected n = d.isOptionSelected n := by
  rw [Dom.isOptionSelected, Dom.isOptionSelected, same.property n "selected" own, hasAttribute,
    hasAttribute, same.attr n "selected" written]

end Agrees

/-- The attributes that style is made from. -/
def styling : List String := ["style", "class", "hidden"]

section Styled

variable (same : Agrees A Q B d d') (styled : ∀ n, ∀ name ∈ styling, A n name)
include same styled

namespace Agrees

theorem inlineStyle? (n : NodeId) (property : String) :
    d'.inlineStyle? n property = d.inlineStyle? n property := by
  rw [Dom.inlineStyle?, Dom.inlineStyle?, same.attr n "style" (styled n _ (by decide))]

theorem display (n : NodeId) : d'.display n = d.display n := by
  have hidden := same.attr n "hidden" (styled n _ (by decide))
  rw [Dom.display, Dom.display, same.inlineStyle? styled, same.tag, hasAttribute, hasAttribute,
    hidden]

theorem visibility (n : NodeId) : d'.visibility n = d.visibility n := by
  simp only [Dom.visibility, same.ancestors, same.inlineStyle? styled]

theorem opacity (n : NodeId) : d'.opacity n = d.opacity n := by
  simp only [Dom.opacity, same.inlineStyle? styled]

theorem isUndisplayed (n : NodeId) : d'.isUndisplayed n = d.isUndisplayed n := by
  simp only [Dom.isUndisplayed, same.ancestors, same.display styled, funext same.isElement]

theorem classes (n : NodeId) : d'.classes n = d.classes n := by
  rw [Dom.classes, Dom.classes, same.attr n "class" (styled n _ (by decide))]

theorem boxSize (own : B n) : d'.boxSize n = d.boxSize n := by
  rw [Dom.boxSize, Dom.boxSize, same.isConnected, same.isUndisplayed styled, same.box n own]

theorem computed (own : B n) : d'.computed n = d.computed n := by
  simp only [Dom.computed, same.display styled, same.visibility styled, same.opacity styled,
    same.boxSize styled own, same.ancestors, same.classes styled]

omit same styled in
mutual

theorem shown (same : Agrees A Q B d d') (styled : ∀ n, ∀ name ∈ styling, A n name) :
    (t : Tree) → d'.shown t = d.shown t
  | .node n below => by
      simp only [Dom.shown, same.text, same.tag, same.display styled, shownAll same styled below]

theorem shownAll (same : Agrees A Q B d d') (styled : ∀ n, ∀ name ∈ styling, A n name) :
    (ts : List Tree) → d'.shownAll ts = d.shownAll ts
  | [] => rfl
  | t :: rest => by
      rw [Dom.shownAll, Dom.shownAll, shown same styled t, shownAll same styled rest]

end

theorem innerText (n : NodeId) : d'.innerText n = d.innerText n := by
  rw [Dom.innerText, Dom.innerText, same.tree, same.shownAll styled]

end Agrees

end Styled

/-! ## Changes of an element -/

theorem node_modify (d : Dom) (n k : NodeId) (f : Node → Node) :
    (d.modify n f).nodes[k]? = if n = k then d.nodes[k]?.map f else d.nodes[k]? :=
  Array.getElem?_modify

theorem element?_modifyElement (d : Dom) (n k : NodeId) (f : Element → Element) :
    (d.modifyElement n f).element? k = if n = k then (d.element? k).map f else d.element? k := by
  unfold element?
  rw [modifyElement, node_modify]
  by_cases here : n = k
  · rw [if_pos here, if_pos here]
    rcases d.nodes[k]? with _ | ⟨parent, children, _ | e | s⟩ <;> rfl
  · rw [if_neg here, if_neg here]

/-- What does not depend on the kind of a node. -/
theorem place_modifyElement (d : Dom) (n k : NodeId) (f : Element → Element) (g : Node → α)
    (blind : ∀ node kind, g { node with kind } = g node) :
    (d.modifyElement n f).nodes[k]?.map g = d.nodes[k]?.map g := by
  rw [modifyElement, node_modify]
  split
  · rcases d.nodes[k]? with _ | ⟨parent, children, _ | e | s⟩
    · rfl
    · rfl
    · exact congrArg some (blind ⟨parent, children, .element e⟩ _)
    · rfl
  · rfl

theorem text?_modifyElement (d : Dom) (n k : NodeId) (f : Element → Element) :
    (d.modifyElement n f).text? k = d.text? k := by
  unfold text?
  rw [modifyElement, node_modify]
  by_cases here : n = k
  · rw [if_pos here]
    rcases d.nodes[k]? with _ | ⟨parent, children, _ | e | s⟩ <;> rfl
  · rw [if_neg here]

/-- What does not depend on what changes in an element. -/
theorem bind_modifyElement {n : NodeId} {f : Element → Element} (d : Dom) (k : NodeId)
    (g : Element → Option α) (blind : n = k → ∀ e, g (f e) = g e) :
    ((d.modifyElement n f).element? k).bind g = (d.element? k).bind g := by
  rw [element?_modifyElement]
  split
  · rename_i here
    cases d.element? k with
    | none => rfl
    | some e => exact blind here e
  · rfl

/-- A change of an element that leaves it its tag. -/
theorem agrees_modifyElement {n : NodeId} {f : Element → Element} (d : Dom)
    (tag : ∀ e, (f e).tag = e.tag)
    (attr : ∀ name e, A n name → (f e).attribute? name = e.attribute? name)
    (property : ∀ name e, Q n name → (f e).property? name = e.property? name)
    (box : ∀ e, B n → (f e).size = e.size) : Agrees A Q B d (d.modifyElement n f) where
  size := by simp [Dom.size, modifyElement, modify]
  parent k := by
    have eq := congrArg (·.bind id) (d.place_modifyElement n k f (·.parent) fun _ _ => rfl)
    rwa [Option.bind_map, Option.bind_map] at eq
  children k := congrArg (·.getD []) (d.place_modifyElement n k f (·.children) fun _ _ => rfl)
  text k := d.text?_modifyElement n k f
  tag k := by
    rw [tag?, tag?, Option.map_eq_bind, Option.map_eq_bind]
    exact d.bind_modifyElement k _ fun _ e => congrArg some (tag e)
  attr k name so := d.bind_modifyElement k _ fun here e => attr name e (here ▸ so)
  property k name so := d.bind_modifyElement k _ fun here e => property name e (here ▸ so)
  box k so := d.bind_modifyElement k _ fun here e => box e (here ▸ so)

theorem Agrees.mono {Q' : NodeId → String → Prop} (same : Agrees A Q B d d')
    (property : ∀ n name, Q' n name → Q n name) : Agrees A Q' B d d' :=
  { same with property := fun n name so => same.property n name (property n name so) }

/-- All but the thing of this name at this node. -/
def Elsewhere (n : NodeId) (name : String) (k : NodeId) (other : String) : Prop :=
  k = n → other ≠ name

/-- Everything, of all nodes. -/
def Everywhere (_ : NodeId) (_ : String) : Prop := True

theorem find?_putPair {β : Type} {name other : String} (different : other ≠ name) (value : β)
    (pairs : List (String × β)) :
    (putPair name value pairs).find? (·.1 == other) = pairs.find? (·.1 == other) := by
  have skip : (name == other) = false := by simpa using different.symm
  induction pairs with
  | nil => simp [putPair, skip]
  | cons first rest ih =>
      obtain ⟨key, old⟩ := first
      unfold putPair
      by_cases here : key = name
      · subst here
        simp [skip]
      · rw [if_neg here, List.find?_cons, List.find?_cons, ih]

theorem find?_putPair_self {β : Type} {name : String} (value : β) (pairs : List (String × β)) :
    (putPair name value pairs).find? (·.1 == name) = some (name, value) := by
  induction pairs with
  | nil => simp [putPair]
  | cons first rest ih =>
      obtain ⟨key, old⟩ := first
      unfold putPair
      by_cases here : key = name
      · simp [here]
      · rw [if_neg here, List.find?_cons_of_neg (by simpa using here), ih]

theorem find?_filter_ne {β : Type} {name other : String} (different : other ≠ name)
    (pairs : List (String × β)) :
    (pairs.filter (·.1 != name)).find? (·.1 == other) = pairs.find? (·.1 == other) := by
  rw [List.find?_filter]
  congr 1
  funext pair
  by_cases here : pair.1 = other
  · simp [here, different]
  · simp [here]

theorem agrees_setAttribute (d : Dom) (n : NodeId) (name value : String) :
    Agrees (Elsewhere n name) Everywhere (fun _ => True) d (d.setAttribute n name value) := by
  refine d.agrees_modifyElement (fun _ => rfl) ?_ (fun _ _ _ => rfl) fun _ _ => rfl
  intro other e different
  exact congrArg (Option.map Prod.snd) (find?_putPair (different rfl) value e.attributes)

theorem agrees_removeAttribute (d : Dom) (n : NodeId) (name : String) :
    Agrees (Elsewhere n name) Everywhere (fun _ => True) d (d.removeAttribute n name) := by
  refine d.agrees_modifyElement (fun _ => rfl) ?_ (fun _ _ _ => rfl) fun _ _ => rfl
  intro other e different
  exact congrArg (Option.map Prod.snd) (find?_filter_ne (different rfl) e.attributes)

theorem agrees_setProperty (d : Dom) (n : NodeId) (name : String) (value : Page.PropertyValue) :
    Agrees Everywhere (Elsewhere n name) (fun _ => True) d (d.setProperty n name value) := by
  refine d.agrees_modifyElement (fun _ => rfl) (fun _ _ _ => rfl) ?_ fun _ _ => rfl
  intro other e different
  exact congrArg (Option.map Prod.snd) (find?_putPair (different rfl) value e.properties)

/-- A property is as it was, unless it is the one that was set. -/
theorem property?_setProperty (d : Dom) (n k : NodeId) (name : String)
    (value : Page.PropertyValue) :
    (d.setProperty n name value).property? k name = d.property? k name ∨
      n = k ∧ (d.setProperty n name value).property? k name = some value := by
  rw [property?, property?, setProperty, element?_modifyElement]
  by_cases here : n = k
  · rw [if_pos here]
    cases d.element? k with
    | none => exact .inl rfl
    | some e =>
        exact .inr ⟨here, congrArg (Option.map Prod.snd) (find?_putPair_self value e.properties)⟩
  · rw [if_neg here]
    exact .inl rfl

theorem agrees_setSize (d : Dom) (n : NodeId) (size : Float × Float) :
    Agrees Everywhere Everywhere (· ≠ n) d
      (d.modifyElement n fun e => { e with size := some size }) :=
  d.agrees_modifyElement (fun _ => rfl) (fun _ _ _ => rfl) (fun _ _ _ => rfl)
    fun _ other => absurd rfl other

/-- The properties of one name, of several elements. -/
theorem agrees_setProperties_of_mem (d : Dom) (name : String) (ns : List NodeId)
    (value : NodeId → Page.PropertyValue) :
    Agrees Everywhere (fun k other => k ∈ ns → other ≠ name) (fun _ => True) d
      (ns.foldl (fun d n => d.setProperty n name (value n)) d) := by
  induction ns generalizing d with
  | nil => exact .refl d
  | cons n rest ih =>
      refine ((d.agrees_setProperty n name (value n)).mono ?_).trans ((ih _).mono ?_)
      · exact fun k other free own => free (List.mem_cons.mpr (.inl own))
      · exact fun k other free mem => free (List.mem_cons_of_mem n mem)

theorem agrees_setProperties (d : Dom) (name : String) (ns : List NodeId)
    (value : NodeId → Page.PropertyValue) :
    Agrees Everywhere (fun _ other => other ≠ name) (fun _ => True) d
      (ns.foldl (fun d n => d.setProperty n name (value n)) d) :=
  (d.agrees_setProperties_of_mem name ns value).mono fun _ _ so _ => so

theorem property?_setProperties (d : Dom) (name : String) (ns : List NodeId) (k : NodeId)
    (value : NodeId → Page.PropertyValue) :
    (ns.foldl (fun d n => d.setProperty n name (value n)) d).property? k name = d.property? k name ∨
      (ns.foldl (fun d n => d.setProperty n name (value n)) d).property? k name = some (value k) := by
  induction ns generalizing d with
  | nil => exact .inl rfl
  | cons n rest ih =>
      obtain same | set := ih (d.setProperty n name (value n))
      · obtain own | ⟨rfl, own⟩ := d.property?_setProperty n k name (value n)
        · exact .inl (same.trans own)
        · exact .inr (same.trans own)
      · exact .inr set

/-! ## Setting what is set -/

theorem putPair_eq_self {β : Type} {name : String} {value : β} {pairs : List (String × β)}
    (own : (pairs.find? (·.1 == name)).map (·.2) = some value) :
    putPair name value pairs = pairs := by
  induction pairs with
  | nil => cases own
  | cons first rest ih =>
      obtain ⟨key, old⟩ := first
      unfold putPair
      by_cases here : key = name
      · rw [List.find?_cons_of_pos (by simpa using here)] at own
        obtain rfl := Option.some.inj own
        exact if_pos here
      · rw [List.find?_cons_of_neg (by simpa using here)] at own
        rw [if_neg here, ih own]

theorem putPair_putPair {β : Type} (name : String) (value later : β)
    (pairs : List (String × β)) :
    putPair name later (putPair name value pairs) = putPair name later pairs := by
  induction pairs with
  | nil => simp [putPair]
  | cons first rest ih =>
      by_cases here : first.1 = name
      · simp [putPair, here]
      · simp [putPair, here, ih]

theorem ext_nodes {d d' : Dom} (same : ∀ k : NodeId, d'.nodes[k]? = d.nodes[k]?) : d' = d :=
  congrArg Dom.mk (Array.ext_getElem? same)

/-- A node whose element is changed. -/
def Node.change (f : Element → Element) (node : Node) : Node :=
  match node.kind with
  | .element e => { node with kind := .element (f e) }
  | _ => node

theorem node_modifyElement (d : Dom) (n k : NodeId) (f : Element → Element) :
    (d.modifyElement n f).nodes[k]? =
      if n = k then d.nodes[k]?.map (Node.change f) else d.nodes[k]? :=
  d.node_modify n k _

theorem Node.change_change (f g : Element → Element) (node : Node) :
    (node.change f).change g = node.change (g ∘ f) := by
  rcases node with ⟨parent, children, _ | e | s⟩ <;> rfl

section Again

variable {k : NodeId} {name : String} {value : Page.PropertyValue}

theorem modifyElement_eq_self {f : Element → Element}
    (same : ∀ e, d.element? n = some e → f e = e) : d.modifyElement n f = d := by
  refine ext_nodes fun k => ?_
  rw [node_modifyElement]
  split
  · rename_i here
    subst here
    unfold element? at same
    revert same
    rcases d.nodes[n]? with _ | ⟨parent, children, _ | e | s⟩ <;> intro same
    · rfl
    · rfl
    · exact congrArg (fun e => some (Node.mk parent children (.element e))) (same e rfl)
    · rfl
  · rfl

theorem modifyElement_modifyElement (d : Dom) (n : NodeId) (f g : Element → Element) :
    (d.modifyElement n f).modifyElement n g = d.modifyElement n (g ∘ f) := by
  refine ext_nodes fun k => ?_
  simp only [node_modifyElement]
  by_cases here : n = k
  · rw [if_pos here, if_pos here, if_pos here, Option.map_map]
    exact congrArg (d.nodes[k]?.map ·) (funext (Node.change_change f g))
  · rw [if_neg here, if_neg here, if_neg here]

theorem modifyElement_comm (apart : n ≠ k) (f g : Element → Element) :
    (d.modifyElement n f).modifyElement k g = (d.modifyElement k g).modifyElement n f := by
  refine ext_nodes fun m => ?_
  simp only [node_modifyElement]
  by_cases here : n = m
  · subst here
    simp [apart.symm]
  · simp [here]

theorem setProperty_eq_self (own : d.property? n name = some value) :
    d.setProperty n name value = d := by
  refine modifyElement_eq_self fun e found => ?_
  rw [property?, found] at own
  have same : putPair name value e.properties = e.properties := putPair_eq_self own
  rw [same]

theorem setProperty_setProperty (d : Dom) (n : NodeId) (name : String)
    (value later : Page.PropertyValue) :
    (d.setProperty n name value).setProperty n name later = d.setProperty n name later := by
  rw [setProperty, setProperty, modifyElement_modifyElement]
  refine congrArg (d.modifyElement n) (funext fun e => ?_)
  exact congrArg (fun properties => { e with properties }) (putPair_putPair ..)

theorem setProperty_comm (apart : n ≠ k) (value other : Page.PropertyValue) :
    (d.setProperty n name value).setProperty k name other =
      (d.setProperty k name other).setProperty n name value :=
  modifyElement_comm apart _ _

theorem isElement_setProperty (d : Dom) (n k : NodeId) (name : String)
    (value : Page.PropertyValue) : (d.setProperty n name value).isElement k = d.isElement k :=
  (d.agrees_setProperty n name value).isElement k

theorem property?_setProperty_self (element : d.isElement n) :
    (d.setProperty n name value).property? n name = some value := by
  obtain ⟨e, found⟩ := Option.isSome_iff_exists.mp element
  rw [property?, setProperty, element?_modifyElement, if_pos rfl, found]
  exact congrArg (Option.map Prod.snd) (find?_putPair_self value e.properties)

theorem property?_setProperty_of_ne (apart : n ≠ k) :
    (d.setProperty n name value).property? k name = d.property? k name := by
  rw [property?, property?, setProperty, element?_modifyElement, if_neg apart]

theorem property?_setProperties_of_mem {ns : List NodeId}
    {value : NodeId → Page.PropertyValue} (element : d.isElement k) (mem : k ∈ ns) :
    (ns.foldl (fun d n => d.setProperty n name (value n)) d).property? k name =
      some (value k) := by
  induction ns generalizing d with
  | nil => cases mem
  | cons n rest ih =>
      have kept : (d.setProperty n name (value n)).isElement k := by rwa [isElement_setProperty]
      rw [List.foldl_cons]
      by_cases later : k ∈ rest
      · exact ih kept later
      · obtain rfl := (List.mem_cons.mp mem).resolve_right later
        obtain same | set := property?_setProperties (d.setProperty k name (value k)) name rest k value
        · exact same.trans (property?_setProperty_self element)
        · exact set

theorem setProperties_eq_self {ns : List NodeId}
    (own : ∀ n ∈ ns, d.property? n name = some value) :
    ns.foldl (fun d n => d.setProperty n name value) d = d := by
  induction ns with
  | nil => rfl
  | cons n rest ih =>
      obtain ⟨first, own⟩ := List.forall_mem_cons.mp own
      rw [List.foldl_cons, setProperty_eq_self first, ih own]

/-- What an element gets last is what it has: it may as well be left out before. -/
theorem setProperties_setProperty (d : Dom) (ns : List NodeId) (n : NodeId) (name : String)
    (value last : Page.PropertyValue) :
    (ns.foldl (fun d o => d.setProperty o name value) d).setProperty n name last =
      (ns.filter (· ≠ n)).foldl (fun d o => d.setProperty o name value)
        (d.setProperty n name last) := by
  induction ns generalizing d with
  | nil => rfl
  | cons o rest ih =>
      rw [List.foldl_cons, ih]
      by_cases own : o = n
      · subst own
        rw [setProperty_setProperty, List.filter_cons_of_neg (by simp)]
      · rw [setProperty_comm own, List.filter_cons_of_pos (by simpa using own), List.foldl_cons]

end Again

end BrowserScript.Dom
