import BrowserScript.Proofs.Dom.Edits

/-!
Markup that is added below a node, text that takes the place of what is below it, and changes of
several elements, each as edits.
-/

namespace BrowserScript

namespace Html

/-! ## Attributes of start tags -/

def Token.Distinct : Token → Prop
  | .start _ attributes _ => (attributes.map (·.1)).Nodup
  | _ => True

theorem nodup_addAttribute {attributes : Attributes} (h : (attributes.map (·.1)).Nodup)
    (name value : List Char) : ((addAttribute attributes name value).map (·.1)).Nodup := by
  unfold addAttribute
  split
  · exact h
  · rename_i new
    rw [List.map_append]
    refine List.nodup_append.mpr ⟨h, List.nodup_singleton _, ?_⟩
    intro a mem b mem' eq
    obtain rfl := List.mem_singleton.mp mem'
    obtain ⟨pair, listed, rfl⟩ := List.mem_map.mp mem
    exact new (List.any_eq_true.mpr ⟨pair, listed, by simpa using eq⟩)

theorem nodup_tagRest {attributes : Attributes} (closed : Bool) (cs : List Char)
    (h : (attributes.map (·.1)).Nodup) :
    ((tagRest attributes closed cs).attributes.map (·.1)).Nodup := by
  fun_induction tagRest attributes closed cs with
  | case1 | case2 => exact h
  | case3 _ _ _ _ _ _ _ _ ih | case4 _ _ _ _ _ _ _ _ _ ih => exact ih h
  | case5 _ _ _ _ _ _ _ _ _ _ _ ih => exact ih (nodup_addAttribute h _ _)

theorem startTag?_distinct {cs rest : List Char} {t : Token}
    (h : startTag? cs = some (t, rest)) : t.Distinct := by
  have own : ((tagRest [] false (cs.dropWhile isTagChar)).attributes.map (·.1)).Nodup :=
    nodup_tagRest false _ List.nodup_nil
  unfold startTag? at h
  dsimp only at h
  split at h
  · cases h
  · split at h
    · obtain ⟨rfl, -⟩ := Prod.mk.inj (Option.some.inj h)
      exact own
    · split at h
      · obtain ⟨rfl, -⟩ := Prod.mk.inj (Option.some.inj h)
        exact own
      · obtain ⟨rfl, -⟩ := Prod.mk.inj (Option.some.inj h)
        exact own

theorem heldText_distinct {held : List Char} {t : Token} (h : t ∈ heldText held) :
    t.Distinct := by
  unfold heldText at h
  split at h
  · cases h
  · obtain rfl := List.mem_singleton.mp h
    trivial

theorem tokensFrom_distinct (held cs : List Char) : ∀ t ∈ tokensFrom held cs, t.Distinct := by
  fun_induction tokensFrom held cs with
  | case1 => exact fun _ => heldText_distinct
  | case2 _ _ _ _ ih => exact ih
  | case3 held c cs _ ih =>
      intro t mem
      obtain mem | mem := List.mem_append.mp mem
      · exact heldText_distinct mem
      · revert mem ih
        split
        · exact fun ih mem => ih t mem
        · exact fun ih mem => ih t mem
        · exact fun ih mem => ih t mem
        · intro ih mem
          obtain rfl | mem := List.mem_cons.mp mem
          · trivial
          · exact ih t mem
        · intro ih mem
          split at mem
          · rename_i first rest found
            obtain rfl | mem := List.mem_cons.mp mem
            · exact startTag?_distinct found
            · exact ih.1 first rest found t mem
          · exact ih.2 t mem

theorem tokens_distinct (cs : List Char) : ∀ t ∈ tokens cs, t.Distinct := tokensFrom_distinct [] cs

end Html

namespace Dom

variable {d d' : Dom} {base n : NodeId}

/-! ## Markup -/

/-- Markup on its way into a document: all that can get children is there and no text. -/
structure Graft.Growing (d : Dom) (base : NodeId) (g : Graft) : Prop where
  edits : Edits d g.dom
  base : base < g.dom.size ∧ g.dom.text? base = none
  opened : ∀ n ∈ g.opened, n < g.dom.size ∧ g.dom.text? n = none

namespace Graft.Growing

variable {g : Graft}

theorem parent (h : Growing d base g) :
    g.parent base < g.dom.size ∧ g.dom.text? (g.parent base) = none := by
  rcases opened : g.opened with _ | ⟨n, rest⟩
  · rw [Graft.parent, opened]
    exact h.base
  · rw [Graft.parent, opened]
    exact h.opened n (opened ▸ List.mem_cons_self)

/-- What could get children still can. -/
theorem later (h : Growing d base g) {dom : Dom} (edit : Edit g.dom dom) :
    Growing d base ⟨dom, g.opened⟩ where
  edits := h.edits.tail edit
  base := ⟨Nat.lt_of_lt_of_le h.base.1 edit.size_le, (edit.text h.base.1).trans h.base.2⟩
  opened n mem :=
    have own := h.opened n mem
    ⟨Nat.lt_of_lt_of_le own.1 edit.size_le, (edit.text own.1).trans own.2⟩

theorem push (h : Growing d base g) (inside : n < g.dom.size ∧ g.dom.text? n = none) :
    Growing d base ⟨g.dom, n :: g.opened⟩ where
  edits := h.edits
  base := h.base
  opened k mem := by
    obtain rfl | mem := List.mem_cons.mp mem
    · exact inside
    · exact h.opened k mem

theorem mem_close {tag : String} {opened : List NodeId} (mem : n ∈ close d tag opened) :
    n ∈ opened := by
  unfold close at mem
  split at mem
  · exact mem
  · rename_i first outer split
    have suffix := List.dropWhile_suffix (l := opened) fun n => d.tag? n != some tag
    exact suffix.subset (split ▸ List.mem_cons_of_mem _ mem)

theorem add (h : Growing d base g) {t : Html.Token} (distinct : t.Distinct) :
    Growing d base (g.add base t) := by
  have parent := h.parent
  cases t with
  | text cs => exact h.later (.create _ (.text _) parent.1 parent.2 trivial)
  | stop tag => exact ⟨h.edits, h.base, fun n mem => h.opened n (mem_close mem)⟩
  | start tag attributes body =>
      let made : Element :=
        { tag := String.ofList tag
          attributes := attributes.map fun a => (String.ofList a.1, String.ofList a.2) }
      have names : made.names.Nodup := by
        have own := distinct.map (f := String.ofList) fun a b eq => String.ofList_injective eq
        rw [List.map_map] at own
        rw [Element.names, List.map_map]
        exact own
      have element := h.later (.create _ (.element made) parent.1 parent.2 names)
      have inside : g.dom.size < (g.dom.create (g.parent base) (.element made)).size ∧
          (g.dom.create (g.parent base) (.element made)).text? g.dom.size = none :=
        ⟨by rw [size_create]; exact Nat.lt_succ_self _, text?_create_self parent.1 _⟩
      cases body with
      | opened => exact element.push inside
      | none => exact element
      | text cs =>
          cases cs with
          | nil => exact element
          | cons c rest => exact element.later (.create _ (.text _) inside.1 inside.2 trivial)

end Graft.Growing

theorem growing_foldl {g : Graft} (h : g.Growing d base) (ts : List Html.Token)
    (distinct : ∀ t ∈ ts, t.Distinct) : (ts.foldl (Graft.add base) g).Growing d base := by
  induction ts generalizing g with
  | nil => exact h
  | cons t rest ih =>
      exact ih (h.add (distinct t List.mem_cons_self))
        fun t mem => distinct t (List.mem_cons_of_mem _ mem)

theorem edits_addMarkup (there : base < d.size) (inner : d.text? base = none) (markup : String) :
    Edits d (d.addMarkup base markup) :=
  have start : Graft.Growing d base ⟨d, []⟩ := ⟨.refl, ⟨there, inner⟩, fun _ mem => nomatch mem⟩
  (growing_foldl start _ (Html.tokens_distinct _)).edits

theorem edits_ofMarkup (markup : String) : Edits empty (.ofMarkup markup) :=
  edits_addMarkup forest_empty.root_lt forest_empty.text?_root markup

theorem forest_ofMarkup (markup : String) : (ofMarkup markup).Forest :=
  (edits_ofMarkup markup).forest forest_empty

theorem distinct_ofMarkup (markup : String) : (ofMarkup markup).Distinct :=
  (edits_ofMarkup markup).distinct distinct_empty

/-! ## Text in place of children -/

theorem edits_foldl_detach (d : Dom) (ns : List NodeId) : Edits d (ns.foldl detach d) := by
  induction ns generalizing d with
  | nil => exact .refl
  | cons n rest ih => exact .head (.detach n) (ih _)

theorem size_foldl_detach (ns : List NodeId) (d : Dom) : (ns.foldl detach d).size = d.size := by
  induction ns generalizing d with
  | nil => rfl
  | cons n rest ih => exact (ih _).trans (d.size_detach n)

theorem parent_foldl_detach {ns : List NodeId} (mem : n ∈ ns) (d : Dom) :
    (ns.foldl detach d).parent n = none := by
  induction ns generalizing d with
  | nil => cases mem
  | cons m rest ih =>
      rw [List.foldl_cons]
      obtain rfl | mem := List.mem_cons.mp mem
      · by_contra link
        obtain ⟨p, link⟩ := Option.ne_none_iff_exists'.mp link
        have small : n < (d.detach n).size :=
          Nat.lt_of_lt_of_eq (lt_size_of_parent link) (size_foldl_detach _ _)
        have before := Edits.childOf (edits_foldl_detach _ rest) small link
        rw [ChildOf, parent_detach, if_pos rfl] at before
        cases before
      · exact ih mem _

theorem edits_setText (there : n < d.size) (inner : d.text? n = none) (text : String) :
    Edits d (((d.children n).foldl detach d).createText n text) := by
  have emptied := d.edits_foldl_detach (d.children n)
  have there' := Nat.lt_of_lt_of_le there (Edits.size_le emptied)
  have inner' := (Edits.text emptied there).trans inner
  exact emptied.tail (.create n (.text text) there' inner' trivial)

/-! ## Changed elements -/

theorem mem_keys_putPair {β : Type} {pairs : List (String × β)} {key name : String} {value : β}
    (mem : key ∈ (putPair name value pairs).map (·.1)) : key = name ∨ key ∈ pairs.map (·.1) := by
  induction pairs with
  | nil => exact .inl (List.mem_singleton.mp mem)
  | cons first rest ih =>
      obtain ⟨other, old⟩ := first
      unfold putPair at mem
      split at mem
      · exact .inr mem
      · obtain rfl | mem := List.mem_cons.mp mem
        · exact .inr List.mem_cons_self
        · exact (ih mem).imp id (List.mem_cons_of_mem _)

theorem nodup_putPair {β : Type} {pairs : List (String × β)} (h : (pairs.map (·.1)).Nodup)
    (name : String) (value : β) : ((putPair name value pairs).map (·.1)).Nodup := by
  induction pairs with
  | nil => exact List.nodup_singleton name
  | cons first rest ih =>
      obtain ⟨key, old⟩ := first
      obtain ⟨new, others⟩ := List.nodup_cons.mp h
      unfold putPair
      split
      · exact h
      · rename_i apart
        refine List.nodup_cons.mpr ⟨fun mem => ?_, ih others⟩
        exact (mem_keys_putPair mem).elim apart new

theorem edit_setAttribute (d : Dom) (n : NodeId) (name value : String) :
    Edit d (d.setAttribute n name value) :=
  .change n _ (fun _ => rfl) fun _ h => nodup_putPair h name value

theorem edit_removeAttribute (d : Dom) (n : NodeId) (name : String) :
    Edit d (d.removeAttribute n name) :=
  .change n _ (fun _ => rfl) fun e h =>
    have fewer : List.Sublist (e.attributes.filter (·.1 != name)) e.attributes :=
      List.filter_sublist
    (fewer.map Prod.fst).nodup h

theorem edit_setProperty (d : Dom) (n : NodeId) (name : String) (value : Page.PropertyValue) :
    Edit d (d.setProperty n name value) :=
  .change n _ (fun _ => rfl) fun _ h => h

theorem edit_setSize (d : Dom) (n : NodeId) (size : Float × Float) :
    Edit d (d.modifyElement n fun e => { e with size := some size }) :=
  .change n _ (fun _ => rfl) fun _ h => h

theorem edits_setProperties (d : Dom) (name : String) (value : NodeId → Page.PropertyValue)
    (ns : List NodeId) : Edits d (ns.foldl (fun d n => d.setProperty n name (value n)) d) := by
  induction ns generalizing d with
  | nil => exact .refl
  | cons n rest ih => exact .head (d.edit_setProperty n name _) (ih _)

end Dom

end BrowserScript
