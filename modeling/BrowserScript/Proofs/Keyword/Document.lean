import BrowserScript.Keyword.Basic
import BrowserScript.Proofs.Json.Decoding
import Mathlib.Data.String.Basic

/-!
Keyword tables in documents. The domains of a table stand in order, whatever is merged into it, and
a table in order is read from its document as it was.
-/

namespace BrowserScript

theorem Keyword.ofJson?_toJson (k : Keyword) : Keyword.ofJson? k.toJson = some k := by
  rfl

namespace KeywordTables

variable {domains known : List (String × List Keyword)} {d : String}
  {change : List Keyword → List Keyword}

/-- Each domain comes before those behind it. -/
def Sorted (domains : List (String × List Keyword)) : Prop := domains.Pairwise fun a b => a.1 < b.1

theorem mem_updateDomain {f : String × List Keyword} (mem : f ∈ updateDomain d change known) :
    f.1 = d ∨ f ∈ known := by
  induction known with
  | nil =>
      obtain rfl := List.mem_singleton.mp mem
      exact .inl rfl
  | cons old rest ih =>
      obtain ⟨d', ks⟩ := old
      rw [updateDomain] at mem
      split at mem
      · rename_i same
        rcases List.mem_cons.mp mem with rfl | mem
        · exact .inl same.symm
        · exact .inr (List.mem_cons_of_mem _ mem)
      · split at mem
        · rcases List.mem_cons.mp mem with rfl | mem
          · exact .inl rfl
          · exact .inr mem
        · rcases List.mem_cons.mp mem with rfl | mem
          · exact .inr List.mem_cons_self
          · exact (ih mem).imp_right (List.mem_cons_of_mem _)

theorem sorted_updateDomain (sorted : Sorted known) : Sorted (updateDomain d change known) := by
  induction known with
  | nil => exact List.pairwise_singleton _ _
  | cons old rest ih =>
      obtain ⟨d', ks⟩ := old
      obtain ⟨least, sorted'⟩ := List.pairwise_cons.mp sorted
      rw [updateDomain]
      split
      · exact List.pairwise_cons.mpr ⟨least, sorted'⟩
      · rename_i other
        split
        · rename_i less
          refine List.pairwise_cons.mpr ⟨List.forall_mem_cons.mpr ⟨less, ?_⟩, sorted⟩
          exact fun f mem => lt_trans less (least f mem)
        · rename_i notLess
          refine List.pairwise_cons.mpr ⟨fun f mem => ?_, ih sorted'⟩
          rcases mem_updateDomain mem with same | mem
          · rw [same]
            exact lt_of_le_of_ne (not_lt.mp notLess) (Ne.symm other)
          · exact least f mem

theorem sorted_foldl {α : Type} {key : α → String} {change : α → List Keyword → List Keyword}
    (xs : List α) (sorted : Sorted known) :
    Sorted (xs.foldl (fun known x => updateDomain (key x) (change x) known) known) := by
  induction xs generalizing known with
  | nil => exact sorted
  | cons x xs ih => exact ih (sorted_updateDomain sorted)

theorem sorted_merge {t : KeywordTables} (sorted : Sorted t.domains) (incoming : KeywordTables) :
    Sorted (t.merge incoming).domains := sorted_foldl incoming.domains sorted

theorem sorted_sortDomains (domains : List (String × List Keyword)) :
    Sorted (sortDomains domains) := sorted_foldl domains .nil

/-- A domain that comes behind all others is put at the end. -/
theorem updateDomain_last (behind : ∀ f ∈ known, f.1 < d) :
    updateDomain d change known = known ++ [(d, change [])] := by
  induction known with
  | nil => rfl
  | cons old rest ih =>
      obtain ⟨d', ks⟩ := old
      obtain ⟨less, behind⟩ := List.forall_mem_cons.mp behind
      rw [updateDomain, if_neg (ne_of_gt less), if_neg (lt_asymm less), ih behind]
      rfl

theorem sortDomains_of_sorted (sorted : Sorted domains) : sortDomains domains = domains := by
  have appends : ∀ known, Sorted (known ++ domains) →
      domains.foldl (fun known f => updateDomain f.1 (fun _ => f.2) known) known =
        known ++ domains := by
    clear sorted
    induction domains with
    | nil => exact fun known _ => (List.append_nil known).symm
    | cons f rest ih =>
        -- what is known comes before what is left, so the next domain goes to its end
        intro known sorted
        have behind : ∀ g ∈ known, g.1 < f.1 := fun g mem =>
          (List.pairwise_append.mp sorted).2.2 g mem _ List.mem_cons_self
        rw [List.append_cons] at sorted
        rw [List.foldl_cons, List.append_cons known _ rest, ← ih _ sorted]
        rw [updateDomain_last behind]
  exact appends [] sorted

/-! ## Documents -/

def keywordsJson (ks : List Keyword) : Json := .array (ks.map Keyword.toJson)

def domainsJson (domains : List (String × List Keyword)) : Json :=
  .object (domains.map fun (d, ks) => (d, keywordsJson ks))

theorem asList_keywordsJson (ks : List Keyword) :
    Json.asList Keyword.ofJson? (keywordsJson ks) = some ks :=
  Json.asList_map fun k _ => k.ofJson?_toJson

/-- A map with different keys is read as it was. -/
theorem asMap_of_sorted (sorted : Sorted domains) :
    Json.asMap (Json.asList Keyword.ofJson?) (domainsJson domains) = some domains := by
  rw [domainsJson, Json.asMap]
  induction domains with
  | nil => rfl
  | cons f rest ih =>
      obtain ⟨d, ks⟩ := f
      obtain ⟨least, sorted⟩ := List.pairwise_cons.mp sorted
      have fresh : (rest.any fun g => g.1 == d) = false := by
        refine List.any_eq_false.mpr fun g mem same => ?_
        exact absurd (least g mem) (by rw [beq_iff_eq.mp same]; exact lt_irrefl d)
      rw [List.map_cons, List.reverse_cons, List.foldlM_append, ih sorted]
      simp [asList_keywordsJson, fresh]

theorem ofFields?_toFields {t : KeywordTables} (sorted : Sorted t.domains) :
    ofFields? (some (keywordsJson t.shared)) (some (domainsJson t.domains)) = some t := by
  rw [ofFields?]
  simp only [Json.withDefault, asList_keywordsJson, asMap_of_sorted sorted, Option.bind_eq_bind,
    Option.bind_some, sortDomains_of_sorted sorted]

theorem sorted_of_ofFields? {shared domains : Option Json} {t : KeywordTables}
    (read : ofFields? shared domains = some t) : Sorted t.domains := by
  obtain ⟨ks, -, read⟩ := Option.bind_eq_some_iff.mp read
  obtain ⟨ds, -, read⟩ := Option.bind_eq_some_iff.mp read
  cases read
  exact sorted_sortDomains ds

theorem exact_keywordsJson (ks : List Keyword) : Json.Exact (keywordsJson ks) := by
  refine Json.exactItems_iff.mpr fun v mem => ?_
  obtain ⟨k, -, rfl⟩ := List.mem_map.mp mem
  exact ⟨trivial, trivial, trivial, trivial⟩

theorem depth_keywordsJson (ks : List Keyword) : Json.depth (keywordsJson ks) ≤ 2 := by
  refine Json.depth_array_le.mpr fun v mem => ?_
  obtain ⟨k, -, rfl⟩ := List.mem_map.mp mem
  exact Nat.le_refl 1

theorem exact_domainsJson (domains : List (String × List Keyword)) :
    Json.Exact (domainsJson domains) := by
  refine Json.exactFields_iff.mpr fun f mem => ?_
  obtain ⟨g, -, rfl⟩ := List.mem_map.mp mem
  exact exact_keywordsJson g.2

theorem depth_domainsJson (domains : List (String × List Keyword)) :
    Json.depth (domainsJson domains) ≤ 3 := by
  refine Json.depth_object_le.mpr fun f mem => ?_
  obtain ⟨g, -, rfl⟩ := List.mem_map.mp mem
  exact depth_keywordsJson g.2

end KeywordTables

end BrowserScript
