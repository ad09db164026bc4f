import BrowserScript.Proofs.Keyword.Document

/-!
Importing keywords. Of the incoming keywords of a name the last counts; it takes the place of the
first one that is known, or comes behind all that are. Main statement: `merge_imports`, over whole
tables.
-/

namespace BrowserScript

namespace Keyword

variable {keywords incoming : List Keyword} {k : Keyword} {name : String}

def names (keywords : List Keyword) : List String := keywords.map (·.name)

/-- The last keyword of that name. -/
def last (name : String) (keywords : List Keyword) : Option Keyword := lookup name keywords.reverse

/-- Those of any other name. -/
def others (name : String) (keywords : List Keyword) : List Keyword :=
  keywords.filter fun k => !k.name == name

theorem names_cons (k : Keyword) (keywords : List Keyword) :
    names (k :: keywords) = k.name :: names keywords := rfl

theorem names_others (name : String) (keywords : List Keyword) :
    names (others name keywords) = (names keywords).filter fun n => !n == name := by
  rw [names, names, List.filter_map]
  rfl

theorem name_of_lookup (found : lookup name keywords = some k) : k.name = name := by
  simpa using List.find?_some found

theorem lookup_cons (name : String) (k : Keyword) (keywords : List Keyword) :
    lookup name (k :: keywords) = if k.name = name then some k else lookup name keywords := by
  by_cases own : k.name = name
  · rw [lookup, List.find?_cons_of_pos (by simpa using own), if_pos own]
  · rw [lookup, List.find?_cons_of_neg (by simpa using own), if_neg own, lookup]

theorem last_cons (name : String) (k : Keyword) (keywords : List Keyword) :
    last name (k :: keywords) =
      (last name keywords).or (if k.name = name then some k else none) := by
  rw [last, List.reverse_cons, lookup, List.find?_append, ← lookup, ← lookup, lookup_cons]
  rfl

theorem last_others (name other : String) (keywords : List Keyword) :
    last name (others other keywords) = if name = other then none else last name keywords := by
  rw [last, others, ← List.filter_reverse, lookup, List.find?_filter]
  split
  · rename_i same
    simp [same]
  · rename_i apart
    refine congrArg (List.find? · _) (funext fun k => ?_)
    by_cases own : k.name = name
    · simp [own, apart]
    · simp [own]

theorem others_cons_self (k : Keyword) (rest : List Keyword) :
    others k.name (k :: rest) = others k.name rest :=
  List.filter_cons_of_neg (by simp)

theorem length_others_lt (k : Keyword) (rest : List Keyword) :
    (others k.name (k :: rest)).length < (k :: rest).length := by
  rw [others_cons_self]
  exact Nat.lt_succ_of_le (List.length_filter_le _ rest)

theorem name_getD_last (k : Keyword) (incoming : List Keyword) :
    ((last k.name incoming).getD k).name = k.name := by
  cases found : last k.name incoming with
  | none => rfl
  | some k' => exact name_of_lookup found

/-! ## Merging lists -/

/-- The first of a name is replaced by the last of the incoming, which then leave the others
alone. -/
theorem merge_cons (k : Keyword) (keywords incoming : List Keyword) :
    merge (k :: keywords) incoming =
      (last k.name incoming).getD k :: merge keywords (others k.name incoming) := by
  induction incoming generalizing k keywords with
  | nil => rfl
  | cons i rest ih =>
      rw [merge, List.foldl_cons, ← merge, insert, last_cons]
      by_cases own : k.name = i.name
      · rw [if_pos own, ih, own, others_cons_self, if_pos rfl]
        cases last i.name rest <;> rfl
      · have stays : others k.name (i :: rest) = i :: others k.name rest :=
          List.filter_cons_of_pos (by simpa using Ne.symm own)
        rw [if_neg own, ih, stays, if_neg (Ne.symm own), Option.or_none, merge, merge,
          List.foldl_cons]

/-- The first that comes in could have been known before. -/
theorem merge_nil_cons (i : Keyword) (rest : List Keyword) :
    merge [] (i :: rest) = merge [i] (i :: rest) := by
  simp [merge, insert]

/-- What holds of an import when it holds without the first that is known and all of its name. -/
theorem merge_induction {P : List Keyword → List Keyword → Prop} (none : P [] [])
    (known : ∀ k keywords incoming, P keywords (others k.name incoming) →
      P (k :: keywords) incoming)
    (new : ∀ i rest, P [i] (i :: rest) → P [] (i :: rest)) (keywords incoming : List Keyword) :
    P keywords incoming := by
  induction keywords generalizing incoming with
  | cons k keywords ih => exact known k keywords incoming (ih _)
  | nil =>
      induction length : incoming.length using Nat.strongRecOn generalizing incoming with
      | _ n ih =>
          cases incoming with
          | nil => exact none
          | cons i rest =>
              have less : (others i.name (i :: rest)).length < n := length ▸ length_others_lt i rest
              exact new i rest (known i [] (i :: rest) (ih _ less _ rfl))

theorem lookup_insert (name : String) (k : Keyword) (keywords : List Keyword) :
    lookup name (insert k keywords) = if k.name = name then some k else lookup name keywords := by
  induction keywords with
  | nil => exact lookup_cons name k []
  | cons old rest ih =>
      rw [insert]
      split
      · rename_i same
        rw [lookup_cons, lookup_cons, same]
        split <;> rfl
      · rename_i other
        rw [lookup_cons, lookup_cons, ih]
        by_cases own : old.name = name
        · rw [if_pos own, if_pos own, if_neg fun also => other (own.trans also.symm)]
        · rw [if_neg own, if_neg own]

theorem lookup_merge (name : String) (keywords incoming : List Keyword) :
    lookup name (merge keywords incoming) = (last name incoming).or (lookup name keywords) := by
  induction incoming generalizing keywords with
  | nil => rfl
  | cons i rest ih =>
      rw [merge, List.foldl_cons, ← merge, ih, lookup_insert, last_cons, Option.or_assoc]
      split <;> rfl

/-- Names keep their order; those that are new come behind, in the order of their first. -/
theorem names_merge (keywords incoming : List Keyword) :
    names (merge keywords incoming) = names keywords ++
      ((names incoming).filter fun n => n ∉ names keywords).eraseDups := by
  induction keywords, incoming using merge_induction with
  | none => rfl
  | known k keywords incoming ih =>
      rw [merge_cons, names_cons, names_cons, name_getD_last, ih, names_others, List.filter_filter,
        List.cons_append]
      refine congrArg (fun ns => k.name :: (names keywords ++ List.eraseDups ns)) ?_
      refine List.filter_congr fun n _ => ?_
      by_cases own : n = k.name <;> simp [own]
  | new i rest ih =>
      rw [merge_nil_cons, ih]
      simp [names, List.eraseDups_cons, beq_eq_decide]

theorem nodup_eraseDups (ns : List String) : ns.eraseDups.Nodup := by
  induction length : ns.length using Nat.strongRecOn generalizing ns with
  | _ n ih =>
      cases ns with
      | nil => exact .nil
      | cons a rest =>
          have less : (rest.filter fun b => !b == a).length < n :=
            length ▸ Nat.lt_succ_of_le (List.length_filter_le _ rest)
          rw [List.eraseDups_cons]
          refine List.nodup_cons.mpr ⟨fun mem => ?_, ih _ less _ rfl⟩
          simpa using List.of_mem_filter (List.mem_eraseDups.mp mem)

/-- No name becomes more frequent, but one that is new is there once. -/
theorem count_merge (name : String) (keywords incoming : List Keyword) :
    (names (merge keywords incoming)).count name =
      if name ∈ names keywords then (names keywords).count name
      else if name ∈ names incoming then 1 else 0 := by
  rw [names_merge, List.count_append, (nodup_eraseDups _).count]
  by_cases known : name ∈ names keywords
  · simp [known]
  · simp [known, List.count_eq_zero_of_not_mem]

/-- What is known is kept, but for the first of a name that comes in. -/
theorem getElem?_merge {i : Nat} (known : keywords[i]? = some k) :
    (merge keywords incoming)[i]? = some
      (if k.name ∈ names (keywords.take i) then k else (last k.name incoming).getD k) := by
  induction keywords generalizing i incoming with
  | nil => cases known
  | cons old rest ih =>
      rw [merge_cons]
      cases i with
      | zero =>
          obtain rfl := Option.some.inj known
          simp [names]
      | succ i =>
          rw [List.getElem?_cons_succ] at known ⊢
          rw [ih known, List.take_succ_cons, names_cons, last_others]
          refine congrArg some ?_
          by_cases same : k.name = old.name
          · simp [same]
          · simp [same]

/-- What has come in is not changed when it comes in again. -/
theorem merge_merge (keywords incoming : List Keyword) :
    merge (merge keywords incoming) incoming = merge keywords incoming := by
  induction keywords, incoming using merge_induction with
  | none => rfl
  | known k keywords incoming ih =>
      rw [merge_cons, merge_cons, name_getD_last, ih]
      cases last k.name incoming <;> rfl
  | new i rest ih => rwa [merge_nil_cons]

/-- What an import makes of a list: a name stands for the last of its keywords that come in, else
for what it stood for; everything else is as it was. -/
structure Imports (known incoming result : List Keyword) : Prop where
  lookup : ∀ name, lookup name result = (last name incoming).or (Keyword.lookup name known)
  names : names result =
    names known ++ ((names incoming).filter fun n => n ∉ names known).eraseDups
  count : ∀ name, (Keyword.names result).count name =
    if name ∈ Keyword.names known then (Keyword.names known).count name
    else if name ∈ Keyword.names incoming then 1 else 0
  kept : ∀ i k, known[i]? = some k → result[i]? = some
    (if k.name ∈ Keyword.names (known.take i) then k else (last k.name incoming).getD k)

theorem imports_merge (keywords incoming : List Keyword) :
    Imports keywords incoming (merge keywords incoming) where
  lookup name := lookup_merge name keywords incoming
  names := names_merge keywords incoming
  count name := count_merge name keywords incoming
  kept _ _ := getElem?_merge

end Keyword

namespace KeywordTables

open Keyword (Imports)

variable {domains known : List (String × List Keyword)} {d domain : String} {ks : List Keyword}
  {change : List Keyword → List Keyword} {t incoming : KeywordTables}

/-- The table of a domain, if there is one. -/
def tableOf (domain : String) (domains : List (String × List Keyword)) : Option (List Keyword) :=
  (domains.find? (·.1 == domain)).map (·.2)

theorem ofDomain_eq (t : KeywordTables) (domain : String) :
    t.ofDomain domain = (tableOf domain t.domains).getD [] := rfl

theorem tableOf_cons (domain d : String) (ks : List Keyword)
    (rest : List (String × List Keyword)) :
    tableOf domain ((d, ks) :: rest) = if d = domain then some ks else tableOf domain rest := by
  by_cases own : d = domain
  · rw [tableOf, List.find?_cons_of_pos (by simpa using own), if_pos own]
    rfl
  · rw [tableOf, List.find?_cons_of_neg (by simpa using own), if_neg own, tableOf]

/-- A domain that comes before all others has no table. -/
theorem tableOf_of_before (before : ∀ f ∈ domains, domain < f.1) :
    tableOf domain domains = none := by
  refine Option.map_eq_none_iff.mpr (List.find?_eq_none.mpr fun f mem => ?_)
  simpa using ne_of_gt (before f mem)

theorem tableOf_updateDomain (sorted : Sorted known) :
    tableOf domain (updateDomain d change known) =
      if d = domain then some (change ((tableOf d known).getD [])) else tableOf domain known := by
  induction known with
  | nil => exact tableOf_cons domain d _ []
  | cons first rest ih =>
      obtain ⟨d', ks⟩ := first
      obtain ⟨least, sorted⟩ := List.pairwise_cons.mp sorted
      rw [updateDomain]
      split
      · rename_i same
        rw [tableOf_cons, tableOf_cons, tableOf_cons, same, if_pos rfl]
        split <;> rfl
      · rename_i other
        split
        · rename_i less
          have before : ∀ f ∈ (d', ks) :: rest, d < f.1 :=
            List.forall_mem_cons.mpr ⟨less, fun f mem => lt_trans less (least f mem)⟩
          rw [tableOf_cons, tableOf_of_before before]
          rfl
        · rw [tableOf_cons, ih sorted, tableOf_cons, tableOf_cons, if_neg (Ne.symm other)]
          by_cases own : d' = domain
          · rw [if_pos own, if_pos own, if_neg fun same => other (same.trans own.symm)]
          · rw [if_neg own, if_neg own]

theorem updateDomain_eq_self (sorted : Sorted known) (own : tableOf d known = some ks)
    (same : change ks = ks) : updateDomain d change known = known := by
  induction known with
  | nil => cases own
  | cons first rest ih =>
      obtain ⟨d', ks'⟩ := first
      obtain ⟨least, sorted'⟩ := List.pairwise_cons.mp sorted
      rw [tableOf_cons] at own
      rw [updateDomain]
      by_cases here : d' = d
      · rw [if_pos here] at own
        obtain rfl := Option.some.inj own
        rw [if_pos here.symm, same]
      · rw [if_neg here] at own
        have later : ¬ d < d' := fun less => by
          rw [tableOf_of_before fun f mem => lt_trans less (least f mem)] at own
          cases own
        rw [if_neg (Ne.symm here), if_neg later, ih sorted' own]

/-- What is imported into a domain. -/
theorem tableOf_foldl (sorted : Sorted known) (sorted' : Sorted domains) (domain : String) :
    tableOf domain
        (domains.foldl (fun known f => updateDomain f.1 (Keyword.merge · f.2) known) known) =
      match tableOf domain domains with
      | some ks => some (Keyword.merge ((tableOf domain known).getD []) ks)
      | none => tableOf domain known := by
  induction domains generalizing known with
  | nil => rfl
  | cons first rest ih =>
      obtain ⟨d, ks⟩ := first
      obtain ⟨least, sorted'⟩ := List.pairwise_cons.mp sorted'
      rw [List.foldl_cons, ih (sorted_updateDomain sorted) sorted', tableOf_updateDomain sorted,
        tableOf_cons]
      by_cases own : d = domain
      · subst own
        rw [tableOf_of_before least, if_pos rfl, if_pos rfl]
      · rw [if_neg own, if_neg own]

theorem tableOf_merge (sorted : Sorted t.domains) (sorted' : Sorted incoming.domains)
    (domain : String) : tableOf domain (t.merge incoming).domains =
      match tableOf domain incoming.domains with
      | some ks => some (Keyword.merge (t.ofDomain domain) ks)
      | none => tableOf domain t.domains :=
  tableOf_foldl sorted sorted' domain

theorem tableOf_of_mem (sorted : Sorted domains) {f : String × List Keyword} (mem : f ∈ domains) :
    tableOf f.1 domains = some f.2 := by
  induction domains with
  | nil => cases mem
  | cons first rest ih =>
      obtain ⟨d, ks⟩ := first
      obtain ⟨least, sorted'⟩ := List.pairwise_cons.mp sorted
      rw [tableOf_cons]
      rcases List.mem_cons.mp mem with rfl | mem
      · exact if_pos rfl
      · rw [if_neg (ne_of_lt (least f mem)), ih sorted' mem]

theorem foldl_eq_self
    (each : ∀ f ∈ domains, updateDomain f.1 (Keyword.merge · f.2) known = known) :
    domains.foldl (fun known f => updateDomain f.1 (Keyword.merge · f.2) known) known = known := by
  induction domains with
  | nil => rfl
  | cons f rest ih =>
      obtain ⟨first, each⟩ := List.forall_mem_cons.mp each
      rw [List.foldl_cons, first, ih each]

theorem merge_merge (sorted : Sorted t.domains) (sorted' : Sorted incoming.domains) :
    (t.merge incoming).merge incoming = t.merge incoming := by
  have shared := Keyword.merge_merge t.shared incoming.shared
  have domains : ((t.merge incoming).merge incoming).domains = (t.merge incoming).domains := by
    refine foldl_eq_self fun f mem => ?_
    have own := tableOf_merge sorted sorted' f.1
    rw [tableOf_of_mem sorted' mem] at own
    exact updateDomain_eq_self (sorted_merge sorted incoming) own (Keyword.merge_merge _ f.2)
  exact congrArg₂ KeywordTables.mk shared domains

theorem imports_ofDomain (sorted : Sorted t.domains) (sorted' : Sorted incoming.domains)
    (domain : String) : Imports (t.ofDomain domain) (incoming.ofDomain domain)
      ((t.merge incoming).ofDomain domain) := by
  rw [ofDomain_eq incoming, ofDomain_eq (t.merge incoming), tableOf_merge sorted sorted']
  cases tableOf domain incoming.domains with
  | none => exact Keyword.imports_merge (t.ofDomain domain) []
  | some ks => exact Keyword.imports_merge _ ks

/-- Tables with each domain once, in order, are imported scope by scope: in each, of the keywords
of a name that come in the last counts, what is new comes behind, and all else is as it was. No
other domain gets or loses a table, and a second import of the same tables changes nothing. -/
theorem merge_imports (t incoming : KeywordTables) (sorted : Sorted t.domains)
    (sorted' : Sorted incoming.domains) :
    Imports t.shared incoming.shared (t.merge incoming).shared ∧
    (∀ domain, Imports (t.ofDomain domain) (incoming.ofDomain domain)
      ((t.merge incoming).ofDomain domain)) ∧
    Sorted (t.merge incoming).domains ∧
    (∀ domain, domain ∉ incoming.domains.map (·.1) →
      tableOf domain (t.merge incoming).domains = tableOf domain t.domains) ∧
    (t.merge incoming).merge incoming = t.merge incoming := by
  refine ⟨Keyword.imports_merge .., imports_ofDomain sorted sorted', sorted_merge sorted incoming,
    fun domain absent => ?_, merge_merge sorted sorted'⟩
  have none : tableOf domain incoming.domains = none := by
    refine Option.map_eq_none_iff.mpr (List.find?_eq_none.mpr fun f mem same => absent ?_)
    exact List.mem_map.mpr ⟨f, mem, eq_of_beq same⟩
  rw [tableOf_merge sorted sorted', none]

namespace Stocked

/-! A name is known twice and comes in twice, another one is new and comes in twice. -/

def shelf : KeywordTables where
  shared := [⟨"save", "#a", false⟩, ⟨"open", "#b", false⟩, ⟨"save", "#c", false⟩]
  domains := [("a.org", [⟨"save", "#d", false⟩])]

def delivery : KeywordTables where
  shared := [⟨"quit", "#e", false⟩, ⟨"save", "#f", false⟩, ⟨"quit", "#g", false⟩,
    ⟨"save", "#h", false⟩]
  domains := [("b.org", [⟨"open", "#i", false⟩])]

theorem merge_imports_delivery :
    Sorted shelf.domains ∧ Sorted delivery.domains ∧
    Keyword.lookup "save" (shelf.merge delivery).shared = some ⟨"save", "#h", false⟩ ∧
    Keyword.names (shelf.merge delivery).shared = ["save", "open", "save", "quit"] ∧
    Keyword.lookup "open" ((shelf.merge delivery).ofDomain "b.org") = some ⟨"open", "#i", false⟩ ∧
    tableOf "a.org" (shelf.merge delivery).domains = some [⟨"save", "#d", false⟩] ∧
    (shelf.merge delivery).merge delivery = shelf.merge delivery := by
  have sorted : Sorted shelf.domains := List.pairwise_singleton ..
  have sorted' : Sorted delivery.domains := List.pairwise_singleton ..
  obtain ⟨shared, each, -, absent, again⟩ := merge_imports shelf delivery sorted sorted'
  refine ⟨sorted, sorted', ?_, ?_, ?_, ?_, again⟩
  · rw [shared.lookup]
    decide
  · rw [shared.names]
    decide
  · rw [(each "b.org").lookup]
    decide
  · rw [absent "a.org" (by decide)]
    decide

end Stocked

end KeywordTables

end BrowserScript
