import BrowserScript.Json.Decode
import BrowserScript.Proofs.Json.Depth
import BrowserScript.Proofs.Json.Printed

/-!
Decoders on what their encoders give: records of given fields, lists, and values that may be
absent.
-/

namespace BrowserScript.Json

variable {α : Type}

/-! ## Fields -/

/-- The fields that have a value, in order. -/
def present (fs : List (String × Option Json)) : Fields :=
  fs.filterMap fun (name, value) => value.map (name, ·)

theorem ofFields_eq (fs : List (String × Option Json)) : ofFields fs = .object (present fs) := rfl

theorem present_cons (name : String) (value : Option Json) (fs : List (String × Option Json)) :
    present ((name, value) :: fs) = (value.map (name, ·)).toList ++ present fs := by
  cases value <;> rfl

theorem name_mem_of_present {fs : List (String × Option Json)} {f : String × Json}
    (mem : f ∈ present fs) : f.1 ∈ fs.map (·.1) := by
  obtain ⟨⟨name, value⟩, given, is⟩ := List.mem_filterMap.mp mem
  obtain ⟨v, rfl, rfl⟩ := Option.map_eq_some_iff.mp is
  exact List.mem_map.mpr ⟨_, given, rfl⟩

/-- Of a name that stands once there is one field at most, and it has the value. -/
theorem filter_present {fs : List (String × Option Json)} (nodup : (fs.map (·.1)).Nodup)
    {name : String} {value : Option Json} (mem : (name, value) ∈ fs) :
    (present fs).filter (·.1 == name) = (value.map (name, ·)).toList := by
  induction fs with
  | nil => cases mem
  | cons f fs ih =>
      obtain ⟨name', value'⟩ := f
      obtain ⟨fresh, nodup⟩ := List.nodup_cons.mp nodup
      rw [present_cons, List.filter_append]
      rcases List.mem_cons.mp mem with same | mem
      · cases same
        have others : (present fs).filter (·.1 == name) = [] := by
          refine List.filter_eq_nil_iff.mpr fun f mem is => fresh ?_
          rw [← beq_iff_eq.mp is]
          exact name_mem_of_present mem
        rw [others, List.append_nil]
        cases value <;> simp
      · have other : name' ≠ name := by
          rintro rfl
          exact fresh (List.mem_map.mpr ⟨_, mem, rfl⟩)
        rw [ih nodup mem]
        cases value' <;> simp [other]

/-- A record is read from its fields in order. -/
theorem record_ofFields {fs : List (String × Option Json)} (nodup : (fs.map (·.1)).Nodup)
    (least : Nat) : record (fs.map (·.1)) least (ofFields fs) = some (fs.map (·.2)) := by
  have once : ((fs.map (·.1)).all fun name =>
      ((present fs).filter (·.1 == name)).length ≤ 1) = true := by
    refine List.all_eq_true.mpr fun name named => ?_
    obtain ⟨⟨name, value⟩, mem, rfl⟩ := List.mem_map.mp named
    rw [filter_present nodup mem]
    cases value <;> simp
  rw [ofFields_eq, record, if_pos once, List.map_map]
  congr 1
  refine List.map_congr_left fun f mem => ?_
  have found := filter_present nodup mem
  show ((present fs).find? (·.1 == f.1)).map (·.2) = f.2
  rw [← List.head?_filter, found]
  cases f.2 <;> rfl

theorem depthFields_present_cons (name : String) (value : Option Json)
    (fs : List (String × Option Json)) : depthFields (present ((name, value) :: fs)) =
      max ((value.map depth).getD 0) (depthFields (present fs)) := by
  cases value with
  | none => exact (Nat.zero_max _).symm
  | some v => rfl

theorem exactFields_present_cons (name : String) (value : Option Json)
    (fs : List (String × Option Json)) : ExactFields (present ((name, value) :: fs)) ↔
      (∀ v ∈ value, Exact v) ∧ ExactFields (present fs) := by
  cases value with
  | none => simp [present]
  | some v =>
      rw [present_cons]
      simp [ExactFields]

theorem exactItems_iff {items : List Json} : ExactItems items ↔ ∀ v ∈ items, Exact v := by
  induction items with
  | nil => simp [ExactItems]
  | cons item rest ih => simp [ExactItems, ih]

theorem exactFields_iff {fields : Fields} : ExactFields fields ↔ ∀ f ∈ fields, Exact f.2 := by
  induction fields with
  | nil => simp [ExactFields]
  | cons field rest ih => simp [ExactFields, ih]

theorem depthItems_map {f : α → Json} {n : Nat} (flat : ∀ x, depth (f x) = n) (xs : List α) :
    depthItems (xs.map f) ≤ n :=
  depthItems_le_iff.mpr fun v mem => by
    obtain ⟨x, -, rfl⟩ := List.mem_map.mp mem
    exact Nat.le_of_eq (flat x)

/-! ## Values -/

theorem mapM_map {β γ : Type} {f : β → γ} {g : γ → Option β} {xs : List β}
    (inverse : ∀ x ∈ xs, g (f x) = some x) : (xs.map f).mapM g = some xs := by
  induction xs with
  | nil => rfl
  | cons x xs ih =>
      rw [List.map_cons, List.mapM_cons, inverse x List.mem_cons_self,
        ih fun x mem => inverse x (List.mem_cons_of_mem _ mem)]
      rfl

theorem asList_map {encode : α → Json} {decode : Decoder α} {xs : List α}
    (inverse : ∀ x ∈ xs, decode (encode x) = some x) :
    asList decode (.array (xs.map encode)) = some xs := mapM_map inverse

theorem asList_strings (ws : List String) : asList asString (.array (ws.map .string)) = some ws :=
  asList_map fun _ _ => rfl

theorem required_some (decode : Decoder α) (j : Json) : required decode (some j) = decode j := by
  rw [required, Option.bind_some]

theorem asWord_ofNat {n : Nat} (small : n < 1 <<< 64) : asWord (.ofNat n) = some n := by
  rw [asWord, ofNat, asNat, if_pos ⟨Int.natCast_nonneg n, Int.ofNat_lt.mpr small⟩,
    Int.toNat_natCast]

theorem optional_some {decode : Decoder α} {j : Json} {a : α} (read : decode j = some a)
    (value : j ≠ .null) : optional decode (some j) = some (some a) := by
  show orNull decode j = _
  rw [orNull]
  · rw [read]
    rfl
  · exact value

theorem optional_map {encode : α → Json} {decode : Decoder α} {x : Option α}
    (inverse : ∀ a ∈ x, decode (encode a) = some a) (value : ∀ a, encode a ≠ .null) :
    optional decode (x.map encode) = some x := by
  cases x with
  | none => rfl
  | some a => exact optional_some (inverse a rfl) (value a)

theorem optional_strings (x : Option String) : optional asString (x.map .string) = some x :=
  optional_map (fun _ _ => rfl) nofun

/-! ## Values that were read -/

/-- The values of a record's fields nest less deep than the record. -/
theorem depth_of_record {names : List String} {least : Nat} {j v : Json}
    {fs : List (Option Json)} (read : record names least j = some fs) (mem : some v ∈ fs) :
    depth v < depth j := by
  rw [record.eq_def] at read
  split at read
  · split at read <;> cases read
    rename_i fields _
    obtain ⟨name, -, value⟩ := List.mem_map.mp mem
    obtain ⟨f, found, rfl⟩ := Option.map_eq_some_iff.mp value
    have member := List.mem_of_find?_eq_some found
    exact Nat.lt_succ_of_le (depthFields_le_iff.mp (Nat.le_refl _) f member)
  · split at read <;> cases read
    rename_i items _
    rcases List.mem_append.mp mem with mem | mem
    · obtain ⟨item, mem, same⟩ := List.mem_map.mp mem
      cases same
      exact Nat.lt_succ_of_le (depthItems_le_iff.mp (Nat.le_refl _) v mem)
    · cases (List.mem_replicate.mp mem).2
  · cases read

theorem asWord_lt {j : Json} {n : Nat} (read : asWord j = some n) : n < 1 <<< 64 := by
  rw [asWord, asNat.eq_def] at read
  split at read
  · split at read <;> cases read
    rename_i fits
    exact (Int.toNat_lt fits.1).mpr fits.2
  · cases read

theorem optional_eq_some {decode : Decoder α} {j : Option Json} {x : Option α} {a : α}
    (read : optional decode j = some x) (is : a ∈ x) : ∃ j, decode j = some a := by
  cases is
  cases j with
  | none => cases read
  | some j =>
      change orNull decode j = some (some a) at read
      rw [orNull.eq_def] at read
      split at read
      · cases read
      · obtain ⟨b, read, same⟩ := Option.map_eq_some_iff.mp read
        cases same
        exact ⟨_, read⟩

theorem asList_eq_some {decode : Decoder α} {j : Json} {xs : List α}
    (read : asList decode j = some xs) :
    ∃ items, j = .array items ∧ items.mapM decode = some xs := by
  cases j with
  | array items => exact ⟨items, rfl, read⟩
  | _ => cases read

end BrowserScript.Json
