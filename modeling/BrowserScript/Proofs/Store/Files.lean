import BrowserScript.Store.File
import Mathlib.Data.List.TakeWhile

/-!
The files an update touches: the document and, beside it, the temporary file. They are never the
same, neither is a folder above the other, and each step of an update is a step on the two texts.
-/

namespace BrowserScript.Store.File

/-! ## The name of the temporary file -/

/-- What is left of a name without a character begins with that character. -/
theorem dropWhile_ne_eq {c d : Char} {cs rest : List Char}
    (h : cs.dropWhile (· != c) = d :: rest) : d = c := by
  have head := List.head_dropWhile_not (· != c) (l := cs) (by simp [h])
  simpa [h] using head

/-- A name is its stem, or its stem with an extension. -/
theorem stem_eq_or (name : List Char) :
    stem name = name ∨ ∃ extension, '.' ∉ extension ∧ name = stem name ++ '.' :: extension := by
  have whole := List.takeWhile_append_dropWhile (p := (· != '.')) (l := name.reverse)
  have noDot : '.' ∉ (name.reverse.takeWhile (· != '.')).reverse := by
    intro dot
    simpa using List.mem_takeWhile_imp (List.mem_reverse.mp dot)
  unfold stem
  cases found : name.reverse.dropWhile (· != '.') with
  | nil => exact .inl rfl
  | cons d before =>
      obtain rfl := dropWhile_ne_eq found
      rw [found] at whole
      cases before with
      | nil => exact .inl rfl
      | cons c before =>
          refine .inr ⟨_, noDot, ?_⟩
          have := congrArg List.reverse whole
          simpa using this.symm

/-- How many folders deep a path is. -/
def slashes (path : String) : Nat := path.toList.count '/'

/-- The folder of a path, with the slash at its end. -/
def folder (path : String) : List Char := (path.toList.reverse.dropWhile (· != '/')).reverse

def name (path : String) : List Char := (path.toList.reverse.takeWhile (· != '/')).reverse

theorem folder_append_name (path : String) : folder path ++ name path = path.toList := by
  rw [folder, name, ← List.reverse_append, List.takeWhile_append_dropWhile, List.reverse_reverse]

theorem slash_notMem_name (path : String) : '/' ∉ name path := by
  intro slash
  simpa using List.mem_takeWhile_imp (List.mem_reverse.mp slash)

theorem temporary_toList (path : String) :
    (temporary path).toList = folder path ++ stem (name path) ++ ".json.tmp".toList := by
  simp [temporary, folder, name]

theorem temporary_ne (path : String) : temporary path ≠ path := by
  intro same
  have lists := congrArg String.toList same
  rw [temporary_toList, ← folder_append_name path, List.append_assoc,
    List.append_cancel_left_eq] at lists
  obtain whole | ⟨extension, noDot, parts⟩ := stem_eq_or (name path)
  · have := congrArg List.length lists
    simp [whole] at this
  · have extended : ".json.tmp".toList = '.' :: extension :=
      List.append_cancel_left (lists.trans parts)
    have : extension = "json.tmp".toList := (List.cons.inj extended).2.symm
    exact noDot (this ▸ by decide)

theorem slashes_temporary (path : String) : slashes (temporary path) = slashes path := by
  have noSlash : '/' ∉ stem (name path) := by
    obtain whole | ⟨extension, -, parts⟩ := stem_eq_or (name path)
    · rw [whole]
      exact slash_notMem_name path
    · exact fun slash => slash_notMem_name path (parts ▸ List.mem_append_left _ slash)
  rw [slashes, slashes, temporary_toList, ← folder_append_name path, List.count_append,
    List.count_append, List.count_append, List.count_eq_zero_of_not_mem noSlash,
    List.count_eq_zero_of_not_mem (slash_notMem_name path)]
  rfl

/-! ## Texts by path -/

namespace Files

variable {files : Files} {path other text : String}

theorem text?_remove_self (files : Files) (path : String) : (files.remove path).text? path = none := by
  simp [text?, remove]

theorem text?_remove_of_ne (h : other ≠ path) : (files.remove path).text? other = files.text? other := by
  unfold text? remove
  rw [List.find?_filter]
  congr 2
  funext file
  by_cases same : file.1 = other
  · simp [same, h]
  · simp [same]

theorem text?_put_self (files : Files) (path text : String) :
    (files.put path text).text? path = some text := by
  simp [text?, put]

theorem text?_put_of_ne (h : other ≠ path) :
    (files.put path text).text? other = files.text? other := by
  rw [text?, put, List.find?_cons_of_neg (by simpa using h.symm)]
  exact text?_remove_of_ne h

theorem slashes_lt_of_startsWith (h : Text.startsWith path (other ++ "/")) :
    slashes other < slashes path := by
  have before : (other ++ "/").toList <+: path.toList := List.isPrefixOf_iff_prefix.mp h
  have count := before.sublist.count_le '/'
  rw [String.toList_append, List.count_append] at count
  exact Nat.lt_of_lt_of_le (Nat.lt_succ_self _) count

theorem isFolder_remove (h : files.isFolder other = false) (path : String) :
    (files.remove path).isFolder other = false := by
  simp only [isFolder, remove, List.any_eq_false, List.mem_filter] at h ⊢
  exact fun file hfile => h file hfile.1

/-- A file that is not below another path is none of its folder. -/
theorem isFolder_put (h : files.isFolder other = false) (level : slashes path ≤ slashes other)
    (text : String) : (files.put path text).isFolder other = false := by
  have below : Text.startsWith path (other ++ "/") = false := by
    by_contra starts
    exact absurd (slashes_lt_of_startsWith (by simpa using starts)) (Nat.not_lt.mpr level)
  rw [put, isFolder, List.any_cons]
  exact Bool.or_eq_false_iff.mpr ⟨below, isFolder_remove h path⟩

end Files

/-! ## The steps of an update -/

/-- No folder stands in the place of the document or of the temporary file. -/
structure Files.Clear (files : Files) (path : String) : Prop where
  document : files.isFolder path = false
  draft : files.isFolder (temporary path) = false

theorem Files.Clear.put_document {files : Files} {path : String} (h : files.Clear path)
    (text : String) : (files.put path text).Clear path :=
  ⟨isFolder_put h.document (Nat.le_refl _) text,
    isFolder_put h.draft (Nat.le_of_eq (slashes_temporary path).symm) text⟩

theorem Files.Clear.put_draft {files : Files} {path : String} (h : files.Clear path)
    (text : String) : (files.put (temporary path) text).Clear path :=
  ⟨isFolder_put h.document (Nat.le_of_eq (slashes_temporary path)) text,
    isFolder_put h.draft (Nat.le_refl _) text⟩

theorem Files.Clear.remove {files : Files} {path : String} (h : files.Clear path)
    (other : String) : (files.remove other).Clear path :=
  ⟨isFolder_remove h.document other, isFolder_remove h.draft other⟩

variable {files : Files} {path source target text : String}

theorem perform_read (h : files.isFolder path = false) :
    (perform (.read path)).run files = (.ok (files.text? path), files) := by
  simp only [perform, bind_pure_comp, StateT.run_map, StateT.run_get, map_pure, h,
    Bool.false_eq_true, ↓reduceIte]
  rfl

theorem perform_write (h : files.isFolder path = false) (text : String) :
    (perform (.write path text)).run files = (.ok (), files.put path text) := by
  simp only [perform, bind_pure_comp, StateT.run_bind, StateT.run_get, pure_bind, h,
    Bool.false_eq_true, ↓reduceIte, StateT.run_map, StateT.run_modify, map_pure]
  rfl

theorem perform_rename (h : files.isFolder target = false)
    (found : files.text? source = some text) :
    (perform (.rename source target)).run files =
      (.ok (), (files.remove source).put target text) := by
  simp only [perform, bind_pure_comp, StateT.run_bind, StateT.run_get, pure_bind, found, h,
    Bool.false_eq_true, ↓reduceIte, StateT.run_map, StateT.run_modify, map_pure]
  rfl

theorem perform_rename_missing (target : String) (absent : files.text? source = none) :
    (perform (.rename source target)).run files = (.error missing, files) := by
  simp only [perform, bind_pure_comp, StateT.run_bind, StateT.run_get, pure_bind, absent,
    StateT.run_pure]
  rfl

end BrowserScript.Store.File
