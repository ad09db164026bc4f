import BrowserScript.Proofs.Text.Words
import BrowserScript.Settings.Load
import Mathlib.Data.List.Chain
import Mathlib.Data.List.Infix

/-!
References to variables in texts of settings. A text is read as characters and references, from the
left. Values are put in one name after the other, each wherever its reference then stands, so all
go to their places as long as nothing that is put in makes a new reference. Main statement:
`expand_settles`.
-/

namespace BrowserScript

namespace Text

variable {piece by_ text rest : List Char}

theorem replaceFrom_skip (passed rest : List Char) :
    replaceFrom piece by_ passed.length (passed ++ rest) = replaceFrom piece by_ 0 rest := by
  induction passed with
  | nil => rfl
  | cons c cs ih => exact ih

/-- An occurrence at the head is replaced. -/
theorem replaceAll_append (some : piece ≠ []) (rest : List Char) :
    replaceAll piece by_ (piece ++ rest) = by_ ++ replaceAll piece by_ rest := by
  obtain ⟨p, ps, rfl⟩ := List.exists_cons_of_ne_nil some
  have here : (p :: ps).isPrefixOf (p :: (ps ++ rest)) :=
    List.isPrefixOf_iff_prefix.mpr (List.prefix_append (p :: ps) rest)
  rw [replaceAll, List.cons_append, replaceFrom]
  simp only [here, if_true]
  exact congrArg (by_ ++ ·) (replaceFrom_skip ps rest)

/-- What begins no occurrence stays. -/
theorem replaceAll_keep (free : ∀ s, s ≠ [] → s <:+ text → ¬ piece <+: s ++ rest) :
    replaceAll piece by_ (text ++ rest) = text ++ replaceAll piece by_ rest := by
  induction text with
  | nil => rfl
  | cons c cs ih =>
      have missing : ¬ piece.isPrefixOf (c :: (cs ++ rest)) := fun here =>
        free (c :: cs) (List.cons_ne_nil _ _) (List.suffix_refl _)
          (List.isPrefixOf_iff_prefix.mp here)
      have later := ih fun s some part => free s some (part.trans (List.suffix_cons c cs))
      rw [replaceAll, List.cons_append, replaceFrom]
      simp only [missing]
      exact congrArg (c :: ·) later

end Text

namespace Environment

variable {env : Environment} {cs rest m n v : List Char} {c : Char}

/-! ## Names -/

/-- What the name of a variable can be in a reference. -/
def IsName (n : List Char) : Prop := n ≠ [] ∧ '\x7d' ∉ n

instance : Decidable (IsName n) := inferInstanceAs (Decidable (_ ∧ _))

theorem name?_eq_some_iff : name? cs = some (n, rest) ↔ IsName n ∧ cs = n ++ '\x7d' :: rest := by
  constructor
  · intro found
    have whole := List.takeWhile_append_dropWhile (p := (· != '\x7d')) (l := cs)
    have letters := List.all_eq_true.mp (List.all_takeWhile (p := (· != '\x7d')) (l := cs))
    have stop := List.head?_dropWhile_not (· != '\x7d') cs
    unfold name? at found
    generalize cs.takeWhile (· != '\x7d') = taken at found whole letters
    generalize cs.dropWhile (· != '\x7d') = left at found whole stop
    match taken, left, found with
    | d :: ds, e :: left, rfl =>
        obtain rfl : e = '\x7d' := by simpa using stop
        exact ⟨⟨List.cons_ne_nil d ds, fun mem => by simpa using letters _ mem⟩, whole.symm⟩
  · rintro ⟨⟨some, free⟩, rfl⟩
    have letters : ∀ c ∈ n, (c != '\x7d') := fun c mem => by
      simpa using fun same : c = '\x7d' => free (same ▸ mem)
    have stop : ∀ c ∈ ('\x7d' :: rest).head?, ¬ (c != '\x7d') := by simp
    obtain ⟨taken, left⟩ := Text.takeWhile_append_of_stop letters stop
    unfold name?
    rw [taken, left]
    cases n with
    | nil => exact absurd rfl some
    | cons c cs => rfl

theorem IsName.unique {rest' : List Char} (name : IsName n) (name' : IsName m)
    (same : n ++ '\x7d' :: rest = m ++ '\x7d' :: rest') : n = m ∧ rest = rest' := by
  have first : name? (n ++ '\x7d' :: rest) = some (n, rest) := name?_eq_some_iff.mpr ⟨name, rfl⟩
  rw [same, name?_eq_some_iff.mpr ⟨name', rfl⟩] at first
  cases first
  exact ⟨rfl, rfl⟩

/-- A text that begins with a reference. -/
def Opens (cs : List Char) : Prop := ∃ n rest, IsName n ∧ cs = reference n ++ rest

theorem reference_append (n rest : List Char) :
    reference n ++ rest = '$' :: '\x7b' :: (n ++ '\x7d' :: rest) := by
  simp [reference, show "$\x7b".toList = ['$', '\x7b'] from rfl]

theorem reference_inj {rest' : List Char} (name : IsName n) (name' : IsName m)
    (same : reference n ++ rest = reference m ++ rest') : n = m ∧ rest = rest' := by
  rw [reference_append, reference_append, List.cons.injEq, List.cons.injEq] at same
  exact name.unique name' same.2.2

/-! ## Reading -/

inductive Piece
  | plain (c : Char)
  | reference (name : List Char)
deriving DecidableEq

namespace Piece

def text : Piece → List Char
  | plain c => [c]
  | reference n => Environment.reference n

def name? : Piece → Option (List Char)
  | plain _ => none
  | reference n => some n

end Piece

variable {ps qs : List Piece}

def written (ps : List Piece) : List Char := ps.flatMap Piece.text

/-- The names that are referred to, from the left. -/
def named (ps : List Piece) : List (List Char) := ps.filterMap Piece.name?

/-- A text read from the left: where a reference begins it is taken, else a character. -/
inductive Reading : List Char → List Piece → Prop
  | nil : Reading [] []
  | reference {n rest : List Char} {ps : List Piece} (name : IsName n) (later : Reading rest ps) :
      Reading (reference n ++ rest) (.reference n :: ps)
  | plain {c : Char} {cs : List Char} {ps : List Piece} (closed : ¬ Opens (c :: cs))
      (later : Reading cs ps) : Reading (c :: cs) (.plain c :: ps)

theorem exists_reading (cs : List Char) : ∃ ps, Reading cs ps := by
  induction length : cs.length using Nat.strongRecOn generalizing cs with
  | _ k ih =>
      by_cases opens : Opens cs
      · obtain ⟨n, rest, name, rfl⟩ := opens
        have less : rest.length < k := by
          rw [← length, reference_append]
          simp
          omega
        obtain ⟨ps, later⟩ := ih _ less rest rfl
        exact ⟨_, .reference name later⟩
      · cases cs with
        | nil => exact ⟨[], .nil⟩
        | cons c cs =>
            obtain ⟨ps, later⟩ := ih _ (length ▸ Nat.lt_succ_self _) cs rfl
            exact ⟨_, .plain opens later⟩

namespace Reading

theorem unique (reading : Reading cs ps) (other : Reading cs qs) : qs = ps := by
  induction reading generalizing qs with
  | nil => cases other; rfl
  | @reference n rest ps name later ih =>
      generalize whole : Environment.reference n ++ rest = cs at other
      cases other with
      | nil => cases whole
      | reference name' later' =>
          obtain ⟨rfl, rfl⟩ := reference_inj name name' whole
          rw [ih later']
      | plain closed => exact absurd ⟨n, rest, name, whole.symm⟩ closed
  | @plain c cs ps closed later ih =>
      generalize whole : c :: cs = cs' at other
      cases other with
      | nil => cases whole
      | reference name' => exact absurd ⟨_, _, name', whole⟩ closed
      | plain _ later' =>
          cases whole
          rw [ih later']

theorem written_eq (reading : Reading cs ps) : written ps = cs := by
  induction reading with
  | nil => rfl
  | reference _ _ ih => exact congrArg (_ ++ ·) ih
  | plain _ _ ih => exact congrArg (_ :: ·) ih

theorem isName (reading : Reading cs ps) : ∀ n ∈ named ps, IsName n := by
  induction reading with
  | nil => exact List.forall_mem_nil _
  | reference name _ ih => exact List.forall_mem_cons.mpr ⟨name, ih⟩
  | plain _ _ ih => exact ih

end Reading

theorem namesFrom_skip (passed rest : List Char) :
    namesFrom passed.length (passed ++ rest) = names rest := by
  induction passed with
  | nil => rfl
  | cons c cs ih => exact ih

theorem names_reference (name : IsName n) (rest : List Char) :
    names (reference n ++ rest) = n :: names rest := by
  have found : name? (n ++ '\x7d' :: rest) = some (n, rest) := name?_eq_some_iff.mpr ⟨name, rfl⟩
  have passed : namesFrom (n.length + 2) ('\x7b' :: (n ++ '\x7d' :: rest)) = names rest := by
    simpa using namesFrom_skip ('\x7b' :: (n ++ ['\x7d'])) rest
  rw [reference_append]
  simp only [names, namesFrom, found] at passed ⊢
  rw [passed]

theorem names_plain (closed : ¬ Opens (c :: cs)) : names (c :: cs) = names cs := by
  simp only [names, namesFrom]
  split
  · rename_i r
    split
    · rename_i n rest found
      obtain ⟨name, rfl⟩ := name?_eq_some_iff.mp found
      exact absurd ⟨n, rest, name, (reference_append n rest).symm⟩ closed
    · rfl
  · rfl

theorem Reading.names_eq (reading : Reading cs ps) : names cs = named ps := by
  induction reading with
  | nil => rfl
  | reference name _ ih => rw [names_reference name, ih]; rfl
  | plain closed _ ih => rw [names_plain closed, ih]; rfl

/-! ## Putting in one value -/

/-- The opening of a reference. -/
def opening : List Char := ['$', '\x7b']

/-- The pieces with a value in each place of a name. -/
def fill (n v : List Char) (ps : List Piece) : List Piece :=
  ps.flatMap fun
    | .plain c => [.plain c]
    | .reference m => if m = n then v.map .plain else [.reference m]

@[simp] theorem fill_plain : fill n v (.plain c :: ps) = .plain c :: fill n v ps := rfl

theorem fill_reference_self : fill n v (.reference n :: ps) = v.map .plain ++ fill n v ps := by
  simp [fill]

theorem fill_reference_of_ne (other : m ≠ n) :
    fill n v (.reference m :: ps) = .reference m :: fill n v ps := by
  simp [fill, other]

theorem written_append (ps qs : List Piece) : written (ps ++ qs) = written ps ++ written qs :=
  List.flatMap_append

theorem written_plain (v : List Char) : written (v.map .plain) = v := by
  induction v with
  | nil => rfl
  | cons c v ih => exact congrArg (c :: ·) ih

/-- A name is referred to only by pieces, not by what stands in several of them. -/
def Faithful (n : List Char) (ps : List Piece) : Prop :=
  ∀ before after, written ps = before ++ (reference n ++ after) →
    ∃ qs rs, ps = qs ++ .reference n :: rs ∧ written qs = before

theorem Piece.text_ne_nil : (p : Piece) → p.text ≠ []
  | .plain c => List.cons_ne_nil c []
  | .reference n => by simp [Piece.text, Environment.reference]

theorem Faithful.tail {p : Piece} (faithful : Faithful n (p :: ps)) : Faithful n ps := by
  intro before after same
  obtain ⟨qs, rs, split, start⟩ := faithful (p.text ++ before) after
    ((congrArg (p.text ++ ·) same).trans (List.append_assoc _ _ _).symm)
  cases qs with
  | nil => exact absurd (List.append_eq_nil_iff.mp start.symm).1 p.text_ne_nil
  | cons q qs =>
      cases split
      exact ⟨qs, rs, rfl, List.append_cancel_left start⟩

/-- The value comes to the places of the name, and nothing else changes. -/
theorem Faithful.replaceAll_eq (faithful : Faithful n ps) :
    Text.replaceAll (reference n) v (written ps) = written (fill n v ps) := by
  induction ps with
  | nil => rfl
  | cons p ps ih =>
      have later := ih faithful.tail
      by_cases here : p = .reference n
      · subst here
        rw [fill_reference_self, written_append, written_plain, ← later]
        exact Text.replaceAll_append (Piece.text_ne_nil (.reference n)) (written ps)
      · have free : ∀ s, s ≠ [] → s <:+ p.text → ¬ reference n <+: s ++ written ps := by
          rintro s some ⟨before, whole⟩ ⟨after, same⟩
          obtain ⟨qs, rs, split, start⟩ := faithful before after (by
            rw [same, ← List.append_assoc, whole]; rfl)
          cases qs with
          | nil => exact here (List.cons.inj split).1
          | cons q qs =>
              obtain ⟨rfl, -⟩ := List.cons.inj split
              have inside : before.length + s.length = p.text.length := by
                rw [← whole, List.length_append]
              have beyond : before.length = p.text.length + (written qs).length := by
                rw [← start, ← List.length_append]
                rfl
              have := List.length_pos_iff.mpr some
              omega
        rw [show written (p :: ps) = p.text ++ written ps from rfl, Text.replaceAll_keep free,
          later]
        match p, here with
        | .plain c, _ => rfl
        | .reference m, here =>
            rw [fill_reference_of_ne fun same => here (congrArg Piece.reference same)]
            rfl

/-- A reference is met inside another one only when the name of that ends like it. -/
theorem eq_of_reference_prefix {s : List Char} (name : IsName n) (name' : IsName m)
    (apart : ¬ opening ++ n <:+ m) (some : s ≠ []) (part : s <:+ reference m)
    (found : reference n <+: s ++ rest) : n = m ∧ s = reference m := by
  obtain ⟨t, same⟩ := found
  have spelled : reference m = '$' :: '\x7b' :: (m ++ ['\x7d']) := by
    simpa using reference_append m []
  rw [spelled] at part
  rcases List.suffix_cons_iff.mp part with rfl | part
  · rw [← spelled] at same
    exact ⟨(reference_inj name name' same).1, spelled.symm⟩
  rcases List.suffix_cons_iff.mp part with rfl | part
  · rw [reference_append] at same
    cases same
  rcases List.suffix_concat_iff.mp part with rfl | ⟨s, rfl, inner⟩
  · exact absurd rfl some
  -- what remains of the name is then the opening with the other name
  have opened : IsName (opening ++ n) := ⟨by simp [opening], by simp [opening, name.2]⟩
  have whole : opening ++ n ++ '\x7d' :: t = s ++ '\x7d' :: rest := by
    simpa [reference_append, opening] using same
  have inside : IsName s := by
    refine ⟨?_, fun mem => name'.2 (inner.subset mem)⟩
    rintro rfl
    cases whole
  obtain ⟨rfl, -⟩ := opened.unique inside whole
  exact absurd inner apart

theorem Reading.faithful (reading : Reading cs ps) (name : IsName n)
    (apart : ∀ m ∈ named ps, ¬ opening ++ n <:+ m) : Faithful n ps := by
  induction reading with
  | nil =>
      intro before after same
      exact absurd (List.append_eq_nil_iff.mp (List.append_eq_nil_iff.mp same.symm).2).1
        (Piece.text_ne_nil (.reference n))
  | @reference m rest ps name' later ih =>
      have ⟨here, apart⟩ := List.forall_mem_cons.mp apart
      intro before after same
      rcases List.append_eq_append_iff.mp same with ⟨b, rfl, behind⟩ | ⟨s, whole, behind⟩
      · obtain ⟨qs, rs, rfl, rfl⟩ := ih apart b after behind
        exact ⟨.reference m :: qs, rs, rfl, rfl⟩
      · by_cases none : s = []
        · subst none
          obtain ⟨qs, rs, rfl, start⟩ := ih apart [] after behind.symm
          have start' : written (.reference m :: qs) = before :=
            calc (Piece.reference m).text ++ written qs
              _ = (Piece.reference m).text ++ [] := by rw [start]
              _ = before := by rw [List.append_nil, whole, List.append_nil]
          exact ⟨.reference m :: qs, rs, rfl, start'⟩
        · obtain ⟨rfl, rfl⟩ := eq_of_reference_prefix name name' here none ⟨before, whole.symm⟩
            ⟨after, behind⟩
          exact ⟨[], ps, rfl, (List.self_eq_append_left.mp whole).symm⟩
  | @plain c cs ps closed later ih =>
      intro before after same
      cases before with
      | nil =>
          have opens : c :: cs = Environment.reference n ++ after :=
            (congrArg (c :: ·) later.written_eq.symm).trans same
          exact absurd ⟨n, after, name, opens⟩ closed
      | cons d before =>
          obtain ⟨rfl, behind⟩ := List.cons.inj same
          obtain ⟨qs, rs, rfl, rfl⟩ := ih apart before after behind
          exact ⟨.plain c :: qs, rs, rfl, rfl⟩

/-! ## The pieces after a value is put in -/

/-- A text that makes no reference, neither in itself nor with what stands behind it. -/
structure Calm (v : List Char) : Prop where
  free : ¬ opening <:+: v
  closed : v.getLast? ≠ some '$'

theorem Calm.tail (calm : Calm (c :: v)) : Calm v where
  free part := calm.free (part.trans (List.suffix_cons c v).isInfix)
  closed ends := calm.closed (by cases v with
    | nil => cases ends
    | cons d v => exact ends)

theorem Reading.plain_append (reading : Reading cs ps) (calm : Calm v) :
    Reading (v ++ cs) (v.map .plain ++ ps) := by
  induction v with
  | nil => exact reading
  | cons c v ih =>
      refine .plain ?_ (ih calm.tail)
      rintro ⟨n, rest, name, same⟩
      rw [reference_append] at same
      obtain ⟨rfl, later⟩ := List.cons.inj same
      cases v with
      | nil => exact calm.closed rfl
      | cons d v =>
          obtain ⟨rfl, -⟩ := List.cons.inj later
          exact calm.free ⟨[], v, rfl⟩

/-- No dollar sign stands right before a reference to one of the names. -/
def Guarded (ns : List (List Char)) (ps : List Piece) : Prop :=
  ps.IsChain fun p q => p = .plain '$' → ∀ n ∈ ns, q ≠ .reference n

theorem Guarded.plain_append {ns : List (List Char)} (guarded : Guarded ns ps) (calm : Calm v) :
    Guarded ns (v.map .plain ++ ps) := by
  induction v with
  | nil => exact guarded
  | cons c v ih =>
      refine List.isChain_cons.mpr ⟨?_, ih calm.tail⟩
      rintro q head dollar n -
      cases v with
      | nil => exact absurd (congrArg some (Piece.plain.inj dollar)) calm.closed
      | cons d v => cases head; simp

theorem head?_fill (other : ∀ q ∈ ps.head?, q ≠ .reference n) :
    (fill n v ps).head? = ps.head? := by
  match ps with
  | [] => rfl
  | .plain c :: ps => rfl
  | .reference m :: ps =>
      rw [fill_reference_of_ne fun same => other _ rfl (congrArg Piece.reference same)]
      rfl

theorem Guarded.fill {ns : List (List Char)} (guarded : Guarded ns ps) (mem : n ∈ ns)
    (calm : Calm v) : Guarded ns (fill n v ps) := by
  induction ps with
  | nil => exact guarded
  | cons p ps ih =>
      obtain ⟨first, later⟩ := List.isChain_cons.mp guarded
      match p with
      | .plain c =>
          refine List.isChain_cons.mpr ⟨fun q head dollar => ?_, ih later⟩
          have kept := head?_fill (v := v) fun q head => first q head dollar n mem
          exact first q (kept ▸ head) dollar
      | .reference m =>
          by_cases same : m = n
          · subst same
            rw [fill_reference_self]
            exact (ih later).plain_append calm
          · rw [fill_reference_of_ne same]
            exact List.isChain_cons.mpr ⟨fun q _ dollar => (by cases dollar), ih later⟩

/-- Where no reference can end nothing is put in. -/
theorem fill_eq_self (free : '\x7d' ∉ written ps) : fill n v ps = ps := by
  induction ps with
  | nil => rfl
  | cons p ps ih =>
      have later : '\x7d' ∉ written ps := fun mem => free (List.mem_append_right p.text mem)
      match p with
      | .plain c => rw [fill_plain, ih later]
      | .reference m => exact absurd (List.mem_append_left _ (by simp [Piece.text, reference])) free

/-- A name that could be read after a value is put in could have been read before. -/
theorem isName_of_fill (name : IsName m)
    (same : written (fill n v ps) = m ++ '\x7d' :: rest) :
    ∃ m' rest', IsName m' ∧ written ps = m' ++ '\x7d' :: rest' := by
  have stop : '\x7d' ∈ written ps := by
    by_contra free
    rw [fill_eq_self free] at same
    exact free (by simp [same])
  obtain ⟨m', rest', whole, free⟩ := List.eq_append_cons_of_mem stop
  refine ⟨m', rest', ⟨?_, free⟩, whole⟩
  rintro rfl
  match ps, m, name with
  | .plain d :: ps, e :: m, name =>
      obtain ⟨rfl, -⟩ := List.cons.inj whole
      obtain ⟨rfl, -⟩ := List.cons.inj same
      exact name.2 List.mem_cons_self

theorem Reading.fill (reading : Reading cs ps) (guarded : Guarded [n] ps) (calm : Calm v) :
    Reading (written (fill n v ps)) (fill n v ps) := by
  induction reading with
  | nil => exact .nil
  | @reference m rest ps name later ih =>
      have after := ih (List.isChain_cons.mp guarded).2
      by_cases same : m = n
      · subst same
        rw [fill_reference_self, written_append, written_plain]
        exact after.plain_append calm
      · rw [fill_reference_of_ne same]
        exact .reference name after
  | @plain c cs ps closed later ih =>
      obtain ⟨first, rest⟩ := List.isChain_cons.mp guarded
      refine .plain ?_ (ih rest)
      rintro ⟨m, rest, name, same⟩
      change c :: written (Environment.fill n v ps) = _ at same
      rw [reference_append, List.cons.injEq] at same
      obtain ⟨rfl, behind⟩ := same
      match ps with
      | [] => cases behind
      | .reference k :: ps =>
          have other : k ≠ n := fun same => first _ rfl rfl n (List.mem_singleton_self n)
            (congrArg Piece.reference same)
          rw [fill_reference_of_ne other] at behind
          cases behind
      | .plain d :: ps =>
          obtain ⟨rfl, inside⟩ := List.cons.inj behind
          obtain ⟨m', rest', name', before⟩ := isName_of_fill name inside
          refine closed ⟨m', rest', name', ?_⟩
          rw [reference_append, ← later.written_eq, ← before]
          rfl

/-! ## All values -/

/-- The value that stands for a name. -/
def value (env : Environment) (n : List Char) : List Char :=
  ((env.get? (String.ofList n)).getD "").toList

/-- The pieces with all values at once in their places, each as it is. -/
def substituted (env : Environment) (ps : List Piece) : List Char :=
  ps.flatMap fun
    | .plain c => [c]
    | .reference n => env.value n

/-- What is put in for the names, one after the other, neither makes a reference nor breaks one. Of
the last nothing is asked, since nothing is read after it. -/
structure Separate (env : Environment) (ns : List (List Char)) (ps : List Piece) : Prop where
  apart : ∀ m ∈ named ps, ∀ n ∈ ns, ¬ opening ++ n <:+ m
  calm : ∀ n ∈ ns.dropLast, Calm (env.value n)
  guarded : Guarded ns.dropLast ps

theorem named_plain_append (v : List Char) (ps : List Piece) :
    named (v.map .plain ++ ps) = named ps := by
  induction v with
  | nil => rfl
  | cons c v ih => exact ih

theorem named_fill : named (fill n v ps) = (named ps).filter (· ≠ n) := by
  induction ps with
  | nil => rfl
  | cons p ps ih =>
      match p with
      | .plain c => exact ih
      | .reference m =>
          by_cases same : m = n
          · subst same
            rw [fill_reference_self, named_plain_append, ih]
            exact (List.filter_cons_of_neg (by simp)).symm
          · rw [fill_reference_of_ne same]
            exact (congrArg (m :: ·) ih).trans (List.filter_cons_of_pos (by simp [same])).symm

theorem substituted_fill : env.substituted (fill n (env.value n) ps) = env.substituted ps := by
  induction ps with
  | nil => rfl
  | cons p ps ih =>
      match p with
      | .plain c => exact congrArg (c :: ·) ih
      | .reference m =>
          by_cases same : m = n
          · subst same
            have plain : env.substituted ((env.value m).map .plain) = env.value m := by
              induction env.value m with
              | nil => rfl
              | cons c v ih => exact congrArg (c :: ·) ih
            rw [fill_reference_self, substituted, List.flatMap_append]
            exact congr (congrArg _ plain) ih
          · rw [fill_reference_of_ne same]
            exact congrArg (env.value m ++ ·) ih

theorem substituted_of_named_nil (none : named ps = []) : env.substituted ps = written ps := by
  induction ps with
  | nil => rfl
  | cons p ps ih =>
      match p with
      | .plain c => exact congrArg (c :: ·) (ih none)

theorem mem_named_fill : m ∈ named (fill n v ps) ↔ m ∈ named ps ∧ m ≠ n := by
  simp [named_fill]

theorem Guarded.mono {ns ms : List (List Char)} (guarded : Guarded ns ps) (sub : ms ⊆ ns) :
    Guarded ms ps :=
  guarded.imp fun _ _ clear dollar n mem => clear dollar n (sub mem)

theorem Separate.fill {ns : List (List Char)} {k : List Char}
    (separate : Separate env (n :: k :: ns) ps) :
    Separate env (k :: ns) (fill n (env.value n) ps) where
  apart m mem n mem' :=
    separate.apart m (mem_named_fill.mp mem).1 n (List.mem_cons_of_mem _ mem')
  calm m mem := separate.calm m (List.mem_cons_of_mem _ mem)
  guarded := (separate.guarded.fill List.mem_cons_self
    (separate.calm n List.mem_cons_self)).mono (List.subset_cons_self _ _)

/-- Values can be put in for the names, one after the other, when each name is then still referred
to by the same pieces, so by none that came with an earlier value. -/
def Steady (env : Environment) : List (List Char) → List Piece → Prop
  | [], _ => True
  | n :: ns, ps => Faithful n ps ∧ Steady env ns (fill n (env.value n) ps)

theorem Reading.steady {ns : List (List Char)} (reading : Reading cs ps)
    (names : ∀ n ∈ ns, IsName n) (separate : Separate env ns ps) : Steady env ns ps := by
  induction ns generalizing cs ps with
  | nil => trivial
  | cons n ns ih =>
      have ⟨name, names⟩ := List.forall_mem_cons.mp names
      have apart m mem := separate.apart m mem n List.mem_cons_self
      refine ⟨reading.faithful name apart, ?_⟩
      -- after the last name nothing is read any more
      cases ns with
      | nil => trivial
      | cons k ns =>
          have first : n ∈ (n :: k :: ns).dropLast := List.mem_cons_self
          have guarded : Guarded [n] ps :=
            separate.guarded.mono (List.cons_subset.mpr ⟨first, List.nil_subset _⟩)
          exact ih (reading.fill guarded (separate.calm n first)) names separate.fill

/-- One name, as `expand` takes it. -/
def put (env : Environment) (cs n : List Char) : Except Settings.Error (List Char) :=
  match env.get? (String.ofList n) with
  | some v => .ok (Text.replaceAll (reference n) v.toList cs)
  | none => .error (.unsetVariable (String.ofList n))

theorem expand_eq (env : Environment) (text : String) :
    env.expand text = String.ofList <$> (names text.toList).foldlM env.put text.toList := rfl

def missing (env : Environment) (n : List Char) : Bool := (env.get? (String.ofList n)).isNone

theorem put_of_missing (unset : env.missing n) :
    env.put cs n = .error (.unsetVariable (String.ofList n)) := by
  rw [put, Option.isNone_iff_eq_none.mp unset]

theorem put_of_not_missing (set : ¬ env.missing n) :
    env.put cs n = .ok (Text.replaceAll (reference n) (env.value n) cs) := by
  obtain ⟨v, found⟩ := Option.ne_none_iff_exists'.mp fun none =>
    set (Option.isNone_iff_eq_none.mpr none)
  rw [put, value, found]
  rfl

/-- The first name without a value stops the expansion. -/
theorem foldlM_put_missing {ns : List (List Char)} (first : ns.find? env.missing = some n) :
    ns.foldlM env.put cs = .error (.unsetVariable (String.ofList n)) := by
  induction ns generalizing cs with
  | nil => cases first
  | cons m ns ih =>
      rw [List.foldlM_cons]
      by_cases unset : env.missing m
      · rw [List.find?_cons_of_pos unset] at first
        cases first
        rw [put_of_missing unset]
        rfl
      · rw [List.find?_cons_of_neg unset] at first
        rw [put_of_not_missing unset]
        exact ih first

theorem exists_foldlM_put {ns : List (List Char)} (set : ns.find? env.missing = none) :
    ∃ expanded, ns.foldlM env.put cs = .ok expanded := by
  induction ns generalizing cs with
  | nil => exact ⟨cs, rfl⟩
  | cons n ns ih =>
      have ⟨here, later⟩ := List.forall_mem_cons.mp (List.find?_eq_none.mp set)
      rw [List.foldlM_cons, put_of_not_missing here]
      exact ih (List.find?_eq_none.mpr later)

theorem foldlM_put {ns : List (List Char)} (set : ns.find? env.missing = none)
    (all : named ps ⊆ ns) (steady : Steady env ns ps) :
    ns.foldlM env.put (written ps) = .ok (env.substituted ps) := by
  induction ns generalizing ps with
  | nil =>
      rw [substituted_of_named_nil (List.subset_nil.mp all)]
      rfl
  | cons n ns ih =>
      have ⟨here, later⟩ := List.forall_mem_cons.mp (List.find?_eq_none.mp set)
      have fewer : named (fill n (env.value n) ps) ⊆ ns := fun m mem =>
        have ⟨mem, other⟩ := mem_named_fill.mp mem
        (List.mem_cons.mp (all mem)).resolve_left other
      rw [List.foldlM_cons, put_of_not_missing here, steady.1.replaceAll_eq,
        ← substituted_fill (n := n)]
      exact ih (List.find?_eq_none.mpr later) fewer steady.2

/-- A text is read in one way. The first name in it without a value is reported, and when all have
one the text is expanded, with each value as it is in the places of its name as long as no value
brings a reference to a name that is yet to come. -/
theorem expand_settles (env : Environment) (text : String) :
    ∃ ps, Reading text.toList ps ∧ (∀ qs, Reading text.toList qs → qs = ps) ∧
      match (named ps).find? env.missing with
      | some n => env.expand text = .error (.unsetVariable (String.ofList n))
      | none => ∃ expanded, env.expand text = .ok expanded ∧
          (Steady env (named ps) ps → expanded = String.ofList (env.substituted ps)) := by
  obtain ⟨ps, reading⟩ := exists_reading text.toList
  refine ⟨ps, reading, fun qs other => reading.unique other, ?_⟩
  rw [expand_eq, reading.names_eq]
  split
  · rename_i n first
    rw [foldlM_put_missing first]
    rfl
  · rename_i set
    obtain ⟨expanded, done⟩ :
        ∃ expanded, (named ps).foldlM env.put text.toList = .ok expanded := exists_foldlM_put set
    refine ⟨String.ofList expanded, by rw [done]; rfl, fun steady => ?_⟩
    have whole := foldlM_put set (List.Subset.refl _) steady
    rw [reading.written_eq, done] at whole
    cases whole
    rfl

/-- A value that looks like a reference stays when its name comes last, and is read once more when
the name it refers to comes after it. -/
theorem expand_settles_either_order :
    expand [("A", "a$b"), ("B", "$\x7bA\x7d")] "$\x7bA\x7d-$\x7bB\x7d" = .ok "a$b-$\x7bA\x7d" ∧
      expand [("A", "a$b"), ("B", "$\x7bA\x7d")] "$\x7bB\x7d-$\x7bA\x7d" = .ok "a$b-a$b" := by
  refine ⟨?_, rfl⟩
  obtain ⟨ps, -, unique, settled⟩ :=
    expand_settles [("A", "a$b"), ("B", "$\x7bA\x7d")] "$\x7bA\x7d-$\x7bB\x7d"
  have closed : ¬ Opens ("-$\x7bB\x7d".toList) := by
    rintro ⟨n, rest, -, same⟩
    rw [reference_append] at same
    exact absurd (List.cons.inj same).1 (by decide)
  have reading : Reading ("$\x7bA\x7d-$\x7bB\x7d".toList)
      [.reference ['A'], .plain '-', .reference ['B']] :=
    .reference (n := ['A']) (by decide) (.plain closed (.reference (n := ['B']) (by decide) .nil))
  obtain rfl := unique _ reading
  obtain ⟨expanded, done, whole⟩ := settled
  have separate : Separate [("A", "a$b"), ("B", "$\x7bA\x7d")] [['A'], ['B']]
      [.reference ['A'], .plain '-', .reference ['B']] := {
        apart := by decide
        calm := List.forall_mem_singleton.mpr ⟨by decide, by decide⟩
        guarded := by simp [Guarded] }
  rw [done, whole (reading.steady (by decide) separate)]
  rfl

end Environment

end BrowserScript
