import Mathlib.Data.List.TakeWhile
import BrowserScript.Script.Tree

/-!
The tree of a script without a stack: each entry takes the ones after it that are indented
further. Building with a stack of open blocks gives the same tree, whatever is open when an entry
comes.
-/

namespace BrowserScript.Script

/-- The first entries that are indented further than so much. -/
def deeper (n : Nat) (es : List Entry) : List Entry := es.takeWhile (n < ·.indent)

/-- What is left of the entries from the first one that is not indented further. -/
def beyond (n : Nat) (es : List Entry) : List Entry := es.dropWhile (n < ·.indent)

theorem deeper_append_beyond (n : Nat) (es : List Entry) : deeper n es ++ beyond n es = es :=
  List.takeWhile_append_dropWhile

theorem deeper_length_le (n : Nat) (es : List Entry) : (deeper n es).length ≤ es.length :=
  Text.length_takeWhile_le _ es

theorem beyond_length_le (n : Nat) (es : List Entry) : (beyond n es).length ≤ es.length :=
  Text.length_dropWhile_le _ es

@[simp] theorem deeper_cons_of_lt {n : Nat} {e : Entry} (es : List Entry) (h : n < e.indent) :
    deeper n (e :: es) = e :: deeper n es := by
  simp [deeper, h]

@[simp] theorem beyond_cons_of_lt {n : Nat} {e : Entry} (es : List Entry) (h : n < e.indent) :
    beyond n (e :: es) = beyond n es := by
  simp [beyond, h]

@[simp] theorem deeper_cons_of_le {n : Nat} {e : Entry} (es : List Entry) (h : e.indent ≤ n) :
    deeper n (e :: es) = [] := by
  simp [deeper, Nat.not_lt.mpr h]

@[simp] theorem beyond_cons_of_le {n : Nat} {e : Entry} (es : List Entry) (h : e.indent ≤ n) :
    beyond n (e :: es) = e :: es := by
  simp [beyond, Nat.not_lt.mpr h]

theorem indent_of_mem_deeper {n : Nat} {e : Entry} {es : List Entry} (h : e ∈ deeper n es) :
    n < e.indent := by
  simpa using List.mem_takeWhile_imp h

/-- What follows the deeper entries begins with one that is not indented further. -/
theorem indent_le_of_beyond_eq_cons {n : Nat} {e : Entry} {es rest : List Entry}
    (h : beyond n es = e :: rest) : e.indent ≤ n := by
  have := List.head?_dropWhile_not (fun e : Entry => decide (n < e.indent)) es
  simp only [beyond] at h
  rw [h] at this
  simpa using this

section Nested

variable {n m : Nat} (h : n ≤ m) (es : List Entry)

include h

theorem deeper_deeper : deeper m (deeper n es) = deeper m es := by
  induction es with
  | nil => rfl
  | cons e es ih =>
      by_cases hn : n < e.indent
      · by_cases hm : m < e.indent
        · simp [hn, hm, ih]
        · simp [hn, Nat.not_lt.mp hm]
      · simp [Nat.not_lt.mp hn, Nat.le_trans (Nat.not_lt.mp hn) h, deeper]

theorem beyond_deeper : beyond m (deeper n es) = deeper n (beyond m es) := by
  induction es with
  | nil => rfl
  | cons e es ih =>
      by_cases hn : n < e.indent
      · by_cases hm : m < e.indent
        · simp [hn, hm, ih]
        · simp [hn, Nat.not_lt.mp hm]
      · simp [Nat.not_lt.mp hn, Nat.le_trans (Nat.not_lt.mp hn) h, beyond]

theorem beyond_beyond : beyond n (beyond m es) = beyond n es := by
  induction es with
  | nil => rfl
  | cons e es ih =>
      by_cases hm : m < e.indent
      · simp [hm, Nat.lt_of_le_of_lt h hm, ih]
      · simp [Nat.not_lt.mp hm]

end Nested

/-- The blocks of some entries below a command, or at the top. -/
def forest (parent : Option Command) (es : List Entry) : List Block :=
  match es with
  | [] => []
  | e :: es =>
    .node (placed parent e.command) (forest (some e.command) (deeper e.indent es))
      :: forest parent (beyond e.indent es)
termination_by es.length
decreasing_by
  · exact Nat.lt_succ_of_le (deeper_length_le ..)
  · exact Nat.lt_succ_of_le (beyond_length_le ..)

namespace Builder

/-- What a builder makes of some more entries: each open block takes the ones that are indented
further than itself, from the innermost block outwards. -/
def finishWith (t : Builder) (es : List Entry) : List Block :=
  match _h : t.stack with
  | [] => t.roots.reverse ++ forest none es
  | b :: rest =>
    let grown := (forest (some b.command) (deeper b.indent es)).reverse ++ b.below
    (close { t with stack := { b with below := grown } :: rest }).finishWith (beyond b.indent es)
termination_by t.stack.length
decreasing_by
  rw [close_length, _h]
  simp

theorem finishWith_of_empty (roots : List Block) (es : List Entry) :
    finishWith ⟨[], roots⟩ es = roots.reverse ++ forest none es := by
  rw [finishWith]

theorem finishWith_of_cons (b : OpenBlock) (rest : List OpenBlock) (roots : List Block)
    (es : List Entry) :
    finishWith ⟨b :: rest, roots⟩ es =
      (close ⟨{ b with below := (forest (some b.command) (deeper b.indent es)).reverse ++ b.below }
        :: rest, roots⟩).finishWith (beyond b.indent es) := by
  rw [finishWith]

/-- A block that takes none of the entries can be closed before them. -/
theorem finishWith_close (b : OpenBlock) (rest : List OpenBlock) (roots : List Block)
    (es : List Entry) (h : deeper b.indent es = []) :
    (close ⟨b :: rest, roots⟩).finishWith es = finishWith ⟨b :: rest, roots⟩ es := by
  have hb : beyond b.indent es = es := by
    simpa [h] using deeper_append_beyond b.indent es
  rw [finishWith_of_cons, h, hb]
  simp [forest]

theorem finishWith_closeWhile (p : OpenBlock → Bool) (t : Builder) (es : List Entry)
    (h : ∀ b : OpenBlock, p b → deeper b.indent es = []) :
    (t.closeWhile p).finishWith es = t.finishWith es := by
  fun_induction closeWhile p t with
  | case1 t hs => rfl
  | case2 t b rest hs hp ih =>
      obtain ⟨stack, roots⟩ := t
      subst hs
      rw [ih, finishWith_close b rest roots es (h b hp)]
  | case3 t b rest hs hp => rfl

/-- The block that `closeWhile` stops at does not fulfil the condition. -/
theorem closeWhile_top (p : OpenBlock → Bool) (t : Builder) {b : OpenBlock} {rest : List OpenBlock}
    (h : (t.closeWhile p).stack = b :: rest) : p b = false := by
  fun_induction closeWhile p t with
  | case1 t hs => simp [hs] at h
  | case2 t b' rest' hs hp ih => exact ih h
  | case3 t b' rest' hs hp =>
      rw [hs] at h
      obtain ⟨rfl, rfl⟩ := List.cons.inj h
      simpa using hp

/-- An entry deeper than the innermost block opens a block of its own there. -/
theorem finishWith_push (t : Builder) (e : Entry) (es : List Entry)
    (h : ∀ b rest, t.stack = b :: rest → b.indent < e.indent) :
    finishWith { t with stack := { e with } :: t.stack } es = t.finishWith (e :: es) := by
  obtain ⟨stack, roots⟩ := t
  rw [finishWith_of_cons]
  cases stack with
  | nil =>
      simp [close, finishWith_of_empty, OpenBlock.close, forest]
  | cons b rest =>
      have hlt : b.indent < e.indent := h b rest rfl
      simp only [close, finishWith_of_cons]
      rw [deeper_cons_of_lt es hlt, beyond_cons_of_lt es hlt, forest,
        deeper_deeper (Nat.le_of_lt hlt), beyond_deeper (Nat.le_of_lt hlt), beyond_beyond (Nat.le_of_lt hlt)]
      simp [OpenBlock.close]

theorem finishWith_add (t : Builder) (e : Entry) (es : List Entry) :
    (t.add e).finishWith es = t.finishWith (e :: es) := by
  have top : ∀ b rest, (t.closeWhile (e.indent ≤ ·.indent)).stack = b :: rest →
      b.indent < e.indent := by
    intro b rest hs
    simpa using closeWhile_top _ t hs
  rw [add, finishWith_push _ _ _ top]
  apply finishWith_closeWhile
  intro b hb
  exact deeper_cons_of_le es (by simpa using hb)

theorem finishWith_nil (t : Builder) : t.finishWith [] = t.finish := by
  have closed : (t.closeWhile fun _ => true).stack = [] := by
    cases hs : (t.closeWhile fun _ => true).stack with
    | nil => rfl
    | cons b rest => exact absurd (closeWhile_top _ t hs) (by simp)
  rw [← finishWith_closeWhile (fun _ => true) t [] (fun _ _ => rfl), finish]
  generalize t.closeWhile _ = t at closed
  obtain ⟨stack, roots⟩ := t
  subst closed
  simp [finishWith_of_empty, forest]

theorem foldl_add_finish (t : Builder) (es : List Entry) :
    (es.foldl add t).finish = t.finishWith es := by
  induction es generalizing t with
  | nil => exact (finishWith_nil t).symm
  | cons e es ih => rw [List.foldl_cons, ih, finishWith_add]

end Builder

theorem parse_eq_forest (keywords : KeywordSet) (timeout : Nat) (script : String) :
    parse keywords timeout script = forest none (entries keywords timeout script) := by
  rw [parse, Builder.foldl_add_finish, Builder.finishWith_of_empty]
  rfl

end BrowserScript.Script
