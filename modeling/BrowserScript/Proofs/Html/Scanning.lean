import BrowserScript.Proofs.Dom.Grafts
import BrowserScript.Proofs.Html.StartTag

/-!
The scanner on every text. It passes on the parts that the reader of markup finds, in order, so
nothing it looks for is ever missing; and every loop goes on from a place to a later one. Main
statement: `scans_every_text`.
-/

namespace BrowserScript.Html.Scanner

open Text

variable {σ β γ : Type} {c : Char} {cs kept r rest text : List Char} {i : Nat} {t : Option Token}

/-! ## Parts -/

/-- What begins with a `<`, as a part to pass on or none, and what is left; none of both if the `<`
is text. -/
def partAfter? (cs : List Char) : Option (Option Token × List Char) :=
  match cs with
  | '!' :: '-' :: '-' :: cs => some (none, pastComment cs)
  | '!' :: cs => some (none, past '>' cs)
  | '?' :: cs => some (none, past '>' cs)
  | '/' :: cs => some (some (.stop (lowerAll (trim (cs.takeWhile (· != '>'))))), past '>' cs)
  | cs => (startTag? cs).map fun found => (some found.1, found.2)

theorem tokensFrom_part (found : partAfter? cs = some (t, rest)) (held : List Char) :
    tokensFrom held ('<' :: cs) = heldText held ++ (t.toList ++ tokensFrom [] rest) := by
  unfold partAfter? at found
  split at found
  · cases found
    rw [tokensFrom, if_neg (by decide)]
    rfl
  · cases found
    rename_i other
    rw [tokensFrom, if_neg (by decide)]
    · rfl
    · simpa using other
  · cases found
    rw [tokensFrom, if_neg (by decide)]
    rfl
  · cases found
    rw [tokensFrom, if_neg (by decide)]
    rfl
  · rename_i comment declaration question slash
    obtain ⟨⟨tag, left⟩, start, same⟩ := Option.map_eq_some_iff.mp found
    cases same
    rw [tokensFrom, if_neg (by decide)]
    · congr 1
      split
      · rename_i known
        obtain ⟨rfl, rfl⟩ := Prod.mk.inj (Option.some.inj (start.symm.trans known))
        rfl
      · rename_i none
        cases start.symm.trans none
    · exact comment
    · exact declaration
    · exact question
    · exact slash

/-- Where a `<` is text, no name comes after it and no sign that begins another part. -/
theorem nameless_of_stray (stray : partAfter? cs = none) : startTag? cs = none ∧
    (∀ r, cs ≠ '!' :: r) ∧ (∀ r, cs ≠ '?' :: r) ∧ ∀ r, cs ≠ '/' :: r := by
  unfold partAfter? at stray
  split at stray
  case h_5 comment declaration question slash =>
    exact ⟨Option.map_eq_none_iff.mp stray, declaration, question, slash⟩
  all_goals cases stray

theorem tokensFrom_stray (stray : partAfter? cs = none) (held : List Char) :
    tokensFrom held ('<' :: cs) = heldText held ++ tokensFrom ('<' :: held) cs := by
  obtain ⟨nameless, declaration, question, slash⟩ := nameless_of_stray stray
  rw [tokensFrom, if_neg (by decide)]
  · congr 1
    split
    · rename_i known
      cases nameless.symm.trans known
    · rfl
  · exact fun r => declaration ('-' :: '-' :: r)
  · exact declaration
  · exact question
  · exact slash

theorem length_partAfter?_le (found : partAfter? cs = some (t, rest)) :
    rest.length ≤ cs.length := by
  unfold partAfter? at found
  split at found
  · cases found
    exact (length_pastComment_le _).trans (by simp; omega)
  · cases found
    exact (length_past_le _ _).trans (by simp)
  · cases found
    exact (length_past_le _ _).trans (by simp)
  · cases found
    exact (length_past_le _ _).trans (by simp)
  · obtain ⟨⟨tag, left⟩, start, same⟩ := Option.map_eq_some_iff.mp found
    cases same
    exact startTag?_length start

theorem pastComment?_at (here : At text (i + 4) r) :
    ∃ next, pastComment? text i = some next ∧ At text next (pastComment r) := by
  refine ⟨_, congrArg (Option.map _) here.sliceFrom?, ?_⟩
  show At text (((splitAt? ['-', '-', '>'] r).map _).map _ |>.getD _) _
  rw [pastComment]
  cases found : splitAt? ['-', '-', '>'] r with
  | none => exact At.last text
  | some parts =>
      obtain ⟨before, rest⟩ := parts
      obtain ⟨rfl, -⟩ := eq_of_splitAt? (List.cons_ne_nil _ _) found
      exact ((here.after.next (c := '-') rfl).next (c := '-') rfl).next (c := '>') rfl

theorem startAt?_of_nameless (here : At text (i + 1) cs) (none : startTag? cs = .none) :
    startAt? text i = some .none := by
  have nameless : cs.takeWhile isTagChar = [] := by
    by_contra some
    cases (startTag?_of_named some rfl rfl).symm.trans none
  have start : skip? isTagChar (bytes text) (i + 1) = some (i + 1) := by
    rw [skip?_at here isAsciiTest_tag, nameless]
    rfl
  rw [startAt?, startTagAt?_of_not start]
  rfl

theorem startAt?_of_named {t : Token} (here : At text (i + 1) cs)
    (found : startTag? cs = some (t, rest)) :
    ∃ next, startAt? text i = some (some (t, next)) ∧ At text next rest := by
  have some : cs.takeWhile isTagChar ≠ [] := fun nameless => by
    cases (startTag?_of_nameless nameless).symm.trans found
  rw [startTag?_of_named some rfl rfl] at found
  cases found
  obtain ⟨stop, read, there⟩ := startTagAt?_at here some
  obtain ⟨next, body, last⟩ := body?_at (t := ⟨stop, _, _⟩) there
  refine ⟨next, ?_, last⟩
  rw [startAt?, read]
  exact congrArg (Option.map _) body

theorem stopAt?_at (here : At text i ('<' :: '/' :: r)) :
    ∃ next, stopAt? text i =
        some (.stop (lowerAll (trim (r.takeWhile (· != '>')))), next) ∧
      At text next (past '>' r) := by
  have name := (here.next rfl).next rfl
  obtain ⟨place, found, stop⟩ := findByte?_at (c := '>') here rfl
  have passed : byteLength (('<' :: '/' :: r).takeWhile (· != '>')) =
      2 + byteLength (r.takeWhile (· != '>')) := by
    rw [List.takeWhile_cons_of_pos rfl, List.takeWhile_cons_of_pos rfl, byteLength_cons,
      byteLength_cons, ← Nat.add_assoc]
    rfl
  rw [passed, ← Nat.add_assoc] at stop
  refine ⟨_, ?_, at_past name (c := '>') rfl⟩
  have taken := slice?_takeWhile name (· != '>')
  simp only [stopAt?, found, stop, taken, Option.bind_eq_bind, Option.bind_some]
  rfl

theorem not_prefix_of_ne {x : Char} {more : List Char} (other : ∀ r, cs ≠ x :: r) :
    ('<' :: x :: more).isPrefixOf ('<' :: cs) = false := by
  by_contra starts
  obtain ⟨rest, split⟩ := List.isPrefixOf_iff_prefix.mp (Bool.not_eq_false _ ▸ starts)
  exact other _ (List.cons.inj split).2.symm

theorem part?_plain (here : At text i ('<' :: cs)) (declaration : ∀ r, cs ≠ '!' :: r)
    (question : ∀ r, cs ≠ '?' :: r) (slash : ∀ r, cs ≠ '/' :: r) :
    part? text i = (startAt? text i).map (Option.map fun found => (some found.1, found.2)) := by
  rw [part?, here.sliceFrom?]
  have comment : "<!--".toList.isPrefixOf ('<' :: cs) = false := not_prefix_of_ne declaration
  have bang : "<!".toList.isPrefixOf ('<' :: cs) = false := not_prefix_of_ne declaration
  have query : "<?".toList.isPrefixOf ('<' :: cs) = false := not_prefix_of_ne question
  have stop : "</".toList.isPrefixOf ('<' :: cs) = false := not_prefix_of_ne slash
  simp only [Option.bind_eq_bind, Option.bind_some, comment, bang, query, stop]
  rfl

theorem part?_of_part (here : At text i ('<' :: cs)) (found : partAfter? cs = some (t, rest)) :
    ∃ next, part? text i = some (some (t, next)) ∧ At text next rest := by
  unfold partAfter? at found
  split at found
  · rename_i r
    cases found
    obtain ⟨next, past, last⟩ :=
      pastComment?_at ((((here.next rfl).next rfl).next rfl).next rfl)
    refine ⟨next, ?_, last⟩
    rw [part?, here.sliceFrom?]
    exact congrArg (Option.map _) past
  · rename_i r other
    cases found
    obtain ⟨next, past, last⟩ := pastByte?_at (c := '>') here rfl
    have comment : "<!--".toList.isPrefixOf ('<' :: '!' :: r) = false := by
      by_contra starts
      obtain ⟨rest, split⟩ := List.isPrefixOf_iff_prefix.mp (Bool.not_eq_false _ ▸ starts)
      exact other rest (List.cons.inj (List.cons.inj split).2).2.symm
    refine ⟨next, ?_, last⟩
    rw [part?, here.sliceFrom?, Option.bind_eq_bind, Option.bind_some, comment]
    exact congrArg (Option.map _) past
  · rename_i r
    cases found
    obtain ⟨next, past, last⟩ := pastByte?_at (c := '>') here rfl
    refine ⟨next, ?_, last⟩
    rw [part?, here.sliceFrom?]
    exact congrArg (Option.map _) past
  · rename_i r
    cases found
    obtain ⟨next, stop, last⟩ := stopAt?_at here
    refine ⟨next, ?_, last⟩
    rw [part?, here.sliceFrom?]
    exact congrArg (Option.map _) stop
  · rename_i comment declaration question slash
    obtain ⟨⟨tag, left⟩, start, same⟩ := Option.map_eq_some_iff.mp found
    cases same
    obtain ⟨next, read, last⟩ := startAt?_of_named (here.next rfl) start
    refine ⟨next, ?_, last⟩
    rw [part?_plain here declaration question slash, read]
    rfl

theorem part?_of_stray (here : At text i ('<' :: cs)) (stray : partAfter? cs = none) :
    part? text i = some none := by
  obtain ⟨nameless, declaration, question, slash⟩ := nameless_of_stray stray
  rw [part?_plain here declaration question slash, startAt?_of_nameless (here.next rfl) nameless]
  rfl

/-! ## Texts -/

variable {emit : γ → Token → Option γ} {s : Scan γ}

theorem foldlM_heldText (emit : γ → Token → Option γ) (out : γ) (kept : List Char) :
    (heldText kept.reverse).foldlM emit out = flush? emit out kept := by
  rw [heldText, flush?, List.isEmpty_reverse, List.reverse_reverse, decode?_eq]
  split_ifs
  · rfl
  · exact bind_pure (emit out (.text (decode kept)))

theorem iterate_map {turn : σ → Option (Turn σ β)} {s : σ} {o : Option γ} {next : γ → σ}
    (goes : turn s = o.map fun a => .again (next a)) :
    iterate turn s = o.bind fun a => iterate turn (next a) := by
  cases o with
  | none => exact iterate_fail goes
  | some a => exact iterate_again goes

theorem iterate_plain (here : At text s.place (c :: rest)) (plain : c ≠ '<') :
    iterate (scanTurn emit text) s =
      iterate (scanTurn emit text) { s with place := s.place + c.utf8Size } := by
  -- the loop looks at each byte of the character, and none is the bracket
  have upTo (k : Nat) (inside : k ≤ c.utf8Size) : iterate (scanTurn emit text) s =
      iterate (scanTurn emit text) { s with place := s.place + k } := by
    induction k with
    | zero => rfl
    | succ k ih =>
        obtain ⟨x, byte, other⟩ := here.byteAt?_ne inside
        have bracket : ¬ x == '<' := by simpa using other '<' rfl plain
        have within : s.place + k < (bytes text).length := by
          rw [length_bytes, here.byteLength, byteLength_cons]
          omega
        rw [ih (Nat.le_of_succ_le inside)]
        apply iterate_again
        simp only [scanTurn, if_pos within, byte, Option.bind_eq_bind, Option.bind_some,
          if_neg bracket]
        rfl
  exact upTo c.utf8Size (Nat.le_refl _)

theorem scanTurn_bracket (here : At text s.place ('<' :: cs)) :
    scanTurn emit text s = bracketTurn emit text s := by
  have within : s.place < (bytes text).length := by
    rw [length_bytes, here.byteLength, byteLength_cons]
    exact Nat.lt_add_of_pos_right (Nat.add_pos_left (Char.utf8Size_pos '<') _)
  rw [scanTurn, if_pos within, here.byteAt?_ascii rfl, Option.bind_eq_bind, Option.bind_some]
  exact if_pos (beq_self_eq_true '<')

theorem bracketTurn_of_stray (emit : γ → Token → Option γ) (here : At text s.place ('<' :: cs))
    (taken : slice? text s.start s.place = some kept) (stray : partAfter? cs = none) :
    bracketTurn emit text s =
      (flush? emit s.out kept).map fun out => .again ⟨s.place + 1, s.start, out⟩ := by
  simp only [bracketTurn, taken, part?_of_stray here stray, Option.bind_eq_bind,
    Option.bind_some]
  cases flush? emit s.out kept <;> rfl

theorem bracketTurn_of_part (emit : γ → Token → Option γ) (here : At text s.place ('<' :: cs))
    (taken : slice? text s.start s.place = some kept) (found : partAfter? cs = some (t, rest)) :
    ∃ next, At text next rest ∧ bracketTurn emit text s =
      ((flush? emit s.out kept).bind fun out => t.toList.foldlM emit out).map
        fun out => .again ⟨next, next, out⟩ := by
  obtain ⟨next, read, last⟩ := part?_of_part here found
  refine ⟨next, last, ?_⟩
  simp only [bracketTurn, taken, read, Option.bind_eq_bind, Option.bind_some]
  cases flush? emit s.out kept with
  | none => rfl
  | some out =>
      show (t.toList.foldlM emit out).bind _ = (t.toList.foldlM emit out).map _
      cases t.toList.foldlM emit out <;> rfl

/-- What is left to do after the loop. -/
def finish (emit : γ → Token → Option γ) (text : List Char) (s : Scan γ) : Option γ :=
  (sliceFrom? text (min s.start (byteLength text))).bind fun rest => flush? emit s.out rest

/-- The text from the start is kept up to the place, where the rest begins. -/
structure Holds (text : List Char) (s : Scan γ) (kept rest : List Char) : Prop where
  start : At text s.start (kept ++ rest)
  place : s.place = s.start + byteLength kept

namespace Holds

theorem here (holds : Holds text s kept rest) : At text s.place rest :=
  holds.place ▸ holds.start.after

theorem taken (holds : Holds text s kept rest) : slice? text s.start s.place = some kept :=
  holds.place ▸ holds.start.slice?

theorem keep (holds : Holds text s kept (c :: rest)) (out : γ) :
    Holds text ⟨s.place + c.utf8Size, s.start, out⟩ (kept ++ [c]) rest where
  start := by simpa using holds.start
  place := by
    rw [byteLength_append, byteLength_cons, byteLength_nil, Nat.add_zero, ← Nat.add_assoc,
      ← holds.place]

theorem fresh {next : Nat} (here : At text next rest) (out : γ) :
    Holds text ⟨next, next, out⟩ [] rest :=
  ⟨here, rfl⟩

/-- At the end of the text the loop is left, and the kept text is passed on. -/
theorem iterate_end (holds : Holds text s kept []) :
    (iterate (scanTurn emit text) s).bind (finish emit text) = flush? emit s.out kept := by
  have behind : ¬ s.place < (bytes text).length := by
    rw [length_bytes, holds.here.byteLength]
    exact Nat.lt_irrefl _
  have leaves : scanTurn emit text s = some (.leave s) := if_neg behind
  have start := holds.start
  rw [List.append_nil] at start
  have within : s.start ≤ byteLength text := by
    rw [start.byteLength]
    exact Nat.le_add_right _ _
  rw [iterate_leave leaves, Option.bind_some, finish, Nat.min_eq_left within, start.sliceFrom?]
  rfl

/-- The loop passes on what is read of the text that is kept and of the rest. -/
theorem scans (holds : Holds text s kept rest) :
    (iterate (scanTurn emit text) s).bind (finish emit text) =
      (tokensFrom kept.reverse rest).foldlM emit s.out := by
  -- by what is left; the reader holds the kept text back in reverse
  induction long : rest.length using Nat.strongRecOn generalizing s kept rest with
  | ind n ih =>
      cases rest with
      | nil => rw [holds.iterate_end, tokensFrom, foldlM_heldText]
      | cons c cs =>
          rw [List.length_cons] at long
          by_cases bracket : c = '<'
          · subst bracket
            cases found : partAfter? cs with
            | none =>
                have turn := (scanTurn_bracket holds.here).trans
                  (bracketTurn_of_stray emit holds.here holds.taken found)
                rw [tokensFrom_stray found, List.foldlM_append, foldlM_heldText, iterate_map turn,
                  Option.bind_assoc]
                refine congrArg _ (funext fun out => ?_)
                have again := ih cs.length (by omega) (holds.keep out) rfl
                rwa [List.reverse_append] at again
            | some part =>
                obtain ⟨t, rest⟩ := part
                have less := length_partAfter?_le found
                obtain ⟨next, last, turn⟩ := bracketTurn_of_part emit holds.here holds.taken found
                rw [tokensFrom_part found, List.foldlM_append, foldlM_heldText,
                  iterate_map ((scanTurn_bracket holds.here).trans turn), Option.bind_assoc,
                  Option.bind_assoc]
                refine congrArg _ (funext fun out => ?_)
                rw [List.foldlM_append]
                refine congrArg _ (funext fun out => ?_)
                exact ih rest.length (by omega) (fresh last out) rfl
          · rw [iterate_plain holds.here bracket, tokensFrom_cons bracket]
            have again := ih cs.length (by omega) (holds.keep s.out) rfl
            rwa [List.reverse_append] at again

end Holds

theorem scan?_eq (emit : γ → Token → Option γ) (out : γ) (text : List Char) :
    scan? emit out text = (tokens text).foldlM emit out :=
  (Holds.fresh (At.first text) out).scans

/-! ## Documents -/

section Documents

variable {d : Dom} {base : Dom.NodeId} {g : Dom.Graft}

/-- All below which parts can be added is in the document. -/
def Rooted (base : Dom.NodeId) (g : Dom.Graft) : Prop := ∀ n ∈ base :: g.opened, n < g.dom.size

theorem Rooted.create (rooted : Rooted base g) (parent : Dom.NodeId) (kind : Dom.Kind) :
    Rooted base ⟨g.dom.create parent kind, g.opened⟩ := fun n mem => by
  rw [Dom.size_create]
  exact Nat.lt_succ_of_lt (rooted n mem)

theorem Rooted.add (rooted : Rooted base g) (t : Token) : Rooted base (g.add base t) := by
  cases t with
  | text cs => exact rooted.create _ _
  | stop tag =>
      intro n mem
      obtain rfl | mem := List.mem_cons.mp mem
      · exact rooted _ List.mem_cons_self
      · exact rooted n (List.mem_cons_of_mem base (Dom.Graft.Growing.mem_close mem))
  | start tag attributes body =>
      let made : Dom.Element :=
        { tag := String.ofList tag
          attributes := attributes.map fun a => (String.ofList a.1, String.ofList a.2) }
      have element := rooted.create (g.parent base) (.element made)
      cases body with
      | none => exact element
      | text cs =>
          cases cs with
          | nil => exact element
          | cons c cs => exact element.create g.dom.size _
      | opened =>
          intro n mem
          obtain rfl | mem := List.mem_cons.mp mem
          · exact element _ List.mem_cons_self
          obtain rfl | mem := List.mem_cons.mp mem
          · exact (Nat.lt_succ_self _).trans_eq (Dom.size_create ..).symm
          · exact element n (List.mem_cons_of_mem base mem)

theorem Rooted.parent_lt (rooted : Rooted base g) : g.parent base < g.dom.size := by
  rw [Dom.Graft.parent]
  cases opened : g.opened with
  | nil => exact rooted base List.mem_cons_self
  | cons n rest =>
      exact rooted n (List.mem_cons_of_mem base (opened ▸ List.mem_cons_self))

theorem Rooted.put?_eq (rooted : Rooted base g) (t : Token) :
    put? base g t = some (g.add base t) := by
  cases t with
  | stop tag => rfl
  | text cs => exact if_pos rooted.parent_lt
  | start tag attributes body => exact if_pos rooted.parent_lt

theorem Rooted.foldlM_put? (rooted : Rooted base g) (ts : List Token) :
    ts.foldlM (put? base) g = some (ts.foldl (Dom.Graft.add base) g) := by
  induction ts generalizing g with
  | nil => rfl
  | cons t ts ih =>
      rw [List.foldlM_cons, rooted.put?_eq]
      exact ih (rooted.add t)

/-- Scanned markup is added to a document as markup that is read. -/
theorem addMarkup?_eq (there : base < d.size) (text : List Char) :
    addMarkup? d base text = some (d.addMarkup base (String.ofList text)) := by
  have rooted : Rooted base ⟨d, []⟩ := fun n mem => List.mem_singleton.mp mem ▸ there
  rw [addMarkup?, scan?_eq, rooted.foldlM_put?, Dom.addMarkup, String.toList_ofList]
  rfl

end Documents

/-! ## Advance -/

/-- A loop goes on only from a place to a later one, and not behind the text. -/
def Advances (length : Nat) (place : σ → Nat) (turn : σ → Option (Turn σ β)) : Prop :=
  ∀ s s', turn s = some (.again s') → place s < place s' ∧ place s' ≤ length

theorem advances_skipTurn (p : Char → Bool) (bs : List UInt8) :
    Advances bs.length id (skipTurn p bs) := by
  intro i j turn
  unfold skipTurn sees? at turn
  by_cases within : i < bs.length
  · rw [if_pos within] at turn
    obtain ⟨pass, -, next⟩ := Option.map_eq_some_iff.mp turn
    cases pass with
    | false => cases next
    | true =>
        cases next
        exact ⟨Nat.lt_succ_self i, within⟩
  · rw [if_neg within] at turn
    cases turn

theorem advances_attributeTurn (text : List Char) :
    Advances (byteLength text) (·.place) (attributeTurn text) := by
  intro s s' turn
  obtain ⟨i, skipped, turn⟩ := Option.bind_eq_some_iff.mp turn
  have blanks : s.place ≤ i := by
    rw [skip?_eq] at skipped
    exact Option.some.inj skipped ▸ Nat.le_add_right _ _
  split_ifs at turn with within
  · obtain ⟨c, -, turn⟩ := Option.bind_eq_some_iff.mp turn
    have one : s.place < i + 1 ∧ i + 1 ≤ byteLength text :=
      ⟨Nat.lt_succ_of_le blanks, length_bytes text ▸ within⟩
    split_ifs at turn with greater slash
    · cases turn
    · cases turn
      exact one
    · obtain ⟨stop, passed, turn⟩ := Option.bind_eq_some_iff.mp turn
      split_ifs at turn with same
      · cases turn
        exact one
      · obtain ⟨name, taken, turn⟩ := Option.bind_eq_some_iff.mp turn
        obtain ⟨v, read, turn⟩ := Option.bind_eq_some_iff.mp turn
        cases turn
        have inside : i ≤ stop := by
          rw [skip?_eq] at passed
          exact Option.some.inj passed ▸ Nat.le_add_right _ _
        -- the name was taken, so a character begins behind it
        obtain ⟨rest, there⟩ := at_of_slice? taken
        obtain ⟨next, value, last⟩ := valueAfter?_at there
        obtain rfl := Option.some.inj (value.symm.trans read)
        have later := there.le last (length_valueAfter_le rest)
        have whole := last.byteLength
        show s.place < next ∧ next ≤ byteLength text
        omega
  · cases turn

theorem advances_scanTurn (emit : γ → Token → Option γ) (text : List Char) :
    Advances (byteLength text) (·.place) (scanTurn emit text) := by
  intro s s' turn
  unfold scanTurn at turn
  split_ifs at turn with within
  · obtain ⟨c, byte, turn⟩ := Option.bind_eq_some_iff.mp turn
    have one : s.place < s.place + 1 ∧ s.place + 1 ≤ byteLength text :=
      ⟨Nat.lt_succ_self _, length_bytes text ▸ within⟩
    split_ifs at turn with bracket
    · rw [eq_of_beq bracket] at byte
      obtain ⟨cs, here⟩ := at_of_byteAt? byte rfl
      obtain ⟨kept, taken, -⟩ := Option.bind_eq_some_iff.mp turn
      cases found : partAfter? cs with
      | none =>
          rw [bracketTurn_of_stray emit here taken found] at turn
          obtain ⟨out, -, next⟩ := Option.map_eq_some_iff.mp turn
          cases next
          exact one
      | some part =>
          obtain ⟨next, last, goes⟩ := bracketTurn_of_part emit here taken found
          rw [goes] at turn
          obtain ⟨out, -, again⟩ := Option.map_eq_some_iff.mp turn
          cases again
          have later := (here.next rfl).le last (length_partAfter?_le found)
          exact ⟨later, last.byteLength ▸ Nat.le_add_right _ _⟩
    · cases turn
      exact one
  · cases turn

theorem decodeTurn_shortens {s s' : Decoding} (turn : decodeTurn s = some (.again s')) :
    byteLength s'.rest < byteLength s.rest := by
  obtain ⟨out, rest⟩ := s
  by_cases mem : '&' ∈ rest
  · obtain ⟨before, cs, rfl, free⟩ := List.eq_append_cons_of_mem mem
    rw [decodeTurn_before free] at turn
    cases turn
    have less := byteLength_le_of_suffix (reference_suffix cs)
    have some := Char.utf8Size_pos '&'
    show byteLength (reference cs).2 < byteLength (before ++ '&' :: cs)
    rw [byteLength_append, byteLength_cons]
    omega
  · rw [decodeTurn_of_notMem mem] at turn
    cases turn

/-- On every text each byte and each part that is looked for is there, and every loop goes on to its
end: markup is added to any node of a document as markup that is read, whatever receives its parts
is all that can refuse them, start tags are looked for at any place, and any text is decoded. -/
theorem scans_every_text (text : List Char) :
    (∀ (d : Dom) (base : Dom.NodeId), base < d.size →
      addMarkup? d base text = some (d.addMarkup base (String.ofList text))) ∧
    (∀ (γ : Type) (emit : γ → Token → Option γ) (out : γ),
      scan? emit out text = (tokens text).foldlM emit out) ∧
    (∀ i, ∃ found, startTagAt? text i = some found) ∧
    decode? text = some (decode text) ∧
    (∀ (γ : Type) (emit : γ → Token → Option γ),
      Advances (byteLength text) (·.place) (scanTurn emit text)) ∧
    Advances (byteLength text) (·.place) (attributeTurn text) ∧
    (∀ p, Advances (byteLength text) id (skipTurn p (bytes text))) ∧
    ∀ s s', decodeTurn s = some (.again s') → byteLength s'.rest < byteLength s.rest :=
  ⟨fun _ _ there => addMarkup?_eq there text, fun _ emit out => scan?_eq emit out text,
    exists_startTagAt? text, decode?_eq text, fun _ emit => advances_scanTurn emit text,
    advances_attributeTurn text, fun p => length_bytes text ▸ advances_skipTurn p (bytes text),
    fun _ _ => decodeTurn_shortens⟩

/-- Neither the tag nor the quote nor the reference in it ends, and characters of several bytes stand
at the bracket, at the blank and in the reference. -/
def unclosed : List Char := "é<p/ ç='&#x€".toList

theorem scans_unclosed :
    Dom.root < Dom.empty.size ∧
    addMarkup? Dom.empty Dom.root unclosed =
      some (Dom.empty.addMarkup Dom.root (String.ofList unclosed)) ∧
    scanTurn (put? Dom.root) unclosed ⟨0, 0, ⟨Dom.empty, []⟩⟩ =
      some (.again ⟨1, 0, ⟨Dom.empty, []⟩⟩) ∧ 1 ≤ byteLength unclosed ∧
    attributeTurn unclosed ⟨4, [], false⟩ = some (.again ⟨5, [], true⟩) ∧
      5 ≤ byteLength unclosed ∧
    skipTurn isTagChar (bytes unclosed) 3 = some (.again 4) ∧ 4 ≤ byteLength unclosed ∧
    decodeTurn ⟨[], "&#x€".toList⟩ = some (.again ⟨['&'], "#x€".toList⟩) ∧
      byteLength "#x€".toList < byteLength "&#x€".toList := by
  have all := scans_every_text unclosed
  obtain ⟨added, -, -, -, scans, attributes, skips, decodes⟩ := all
  have root : Dom.root < Dom.empty.size := by decide
  have first : scanTurn (put? Dom.root) unclosed ⟨0, 0, ⟨Dom.empty, []⟩⟩ =
      some (.again ⟨1, 0, ⟨Dom.empty, []⟩⟩) := rfl
  have slash : attributeTurn unclosed ⟨4, [], false⟩ = some (.again ⟨5, [], true⟩) := by
    rw [attributeTurn, skip?_eq]
    rfl
  have letter : skipTurn isTagChar (bytes unclosed) 3 = some (.again 4) := rfl
  have reference : decodeTurn ⟨[], "&#x€".toList⟩ =
      some (.again ⟨['&'], "#x€".toList⟩) := rfl
  exact ⟨root, added Dom.empty Dom.root root, first, (scans _ _ _ _ first).2, slash,
    (attributes _ _ slash).2, letter, (skips _ _ _ letter).2, reference, decodes _ _ reference⟩

end BrowserScript.Html.Scanner
