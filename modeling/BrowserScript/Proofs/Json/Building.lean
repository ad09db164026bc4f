import BrowserScript.Proofs.Json.Depth
import BrowserScript.Proofs.Json.Printed

/-!
Values out of their tokens, as long as they do not nest too deep.
-/

namespace BrowserScript.Json

variable {frames : List Frame} {j : Json} {ts : List Token}

theorem tokens_head (j : Json) : ∃ t rest, tokens j = t :: rest ∧ t ≠ .closeBracket := by
  cases j with
  | array items => exact ⟨_, _, rfl, by simp⟩
  | object fields => exact ⟨_, _, rfl, by simp⟩
  | _ => exact ⟨_, [], rfl, by simp⟩

theorem itemTokens_head (item : Json) (items : List Json) :
    ∃ t rest, itemTokens (item :: items) = t :: rest ∧ t ≠ .closeBracket := by
  obtain ⟨t, rest, same, ne⟩ := tokens_head item
  cases items with
  | nil => exact ⟨t, rest, same, ne⟩
  | cons next items => exact ⟨t, _, by rw [itemTokens, same, List.cons_append]; simp, ne⟩

/-- The first item is read like any other. -/
theorem foldlM_firstItem (frames : List Frame) (item : Json) (items : List Json) :
    (itemTokens (item :: items) ++ ts).foldlM Builder.step ⟨frames, .firstItem⟩ =
      (itemTokens (item :: items) ++ ts).foldlM Builder.step ⟨frames, .value⟩ := by
  obtain ⟨t, rest, same, ne⟩ := itemTokens_head item items
  have step : Builder.step ⟨frames, .firstItem⟩ t = Builder.step ⟨frames, .value⟩ t := by
    cases t with
    | closeBracket => exact absurd rfl ne
    | _ => rfl
  rw [same, List.cons_append, List.foldlM_cons, List.foldlM_cons, step]

theorem foldlM_firstField (frames : List Frame) (field : String × Json) (fields : Fields) :
    (fieldTokens (field :: fields) ++ ts).foldlM Builder.step ⟨frames, .firstField⟩ =
      (fieldTokens (field :: fields) ++ ts).foldlM Builder.step ⟨frames, .field⟩ := by
  cases fields <;> rfl

theorem enter_eq {frame : Frame} {expect : Expect} (room : frames.length < deepest) :
    Builder.enter frame expect frames = some ⟨frame :: frames, expect⟩ := if_pos room

theorem foldlM_of_step {b : Builder} {b' : Builder} {t : Token} (step : b.step t = some b') :
    (t :: ts).foldlM Builder.step b = ts.foldlM Builder.step b' := by
  rw [List.foldlM_cons, step]
  rfl

theorem foldlM_last (b : Builder) (t : Token) : [t].foldlM Builder.step b = b.step t := by
  rw [List.foldlM_cons]
  exact bind_pure _

theorem foldlM_append_of {us : List Token} {b b' : Builder}
    (first : us.foldlM Builder.step b = some b') :
    (us ++ ts).foldlM Builder.step b = ts.foldlM Builder.step b' := by
  rw [List.foldlM_append, first]
  rfl

mutual

/-- The tokens of a value complete it. -/
theorem foldlM_tokens (frames : List Frame) : (j : Json) → frames.length + depth j ≤ deepest →
    (tokens j).foldlM Builder.step ⟨frames, .value⟩ = Builder.complete j frames
  | .null, _ | .bool _, _ | .int _, _ | .float _, _ => foldlM_last _ (.scalar _)
  | .string s, _ => foldlM_last _ (.text s)
  | .array items, room => by
      rw [depth] at room
      have shallow : frames.length < deepest := by omega
      have opens : Builder.step ⟨frames, .value⟩ .openBracket =
          some ⟨.array [] :: frames, .firstItem⟩ := enter_eq shallow
      cases items with
      | nil =>
          rw [tokens, List.cons_append, foldlM_of_step opens]
          exact foldlM_last _ _
      | cons item rest =>
          have items := foldlM_itemTokens frames [] (item :: rest) (List.cons_ne_nil _ _) (by omega)
          rw [tokens, List.cons_append, foldlM_of_step opens, foldlM_firstItem,
            foldlM_append_of items, List.append_nil, foldlM_last]
          -- a frame holds its items last first
          show Builder.complete (.array (item :: rest).reverse.reverse) frames = _
          rw [List.reverse_reverse]
  | .object fields, room => by
      rw [depth] at room
      have shallow : frames.length < deepest := by omega
      have opens : Builder.step ⟨frames, .value⟩ .openBrace =
          some ⟨.object [] :: frames, .firstField⟩ := enter_eq shallow
      cases fields with
      | nil =>
          rw [tokens, List.cons_append, foldlM_of_step opens]
          exact foldlM_last _ _
      | cons field rest =>
          have fields :=
            foldlM_fieldTokens frames [] (field :: rest) (List.cons_ne_nil _ _) (by omega)
          rw [tokens, List.cons_append, foldlM_of_step opens, foldlM_firstField,
            foldlM_append_of fields, List.append_nil, foldlM_last]
          show Builder.complete (.object (field :: rest).reverse.reverse) frames = _
          rw [List.reverse_reverse]

theorem foldlM_itemTokens (frames : List Frame) (acc : List Json) : (items : List Json) →
    items ≠ [] → frames.length + 1 + depthItems items ≤ deepest →
    (itemTokens items).foldlM Builder.step ⟨.array acc :: frames, .value⟩ =
      some ⟨.array (items.reverse ++ acc) :: frames, .separator⟩
  | [], ne, _ => absurd rfl ne
  | [item], _, room => by
      rw [depthItems, depthItems, Nat.max_zero] at room
      rw [itemTokens, foldlM_tokens (.array acc :: frames) item room]
      rfl
  | item :: next :: rest, _, room => by
      rw [depthItems] at room
      have first := foldlM_tokens (.array acc :: frames) item
        (by rw [List.length_cons]; omega)
      have comma : Builder.step ⟨.array (item :: acc) :: frames, .separator⟩ .comma =
          some ⟨.array (item :: acc) :: frames, .value⟩ := rfl
      have others := foldlM_itemTokens frames (item :: acc) (next :: rest) (List.cons_ne_nil _ _)
        (by omega)
      rw [itemTokens, foldlM_append_of first, foldlM_of_step comma, others]
      · simp
      · simp

theorem foldlM_fieldTokens (frames : List Frame) (acc : Fields) : (fields : Fields) →
    fields ≠ [] → frames.length + 1 + depthFields fields ≤ deepest →
    (fieldTokens fields).foldlM Builder.step ⟨.object acc :: frames, .field⟩ =
      some ⟨.object (fields.reverse ++ acc) :: frames, .separator⟩
  | [], ne, _ => absurd rfl ne
  | [(name, value)], _, room => by
      rw [depthFields, depthFields, Nat.max_zero] at room
      have named : Builder.step ⟨.object acc :: frames, .field⟩ (.text name) =
          some ⟨.valueOf acc name :: frames, .colon⟩ := rfl
      have colon : Builder.step ⟨.valueOf acc name :: frames, .colon⟩ .colon =
          some ⟨.valueOf acc name :: frames, .value⟩ := rfl
      rw [fieldTokens, foldlM_of_step named, foldlM_of_step colon,
        foldlM_tokens (.valueOf acc name :: frames) value room]
      rfl
  | (name, value) :: next :: rest, _, room => by
      rw [depthFields] at room
      have named : Builder.step ⟨.object acc :: frames, .field⟩ (.text name) =
          some ⟨.valueOf acc name :: frames, .colon⟩ := rfl
      have colon : Builder.step ⟨.valueOf acc name :: frames, .colon⟩ .colon =
          some ⟨.valueOf acc name :: frames, .value⟩ := rfl
      have first := foldlM_tokens (.valueOf acc name :: frames) value
        (by rw [List.length_cons]; omega)
      have comma : Builder.step ⟨.object ((name, value) :: acc) :: frames, .separator⟩ .comma =
          some ⟨.object ((name, value) :: acc) :: frames, .field⟩ := rfl
      have others := foldlM_fieldTokens frames ((name, value) :: acc) (next :: rest)
        (List.cons_ne_nil _ _) (by omega)
      rw [fieldTokens, List.cons_append, List.cons_append, foldlM_of_step named,
        foldlM_of_step colon, foldlM_append_of first, foldlM_of_step comma, others]
      · simp
      · simp

end

/-- What is printed is read again, unless it nests too deep. -/
theorem parse?_pretty (exact_ : Exact j) (room : depth j ≤ deepest) :
    parse? (pretty j) = some j := by
  have built := foldlM_tokens [] j (by simpa using room)
  rw [parse?, tokens?_pretty exact_]
  simp only [Option.bind_eq_bind, Option.bind_some, built]
  rfl

end BrowserScript.Json
