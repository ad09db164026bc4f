import Mathlib.Data.List.Infix
import BrowserScript.Proofs.Script.Preference

/-!
Where statements are headed. A heading is made of words, so it does not go past a blank where the
text goes on with a word that no heading has. A text that goes on so has no more headings than
before.
-/

namespace BrowserScript.Script

namespace Reading

variable {α β : Type} {a : α} {cs rest u : List Char} {w : String}

/-! ## Readings that stop at a blank -/

/-- What is read before a blank with `u` behind it ends before the blank. -/
def Stops (u : List Char) (r : Reading α) : Prop :=
  ∀ t a rest, (a, rest) ∈ r (t ++ ' ' :: u) → ∃ z, rest = z ++ ' ' :: u ∧ (a, z) ∈ r t

theorem Stops.pure (a : α) : Stops u (pure a : Reading α) := by
  intro t a' rest read
  obtain ⟨same, rfl⟩ := mem_pure.mp read
  exact ⟨t, rfl, mem_pure.mpr ⟨same, rfl⟩⟩

theorem Stops.bind {r : Reading α} {f : α → Reading β} (first : Stops u r)
    (second : ∀ a, Stops u (f a)) : Stops u (r >>= f) := by
  intro t b rest read
  obtain ⟨a, mid, start, next⟩ := mem_bind.mp read
  obtain ⟨z, rfl, start'⟩ := first t a mid start
  obtain ⟨z', rfl, next'⟩ := second a z b rest next
  exact ⟨z', rfl, mem_bind.mpr ⟨a, z, start', next'⟩⟩

theorem Stops.orElse {r s : Reading α} (first : Stops u r) (second : Stops u s) :
    Stops u (orElse r s) := by
  intro t a rest read
  rcases mem_orElse.mp read with read | read
  · obtain ⟨z, split, read⟩ := first t a rest read
    exact ⟨z, split, mem_orElse.mpr (.inl read)⟩
  · obtain ⟨z, split, read⟩ := second t a rest read
    exact ⟨z, split, mem_orElse.mpr (.inr read)⟩

theorem Stops.choice {σ : Type} {phrase : σ → Reading α} (stops : ∀ s, Stops u (phrase s))
    (options : List σ) : Stops u (choice phrase options) := by
  intro t a rest read
  obtain ⟨s, mem, read⟩ := mem_choice.mp read
  obtain ⟨z, split, read⟩ := stops s t a rest read
  exact ⟨z, split, mem_choice.mpr ⟨s, mem, read⟩⟩

theorem stops_word (plain : Plain w) : Stops u (word w) := by
  intro t a rest read
  obtain ⟨split, spelled⟩ := (mem_word plain).mp read
  rcases List.append_eq_append_iff.mp split with ⟨x, rfl, tail⟩ | ⟨z, rfl, rfl⟩
  · cases x with
    | nil =>
        refine ⟨[], tail.symm, (mem_word plain).mpr ⟨?_, spelled⟩⟩
        simp
    | cons c x =>
        obtain ⟨rfl, -⟩ := List.cons.inj tail
        have letter : plainLetter ' ' ∈ w.toList :=
          spelled ▸ List.mem_map_of_mem (List.mem_append_right t (List.mem_cons_self ..))
        exact absurd rfl (not_blank_of_plainLetter (plain _ letter) rfl)
  · exact ⟨z, rfl, (mem_word plain).mpr ⟨rfl, spelled⟩⟩

theorem exists_blanks (cs : List Char) :
    ∃ bs r, cs = bs ++ r ∧ (∀ b ∈ bs, Text.isBlank b) ∧ Unblanked r := by
  induction cs with
  | nil => exact ⟨[], [], rfl, List.forall_mem_nil _, rfl⟩
  | cons c cs ih =>
      by_cases blank : Text.isBlank c
      · obtain ⟨bs, r, rfl, start, unblanked⟩ := ih
        exact ⟨c :: bs, r, rfl, List.forall_mem_cons.mpr ⟨blank, start⟩, unblanked⟩
      · exact ⟨[], c :: cs, rfl, List.forall_mem_nil _, unblanked_cons.mpr blank⟩

/-- After blanks a phrase stops where it stops without them, unless it starts behind the blank. -/
theorem Stops.spaced {r : Reading α} (stops : Stops u r) (solid : Solid r) (unblanked : Unblanked u)
    (other : r u = []) : Stops u (someBlanks >>= fun _ => r) := by
  intro t a rest read
  obtain ⟨bs, mid, blanks, next⟩ := mem_bind.mp read
  obtain ⟨split, gap⟩ := mem_someBlanks.mp blanks
  have behind : (t ++ ' ' :: u).dropWhile Text.isBlank = mid := by
    rw [split, gap.dropWhile_append]
    exact solid.unblanked next
  -- The blanks that were read end at the first other character, in `t` or behind it.
  obtain ⟨start, t', rfl, blank, unblanked'⟩ := exists_blanks t
  rw [List.append_assoc, List.dropWhile_append_of_pos blank] at behind
  cases t' with
  | nil =>
      have all : u = mid := by
        rw [← behind]
        exact unblanked.symm
      rw [← all, other] at next
      exact absurd next List.not_mem_nil
  | cons c t' =>
      have whole : c :: t' ++ ' ' :: u = mid := by
        rw [← behind]
        exact (unblanked_cons.mpr (unblanked_cons.mp unblanked')).symm
      subst whole
      rw [List.append_assoc] at split
      obtain rfl := List.append_cancel_right split
      obtain ⟨z, tail, next⟩ := stops _ a rest next
      exact ⟨z, tail, mem_bind.mpr ⟨start, _, mem_someBlanks.mpr ⟨rfl, gap⟩, next⟩⟩

/-- Words that a text starts with are no others. -/
theorem Begins.eq_nil {ws : List String} {r : Reading α} (begins : Begins ws r)
    (plain : PlainWords ws) (plain' : PlainWords [w]) (clash : Clash ws [w]) (rest : List Char) :
    r (w.toList ++ rest) = [] := by
  rw [List.eq_nil_iff_forall_not_mem]
  intro x read
  have self := word_self (plain' w (List.mem_singleton_self w)).1 rest
  exact begins.apart (begins_word w) plain plain' clash read self

end Reading

namespace VerifyStatement

open Reading

variable {α : Type} {cs rest u : List Char} {w : String}

/-! ## Headings -/

theorem stops_leftOut {r : Reading α} (stops : Stops u r) (solid : Solid r)
    (unblanked : Unblanked u) (other : r u = []) (plain : Plain w) : Stops u (leftOut w r) := by
  rw [leftOut, optional_bind, bind_assoc]
  exact ((stops_word plain).bind fun _ => stops.spaced solid unblanked other).orElse stops

/-- A heading stops at a blank before a word that is none of its own. -/
theorem stops_headings (plain : PlainWords [w])
    (clash : Clash ("that" :: "the" :: named.map Subject.word) [w]) (rest : List Char) :
    Stops (w.toList ++ rest) headings := by
  have subjects : Begins (named.map Subject.word) (choice subjectWord named) :=
    .choice Subject.word begins_subjectWord named
  have the : Begins _ (leftOut "the" (choice subjectWord named)) := begins_leftOut subjects
  have that : Begins _ (leftOut "that" (leftOut "the" (choice subjectWord named))) :=
    begins_leftOut the
  have unblanked : Unblanked (w.toList ++ rest) :=
    ((begins_word w).solid plain).unblanked
      (word_self (plain w (List.mem_singleton_self w)).1 rest)
  have small : ∀ s : Subject, Plain s.word := by
    intro s
    cases s <;> decide
  have fewer {w' : String} {ws : List String} (clash : Clash (w' :: ws) [w]) : Clash ws [w] :=
    fun x there => clash x (List.mem_cons_of_mem w' there)
  have stops : Stops (w.toList ++ rest) (choice subjectWord named) :=
    .choice (fun s => (stops_word (small s)).bind fun _ => .pure _) named
  have stops' := stops_leftOut (w := "the") stops (subjects.solid (by decide)) unblanked
    (subjects.eq_nil (by decide) plain (fewer (fewer clash)) rest) (by decide)
  have stops'' := stops_leftOut (w := "that") stops' (the.solid (by decide)) unblanked
    (the.eq_nil (by decide) plain (fewer clash) rest) (by decide)
  rw [headings_eq]
  exact (stops_word (by decide)).bind fun _ =>
    stops''.spaced (that.solid (by decide)) unblanked (that.eq_nil (by decide) plain clash rest)

/-- No statement with a subject starts within the text. -/
def Headless (cs : List Char) : Prop := ∀ t, t <:+ cs → headings t = []

instance (cs : List Char) : Decidable (Headless cs) :=
  decidable_of_iff (∀ t ∈ cs.tails, (headings t).isEmpty) (by simp [Headless])

/-- No statement starts where a text goes on with a word that no heading has. -/
theorem Headless.append (headless : Headless cs) (plain : PlainWords [w])
    (clash : Clash ("that" :: "the" :: named.map Subject.word) [w])
    (later : Headless (' ' :: (w.toList ++ rest))) :
    Headless (cs ++ ' ' :: (w.toList ++ rest)) := by
  intro t tail
  rcases List.suffix_or_suffix_of_suffix tail (List.suffix_append ..) with within | ⟨x, rfl⟩
  · exact later t within
  · rw [List.eq_nil_iff_forall_not_mem]
    rintro ⟨s, u⟩ read
    obtain ⟨z, -, read⟩ := stops_headings plain clash rest x s u read
    obtain ⟨before, whole⟩ := tail
    rw [← List.append_assoc] at whole
    rw [headless x ⟨before, List.append_cancel_right whole⟩] at read
    exact List.not_mem_nil read

end VerifyStatement

end BrowserScript.Script
