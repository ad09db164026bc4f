import BrowserScript.Proofs.DevTools.Exchange

/-!
What a link keeps, in terms of what was asked of it: the calls that wait are those that have begun
and were neither answered nor forgotten nor given up since, and an answer that was not taken is the
first one for its call.
-/

namespace BrowserScript.DevTools.Link

/-- After such a request this call does not wait. -/
def Ends (id : Nat) : surroundings.Request → Prop
  | toLink _ (.forget call) | toLink _ (.answer call _) => id = call
  | toLink _ .giveUp => True
  | _ => False

/-- The call has begun, and nothing has ended it since. -/
def Registered (connection : Nat) (h : List Deed) (who : Party) (id : Nat) : Prop :=
  ∃ before since, h = before ++ ⟨who, began connection id⟩ :: since ∧
    ∀ d ∈ since, ¬ Ends id d.event.1

/-- A link that was asked all this, by whomever. -/
inductive Kept (connection : Nat) : List Deed → Link → Prop
  | new : Kept connection [] {}
  | step {h : List Deed} {l l' : Link} {e : surroundings.Event} {now : Nat} (who : Party)
      (before : Kept connection h l) (takes : Takes connection now l e l') :
      Kept connection (h ++ [⟨who, e⟩]) l'

variable {connection : Nat} {asked : Nat → Call} {h h' : List Deed} {s : Traffic} {l l' : Link}
  {d : Deed} {who who' : Party} {id : Nat} {e : surroundings.Event}

theorem Reached.kept (came : Reached connection asked h s) : Kept connection h s.link := by
  induction came with
  | first => exact .new
  | pass _ _ ih | again _ _ ih => exact ih
  | called _ _ takes ih | heard _ _ takes ih => exact .step _ ih takes

/-! ## What an event does to a link -/

def begun? : surroundings.Event → Option Nat
  | ⟨toLink _ .begin, id⟩ => some id
  | _ => none

theorem await?_cases {call deadline now : Nat} {w : Waited}
    (served : l.await? call deadline now = some (w, l')) :
    (∃ a, w = .answered a ∧ (call, a) ∈ l.answers ∧
      l' = { l with answers := l.answers.filter (·.1 != call) }) ∨
    (w = .givenUp ∧ call ∉ l.waiting ∧ l' = l) ∨ (w = .late ∧ call ∈ l.waiting ∧ l' = l) := by
  rw [await?] at served
  split at served
  · rename_i id a found
    obtain rfl : id = call := by simpa using List.find?_some found
    cases served
    exact .inl ⟨a, rfl, List.mem_of_find?_eq_some found, rfl⟩
  · split at served
    · rename_i absent
      cases served
      exact .inr (.inl ⟨rfl, by simpa using absent, rfl⟩)
    · rename_i waits
      split at served <;> cases served
      exact .inr (.inr ⟨rfl, by simpa using waits, rfl⟩)

section Effects

variable {now : Nat} (takes : Takes connection now l e l')

include takes

theorem Takes.eq_began (begins : begun? e = some id) : e = began connection id := by
  cases takes with
  | network r x | time | slept ms => cases begins
  | @kept r x l' served =>
      cases r <;> cases begins
      rfl

theorem Takes.fresh :
    (begun? e = none ∧ l'.fresh = l.fresh) ∨
      (begun? e = some l.fresh ∧ l'.fresh = l.fresh + 1) := by
  cases takes with
  | network r x | time | slept ms => exact .inl ⟨rfl, rfl⟩
  | @kept r x l' served =>
      cases r with
      | begin =>
          cases served
          exact .inr ⟨rfl, rfl⟩
      | answer call a =>
          cases served
          refine .inl ⟨rfl, ?_⟩
          rw [answer]
          split <;> rfl
      | await call deadline =>
          obtain ⟨a, -, -, rfl⟩ | ⟨-, -, rfl⟩ | ⟨-, -, rfl⟩ := await?_cases served
          all_goals exact .inl ⟨rfl, rfl⟩
      | forget call | giveUp | isDeaf | deafen =>
          cases served
          exact .inl ⟨rfl, rfl⟩

theorem Takes.mem_waiting_iff :
    id ∈ l'.waiting ↔ begun? e = some id ∨ (id ∈ l.waiting ∧ ¬ Ends id e.1) := by
  cases takes with
  | network r x | time | slept ms => simp [begun?, Ends]
  | @kept r x l' served =>
      cases r with
      | begin =>
          cases served
          show id ∈ l.fresh :: l.waiting ↔ some l.fresh = some id ∨ _
          rw [List.mem_cons, Option.some_inj, eq_comm]
          simp [Ends]
      | forget call =>
          cases served
          simp [begun?, Ends, forget]
      | answer call a =>
          cases served
          rw [answer]
          split
          · simp [begun?, Ends, forget]
          · rename_i absent
            have other : id ∈ l.waiting → id ≠ call := by
              rintro mem rfl
              exact absent (List.contains_iff_mem.mpr mem)
            simpa [begun?, Ends] using other
      | giveUp =>
          cases served
          simp [begun?, Ends, giveUp]
      | await call deadline =>
          have same : l'.waiting = l.waiting := by
            obtain ⟨a, -, -, rfl⟩ | ⟨-, -, rfl⟩ | ⟨-, -, rfl⟩ := await?_cases served <;> rfl
          simp [begun?, Ends, same]
      | isDeaf | deafen =>
          cases served
          simp [begun?, Ends]

theorem Takes.mem_answers {a : Except Error Json} (mem : (id, a) ∈ l'.answers) :
    (id, a) ∈ l.answers ∨ (id ∈ l.waiting ∧ e = ⟨toLink connection (.answer id a), ()⟩) := by
  cases takes with
  | network r x | time | slept ms => exact .inl mem
  | @kept r x l' served =>
      cases r with
      | answer call b =>
          cases served
          rw [answer] at mem
          split at mem
          · rename_i waits
            rcases List.mem_cons.mp mem with first | mem
            · cases first
              exact .inr ⟨List.contains_iff_mem.mp waits, rfl⟩
            · exact .inl mem
          · exact .inl mem
      | await call deadline =>
          obtain ⟨b, -, -, rfl⟩ | ⟨-, -, rfl⟩ | ⟨-, -, rfl⟩ := await?_cases served
          · exact .inl (List.mem_filter.mp mem).1
          · exact .inl mem
          · exact .inl mem
      | begin | forget call | giveUp | isDeaf | deafen =>
          cases served
          exact .inl mem

end Effects

/-! ## Numbers -/

/-- Calls are numbered as they begin. -/
theorem Kept.numbered (kept : Kept connection h l) :
    ∃ n, l.fresh = n + 1 ∧ h.filterMap (begun? ·.event) = List.range' 1 n := by
  induction kept with
  | new => exact ⟨0, rfl, rfl⟩
  | @step h l l' e now who before takes ih =>
      obtain ⟨n, fresh, numbers⟩ := ih
      rw [List.filterMap_append, numbers, List.filterMap_cons, List.filterMap_nil]
      obtain ⟨begun, same⟩ | ⟨begun, next⟩ := takes.fresh
      · refine ⟨n, by rw [same, fresh], ?_⟩
        simp only [begun, List.append_nil]
      · refine ⟨n + 1, by rw [next, fresh], ?_⟩
        simp only [begun, fresh, List.range'_1_concat, Nat.add_comm 1 n]

theorem Kept.fresh_before {before since : List Deed}
    (kept : Kept connection (before ++ ⟨who, began connection id⟩ :: since) l) :
    ∀ d ∈ before, begun? d.event ≠ some id := by
  intro d mem begun
  obtain ⟨n, -, numbers⟩ := kept.numbered
  have nodup : ((before ++ ⟨who, began connection id⟩ :: since).filterMap (begun? ·.event)).Nodup :=
    numbers ▸ List.nodup_range'
  rw [List.filterMap_append, List.nodup_append] at nodup
  refine nodup.2.2 id (List.mem_filterMap.mpr ⟨d, mem, begun⟩) id ?_ rfl
  simp [begun?]

/-- A list splits in one way only at the first element of a kind. -/
theorem split_unique {α : Type} {P : α → Prop} {a b a' b' : List α} {x x' : α}
    (eq : a ++ x :: b = a' ++ x' :: b') (none : ∀ y ∈ a, ¬ P y) (is : P x)
    (none' : ∀ y ∈ a', ¬ P y) (is' : P x') : a = a' ∧ x = x' ∧ b = b' := by
  induction a generalizing a' with
  | nil =>
      cases a' with
      | nil =>
          cases eq
          exact ⟨rfl, rfl, rfl⟩
      | cons y a' =>
          cases eq
          exact absurd is (none' x (by simp))
  | cons y a ih =>
      cases a' with
      | nil =>
          cases eq
          exact absurd is' (none x' (by simp))
      | cons y' a' =>
          obtain ⟨rfl, rest⟩ := List.cons.inj eq
          obtain ⟨rfl, same⟩ := ih rest (fun z mem => none z (by simp [mem]))
            fun z mem => none' z (by simp [mem])
          exact ⟨rfl, same⟩

/-- A call begins once. -/
theorem Kept.begun_once {before since before' since' : List Deed}
    (kept : Kept connection h l) (split : h = before ++ ⟨who, began connection id⟩ :: since)
    (split' : h = before' ++ ⟨who', began connection id⟩ :: since') :
    before = before' ∧ who = who' ∧ since = since' := by
  subst split
  have none' := (split' ▸ kept).fresh_before
  obtain ⟨rfl, same, rfl⟩ := split_unique (P := fun d => begun? d.event = some id) split'
    kept.fresh_before rfl none' rfl
  cases same
  exact ⟨rfl, rfl, rfl⟩

theorem Kept.who_eq (kept : Kept connection h l) (mem : ⟨who, began connection id⟩ ∈ h)
    (mem' : ⟨who', began connection id⟩ ∈ h) : who = who' := by
  obtain ⟨before, since, split⟩ := List.append_of_mem mem
  obtain ⟨before', since', split'⟩ := List.append_of_mem mem'
  exact (kept.begun_once split split').2.1

/-! ## Calls that wait -/

theorem Registered.mem (registered : Registered connection h who id) :
    ⟨who, began connection id⟩ ∈ h := by
  obtain ⟨before, since, rfl, -⟩ := registered
  simp

theorem registered_concat_iff : Registered connection (h ++ [d]) who id ↔
    d = ⟨who, began connection id⟩ ∨ (Registered connection h who id ∧ ¬ Ends id d.event.1) := by
  constructor
  · rintro ⟨before, since, split, unended⟩
    rcases List.eq_nil_or_concat since with rfl | ⟨since, last, rfl⟩
    · cases (List.append_inj' split rfl).2
      exact .inl rfl
    · rw [List.concat_eq_append] at split unended
      rw [← List.cons_append, ← List.append_assoc] at split
      obtain ⟨rfl, last⟩ := List.append_inj' split rfl
      cases last
      exact .inr ⟨⟨before, since, rfl, fun d mem => unended d (by simp [mem])⟩,
        unended _ (by simp)⟩
  · rintro (rfl | ⟨⟨before, since, rfl, unended⟩, stays⟩)
    · exact ⟨h, [], rfl, by simp⟩
    · refine ⟨before, since ++ [d], by simp, ?_⟩
      intro d' mem
      rcases List.mem_append.mp mem with mem | mem
      · exact unended d' mem
      · rwa [List.mem_singleton.mp mem]

/-- The calls that wait have begun, and nothing has ended them. -/
theorem Kept.mem_waiting_iff (kept : Kept connection h l) :
    id ∈ l.waiting ↔ ∃ who, Registered connection h who id := by
  induction kept with
  | new => simp [Registered]
  | @step h l l' e now who before takes ih =>
      rw [takes.mem_waiting_iff, ih]
      simp only [registered_concat_iff]
      constructor
      · rintro (begun | ⟨⟨who', registered⟩, stays⟩)
        · exact ⟨who, .inl (by rw [takes.eq_began begun])⟩
        · exact ⟨who', .inr ⟨registered, stays⟩⟩
      · rintro ⟨who', same | ⟨registered, stays⟩⟩
        · cases same
          exact .inl rfl
        · exact .inr ⟨⟨who', registered⟩, stays⟩

/-- An answer that is kept came while its call was waiting. -/
theorem Kept.answered {a : Except Error Json} (kept : Kept connection h l)
    (mem : (id, a) ∈ l.answers) :
    ∃ past who' rest who, h = past ++ ⟨who', ⟨toLink connection (.answer id a), ()⟩⟩ :: rest ∧
      Registered connection past who id := by
  induction kept with
  | new => cases mem
  | @step h l l' e now who before takes ih =>
      obtain old | ⟨waits, rfl⟩ := takes.mem_answers mem
      · obtain ⟨past, who', rest, who'', rfl, registered⟩ := ih old
        exact ⟨past, who', rest ++ [⟨who, e⟩], who'', by simp, registered⟩
      · obtain ⟨who', registered⟩ := before.mem_waiting_iff.mp waits
        exact ⟨h, who, [], who', rfl, registered⟩

/-- Once something has ended a call it never waits again. -/
theorem Kept.not_mem_waiting {past rest : List Deed} (kept : Kept connection (past ++ d :: rest) l)
    (registered : Registered connection past who id) (ends : Ends id d.event.1) :
    id ∉ l.waiting := by
  intro waits
  obtain ⟨before, since, rfl, -⟩ := registered
  obtain ⟨who', before', since', split, unended⟩ := kept.mem_waiting_iff.mp waits
  obtain ⟨-, -, rfl⟩ := kept.begun_once (List.append_assoc ..) split
  exact unended d (by simp) ends

/-- The answer that is kept for a call is what ended it. -/
theorem Kept.eq_of_mem_answers {past rest : List Deed} {a : Except Error Json}
    (kept : Kept connection (past ++ d :: rest) l) (registered : Registered connection past who id)
    (ends : Ends id d.event.1) (mem : (id, a) ∈ l.answers) :
    d.event = ⟨toLink connection (.answer id a), ()⟩ := by
  obtain ⟨past', who', rest', who'', split, before', since', rfl, unended'⟩ := kept.answered mem
  obtain ⟨before, since, rfl, unended⟩ := registered
  obtain ⟨-, -, same⟩ := kept.begun_once (List.append_assoc ..)
    (split.trans (List.append_assoc ..))
  have answers : Ends id (toLink connection (.answer id a)) := rfl
  obtain ⟨-, rfl, -⟩ :=
    split_unique (P := fun d => Ends id d.event.1) same unended ends unended' answers
  rfl

end BrowserScript.DevTools.Link
