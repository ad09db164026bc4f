import BrowserScript.Proofs.DevTools.Listening

/-!
How calls over one connection end, whatever arrives in whatever order: a reply comes from the first
answer for the call that arrived while it waited, no answer ends two calls, the end of the
connection ends those that wait, and a link keeps no call that is over.
-/

namespace BrowserScript.DevTools.Link

/-- The call has begun, its message was sent, nothing has ended it, and it has not stopped to
wait. -/
structure Waits (connection : Nat) (c : Call) (h : List Deed) (i id : Nat) : Prop where
  registered : Registered connection h (.caller i) id
  sent : ⟨.caller i, tried connection c id (.ok ())⟩ ∈ h
  patient : ∀ now w, ⟨.caller i, awaited connection id now w⟩ ∉ h

def InProgress (h : List Deed) (s : Traffic) (i : Nat) : Prop :=
  own (.caller i) h ≠ [] ∧ ∀ a, s.calls i ≠ .done a

/-- A result or an error that the browser answered. -/
def IsReply : Except Error Json → Prop
  | .ok _ | .error (.protocol ..) => True
  | _ => False

/-- The signal of this number was an answer for this call, which waited for it. -/
def Completes (connection : Nat) (h : List Deed) (k i id : Nat) (a : Except Error Json) : Prop :=
  ∃ past rest, h = past ++ ⟨.listener, ⟨toLink connection (.answer id a), ()⟩⟩ :: rest ∧
    (heeded past).length = k ∧ Registered connection past (.caller i) id

variable {connection : Nat} {asked : Nat → Call} {h past rest : List Deed} {s : Traffic} {l : Link}
  {d : Deed} {who who' : Party} {i j k id id' : Nat} {a a' : Except Error Json} {c : Call}

/-- A call that awaits what became of it finds what the link keeps. -/
theorem Reached.await_cases {now : Nat} {w : Waited}
    (came : Reached connection asked (past ++ ⟨who, awaited connection id now w⟩ :: rest) s) :
    ∃ s₁, Reached connection asked past s₁ ∧
      ((∃ a, w = .answered a ∧ (id, a) ∈ s₁.link.answers) ∨
        (w = .givenUp ∧ id ∉ s₁.link.waiting) ∨ (w = .late ∧ id ∈ s₁.link.waiting)) := by
  obtain ⟨s₁, l, before, takes⟩ := came.at
  refine ⟨s₁, before, ?_⟩
  cases takes with
  | kept served =>
      obtain ⟨a, rfl, mem, -⟩ | ⟨rfl, absent, -⟩ | ⟨rfl, waits, -⟩ := await?_cases served
      · exact .inl ⟨a, rfl, mem⟩
      · exact .inr (.inl ⟨rfl, absent⟩)
      · exact .inr (.inr ⟨rfl, waits⟩)

/-! ## Replies -/

theorem Reached.completes_of_mem_answers (came : Reached connection asked past s)
    (begun : ⟨.caller i, began connection id⟩ ∈ past) (mem : (id, a) ∈ s.link.answers) :
    ∃ k, Completes connection past k i id a := by
  obtain ⟨past', who', rest', who, rfl, registered⟩ := came.kept.answered mem
  have listener : who' = .listener := by
    have may := came.mayAsk _ (List.mem_append_right past' List.mem_cons_self)
    cases who' with
    | caller j => cases may
    | listener => rfl
  have same : who = .caller i :=
    came.kept.who_eq (List.mem_append_left _ registered.mem) begun
  subst listener same
  exact ⟨_, past', rest', rfl, rfl, registered⟩

theorem Completes.append (completes : Completes connection past k i id a) :
    Completes connection (past ++ rest) k i id a := by
  obtain ⟨past', rest', rfl, count, registered⟩ := completes
  exact ⟨past', rest' ++ rest, by simp, count, registered⟩

/-- What completes a call is what arrived. -/
theorem Completes.arrived (completes : Completes connection h k i id a)
    (came : Reached connection asked h s) : (arrived h)[k]? = some (.reply id a) := by
  obtain ⟨past, rest, rfl, rfl, -⟩ := completes
  obtain ⟨-, left, -, told⟩ := came.listening
  have heeds : heeded (past ++ ⟨.listener, ⟨toLink connection (.answer id a), ()⟩⟩ :: rest) =
      heeded past ++ .reply id a :: heeded rest := heeded_append
  rw [← told, heeds, List.append_assoc, List.getElem?_append_right (Nat.le_refl _), Nat.sub_self]
  rfl

theorem Reached.answered (came : Reached connection asked h s) (ended : s.calls i = .done a)
    (reply : IsReply a) : ∃ k id, ⟨.caller i, tried connection (asked i) id (.ok ())⟩ ∈ h ∧
      Completes connection h k i id a ∧ (arrived h)[k]? = some (.reply id a) := by
  have stage := came.stage i
  rw [ended] at stage
  generalize mine : own (.caller i) h = t at stage
  cases stage with
  | failed => cases reply
  | sent id waiting =>
      have sent : ⟨.caller i, tried connection (asked i) id (.ok ())⟩ ∈ h := by
        rw [← mem_own_iff, mine]
        simp
      cases waiting with
      | givenUp | timedOut => cases reply
      | answered now a =>
          obtain ⟨h₁, h₂, rfl, mine₁, -⟩ := own_split (t := [_, _, _]) mine
          obtain ⟨s₁, before, ⟨b, is, mem⟩ | ⟨is, -⟩ | ⟨is, -⟩⟩ := came.await_cases
          case inr.inl | inr.inr => cases is
          cases is
          have begun : ⟨.caller i, began connection id⟩ ∈ h₁ := by
            rw [← mem_own_iff, mine₁]
            simp
          obtain ⟨k, completes⟩ := before.completes_of_mem_answers begun mem
          exact ⟨k, id, sent, completes.append, completes.append.arrived came⟩

theorem Reached.completes_once (came : Reached connection asked h s)
    (completes : Completes connection h k i id a) (completes' : Completes connection h k j id' a') :
    i = j := by
  have arrived := completes.arrived came
  rw [completes'.arrived came] at arrived
  cases arrived
  obtain ⟨past, rest, rfl, -, registered⟩ := completes
  obtain ⟨past', rest', split, -, registered'⟩ := completes'
  have mem' : ⟨.caller j, began connection id⟩ ∈ past ++ _ :: rest :=
    split ▸ List.mem_append_left _ registered'.mem
  cases came.kept.who_eq (List.mem_append_left _ registered.mem) mem'
  rfl

/-! ## The end of the connection -/

abbrev gaveUp (connection : Nat) : Deed := ⟨.listener, ⟨toLink connection .giveUp, ()⟩⟩

theorem await?_of_not_mem {now deadline : Nat} (absent : id ∉ l.waiting)
    (unanswered : ∀ a, (id, a) ∉ l.answers) : l.await? id deadline now = some (.givenUp, l) := by
  have nothing : l.answers.find? (·.1 == id) = none := by
    refine List.find?_eq_none.mpr ?_
    rintro ⟨id', a⟩ mem same
    cases beq_iff_eq.mp same
    exact unanswered a mem
  rw [await?, nothing]
  simp [absent]

/-- What was given up neither waits nor has an answer. -/
theorem Reached.given_up (came : Reached connection asked (past ++ gaveUp connection :: rest) s)
    (registered : Registered connection past who id) :
    id ∉ s.link.waiting ∧ ∀ a, (id, a) ∉ s.link.answers := by
  have ends : Ends id (gaveUp connection).event.1 := trivial
  refine ⟨came.kept.not_mem_waiting registered ends, ?_⟩
  intro a mem
  cases came.kept.eq_of_mem_answers registered ends mem

theorem Reached.awaits_givenUp
    (came : Reached connection asked (past ++ gaveUp connection :: rest) s)
    (waits : Waits connection c past i id) (now : Nat) {w : Waited}
    (mem : ⟨.caller i, awaited connection id now w⟩ ∈ past ++ gaveUp connection :: rest) :
    w = .givenUp := by
  have later : ⟨.caller i, awaited connection id now w⟩ ∈ rest := by
    rcases List.mem_append.mp mem with mem | mem
    · exact absurd mem (waits.patient now w)
    · simpa using mem
  obtain ⟨r₁, r₂, rfl⟩ := List.append_of_mem later
  rw [← List.cons_append, ← List.append_assoc] at came
  obtain ⟨s₁, before, ⟨a, -, mem⟩ | ⟨rfl, -⟩ | ⟨-, mem⟩⟩ := came.await_cases
  · exact absurd mem ((before.given_up waits.registered).2 a)
  · rfl
  · exact absurd mem (before.given_up waits.registered).1

theorem Stage.begun_first {t : List surroundings.Event} {p : Prog surroundings (Except Error Json)}
    (stage : Stage connection c t p) (begun : began connection id ∈ t) :
    t.head? = some (began connection id) := by
  have mem : id ∈ t.filterMap begun? := List.mem_filterMap.mpr ⟨_, begun, rfl⟩
  cases stage with
  | fresh => cases mem
  | begun | refused | failed =>
      obtain rfl := List.mem_singleton.mp mem
      rfl
  | sent id' waiting =>
      cases waiting
      all_goals
        obtain rfl := List.mem_singleton.mp mem
        rfl

theorem Reached.waiting (came : Reached connection asked h s)
    (begun : ⟨.caller i, began connection id⟩ ∈ h)
    (sent : ⟨.caller i, tried connection (asked i) id (.ok ())⟩ ∈ h) :
    ∃ u, own (.caller i) h = began connection id :: tried connection (asked i) id (.ok ()) :: u ∧
      Waiting connection (asked i) id u (s.calls i) := by
  have stage := came.stage i
  rw [← mem_own_iff] at begun sent
  have first := stage.begun_first begun
  generalize own (.caller i) h = t at *
  generalize s.calls i = p at stage
  cases stage with
  | fresh => cases begun
  | begun id' => cases List.mem_singleton.mp sent
  | refused id' text | failed id' text =>
      cases first
      simp only [List.mem_cons, List.not_mem_nil, or_false] at sent
      rcases sent with sent | sent <;> try rcases sent with sent | sent
      all_goals cases sent
  | sent id' waiting =>
      cases first
      exact ⟨_, rfl, waiting⟩

/-- A call that waits when all are given up needs no more than two turns, which it can have at any
time, to end with that. -/
theorem Reached.closed (came : Reached connection asked (past ++ gaveUp connection :: rest) s)
    (waits : Waits connection (asked i) past i id) :
    s.calls i = .done (.error .sessionClosed) ∨
      (own (.caller i) rest).length < 2 ∧ ∃ e s', Reached connection asked
        (past ++ gaveUp connection :: rest ++ [⟨.caller i, e⟩]) s' := by
  have mine : own (.caller i) (past ++ gaveUp connection :: rest) =
      own (.caller i) past ++ own (.caller i) rest := own_append
  obtain ⟨s₁, -, before, -⟩ := came.at
  obtain ⟨u₁, first, -⟩ := before.waiting waits.registered.mem waits.sent
  obtain ⟨u, whole, waiting⟩ := came.waiting (List.mem_append_left _ waits.registered.mem)
    (List.mem_append_left _ waits.sent)
  have length : (own (.caller i) rest).length ≤ u.length := by
    rw [mine, first] at whole
    have := congrArg List.length whole
    simp at this
    omega
  -- it awaits only after the end, when the link has nothing else for it
  have awaits : ∀ now w, awaited connection id now w ∈ u → w = .givenUp := by
    intro now w mem
    refine came.awaits_givenUp waits now (mem_own_iff.mp ?_)
    rw [whole]
    exact List.mem_cons_of_mem _ (List.mem_cons_of_mem _ mem)
  generalize left : s.calls i = p at waiting
  cases waiting with
  | sent => exact .inr ⟨Nat.lt_of_le_of_lt length (by simp), _, _, came.called left .time⟩
  | timed now =>
      obtain ⟨absent, unanswered⟩ := came.given_up waits.registered
      have served : s.link.await? id (now + patience) s.now = some (.givenUp, s.link) :=
        await?_of_not_mem absent unanswered
      exact .inr ⟨Nat.lt_of_le_of_lt length (by simp), _, _, came.called left (.kept served)⟩
  | givenUp now => exact .inl rfl
  | answered now a | late now | timedOut now =>
      cases awaits now _ (List.mem_cons_of_mem _ List.mem_cons_self)

/-! ## When all calls are over -/

theorem Kept.not_mem_waiting_of_answered (kept : Kept connection h l) (mem : (id, a) ∈ l.answers) :
    id ∉ l.waiting := by
  obtain ⟨past, who, rest, who', rfl, registered⟩ := kept.answered mem
  exact kept.not_mem_waiting registered (rfl : Ends id (toLink connection (.answer id a)))

/-- A call is not over before something has ended it. -/
theorem Reached.not_done {since : List Deed}
    (came : Reached connection asked (past ++ ⟨.caller i, began connection id⟩ :: since) s)
    (unended : ∀ d ∈ since, ¬ Ends id d.event.1) : s.calls i ≠ .done a := by
  intro ended
  have kept : ∀ e ∈ own (.caller i) since, ¬ Ends id e.1 :=
    fun e mem => unended _ (mem_own_iff.mp mem)
  have mine : own (.caller i) (past ++ ⟨.caller i, began connection id⟩ :: since) =
      own (.caller i) past ++ began connection id :: own (.caller i) since := by
    rw [own_append, own_cons_mine]
  have stage := came.stage i
  have first := stage.begun_first
    (mem_own_iff.mpr (List.mem_append_right past List.mem_cons_self))
  -- numbers are drawn once, so this is how the call began
  have alone : own (.caller i) past = [] := by
    cases before : own (.caller i) past with
    | nil => rfl
    | cons e u =>
        rw [mine, before] at first
        obtain rfl := Option.some_inj.mp first
        have mem : ⟨.caller i, began connection id⟩ ∈ past := by
          rw [← mem_own_iff, before]
          exact List.mem_cons_self
        exact absurd rfl (came.kept.fresh_before _ mem)
  rw [mine, alone, List.nil_append, ended] at stage
  generalize left : own (.caller i) since = u at stage kept
  cases stage with
  | failed => exact kept _ (List.mem_cons_of_mem _ List.mem_cons_self) rfl
  | sent _ waiting =>
      cases waiting with
      | timedOut => exact kept (forgot connection id) (by simp) rfl
      | answered now a | givenUp now =>
          obtain ⟨s₁, s₂, rfl, -, -⟩ := own_split (t := [_, _]) left
          have registered : Registered connection
              (past ++ ⟨.caller i, began connection id⟩ :: s₁) (.caller i) id :=
            ⟨past, s₁, rfl, fun d mem => unended d (List.mem_append_left _ mem)⟩
          rw [← List.cons_append, ← List.append_assoc] at came
          obtain ⟨s', before, found⟩ := came.await_cases
          have waits := before.kept.mem_waiting_iff.mpr ⟨_, registered⟩
          obtain ⟨b, -, mem⟩ | ⟨-, absent⟩ | ⟨is, -⟩ := found
          · exact before.kept.not_mem_waiting_of_answered mem waits
          · exact absent waits
          · cases is

/-- A call that waits is in progress. -/
theorem Reached.inProgress (came : Reached connection asked h s)
    (registered : Registered connection h (.caller i) id) : InProgress h s i := by
  refine ⟨List.ne_nil_of_mem (mem_own_iff.mpr registered.mem), fun a => ?_⟩
  obtain ⟨before, since, rfl, unended⟩ := registered
  exact came.not_done unended

theorem Reached.quiet (came : Reached connection asked h s) (quiet : ∀ i, ¬ InProgress h s i) :
    s.link.waiting = [] := by
  refine List.eq_nil_iff_forall_not_mem.mpr fun id waits => ?_
  obtain ⟨who, registered⟩ := came.kept.mem_waiting_iff.mp waits
  cases who with
  | caller i => exact quiet i (came.inProgress registered)
  | listener => cases came.mayAsk _ registered.mem

/-! ## All of it -/

/-- Whatever happens over a connection: the listener hands on what arrives, in order and up to an
end. A reply of a call is the first answer for its number that arrived while the call waited, its
number is nobody else's, and no answer completes two calls. A call that waits when all are given up
ends with that, after two turns of its own at most. When no call is in progress, none is kept. -/
theorem calls_settled (came : Reached connection asked h s) :
    (heeded h <+: arrived h ∧ ∀ more, s.listening = .done more → heeded h = arrived h) ∧
    (∀ i a, s.calls i = .done a → IsReply a → ∃ k id,
      ⟨.caller i, tried connection (asked i) id (.ok ())⟩ ∈ h ∧
        Completes connection h k i id a ∧ (arrived h)[k]? = some (.reply id a)) ∧
    (∀ i j id, ⟨.caller i, began connection id⟩ ∈ h → ⟨.caller j, began connection id⟩ ∈ h →
      i = j) ∧
    (∀ i j k id id' a a', Completes connection h k i id a → Completes connection h k j id' a' →
      i = j) ∧
    (∀ past rest i id, h = past ++ gaveUp connection :: rest →
      Waits connection (asked i) past i id → s.calls i = .done (.error .sessionClosed) ∨
        (own (.caller i) rest).length < 2 ∧
          ∃ e s', Reached connection asked (h ++ [⟨.caller i, e⟩]) s') ∧
    ((∀ i, ¬ InProgress h s i) → s.link.waiting = []) := by
  refine ⟨⟨?_, ?_⟩, fun i a => came.answered, ?_, fun i j k id id' a a' => came.completes_once, ?_,
    came.quiet⟩
  · obtain ⟨-, rest, -, told⟩ := came.listening
    exact ⟨rest, told⟩
  · intro more ended
    obtain ⟨-, rest, left, told⟩ := came.listening
    rw [ended] at left
    cases left
    rw [← told, List.append_nil]
  · intro i j id mem mem'
    cases came.kept.who_eq mem mem'
    rfl
  · rintro past rest i id rfl waits
    exact came.closed waits

/-! Two calls of which the second is answered, twice, before the connection ends. -/

namespace Sample

def questions (_ : Nat) : Call := ⟨"Page.enable", none, none⟩

def frames : List Frame :=
  [.other, .text "\x7b\"id\":2\x7d", .text "\x7b\"id\":2\x7d", .closed, .text "\x7b\"id\":1\x7d"]

def before : List Deed :=
  [⟨.caller 0, began 0 1⟩, ⟨.caller 0, tried 0 (questions 0) 1 (.ok ())⟩,
    ⟨.caller 1, began 0 2⟩, ⟨.caller 1, tried 0 (questions 1) 2 (.ok ())⟩,
    ⟨.listener, ⟨toNetwork (.receive 0), frames⟩⟩, ⟨.listener, ⟨toLink 0 .isDeaf, false⟩⟩,
    ⟨.listener, ⟨toLink 0 (.answer 2 (.ok .null)), ()⟩⟩,
    ⟨.listener, ⟨toLink 0 (.answer 2 (.ok .null)), ()⟩⟩]

def after : List Deed :=
  [⟨.caller 1, timed 0⟩, ⟨.caller 1, awaited 0 2 0 (.answered (.ok .null))⟩, ⟨.caller 0, timed 0⟩]

theorem reached : ∃ s, Reached 0 questions (before ++ gaveUp 0 :: after) s ∧
    s.calls 1 = .done (.ok .null) := by
  have s₀ : Reached 0 questions [] _ := .first
  have s₁ := s₀.called (i := 0) rfl (.kept rfl)
  have s₂ := s₁.called (i := 0) rfl (.network (sending 0 (questions 0) 1) (Except.ok ()))
  have s₃ := s₂.called (i := 1) rfl (.kept rfl)
  have s₄ := s₃.called (i := 1) rfl (.network (sending 0 (questions 1) 2) (Except.ok ()))
  have s₅ := s₄.heard rfl (.network (.receive 0) frames)
  have s₆ := s₅.heard rfl (.kept (r := .isDeaf) rfl)
  have s₇ := s₆.heard rfl (.kept (r := .answer 2 (.ok .null)) rfl)
  have s₈ := s₇.heard rfl (.kept (r := .answer 2 (.ok .null)) rfl)
  have s₉ := s₈.heard rfl (.kept (r := .giveUp) rfl)
  have s₁₀ := s₉.called (i := 1) rfl .time
  have s₁₁ := s₁₀.called (i := 1) rfl (.kept rfl)
  have s₁₂ := s₁₁.called (i := 0) rfl .time
  exact ⟨_, s₁₂, rfl⟩

theorem waits : Waits 0 (questions 0) before 0 1 where
  registered := by
    refine ⟨[], before.tail, rfl, ?_⟩
    intro d mem
    simp only [before, List.tail_cons, List.mem_cons, List.not_mem_nil, or_false] at mem
    obtain rfl | rfl | rfl | rfl | rfl | rfl | rfl := mem <;> simp [Ends]
  sent := List.mem_cons_of_mem _ List.mem_cons_self
  patient := by
    intro now w mem
    simp only [before, List.mem_cons, List.not_mem_nil, or_false, Deed.mk.injEq] at mem
    obtain h | h | h | h | h | h | h | h := mem <;> cases h.2

end Sample

open Sample in
/-- The first call ends with the connection, the second one with its answer. -/
theorem calls_settled_at_end : ∃ s, Reached 0 questions (before ++ gaveUp 0 :: after) s ∧
    (∃ k id, Completes 0 (before ++ gaveUp 0 :: after) k 1 id (.ok .null)) ∧
    (s.calls 0 = .done (.error .sessionClosed) ∨ (own (.caller 0) after).length < 2 ∧
      ∃ e s', Reached 0 questions (before ++ gaveUp 0 :: after ++ [⟨.caller 0, e⟩]) s') := by
  obtain ⟨s, came, answered⟩ := Sample.reached
  obtain ⟨-, replies, -, -, closed, -⟩ := calls_settled came
  obtain ⟨k, id, -, completes, -⟩ := replies 1 _ answered trivial
  exact ⟨s, came, ⟨k, id, completes⟩, closed _ _ 0 1 rfl Sample.waits⟩

end BrowserScript.DevTools.Link
