import BrowserScript.Proofs.DevTools.Registry

/-!
What the one who listens makes of what arrives: each decodable answer is handed to the link, in the
order of arrival and as it is, and an end gives up all calls.
-/

namespace BrowserScript.DevTools.Link

/-- What can be of use to those who wait. -/
inductive Signal
  | reply (id : Nat) (a : Except Error Json)
  | gone

/-- What frames say, up to an end. -/
def signals : List Frame → List Signal
  | [] => []
  | .text text :: rest => ((answerOf? text).map fun (id, a) => .reply id a).toList ++ signals rest
  | .other :: rest => signals rest
  | .closed :: _ | .failed _ :: _ | .ended :: _ => [.gone]

def Deed.arriving : Deed → List Signal
  | ⟨.listener, ⟨toNetwork (.receive _), frames⟩⟩ => signals frames
  | _ => []

def Deed.heeding : Deed → List Signal
  | ⟨.listener, ⟨toLink _ (.answer id a), _⟩⟩ => [.reply id a]
  | ⟨.listener, ⟨toLink _ .giveUp, _⟩⟩ => [.gone]
  | _ => []

/-- All that arrived and what of it the link was told, in order. -/
def arrived (h : List Deed) : List Signal := h.flatMap Deed.arriving

def heeded (h : List Deed) : List Signal := h.flatMap Deed.heeding

/-- What is left to do when these signals have not been heeded. -/
inductive Listening (connection : Nat) : Prog surroundings Bool → List Signal → Prop
  | idle : Listening connection (.ask (toNetwork (.receive connection)) fun (frames : List Frame) =>
      .ask (toLink connection .isDeaf) fun (deaf : Bool) =>
        if deaf then .done false else takeIn connection frames) []
  | looking (frames : List Frame) :
      Listening connection (.ask (toLink connection .isDeaf) fun (deaf : Bool) =>
        if deaf then .done false else takeIn connection frames) (signals frames)
  | answering {p : Prog surroundings Bool} {rest : List Signal} (id : Nat) (a : Except Error Json)
      (left : Listening connection p rest) :
      Listening connection (.ask (toLink connection (.answer id a)) fun _ => p)
        (.reply id a :: rest)
  | leaving : Listening connection (.ask (toLink connection .giveUp) fun _ => .done false) [.gone]
  | over (more : Bool) : Listening connection (.done more) []

variable {connection : Nat} {asked : Nat → Call} {h h' : List Deed} {s : Traffic} {l l' : Link}
  {e : surroundings.Event} {rest : List Signal}

theorem arrived_concat (d : Deed) : arrived (h ++ [d]) = arrived h ++ d.arriving := by
  simp [arrived]

theorem heeded_append : heeded (h ++ h') = heeded h ++ heeded h' := List.flatMap_append

theorem heeded_concat (d : Deed) : heeded (h ++ [d]) = heeded h ++ d.heeding := by
  simp [heeded]

theorem listening_takeIn (frames : List Frame) :
    Listening connection (takeIn connection frames) (signals frames) := by
  induction frames with
  | nil => exact .over true
  | cons frame frames ih =>
      cases frame with
      | text text =>
          rw [takeIn, signals]
          cases answerOf? text with
          | none => exact ih
          | some found => exact .answering found.1 found.2 ih
      | other => exact ih
      | closed | failed text | ended => exact .leaving

theorem listening_listen : Listening connection (listen connection) [] := by
  have same : listen connection =
      .ask (toNetwork (.receive connection)) fun (frames : List Frame) =>
        .ask (toLink connection .isDeaf) fun (deaf : Bool) =>
          if deaf then .done false else takeIn connection frames := by
    refine congrArg (Prog.ask _) (funext fun frames =>
      congrArg (Prog.ask _) (funext fun deaf => ?_))
    cases deaf <;> rfl
  rw [same]
  exact .idle

section Turns

variable {now : Nat} {r : surroundings.Request} {x : surroundings.Answer r}
  {go : surroundings.Answer r → Prog surroundings Bool}

/-- In a turn of the listener signals arrive or the first of those left is heeded. -/
theorem Listening.next (left : Listening connection (.ask r go) rest)
    (takes : Takes connection now l ⟨r, x⟩ l') (hears : l.deaf = false) :
    ∃ rest', Listening connection (go x) rest' ∧
      Deed.heeding ⟨.listener, ⟨r, x⟩⟩ ++ rest' = rest ++ Deed.arriving ⟨.listener, ⟨r, x⟩⟩ := by
  cases left with
  | idle => exact ⟨signals x, .looking x, rfl⟩
  | looking frames =>
      cases takes with
      | kept served =>
          cases served
          refine ⟨signals frames, ?_, (List.append_nil _).symm⟩
          show Listening connection (if l.deaf then .done false else takeIn connection frames) _
          rw [hears]
          exact listening_takeIn frames
  | answering id a left => exact ⟨_, left, by simp [Deed.heeding, Deed.arriving]⟩
  | leaving => exact ⟨[], .over false, rfl⟩

end Turns

/-! ## All turns -/

/-- What a party can ask. -/
def Party.MayAsk : Party → surroundings.Request → Prop
  | .caller _, toNetwork (.send ..) | .caller _, toClock .now | .caller _, toLink _ .begin
  | .caller _, toLink _ (.forget _) | .caller _, toLink _ (.await ..) => True
  | .listener, toNetwork (.receive _) | .listener, toLink _ .isDeaf
  | .listener, toLink _ (.answer ..) | .listener, toLink _ .giveUp => True
  | _, _ => False

theorem Takes.deaf {now : Nat} {who : Party} (takes : Takes connection now l e l')
    (may : who.MayAsk e.1) : l'.deaf = l.deaf := by
  cases takes with
  | network r x | time | slept ms => rfl
  | @kept r x l' served =>
      cases r with
      | deafen => cases who <;> cases may
      | answer id a =>
          cases served
          rw [answer]
          split <;> rfl
      | await id deadline =>
          obtain ⟨a, -, -, rfl⟩ | ⟨-, -, rfl⟩ | ⟨-, -, rfl⟩ := await?_cases served <;> rfl
      | begin | forget id | giveUp | isDeaf =>
          cases served
          rfl

theorem Stage.mayAsk {c : Call} {t : List surroundings.Event} {r : surroundings.Request}
    {go : surroundings.Answer r → Prog surroundings (Except Error Json)}
    (stage : Stage connection c t (.ask r go)) (i : Nat) : (Party.caller i).MayAsk r := by
  cases stage with
  | fresh | begun | refused => trivial
  | sent _ waiting => cases waiting <;> trivial

theorem Listening.mayAsk {r : surroundings.Request}
    {go : surroundings.Answer r → Prog surroundings Bool}
    (left : Listening connection (.ask r go) rest) : Party.listener.MayAsk r := by
  cases left <;> trivial

/-- The listener has told the link what arrived, but for what it has left to do. -/
theorem Reached.listening (came : Reached connection asked h s) :
    s.link.deaf = false ∧
      ∃ rest, Listening connection s.listening rest ∧ heeded h ++ rest = arrived h := by
  induction came with
  | first => exact ⟨rfl, [], listening_listen, rfl⟩
  | pass _ _ ih => exact ih
  | again _ more ih =>
      obtain ⟨hears, rest, left, told⟩ := ih
      rw [more] at left
      cases left
      exact ⟨hears, [], listening_listen, told⟩
  | @called h s i r go x link before turn takes ih =>
      obtain ⟨hears, rest, left, told⟩ := ih
      have stage := before.stage i
      rw [turn] at stage
      refine ⟨(takes.deaf (stage.mayAsk i)).trans hears, rest, left, ?_⟩
      have silent : Deed.heeding ⟨.caller i, ⟨r, x⟩⟩ = [] := rfl
      have still : Deed.arriving ⟨.caller i, ⟨r, x⟩⟩ = [] := rfl
      rw [heeded_concat, arrived_concat, silent, still, List.append_nil, List.append_nil, told]
  | @heard h s r go x link before turn takes ih =>
      obtain ⟨hears, rest, left, told⟩ := ih
      rw [turn] at left
      obtain ⟨rest', left', same⟩ := left.next takes hears
      refine ⟨(takes.deaf left.mayAsk).trans hears, rest', left', ?_⟩
      rw [heeded_concat, arrived_concat, List.append_assoc, same, ← told, List.append_assoc]

theorem Reached.mayAsk (came : Reached connection asked h s) :
    ∀ d ∈ h, d.who.MayAsk d.event.1 := by
  induction came with
  | first => simp
  | pass _ _ ih | again _ _ ih => exact ih
  | @called h s i r go x link before turn takes ih =>
      intro d mem
      rcases List.mem_append.mp mem with mem | mem
      · exact ih d mem
      · cases List.mem_singleton.mp mem
        have stage := before.stage i
        rw [turn] at stage
        exact stage.mayAsk i
  | @heard h s r go x link before turn takes ih =>
      intro d mem
      rcases List.mem_append.mp mem with mem | mem
      · exact ih d mem
      · cases List.mem_singleton.mp mem
        obtain ⟨-, rest, left, -⟩ := before.listening
        rw [turn] at left
        exact left.mayAsk

end BrowserScript.DevTools.Link
