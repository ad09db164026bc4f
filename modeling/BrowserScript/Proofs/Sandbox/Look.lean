import BrowserScript.Proofs.Dom.Frame
import BrowserScript.Proofs.Page.Still
import BrowserScript.Proofs.Program.Transcript
import BrowserScript.Sandbox.Basic
import BrowserScript.Verification.Probe

/-!
Looks at a sandbox. A look reads a few things of one element, so it finds the same wherever these
read the same.
-/

namespace BrowserScript

open Prog
open Page (Handle Access)

namespace Probe

open Verification (propertyName)

/-- What a look at a probe asks while it is watched. -/
def reads : Probe → List Page.Request
  | .text el .. => [.isConnected el, .visibility el, .innerText el]
  | .attribute el subject .. =>
    [.isConnected el, .property el (propertyName subject), .attribute el subject.word]
  | .state none _ => []
  | .state (some el) .visible | .state (some el) .hidden => [.isConnected el, .visibility el]
  | .state (some el) .enabled | .state (some el) .disabled =>
    [.isConnected el, .property el "disabled"]
  | .state (some el) .checked => [.isConnected el, .property el "checked"]
  | .page .title .. => [.title]
  | .page .url .. => [.url]

variable {P : Page.Request → Prop} {el : Handle}

theorem isAttached_asks (connected : P (.isConnected el)) : Asks P (Page.isAttached el).run := by
  refine ⟨connected, fun x => ?_⟩
  cases x <;> trivial

theorem isShown_asks (connected : P (.isConnected el)) (visibility : P (.visibility el)) :
    Asks P (isShown el).run := by
  refine (isAttached_asks connected).bind_run fun there => ?_
  cases there with
  | true => exact Asks.bind_run ⟨visibility, fun _ => trivial⟩ fun _ => trivial
  | false => trivial

theorem lookState_asks (state : ElementState)
    (asks : ∀ r ∈ (Probe.state (some el) state).reads, P r) :
    Asks P (lookState state el).run := by
  refine Asks.bind_run ?_ fun obstacle => (by cases obstacle <;> trivial)
  cases state with
  | visible | hidden =>
      exact Asks.bind_run ⟨asks _ (by simp [reads]), fun _ => trivial⟩ fun _ => trivial
  | enabled | disabled | checked =>
      refine Asks.bind_run ?_ fun _ => trivial
      exact Asks.bind_run ⟨asks _ (by simp [reads]), fun _ => trivial⟩ fun _ => trivial

theorem attributeValue_asks (subject : Subject) (property : P (.property el (propertyName subject)))
    (written : P (.attribute el subject.word)) :
    Asks P (Verification.attributeValue el subject).run := by
  refine Asks.bind_run ⟨property, fun _ => trivial⟩ fun value => ?_
  cases value with
  | some value => trivial
  | none => exact Asks.bind_run ⟨written, fun _ => trivial⟩ fun _ => trivial

theorem look_asks (p : Probe) (asks : ∀ r ∈ p.reads, P r) : Asks P (p.look true) := by
  refine Asks.bind (p := (p.lookAccess true).run) ?_ fun r => (by cases r <;> trivial)
  match p with
  | .page .title .. | .page .url .. =>
      exact Asks.bind_run ⟨asks _ (List.mem_singleton_self _), fun _ => trivial⟩ fun _ => trivial
  | .text el op expected =>
      have shown := isShown_asks (asks (.isConnected el) (by simp [reads]))
        (asks (.visibility el) (by simp [reads]))
      refine shown.bind_run fun shown => ?_
      cases shown with
      | false => trivial
      | true =>
          refine Asks.bind_run ?_ fun _ => trivial
          exact Asks.bind_run ⟨asks (.innerText el) (by simp [reads]), fun _ => trivial⟩
            fun _ => trivial
  | .attribute el subject op expected locator =>
      have there := isAttached_asks (asks (.isConnected el) (by simp [reads]))
      refine there.bind_run fun there => ?_
      cases there with
      | false => trivial
      | true =>
          have value := attributeValue_asks subject (asks _ (by simp [reads]))
            (asks (.attribute el subject.word) (by simp [reads]))
          exact value.bind_run fun _ => trivial
  | .state none wanted => exact True.intro
  | .state (some el) wanted =>
      refine ⟨asks _ (by cases wanted <;> simp [reads]), fun x => ?_⟩
      rcases x with e | _ | _
      · trivial
      · trivial
      · exact (lookState_asks wanted asks).bind_run fun _ => trivial

/-- The element a probe is about. -/
def element? : Probe → Option Handle
  | .text el .. | .attribute el .. => some el
  | .state el _ => el
  | .page .. => none

end Probe

namespace Sandbox

open Dom (NodeId Agrees)
open Verification (propertyName)

variable {L : Type} {s s' : Sandbox L} {p : Probe} {el : Handle} {n : NodeId}

/-! ## Answers -/

/-- Whether a request changes nothing. -/
def isReading : Page.Request → Bool
  | .setProperty .. | .dispatch .. | .focus _ | .blur _ | .navigate _ => false
  | _ => true

/-- What a request that changes nothing is answered. -/
def answer (s : Sandbox L) (r : Page.Request) : Page.signature.Answer r :=
  ((serve (m := Id) (fun _ _ _ => pure ()) r).run s).1

/-- What a look at a probe finds while it is watched. -/
def look (s : Sandbox L) (p : Probe) : Observation := (p.look true).run (m := Id) s.answer

def Satisfies (s : Sandbox L) (p : Probe) : Prop := ∃ found, s.look p = .satisfied found

theorem serve_reading {m : Type → Type} [Monad m] [LawfulMonad m] (react : React L m)
    {r : Page.Request} (reading : isReading r) (s : Sandbox L) :
    (serve react r).run s = pure (s.answer r, s) := by
  cases r with
  | setProperty | dispatch | focus | blur | navigate => cases reading
  | _ => exact pure_bind (s, s) _

theorem perform_reading {m : Type → Type} [Monad m] [LawfulMonad m] (react : React L m)
    {α : Type} {q : Prog Page.signature α} (asks : Asks (fun r => isReading r) q)
    (s : Sandbox L) : (perform react q).run s = pure (q.run (m := Id) s.answer, s) := by
  induction q with
  | done a => rfl
  | ask r next ih =>
      have first := serve_reading react asks.1 s
      show (serve react r >>= fun x => perform react (next x)).run s = _
      rw [StateT.run_bind, first, pure_bind]
      exact ih _ (asks.2 _)

theorem perform_bind {m : Type → Type} [Monad m] [LawfulMonad m] (react : React L m)
    {α β : Type} (p : Prog Page.signature α) (f : α → Prog Page.signature β) (s : Sandbox L) :
    (perform react (p.bind f)).run s =
      (perform react p).run s >>= fun x => (perform react (f x.1)).run x.2 := by
  have both : perform react (p.bind f) = perform react p >>= fun a => perform react (f a) :=
    Prog.run_bind (m := Acting L m) _ p f
  rw [both, StateT.run_bind]

theorem isReading_of_mem_reads (p : Probe) : ∀ r ∈ p.reads, isReading r := by
  match p with
  | .text .. | .attribute .. | .page .title .. | .page .url .. | .state none _ =>
      simp [Probe.reads, isReading]
  | .state (some el) wanted => cases wanted <;> simp [Probe.reads, isReading]

/-- Whoever listens, this is what a look finds, and it leaves the sandbox as it is. -/
theorem perform_look {m : Type → Type} [Monad m] [LawfulMonad m] (react : React L m)
    (s : Sandbox L) (p : Probe) : (perform react (p.look true)).run s = pure (s.look p, s) :=
  perform_reading react (p.look_asks (isReading_of_mem_reads p)) s

theorem run_congr {S : Signature} {α : Type} {P : S.Request → Prop} {q : Prog S α}
    (asks : Asks P q) {f g : (r : S.Request) → S.Answer r} (same : ∀ r, P r → f r = g r) :
    q.run (m := Id) f = q.run (m := Id) g := by
  induction q with
  | done a => rfl
  | ask r next ih =>
      show (next (f r)).run (m := Id) f = (next (g r)).run (m := Id) g
      rw [same r asks.1]
      exact ih _ (asks.2 _)

theorem look_congr (same : ∀ r ∈ p.reads, s'.answer r = s.answer r) : s'.look p = s.look p :=
  run_congr (p.look_asks fun _ => id) same

/-! ## What reading programs end with -/

/-- What a program that only reads ends with. -/
def eval (s : Sandbox L) (a : Access α) : Except Page.Error α := a.run.run (m := Id) s.answer

theorem eval_bind (a : Access α) (f : α → Access β) :
    s.eval (a >>= f) = s.eval a >>= fun x => s.eval (f x) :=
  Access.given_bind a f

theorem eval_bind_ok {a : Access α} {x : α} (first : s.eval a = .ok x) (f : α → Access β) :
    s.eval (a >>= f) = s.eval (f x) :=
  Access.given_bind_ok first f

theorem look_eq (p : Probe) : s.look p =
    match s.eval (p.lookAccess true) with
    | .ok found => found
    | .error e => .unmet (.fail e.message) := by
  refine (still_bind s.answer (p.lookAccess true).result _).trans ?_
  unfold eval still Access.result
  cases (p.lookAccess true).run.run (m := Id) s.answer with
  | error e => rfl
  | ok x => rfl

theorem eval_isAttached (el : Handle) : s.eval (Page.isAttached el) =
    .ok (match s.answer (.isConnected el) with | .ok there => there | .error _ => false) := by
  refine (Page.given_isAttached s.answer el).trans (congrArg Except.ok ?_)
  cases s.answer (.isConnected el) <;> rfl

theorem eval_absent (gone : s.answer (.isConnected el) ≠ .ok true) :
    s.eval (Page.isAttached el) = .ok false := by
  rw [eval_isAttached]
  rcases found : s.answer (.isConnected el) with e | _ | _
  · rfl
  · rfl
  · exact absurd found gone

/-- A probe whose element is not there is true only of what should be hidden. -/
theorem hidden_of_absent (about : p.element? = some el)
    (gone : s.answer (.isConnected el) ≠ .ok true) (met : s.Satisfies p) :
    p = .state (some el) .hidden := by
  have absent := eval_absent gone
  obtain ⟨found, met⟩ := met
  rw [look_eq] at met
  match p with
  | .page .. => cases about
  | .text own .. =>
      obtain rfl := Option.some.inj about
      have hidden : s.eval (Probe.isShown own) = .ok false := eval_bind_ok absent _
      simp only [Probe.lookAccess, if_true, eval_bind_ok hidden] at met
      cases met
  | .attribute own .. =>
      obtain rfl := Option.some.inj about
      simp only [Probe.lookAccess, eval_bind_ok absent] at met
      cases met
  | .state _ wanted =>
      obtain rfl : _ = some el := about
      have none : s.eval (Verification.attached (some el)) = .ok none := eval_bind_ok absent _
      simp only [Probe.lookAccess, eval_bind_ok none] at met
      cases wanted with
      | hidden => rfl
      | visible | enabled | disabled | checked => cases met

theorem checked_of_satisfies (met : s.Satisfies (.state (some el) .checked)) :
    ∃ v, s.answer (.property el "checked") = .ok (some v) ∧ v.isTrue := by
  by_cases there : s.answer (.isConnected el) = .ok true
  · obtain ⟨found, met⟩ := met
    have shown : s.eval (Page.isAttached el) = .ok true := by
      rw [eval_isAttached, there]
    have own : s.eval (Verification.attached (some el)) = .ok (some el) := eval_bind_ok shown _
    rw [look_eq] at met
    simp only [Probe.lookAccess, eval_bind_ok own, Probe.lookState, Probe.stateObstacle,
      Verification.isTrue, eval_bind] at met
    cases read : s.answer (.property el "checked") with
    | error e =>
        have read : s.eval (Page.property el "checked") = .error e := read
        simp only [read] at met
        cases met
    | ok v =>
        have read : s.eval (Page.property el "checked") = .ok v := read
        simp only [read] at met
        match v with
        | some (.bool true) => exact ⟨_, rfl, rfl⟩
        | none | some (.bool false) | some (.number _) | some (.text _) => cases met
  · cases hidden_of_absent rfl there met

/-! ## Handles -/

theorem resolve_congr {doc doc' : Document} (generation : doc'.generation = doc.generation)
    (size : doc'.dom.size = doc.dom.size)
    (elements : ∀ n, doc'.dom.isElement n = doc.dom.isElement n) (el : Handle) :
    doc'.resolve el = doc.resolve el := by
  simp only [Document.resolve, generation, size, elements]

theorem generation_of_resolve {doc : Document} (found : doc.resolve el = .ok n) :
    el.id >>> 32 = doc.generation ∧ el.id % (1 <<< 32) = n := by
  simp only [Document.resolve] at found
  split at found
  · rename_i good
    exact ⟨good.1, Except.ok.inj found⟩
  · cases found

/-- A node has one handle. -/
theorem handle_of_resolve {doc : Document} (found : doc.resolve el = .ok n) :
    el = doc.handle n := by
  obtain ⟨upper, lower⟩ := generation_of_resolve found
  obtain ⟨id⟩ := el
  congr 1
  rw [← upper, ← lower]
  simp only [Nat.shiftRight_eq_div_pow, Nat.shiftLeft_eq, Nat.one_mul]
  exact (Nat.div_add_mod' id (2 ^ 32)).symm

/-! ## Properties -/

/-- Properties that follow nothing. -/
theorem property?_own {doc : Document} {n : NodeId} {name : String}
    (free : name ∈ ["text", "readOnly", "state", "url"]) :
    doc.property? n name = (doc.dom.tag? n).bind fun _ => doc.dom.property? n name := by
  simp only [List.mem_cons, List.not_mem_nil, or_false] at free
  rcases free with rfl | rfl | rfl | rfl <;> rfl

theorem property?_congr {doc doc' : Document} {n : NodeId} (subject : Subject)
    (still : subject ≠ .value ∧ subject ≠ .checked ∧ subject ≠ .selected)
    (tag : doc'.dom.tag? n = doc.dom.tag? n)
    (own : doc'.dom.property? n (propertyName subject) = doc.dom.property? n (propertyName subject))
    (written : doc'.dom.attribute? n subject.word = doc.dom.attribute? n subject.word)
    (url : subject = .href ∨ subject = .src → doc'.url = doc.url) :
    doc'.property? n (propertyName subject) = doc.property? n (propertyName subject) := by
  obtain ⟨a, b, c⟩ := still
  cases subject
  case value => exact absurd rfl a
  case checked => exact absurd rfl b
  case selected => exact absurd rfl c
  case href | src =>
    have url := url (by decide)
    unfold Document.property?
    simp only [Subject.word, propertyName] at own written ⊢
    simp only [tag, own, written, url]
  case text | readonly | state | url =>
    rw [property?_own (by decide), property?_own (by decide), tag, own]
  all_goals
    unfold Document.property?
    simp only [Subject.word, propertyName] at own written ⊢
    simp only [tag, own, written, Dom.hasAttribute]

theorem property?_checked {doc doc' : Document} {n : NodeId}
    (tag : doc'.dom.tag? n = doc.dom.tag? n)
    (own : doc'.dom.property? n "checked" = doc.dom.property? n "checked")
    (written : doc'.dom.attribute? n "checked" = doc.dom.attribute? n "checked") :
    doc'.property? n "checked" = doc.property? n "checked" := by
  unfold Document.property?
  simp only [tag, own, written, Dom.hasAttribute]

theorem asciiLowered_word (subject : Subject) :
    Text.asciiLowered subject.word = subject.word := by
  cases subject <;> decide

/-! ## What a look depends on -/

theorem polls_attribute {el : Handle} {subject : Subject} {op : Operator}
    {expected locator : String}
    (still : (Probe.attribute el subject op expected locator).polls = false) :
    subject ≠ .value ∧ subject ≠ .checked ∧ subject ≠ .selected := by
  simpa [Probe.polls, and_assoc] using still

/-- What a probe at a node needs to be the same: attributes, properties, boxes, and perhaps the
address. -/
def Needs (A Q : NodeId → String → Prop) (B : NodeId → Prop) (address : Prop) (n : NodeId) :
    Probe → Prop
  | .text .. | .state _ .visible | .state _ .hidden =>
    (∀ n, ∀ name ∈ Dom.styling, A n name) ∧ B n
  | .attribute _ subject .. =>
    A n subject.word ∧ Q n (propertyName subject) ∧ (subject = .href ∨ subject = .src → address)
  | .state _ .enabled | .state _ .disabled => A n "disabled" ∧ Q n "disabled"
  | .state _ .checked => A n "checked" ∧ Q n "checked"
  | .page .. => True

section Frame

variable {A Q : NodeId → String → Prop} {B : NodeId → Prop}
  (generation : s'.document.generation = s.document.generation)
  (same : Agrees A Q B s.dom s'.dom)
include generation same

theorem answer_node {α : Type} {f : Document → NodeId → α}
    (value : ∀ n, s.document.resolve el = .ok n → f s'.document n = f s.document n) :
    (do return f s'.document (← s'.document.resolve el) : Except Page.Error α) =
      (do return f s.document (← s.document.resolve el)) := by
  rw [resolve_congr generation same.size same.isElement]
  cases found : s.document.resolve el with
  | error e => rfl
  | ok n => exact congrArg Except.ok (value n found)

theorem answer_isConnected : s'.answer (.isConnected el) = s.answer (.isConnected el) :=
  answer_node generation same (f := fun doc n => doc.dom.isConnected n)
    fun n _ => same.isConnected n

theorem answers_same (still : p.polls = false)
    (needs : ∀ el, p.element? = some el → ∀ n, s.document.resolve el = .ok n →
      Needs A Q B (s'.document.url = s.document.url) n p) :
    ∀ r ∈ p.reads, s'.answer r = s.answer r := by
  match p with
  | .page .. => cases still
  | .state none _ => simp [Probe.reads]
  | .text el op expected =>
      have needs := needs el rfl
      refine List.forall_mem_cons.mpr ⟨answer_isConnected generation same, ?_⟩
      refine List.forall_mem_cons.mpr ⟨?_, List.forall_mem_singleton.mpr ?_⟩
      · refine answer_node generation same (f := fun doc n => doc.dom.computed n) fun n found => ?_
        exact same.computed (needs n found).1 (needs n found).2
      · refine answer_node generation same (f := fun doc n => doc.dom.innerText n) fun n found => ?_
        exact same.innerText (needs n found).1 n
  | .attribute el subject op expected locator =>
      have needs := needs el rfl
      have own := polls_attribute still
      refine List.forall_mem_cons.mpr ⟨answer_isConnected generation same, ?_⟩
      refine List.forall_mem_cons.mpr ⟨?_, List.forall_mem_singleton.mpr ?_⟩
      · refine answer_node generation same
          (f := fun doc n => doc.property? n (propertyName subject)) fun n found => ?_
        obtain ⟨attr, property, address⟩ := needs n found
        exact property?_congr subject own (same.tag n) (same.property n _ property)
          (same.attr n _ attr) address
      · refine answer_node generation same
          (f := fun doc n => doc.dom.attribute? n (Text.asciiLowered subject.word))
          fun n found => ?_
        rw [asciiLowered_word]
        exact same.attr n _ (needs n found).1
  | .state (some el) .visible | .state (some el) .hidden =>
      have needs := needs el rfl
      refine List.forall_mem_cons.mpr ⟨answer_isConnected generation same, ?_⟩
      refine List.forall_mem_singleton.mpr (answer_node generation same
        (f := fun doc n => doc.dom.computed n) fun n found => ?_)
      exact same.computed (needs n found).1 (needs n found).2
  | .state (some el) .enabled | .state (some el) .disabled =>
      have needs := needs el rfl
      refine List.forall_mem_cons.mpr ⟨answer_isConnected generation same, ?_⟩
      refine List.forall_mem_singleton.mpr (answer_node generation same
        (f := fun doc n => doc.property? n "disabled") fun n found => ?_)
      obtain ⟨attr, property⟩ := needs n found
      exact property?_congr .disabled (by decide) (same.tag n) (same.property n _ property)
        (same.attr n _ attr) (by simp)
  | .state (some el) .checked =>
      have needs := needs el rfl
      refine List.forall_mem_cons.mpr ⟨answer_isConnected generation same, ?_⟩
      refine List.forall_mem_singleton.mpr (answer_node generation same
        (f := fun doc n => doc.property? n "checked") fun n found => ?_)
      obtain ⟨attr, property⟩ := needs n found
      exact property?_checked (same.tag n) (same.property n _ property) (same.attr n _ attr)

theorem look_same (still : p.polls = false)
    (needs : ∀ el, p.element? = some el → ∀ n, s.document.resolve el = .ok n →
      Needs A Q B (s'.document.url = s.document.url) n p) : s'.look p = s.look p :=
  look_congr (answers_same generation same still needs)

end Frame

end Sandbox

end BrowserScript
