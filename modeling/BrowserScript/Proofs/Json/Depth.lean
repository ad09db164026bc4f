import BrowserScript.Json.Reader

/-!
How deep values nest, and that those which are read do not nest deeper than the reader allows.
-/

namespace BrowserScript.Json

mutual

/-- How deep containers nest. -/
def depth : Json → Nat
  | .array items => depthItems items + 1
  | .object fields => depthFields fields + 1
  | _ => 0

def depthItems : List Json → Nat
  | [] => 0
  | item :: rest => max (depth item) (depthItems rest)

def depthFields : Fields → Nat
  | [] => 0
  | (_, value) :: rest => max (depth value) (depthFields rest)

end

theorem depthItems_le_iff {items : List Json} {n : Nat} :
    depthItems items ≤ n ↔ ∀ v ∈ items, depth v ≤ n := by
  induction items with
  | nil => simp [depthItems]
  | cons item rest ih => rw [depthItems, Nat.max_le, ih, List.forall_mem_cons]

theorem depthFields_le_iff {fields : Fields} {n : Nat} :
    depthFields fields ≤ n ↔ ∀ f ∈ fields, depth f.2 ≤ n := by
  induction fields with
  | nil => simp [depthFields]
  | cons field rest ih =>
      obtain ⟨name, value⟩ := field
      simp only [depthFields, Nat.max_le, ih, List.forall_mem_cons]

/-! ## Tokens that were read -/

/-- Whatever a token stands for is no container. -/
def Token.Flat : Token → Prop
  | .scalar v => depth v = 0
  | _ => True

theorem depth_of_number? {cs : List Char} {j : Json} (number : number? cs = some j) :
    depth j = 0 := by
  rw [number?] at number
  obtain ⟨l, -, number⟩ := Option.bind_eq_some_iff.mp number
  dsimp only at number
  have float : ∀ {j}, l.float?.map Json.float = some j → depth j = 0 := by
    intro j is
    obtain ⟨f, -, rfl⟩ := Option.map_eq_some_iff.mp is
    rfl
  split at number
  · split at number
    · cases number
      rfl
    · split at number
      · cases number
        rfl
      · exact float number
  · exact float number

theorem flat_of_bareToken? {cs : List Char} {t : Token} (token : bareToken? cs = some t) :
    t.Flat := by
  rw [bareToken?.eq_def] at token
  split at token
  case h_4 =>
    obtain ⟨j, number, rfl⟩ := Option.map_eq_some_iff.mp token
    exact depth_of_number? number
  all_goals
    cases token
    rfl

theorem flat_startToken {ts : List Token} {c : Char} {scanner : Scanner}
    (starts : startToken ts c = some scanner) (flat : ∀ t ∈ ts, t.Flat) :
    ∀ t ∈ scanner.2, t.Flat := by
  have more : ∀ t : Token, t.Flat → ∀ u ∈ t :: ts, u.Flat := by
    intro t is
    exact List.forall_mem_cons.mpr ⟨is, flat⟩
  rw [startToken.eq_def] at starts
  split at starts
  · cases starts
    exact flat
  · split at starts
    all_goals cases starts
    all_goals first
      | exact flat
      | exact more _ trivial

theorem flat_scanChar {scanner scanner' : Scanner} {c : Char}
    (reads : scanChar scanner c = some scanner') (flat : ∀ t ∈ scanner.2, t.Flat) :
    ∀ t ∈ scanner'.2, t.Flat := by
  obtain ⟨scan, ts⟩ := scanner
  cases scan with
  | idle => exact flat_startToken reads flat
  | bare cs =>
      rw [scanChar] at reads
      split at reads
      · cases reads
        exact flat
      · obtain ⟨t, token, starts⟩ := Option.bind_eq_some_iff.mp reads
        exact flat_startToken starts (List.forall_mem_cons.mpr ⟨flat_of_bareToken? token, flat⟩)
  | text cs =>
      rw [scanChar] at reads
      split at reads
      · cases reads
        exact List.forall_mem_cons.mpr ⟨trivial, flat⟩
      · split at reads
        · cases reads
          exact flat
        · split at reads <;> cases reads
          exact flat
  | escape cs =>
      rw [scanChar] at reads
      split at reads
      · cases reads
        exact flat
      · obtain ⟨e, -, rfl⟩ := Option.map_eq_some_iff.mp reads
        exact flat
  | hex cs high ds =>
      rw [scanChar] at reads
      split at reads
      · obtain ⟨_, -, reads⟩ := Option.bind_eq_some_iff.mp reads
        cases reads
        exact flat
      · obtain ⟨_, -, reads⟩ := Option.bind_eq_some_iff.mp reads
        obtain ⟨_, -, reads⟩ := Option.bind_eq_some_iff.mp reads
        cases reads
        exact flat
  | between cs h slash =>
      rw [scanChar] at reads
      split at reads
      · cases reads
        exact flat
      · split at reads <;> cases reads
        exact flat

/-- What each step of a run preserves. -/
theorem foldlM_preserves {α β : Type} {step : β → α → Option β} {P : β → Prop} {xs : List α}
    (preserves : ∀ x ∈ xs, ∀ b b', step b x = some b' → P b → P b') {b b' : β}
    (run : xs.foldlM step b = some b') (h : P b) : P b' := by
  induction xs generalizing b with
  | nil =>
      cases run
      exact h
  | cons x xs ih =>
      obtain ⟨b₁, one, rest⟩ := Option.bind_eq_some_iff.mp run
      exact ih (fun x mem => preserves x (List.mem_cons_of_mem _ mem)) rest
        (preserves x List.mem_cons_self b b₁ one h)

theorem flat_tokens? {cs : List Char} {ts : List Token} (read : tokens? cs = some ts) :
    ∀ t ∈ ts, t.Flat := by
  obtain ⟨⟨scan, us⟩, run, read⟩ := Option.bind_eq_some_iff.mp read
  have flat : ∀ t ∈ us, t.Flat :=
    foldlM_preserves (P := fun s => ∀ t ∈ s.2, t.Flat) (fun _ _ _ _ => flat_scanChar) run (by simp)
  dsimp only at read
  split at read
  · cases read
    simpa using flat
  · obtain ⟨t, token, rfl⟩ := Option.map_eq_some_iff.mp read
    intro t' mem
    rcases List.mem_cons.mp (List.mem_reverse.mp mem) with rfl | mem
    · exact flat_of_bareToken? token
    · exact flat t' mem
  · cases read

/-! ## Values that were built -/

def Frame.values : Frame → List Json
  | .array items => items
  | .object fields | .valueOf fields _ => fields.map (·.2)

/-- What open containers hold nests no deeper than there is room. -/
def Roomy : List Frame → Prop
  | [] => True
  | frame :: rest =>
    rest.length < deepest ∧ (∀ v ∈ frame.values, depth v + rest.length < deepest) ∧ Roomy rest

structure Builder.Sound (b : Builder) : Prop where
  roomy : Roomy b.open_
  result : ∀ v, b.expect = .nothing v → depth v ≤ deepest

theorem sound_complete {v : Json} {frames : List Frame} {b : Builder}
    (complete : Builder.complete v frames = some b) (roomy : Roomy frames)
    (fits : depth v + frames.length ≤ deepest) : b.Sound := by
  cases frames with
  | nil =>
      cases complete
      exact ⟨trivial, fun _ is => by cases is; exact fits⟩
  | cons frame rest =>
      obtain ⟨room, values, roomy⟩ := roomy
      rw [List.length_cons] at fits
      cases frame with
      | array items =>
          cases complete
          exact ⟨⟨room, List.forall_mem_cons.mpr ⟨fits, values⟩, roomy⟩, nofun⟩
      | valueOf fields name =>
          cases complete
          exact ⟨⟨room, List.forall_mem_cons.mpr ⟨fits, values⟩, roomy⟩, nofun⟩
      | object fields => cases complete

theorem depth_array_le {items : List Json} {n : Nat} :
    depth (.array items) ≤ n + 1 ↔ ∀ v ∈ items, depth v ≤ n := by
  rw [depth, Nat.add_le_add_iff_right, depthItems_le_iff]

theorem depth_object_le {fields : Fields} {n : Nat} :
    depth (.object fields) ≤ n + 1 ↔ ∀ f ∈ fields, depth f.2 ≤ n := by
  rw [depth, Nat.add_le_add_iff_right, depthFields_le_iff]

theorem sound_close {frames : List Frame} {t : Token} {b : Builder}
    (close : Builder.close frames t = some b) (roomy : Roomy frames) : b.Sound := by
  rw [Builder.close.eq_def] at close
  split at close
  · obtain ⟨room, values, roomy⟩ := roomy
    obtain ⟨n, spare⟩ := Nat.exists_eq_add_of_lt room
    refine sound_complete close roomy ?_
    rename_i items rest
    -- its items left room for one level, which the array itself now takes
    have fits : depth (.array items.reverse) ≤ n + 1 := by
      refine depth_array_le.mpr fun v mem => ?_
      have := values v (List.mem_reverse.mp mem)
      omega
    omega
  · obtain ⟨room, values, roomy⟩ := roomy
    obtain ⟨n, spare⟩ := Nat.exists_eq_add_of_lt room
    refine sound_complete close roomy ?_
    rename_i fields rest
    have fits : depth (.object fields.reverse) ≤ n + 1 := by
      refine depth_object_le.mpr fun f mem => ?_
      have := values f.2 (List.mem_map_of_mem (List.mem_reverse.mp mem))
      omega
    omega
  · cases close

theorem sound_enter {frame : Frame} {expect : Expect} {frames : List Frame} {b : Builder}
    (enter : Builder.enter frame expect frames = some b) (roomy : Roomy frames)
    (empty : frame.values = []) (open_ : ∀ v, expect ≠ .nothing v) : b.Sound := by
  rw [Builder.enter] at enter
  split at enter <;> cases enter
  rename_i room
  exact ⟨⟨room, by simp [empty], roomy⟩, fun v is => absurd is (open_ v)⟩

theorem sound_value {frames : List Frame} {t : Token} {b : Builder}
    (value : Builder.value frames t = some b) (roomy : Roomy frames)
    (room : frames.length ≤ deepest) (flat : t.Flat) : b.Sound := by
  cases t with
  | openBracket | openBrace => exact sound_enter value roomy rfl nofun
  | scalar v =>
      have none : depth v = 0 := flat
      exact sound_complete value roomy (by omega)
  | text s =>
      have none : depth (.string s) = 0 := rfl
      exact sound_complete value roomy (by omega)
  | _ => cases value

theorem Roomy.length_le {frames : List Frame} (roomy : Roomy frames) : frames.length ≤ deepest := by
  cases frames with
  | nil => exact Nat.zero_le _
  | cons frame rest => exact roomy.1

theorem sound_name {frames : List Frame} {s : String} {b : Builder}
    (name : Builder.name frames s = some b) (roomy : Roomy frames) : b.Sound := by
  rw [Builder.name.eq_def] at name
  split at name <;> cases name
  exact ⟨roomy, nofun⟩

theorem sound_step {b b' : Builder} {t : Token} (step : b.step t = some b') (sound : b.Sound)
    (flat : t.Flat) : b'.Sound := by
  have roomy := sound.roomy
  have room := roomy.length_le
  rw [Builder.step.eq_def] at step
  split at step
  case h_1 | h_3 => exact sound_value step roomy room flat
  case h_2 | h_4 | h_9 => exact sound_close step roomy
  case h_5 | h_6 => exact sound_name step roomy
  case h_7 =>
    cases step
    exact ⟨roomy, nofun⟩
  case h_8 =>
    split at step <;> cases step
    all_goals exact ⟨roomy, nofun⟩
  case h_10 => cases step

/-- A value that was read nests no deeper than is allowed. -/
theorem depth_of_parse? {text : String} {j : Json} (read : parse? text = some j) :
    depth j ≤ deepest := by
  obtain ⟨ts, tokens, read⟩ := Option.bind_eq_some_iff.mp read
  obtain ⟨b, run, read⟩ := Option.bind_eq_some_iff.mp read
  have sound : b.Sound := by
    refine foldlM_preserves (fun t mem b b' step sound => ?_) run ⟨trivial, nofun⟩
    exact sound_step step sound (flat_tokens? tokens t mem)
  split at read
  · cases read
    exact sound.result _ ‹_›
  · cases read

end BrowserScript.Json
