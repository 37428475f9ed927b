import ParseTrace.Proofs.Sessions

/-!
How a replay ends, told by counting. A number stands for the results stack: a shift adds one,
a reduce takes off the length of its rule and adds one. That number, the rules and the kinds of
the events decide between a tree and each failure; what tokens say, the arena and whatever
stands behind the event that stops the count have no part in it.
-/

namespace ParseTrace

def Event.wordless : Event → Event
  | .shift _ => .shift ⟨0, "", "", 0⟩
  | .reduce rule => .reduce rule
  | .accept => .accept

/-- A count that goes on from a depth, or has come to a verdict. -/
inductive Tally where
  | running (depth : Nat)
  | stopped (verdict : Except Failure Unit)

namespace Tally

def step (g : Grammar) (depth : Nat) : Event → Tally
  | .shift _ => .running (depth + 1)
  | .reduce rule =>
    match g.productions[rule]? with
    | none => .stopped (.error (.unknownProduction rule))
    | some p =>
      if depth < p.length then .stopped (.error (.stackUnderflow p.lhsName p.length depth))
      else .running (depth - p.length + 1)
  | .accept => .stopped (if depth = 1 then .ok () else .error (.acceptCount depth))

/-- How many events are performed before one stops the count: each of them makes a node. -/
def performed (g : Grammar) : Nat → List Event → Nat
  | _, [] => 0
  | depth, e :: rest =>
    match step g depth e with
    | .running depth => performed g depth rest + 1
    | .stopped _ => 0

def run (g : Grammar) : Nat → List Event → Except Failure Unit
  | _, [] => .error .missingAccept
  | depth, e :: rest =>
    match step g depth e with
    | .running depth => run g depth rest
    | .stopped verdict => verdict

variable {g : Grammar} {depth : Nat}

theorem run_running {e : Event} {next : Nat} (goesOn : step g depth e = .running next)
    (rest : List Event) : run g depth (e :: rest) = run g next rest := by
  rw [run, goesOn]

theorem run_stopped {e : Event} {verdict : Except Failure Unit}
    (stops : step g depth e = .stopped verdict) (rest : List Event) :
    run g depth (e :: rest) = verdict := by
  rw [run, stops]

theorem step_wordless (g : Grammar) (depth : Nat) (e : Event) :
    step g depth e.wordless = step g depth e := by
  cases e <;> rfl

theorem run_wordless (g : Grammar) (depth : Nat) (events : List Event) :
    run g depth (events.map Event.wordless) = run g depth events := by
  induction events generalizing depth with
  | nil => rfl
  | cons e rest ih =>
    rw [List.map_cons, run, run, step_wordless]
    cases step g depth e with
    | running next => exact ih next
    | stopped verdict => rfl

theorem step_ne_missingAccept (g : Grammar) (depth : Nat) (e : Event) :
    step g depth e ≠ .stopped (.error .missingAccept) := by
  cases e with
  | shift token => exact nofun
  | reduce rule =>
    rw [step]
    split
    · simp
    · split <;> simp
  | accept =>
    rw [step]
    split <;> simp

theorem run_accept_ne_missingAccept (g : Grammar) (depth : Nat) (before : List Event) :
    run g depth (before ++ [.accept]) ≠ .error .missingAccept := by
  induction before generalizing depth with
  | nil =>
    rw [List.nil_append, run_stopped rfl]
    split <;> simp
  | cons e rest ih =>
    have proper := step_ne_missingAccept g depth e
    rw [List.cons_append, run]
    cases stepped : step g depth e with
    | running next => exact ih next
    | stopped verdict =>
      rintro rfl
      exact proper stepped

end Tally

namespace Builder

variable {b : Builder} {f : Forest Nat} {g : Grammar} {e : Event}

def verdict (outcome : Except Failure Tree × Builder) : Except Failure Unit :=
  outcome.1.map fun _ => ()

namespace Open

theorem replay_running (o : b.Open f) {next : Nat}
    (goesOn : Tally.step g b.depth e = .running next) :
    ∃ b' f', b'.Open f' ∧ b'.depth = next ∧ b'.session = b.session.advance ∧
      ∀ rest, replay g receiver (e :: rest) b = replay g receiver rest b' := by
  cases e with
  | shift token =>
    cases goesOn
    refine ⟨_, _, o.shift token, ?_, ?_, o.replay_shift g token⟩
    · rw [o.shift_eq]
      rfl
    · rw [o.shift_eq]
  | reduce rule =>
    rw [Tally.step] at goesOn
    split at goesOn
    · cases goesOn
    · next p found =>
      have known : g.production rule = .ok p := by rw [Grammar.production, found]
      split at goesOn
      · cases goesOn
      · next enough =>
        cases goesOn
        have enough := Nat.le_of_not_lt enough
        obtain ⟨_, _, -, -, opened⟩ := o.reduce enough
        refine ⟨_, _, opened, ?_, ?_, o.replay_reduce known enough⟩
        · rw [o.reduce_eq enough]
          simp [depth, List.length_drop]
        · rw [o.reduce_eq enough]
  | accept => cases goesOn

theorem replay_stopped (o : b.Open f) {halt : Except Failure Unit}
    (stops : Tally.step g b.depth e = .stopped halt) (rest : List Event) :
    verdict (replay g receiver (e :: rest) b) = halt ∧
      replay g receiver (e :: rest) b = replay g receiver [e] b := by
  cases e with
  | shift token => cases stops
  | reduce rule =>
    rw [Tally.step] at stops
    split at stops
    · next missing =>
      cases stops
      have unknown : g.production rule = .error (.unknownProduction rule) := by
        rw [Grammar.production, missing]
      simp only [replay, unknown, verdict, Except.map, and_self]
    · next p found =>
      have known : g.production rule = .ok p := by rw [Grammar.production, found]
      split at stops
      · next short =>
        cases stops
        rw [o.replay_underflow known short, o.replay_underflow known short]
        exact ⟨rfl, rfl⟩
      · cases stops
  | accept =>
    cases stops
    refine ⟨?_, rfl⟩
    have called : replay g receiver (.accept :: rest) b = b.accept := rfl
    rw [called, verdict]
    rcases o.accept_cases with ⟨root, single, done⟩ | ⟨count, refused⟩
    · have one : b.depth = 1 := congrArg List.length single
      rw [done, if_pos one]
      rfl
    · rw [refused, if_neg count]
      rfl

theorem verdict_replay (o : b.Open f) (g : Grammar) (events : List Event) :
    verdict (replay g receiver events b) = Tally.run g b.depth events := by
  induction events generalizing b f with
  | nil => rfl
  | cons e rest ih =>
    cases stepped : Tally.step g b.depth e with
    | running next =>
      obtain ⟨b', f', opened, rfl, -, same⟩ := o.replay_running stepped
      rw [same, Tally.run_running stepped, ih opened]
    | stopped halt =>
      rw [(o.replay_stopped stepped rest).1, Tally.run_stopped stepped]

theorem session_stopped (o : b.Open f) {halt : Except Failure Unit}
    (stops : Tally.step g b.depth e = .stopped halt) (rest : List Event) :
    (replay g receiver (e :: rest) b).2.session = b.session := by
  cases e with
  | shift token => cases stops
  | reduce rule =>
    rw [Tally.step] at stops
    split at stops
    · next missing => simp only [replay, Grammar.production, missing]
    · next p found =>
      have known : g.production rule = .ok p := by rw [Grammar.production, found]
      split at stops
      · next short => rw [o.replay_underflow known short]
      · cases stops
  | accept =>
    have called : replay g receiver (.accept :: rest) b = b.accept := rfl
    rw [called]
    rcases o.accept_cases with ⟨root, -, done⟩ | ⟨-, refused⟩
    · rw [done]
    · rw [refused]

theorem session_replay (o : b.Open f) (g : Grammar) (events : List Event) :
    (replay g receiver events b).2.session =
      { b.session with
        nextId := b.session.nextId + .ofNat (Tally.performed g b.depth events) } := by
  induction events generalizing b f with
  | nil => simp [replay, Tally.performed]
  | cons e rest ih =>
    rw [Tally.performed]
    cases stepped : Tally.step g b.depth e with
    | running next =>
      obtain ⟨b', f', opened, rfl, drawn, same⟩ := o.replay_running stepped
      rw [same, ih opened, drawn, Session.advance, UInt64.ofNat_add, UInt64.add_assoc,
        UInt64.add_comm (.ofNat _)]
      rfl
    | stopped halt =>
      rw [o.session_stopped stepped rest]
      simp

theorem replay_append (o : b.Open f) {events : List Event}
    (stopped : Tally.run g b.depth events ≠ .error .missingAccept) (later : List Event) :
    replay g receiver (events ++ later) b = replay g receiver events b := by
  induction events generalizing b f with
  | nil => exact absurd rfl stopped
  | cons e rest ih =>
    rw [List.cons_append]
    cases stepped : Tally.step g b.depth e with
    | running next =>
      obtain ⟨b', f', opened, rfl, -, same⟩ := o.replay_running stepped
      rw [Tally.run_running stepped] at stopped
      rw [same, same, ih opened stopped]
    | stopped halt =>
      rw [(o.replay_stopped stepped (rest ++ later)).2, (o.replay_stopped stepped rest).2]

end Open

end Builder

open Builder (receiver verdict)

/-- A replay with a fresh builder ends as the count from zero does, in a tree or in the very
failure. So it ends alike for all tokens and all sessions, and when the count has stopped, what
follows changes neither the tree nor the builder; that is so behind an accept in any case. -/
theorem replay_verdict (g : Grammar) (s : Session) (events : List Event) :
    verdict (replay g receiver events { session := s }) = Tally.run g 0 events ∧
    (∀ s' others, others.map Event.wordless = events.map Event.wordless →
      verdict (replay g receiver others { session := s' }) = Tally.run g 0 events) ∧
    (Tally.run g 0 events ≠ .error .missingAccept → ∀ later,
      replay g receiver (events ++ later) { session := s } =
        replay g receiver events { session := s }) ∧
    ∀ later, replay g receiver (events ++ .accept :: later) { session := s } =
      replay g receiver (events ++ [.accept]) { session := s } := by
  have fresh := Builder.open_fresh s
  refine ⟨fresh.verdict_replay g events, fun s' others alike => ?_,
    fun stopped later => fresh.replay_append stopped later, fun later => ?_⟩
  · have counted := (Builder.open_fresh s').verdict_replay g others
    rw [counted, ← Tally.run_wordless g _ others, alike, Tally.run_wordless]
    rfl
  · have ended := Tally.run_accept_ne_missingAccept g 0 events
    have cut := fresh.replay_append ended later
    rwa [List.append_assoc] at cut

theorem replay_verdict_underflow :
    let g : Grammar := { productions := #[⟨2, "triple", 3⟩] }
    let stop : List Event := [.shift ⟨0, "ID", "a", 1⟩, .shift ⟨0, "ID", "b", 1⟩, .reduce 0]
    let failed := replay g receiver stop { session := ⟨"in.php", 7⟩ }
    verdict failed = .error (.stackUnderflow "triple" 3 2) ∧
    replay g receiver (stop ++ [.reduce 5, .accept]) { session := ⟨"in.php", 7⟩ } = failed ∧
    verdict (replay g receiver
      [.shift ⟨8, "NUM", "1", 3⟩, .shift ⟨9, "+", "+", 4⟩, .reduce 0] { session := ⟨"x", 0⟩ }) =
        .error (.stackUnderflow "triple" 3 2) := by
  intro g stop failed
  obtain ⟨ends, alike, cut, -⟩ := replay_verdict g ⟨"in.php", 7⟩ stop
  have counted : Tally.run g 0 stop = .error (.stackUnderflow "triple" 3 2) := rfl
  rw [counted] at ends alike cut
  exact ⟨ends, cut (by simp) _, alike _ _ rfl⟩

end ParseTrace
