import Mathlib
import ParseTrace.Automaton
import ParseTrace.Replay

/-!
What a run of the automaton tells its receiver. A step calls it once at most, and a step
that reports no decision ends the run; so the runs that are passed on the way, taken in
order, give all calls with the states that they found.
-/

namespace ParseTrace

def Event.call? (g : Grammar) : Event → Option Call
  | .shift token => some (.shift token)
  | .reduce rule =>
    match g.production rule with
    | .ok p => some (.reduce p)
    | .error _ => none
  | .accept => some .accept

def Call.isError : Call → Bool
  | .error _ => true
  | .shift _ | .reduce _ | .accept => false

namespace Receiver

variable {σ α β : Type} (r : Receiver σ α) (note : Call → σ → β) (notes : Array β) (s : σ)

theorem noting_shift (token : Token) :
    (r.noting note).shift token (notes, s) =
      ((r.shift token s).1, notes.push (note (.shift token) s), (r.shift token s).2) := rfl

theorem noting_reduce (p : Production) :
    (r.noting note).reduce p (notes, s) =
      ((r.reduce p s).1, notes.push (note (.reduce p) s), (r.reduce p s).2) := rfl

theorem noting_accept :
    (r.noting note).accept (notes, s) =
      ((r.accept s).1, notes.push (note .accept s), (r.accept s).2) := rfl

theorem noting_error (failure : Failure) :
    (r.noting note).error failure (notes, s) =
      (notes.push (note (.error failure) s), r.error failure s) := rfl

end Receiver

namespace Run

variable {σ α β : Type}

def call? (g : Grammar) (t : Table) (file : String) (run : Run σ) : Option Call :=
  match t.action run.top (run.lookahead t) with
  | .shift _ =>
    match run.input with
    | token :: _ => some (.shift token)
    | [] => some (.error (.unexpectedEnd file))
  | .reduce rule =>
    match g.production rule with
    | .ok p => if p.overdraws run.states.tail then none else some (.reduce p)
    | .error _ => none
  | .accept => some .accept
  | .error => some (.error (run.unexpected file))

def event? (g : Grammar) (t : Table) (run : Run σ) : Option Event :=
  match t.action run.top (run.lookahead t) with
  | .shift _ => run.input.head?.map .shift
  | .reduce rule =>
    match g.production rule with
    | .ok p => if p.overdraws run.states.tail then none else some (.reduce rule)
    | .error _ => none
  | .accept => some .accept
  | .error => none

/-- The runs that are passed within so many steps, from this one on. -/
def visited (g : Grammar) (t : Table) (file : String) (r : Receiver σ α) :
    Nat → Run σ → List (Run σ)
  | 0, _ => []
  | steps + 1, run =>
    run :: match run.step g t file r with
      | .running next => visited g t file r steps next
      | .done _ _ => []

def record (g : Grammar) (t : Table) (file : String) (r : Receiver σ α) (steps : Nat)
    (run : Run σ) : List Event :=
  (run.visited g t file r steps).filterMap (event? g t)

theorem overdraws_tail_iff (p : Production) (run : Run σ) :
    p.overdraws run.states.tail = true ↔ run.states.length - 1 < p.length := by
  rw [Production.overdraws_iff, List.length_tail]

theorem enough_of_call? {g : Grammar} {t : Table} {file : String} {run : Run σ}
    {p : Production} (called : run.call? g t file = some (.reduce p)) :
    p.length ≤ run.states.length - 1 := by
  rw [call?] at called
  split at called
  · split at called <;> cases called
  · split at called
    · next q known =>
      split at called
      · cases called
      · next fits =>
        cases called
        exact Nat.le_of_not_lt (mt (overdraws_tail_iff p run).2 fits)
    · cases called
  · cases called
  · cases called

inductive Decides (g : Grammar) (t : Table) (file : String) (r : Receiver σ α)
    (run : Run σ) : Option Event → Outcome σ α → Prop
  | reject (action : t.action run.top (run.lookahead t) = .error) :
      Decides g t file r run none (run.abandon r (run.unexpected file))
  | exhausted {next : Nat} (action : t.action run.top (run.lookahead t) = .shift next)
      (input : run.input = []) :
      Decides g t file r run none (run.abandon r (.unexpectedEnd file))
  | unknown {rule : Nat} {failure : Failure}
      (action : t.action run.top (run.lookahead t) = .reduce rule)
      (unknown : g.production rule = .error failure) :
      Decides g t file r run none (.done (.error failure) run.receiver)
  | underflow {rule : Nat} {p : Production}
      (action : t.action run.top (run.lookahead t) = .reduce rule)
      (known : g.production rule = .ok p) (short : run.states.length - 1 < p.length) :
      Decides g t file r run none
        (.done (.error (.stackUnderflow p.lhsName p.length (run.states.length - 1)))
          run.receiver)
  | shift {next : Nat} {token : Token} {rest : List Token} {s : σ}
      (action : t.action run.top (run.lookahead t) = .shift next)
      (input : run.input = token :: rest) (called : r.shift token run.receiver = (.ok (), s)) :
      Decides g t file r run (some (.shift token)) (.running ⟨next :: run.states, rest, s⟩)
  | shiftRefused {next : Nat} {token : Token} {rest : List Token} {failure : Failure} {s : σ}
      (action : t.action run.top (run.lookahead t) = .shift next)
      (input : run.input = token :: rest)
      (called : r.shift token run.receiver = (.error failure, s)) :
      Decides g t file r run (some (.shift token)) (.done (.error failure) s)
  | reduce {rule next : Nat} {p : Production} {s : σ}
      (action : t.action run.top (run.lookahead t) = .reduce rule)
      (known : g.production rule = .ok p) (enough : p.length ≤ run.states.length - 1)
      (called : r.reduce p run.receiver = (.ok (), s))
      (goto : t.goto ((run.states.drop p.length).headD 0) p.lhs = some next) :
      Decides g t file r run (some (.reduce rule))
        (.running ⟨next :: run.states.drop p.length, run.input, s⟩)
  | noGoto {rule : Nat} {p : Production} {s : σ}
      (action : t.action run.top (run.lookahead t) = .reduce rule)
      (known : g.production rule = .ok p) (enough : p.length ≤ run.states.length - 1)
      (called : r.reduce p run.receiver = (.ok (), s))
      (goto : t.goto ((run.states.drop p.length).headD 0) p.lhs = none) :
      Decides g t file r run (some (.reduce rule))
        (.done (.error (.missingGoto ((run.states.drop p.length).headD 0) p.lhs)) s)
  | reduceRefused {rule : Nat} {p : Production} {failure : Failure} {s : σ}
      (action : t.action run.top (run.lookahead t) = .reduce rule)
      (known : g.production rule = .ok p) (enough : p.length ≤ run.states.length - 1)
      (called : r.reduce p run.receiver = (.error failure, s)) :
      Decides g t file r run (some (.reduce rule)) (.done (.error failure) s)
  | accept (action : t.action run.top (run.lookahead t) = .accept) :
      Decides g t file r run (some .accept)
        (.done (r.accept run.receiver).1 (r.accept run.receiver).2)

theorem step_decides (g : Grammar) (t : Table) (file : String) (r : Receiver σ α)
    (run : Run σ) : Decides g t file r run (run.event? g t) (run.step g t file r) := by
  rw [event?, step]
  cases action : t.action run.top (run.lookahead t) with
  | shift next =>
    simp only
    rw [Run.shift]
    cases input : run.input with
    | nil => exact .exhausted action input
    | cons token rest =>
      simp only
      split
      · next failure s called => exact .shiftRefused action input called
      · next s called => exact .shift action input called
  | reduce rule =>
    simp only
    rw [Run.reduce]
    cases known : g.production rule with
    | error failure => exact .unknown action known
    | ok p =>
      simp only
      by_cases short : p.overdraws run.states.tail = true
      · rw [if_pos short, if_pos short]
        exact .underflow action known ((overdraws_tail_iff p run).1 short)
      · rw [if_neg short, if_neg short]
        have enough := Nat.le_of_not_lt (mt (overdraws_tail_iff p run).2 short)
        split
        · next failure s called => exact .reduceRefused action known enough called
        · next s called =>
          split
          · next goto => exact .noGoto action known enough called goto
          · next target goto => exact .reduce action known enough called goto
  | accept => exact .accept action
  | error => exact .reject action

theorem call?_filter (g : Grammar) (t : Table) (file : String) (run : Run σ) :
    ((run.call? g t file).filter (!·.isError)).map some =
      (run.event? g t).map (Event.call? g) := by
  rw [call?, event?]
  cases t.action run.top (run.lookahead t) with
  | shift next => cases run.input <;> rfl
  | reduce rule =>
    simp only
    cases known : g.production rule with
    | error failure => rfl
    | ok p =>
      simp only
      split
      · rfl
      · simp [Event.call?, known, Call.isError]
  | accept => rfl
  | error => rfl

theorem filter_calls (g : Grammar) (t : Table) (file : String) (runs : List (Run σ)) :
    ((runs.filterMap (call? g t file)).filter (!·.isError)).map some =
      (runs.filterMap (event? g t)).map (Event.call? g) := by
  rw [List.filter_filterMap, List.map_filterMap, List.map_filterMap]
  congr 1
  funext run
  exact call?_filter g t file run

def withNotes (notes : Array β) (run : Run σ) : Run (Array β × σ) :=
  ⟨run.states, run.input, notes, run.receiver⟩

theorem step_noting (g : Grammar) (t : Table) (file : String) (r : Receiver σ α)
    (note : Call → σ → β) (notes : Array β) (run : Run σ) :
    (run.withNotes notes).step g t file (r.noting note) =
      match run.step g t file r with
      | .running next => .running (next.withNotes
          (notes ++ ((run.call? g t file).map (note · run.receiver)).toList))
      | .done result s =>
        .done result (notes ++ ((run.call? g t file).map (note · run.receiver)).toList, s) := by
  have state : (run.withNotes notes).top = run.top := rfl
  have symbol : (run.withNotes notes).lookahead t = run.lookahead t := rfl
  rw [step, step, call?, state, symbol]
  cases t.action run.top (run.lookahead t) with
  | shift next =>
    simp only [Run.shift, withNotes]
    cases run.input with
    | nil => rfl
    | cons token rest =>
      simp only [Receiver.noting_shift]
      rcases r.shift token run.receiver with ⟨_ | _, s⟩ <;> simp
  | reduce rule =>
    simp only [Run.reduce, withNotes]
    cases g.production rule with
    | error failure => simp
    | ok p =>
      cases short : p.overdraws run.states.tail with
      | true => simp [short]
      | false =>
        simp only [short, Bool.false_eq_true, if_false, Receiver.noting_reduce]
        rcases r.reduce p run.receiver with ⟨_ | _, s⟩
        · simp
        · cases t.goto ((run.states.drop p.length).headD 0) p.lhs <;> simp
  | accept => simp [Receiver.noting_accept, withNotes]
  | error => simp [abandon, Receiver.noting_error, withNotes, unexpected]

/-- The notes of a run are its calls in order, each with the state that it found. -/
theorem follow_noting (g : Grammar) (t : Table) (file : String) (r : Receiver σ α)
    (note : Call → σ → β) (steps : Nat) (notes : Array β) (run : Run σ) :
    follow g t file (r.noting note) steps (run.withNotes notes) =
      (follow g t file r steps run).map fun (result, s) =>
        (result, notes ++ ((run.visited g t file r steps).filterMap fun run =>
          (run.call? g t file).map (note · run.receiver)), s) := by
  induction steps generalizing run notes with
  | zero => rfl
  | succ steps ih =>
    rw [follow, follow, step_noting, visited, List.filterMap_cons]
    cases run.step g t file r with
    | running next =>
      simp only
      rw [ih]
      cases (run.call? g t file).map (note · run.receiver) <;> simp
    | done result s =>
      simp only
      cases (run.call? g t file).map (note · run.receiver) <;> simp

end Run

theorem drive_noting {σ α β : Type} (steps : Nat) (g : Grammar) (t : Table) (file : String)
    (r : Receiver σ α) (note : Call → σ → β) (tokens : List Token) (s : σ) :
    drive steps g t file (r.noting note) tokens (#[], s) =
      (drive steps g t file r tokens s).map fun (result, s') =>
        (result, ((Run.visited g t file r steps ⟨[0], tokens, s⟩).filterMap fun run =>
          (run.call? g t file).map (note · run.receiver)).toArray, s') := by
  refine (Run.follow_noting g t file r note steps #[] ⟨[0], tokens, s⟩).trans ?_
  simp [drive]

end ParseTrace
