import Std.Data.HashMap
import ParseTrace.Builder

/-!
A table-driven LR automaton that reports every decision to a receiver. The table may
come from anywhere, also from a broken generator, so a run need not end: `drive` goes
at most as many steps as it is given.
-/

namespace ParseTrace

inductive Action where
  | shift (next : Nat)
  | reduce (rule : Nat)
  | accept
  | error
  deriving DecidableEq

/-- State 0 is the start state. -/
structure Table where
  action : Nat → UInt32 → Action
  goto : Nat → UInt32 → Option Nat
  endSymbol : UInt32

/-- The table of these entries. Of two entries for one key the later counts; where
there is no entry, there is no action and no state to go to. -/
def Table.ofEntries (actions : List (Nat × UInt32 × Action)) (gotos : List (Nat × UInt32 × Nat))
    (endSymbol : UInt32) : Table :=
  let actions := actions.foldl (fun m (state, symbol, action) =>
    m.insert (state, symbol) action) (∅ : Std.HashMap (Nat × UInt32) Action)
  let gotos := gotos.foldl (fun m (state, symbol, target) =>
    m.insert (state, symbol) target) (∅ : Std.HashMap (Nat × UInt32) Nat)
  { action := fun state symbol => actions[(state, symbol)]?.getD .error
    goto := fun state symbol => gotos[(state, symbol)]?
    endSymbol }

/-- A run between two decisions: its states, newest first and the start state last, and
the tokens not yet shifted. -/
structure Run (σ : Type) where
  states : List Nat := [0]
  input : List Token
  receiver : σ

inductive Outcome (σ α : Type) where
  | running (run : Run σ)
  | done (result : Except Failure α) (receiver : σ)

namespace Run

def top {σ : Type} (run : Run σ) : Nat :=
  run.states.headD 0

def lookahead {σ : Type} (t : Table) (run : Run σ) : UInt32 :=
  match run.input with
  | token :: _ => token.symbol
  | [] => t.endSymbol

def unexpected {σ : Type} (file : String) (run : Run σ) : Failure :=
  match run.input with
  | token :: _ => .unexpectedToken s!"{file}:{token.line.toInt}" token.lexeme
  | [] => .unexpectedEnd file

def abandon {σ α : Type} (r : Receiver σ α) (failure : Failure) (run : Run σ) : Outcome σ α :=
  .done (.error failure) (r.error failure run.receiver)

def shift {σ α : Type} (file : String) (r : Receiver σ α) (next : Nat) (run : Run σ) :
    Outcome σ α :=
  match run.input with
  | [] => run.abandon r (.unexpectedEnd file)
  | token :: rest =>
    match r.shift token run.receiver with
    | (.error failure, s) => .done (.error failure) s
    | (.ok (), s) => .running ⟨next :: run.states, rest, s⟩

def reduce {σ α : Type} (g : Grammar) (t : Table) (r : Receiver σ α) (rule : Nat)
    (run : Run σ) : Outcome σ α :=
  match g.production rule with
  | .error failure => .done (.error failure) run.receiver
  | .ok p =>
    -- one state more than there are results: nothing was pushed for the start state
    if p.overdraws run.states.tail then
      .done (.error (.stackUnderflow p.lhsName p.length (run.states.length - 1))) run.receiver
    else
      match r.reduce p run.receiver with
      | (.error failure, s) => .done (.error failure) s
      | (.ok (), s) =>
        let states := run.states.drop p.length
        let top := states.headD 0
        match t.goto top p.lhs with
        | none => .done (.error (.missingGoto top p.lhs)) s
        | some next => .running ⟨next :: states, run.input, s⟩

def step {σ α : Type} (g : Grammar) (t : Table) (file : String) (r : Receiver σ α)
    (run : Run σ) : Outcome σ α :=
  match t.action run.top (run.lookahead t) with
  | .shift next => run.shift file r next
  | .reduce rule => run.reduce g t r rule
  | .accept =>
    let (result, s) := r.accept run.receiver
    .done result s
  | .error => run.abandon r (run.unexpected file)

/-- Follows a run to its end, or says `none` if that takes more steps. -/
def follow {σ α : Type} (g : Grammar) (t : Table) (file : String) (r : Receiver σ α) :
    Nat → Run σ → Option (Except Failure α × σ)
  | 0, _ => none
  | steps + 1, run =>
    match run.step g t file r with
    | .done result s => some (result, s)
    | .running run => follow g t file r steps run

end Run

def drive {σ α : Type} (steps : Nat) (g : Grammar) (t : Table) (file : String)
    (r : Receiver σ α) (tokens : List Token) (s : σ) : Option (Except Failure α × σ) :=
  Run.follow g t file r steps { input := tokens, receiver := s }

def parseTree (steps : Nat) (g : Grammar) (t : Table) (session : Session)
    (tokens : List Token) : Option (Except Failure Tree × Builder) :=
  drive steps g t session.fileName Builder.receiver tokens { session }

end ParseTrace
