import ParseTrace.Replay

/-!
Trace scripts: a grammar and the recorded decisions of an automaton. Running a script
checks every declaration and every shifted symbol before the first decision is
re-enacted.
-/

namespace ParseTrace

structure RuleDecl where
  lhs : String
  length : UInt64
  deriving DecidableEq

/-- A recorded decision. Tokens name their symbols. -/
inductive ScriptEvent where
  | shift (symbol lexeme : String) (line : Int32)
  | reduce (rule : UInt64)
  | accept
  deriving DecidableEq

structure Script where
  file : Option String := none
  symbols : List Symbol := []
  rules : List RuleDecl := []
  events : List ScriptEvent := []
  deriving DecidableEq

namespace Grammar

def registerAll : List Symbol → Grammar → Except Failure Grammar
  | [], g => .ok g
  | s :: rest, g =>
    match g.register s with
    | (.ok _, g) => registerAll rest g
    | (.error failure, _) => .error failure

def addRules : List RuleDecl → Grammar → Except Failure Grammar
  | [], g => .ok g
  | r :: rest, g =>
    match g.addRule r.lhs r.length.toNat with
    | (.ok _, g) => addRules rest g
    | (.error failure, _) => .error failure

def declare (symbols : List Symbol) (rules : List RuleDecl) : Except Failure Grammar :=
  match registerAll symbols {} with
  | .ok g => addRules rules g
  | .error failure => .error failure

end Grammar

def ScriptEvent.resolve (g : Grammar) : ScriptEvent → Except Failure Event
  | .shift symbol lexeme line =>
    match g.table.expect symbol .terminal with
    | .ok s => .ok (.shift ⟨s.index, s.name, lexeme, line⟩)
    | .error failure => .error failure
  | .reduce rule => .ok (.reduce rule.toNat)
  | .accept => .ok .accept

namespace Script

def unnamedFile : String := "<unknown>"

def fileName (s : Script) : String :=
  s.file.getD unnamedFile

def grammar (s : Script) : Except Failure Grammar :=
  Grammar.declare s.symbols s.rules

def resolveAll (g : Grammar) : List ScriptEvent → Except Failure (List Event)
  | [] => .ok []
  | e :: rest =>
    match e.resolve g with
    | .error failure => .error failure
    | .ok event =>
      match resolveAll g rest with
      | .error failure => .error failure
      | .ok events => .ok (event :: events)

/-- Replays the script with a fresh builder. Nothing is built, and no identifier is
used, unless all declarations and events are sound. -/
def run (s : Script) (session : Session) : Except Failure Tree × Session :=
  match s.grammar with
  | .error failure => (.error failure, session)
  | .ok g =>
    match resolveAll g s.events with
    | .error failure => (.error failure, session)
    | .ok events =>
      let (result, b) := replay g Builder.receiver events { session }
      (result, b.session)

end Script

end ParseTrace
