import ParseTrace.Datum
import ParseTrace.Script

/-!
The names of a script's parts in structured texts, and events read from their fields.
-/

namespace ParseTrace

def SymbolKind.ofName? (s : String) : Option SymbolKind :=
  if s = "terminal" then some .terminal
  else if s = "nonterminal" then some .nonterminal
  else none

def Decision.ofName? (s : String) : Option Decision :=
  if s = "shift" then some .shift
  else if s = "reduce" then some .reduce
  else if s = "accept" then some .accept
  else none

/-- Fields other than those of the decision are not looked at. -/
def ScriptEvent.ofFields? (decision : Decision) (d : Datum) : Option ScriptEvent :=
  match decision with
  | .shift =>
    match d.fields? ["symbol", "lexeme", "line"] with
    | some [symbol, lexeme, line] =>
      match symbol.text?, lexeme.text?, line.toInt32? with
      | some symbol, some lexeme, some line => some (.shift symbol lexeme line)
      | _, _, _ => none
    | _ => none
  | .reduce =>
    match d.fields? ["rule"] with
    | some [rule] => rule.toUInt64?.map .reduce
    | _ => none
  | .accept =>
    match d with
    | .map _ | .seq [] => some .accept
    | _ => none

end ParseTrace
