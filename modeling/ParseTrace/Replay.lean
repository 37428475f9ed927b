import ParseTrace.Builder

/-!
Recorded decisions, re-enacted. The first accept ends the replay, and what was
recorded after it is not looked at.
-/

namespace ParseTrace

inductive Event where
  | shift (token : Token)
  | reduce (rule : Nat)
  | accept
  deriving DecidableEq

def replay {σ α : Type} (g : Grammar) (r : Receiver σ α) :
    List Event → σ → Except Failure α × σ
  | [], s => (.error .missingAccept, s)
  | .shift token :: rest, s =>
    match r.shift token s with
    | (.ok (), s) => replay g r rest s
    | (.error failure, s) => (.error failure, s)
  | .reduce rule :: rest, s =>
    match g.production rule with
    | .error failure => (.error failure, s)
    | .ok p =>
      match r.reduce p s with
      | (.ok (), s) => replay g r rest s
      | (.error failure, s) => (.error failure, s)
  | .accept :: _, s => r.accept s

end ParseTrace
