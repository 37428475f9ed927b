import ParseTrace.FileTree
import ParseTrace.Script.Load

/-!
The check of all scripts below a path: each is loaded and run for itself, though one
counter numbers the nodes of all. The report has a line for each script and a summary.
-/

namespace ParseTrace

structure CheckOutcome where
  path : String
  result : Except Failure Nat

namespace CheckOutcome

def passed (o : CheckOutcome) : Bool :=
  o.result.isOk

/-- Runs a loaded script; the next identifier also comes back from a failure. -/
def ofScript (path : String) (script : Except Failure Script) (nextId : UInt64) :
    CheckOutcome × UInt64 :=
  match script with
  | .error failure => (⟨path, .error failure⟩, nextId)
  | .ok s =>
    let (result, session) := s.run ⟨s.fileName, nextId⟩
    (⟨path, result.map fun t => t.nodes.size⟩, session.nextId)

def ofScripts : List (String × Except Failure Script) → UInt64 → List CheckOutcome × UInt64
  | [], nextId => ([], nextId)
  | (path, script) :: rest, nextId =>
    let (o, nextId) := ofScript path script nextId
    let (outcomes, nextId) := ofScripts rest nextId
    (o :: outcomes, nextId)

end CheckOutcome

namespace Check

def isScript (path : String) : Bool :=
  match Path.extension? path with
  | some extension => Script.extensions.contains extension.toLower
  | none => false

def scripts (words : Wording) (path : String) (t : FileTree) :
    List (String × Except Failure Script) :=
  ((t.walk path).filter fun (path, _) => isScript path).map fun (path, content) =>
    (path, Script.load words path content)

def outcomes (words : Wording) (path : String) (found : Except ReadFault FileTree) :
    List CheckOutcome :=
  match found with
  | .error _ => []
  | .ok t => (CheckOutcome.ofScripts (scripts words path t) 0).1

def coloured (colour word : String) : String :=
  "\x1b[0m\x1b[1m\x1b[" ++ colour ++ "m" ++ word ++ "\x1b[0m"

def line (colours : Bool) (o : CheckOutcome) : String :=
  match o.result with
  | .ok nodes =>
    (if colours then coloured "32" "PASS" else "PASS") ++ s!" {o.path} ({nodes} nodes)\n"
  | .error failure =>
    (if colours then coloured "31" "FAIL" else "FAIL") ++ s!" {o.path}: {failure.message}\n"

def summary (outcomes : List CheckOutcome) : String :=
  let passed := outcomes.countP CheckOutcome.passed
  s!"\n{outcomes.length} scripts, {passed} passed, {outcomes.length - passed} failed\n"

def report (colours : Bool) (outcomes : List CheckOutcome) : String :=
  String.join (outcomes.map (line colours)) ++ summary outcomes

end Check

end ParseTrace
