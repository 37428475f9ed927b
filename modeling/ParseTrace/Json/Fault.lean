/-!
The three ways in which a JSON text is refused.
-/

namespace ParseTrace.Json

inductive Fault where
  | ended
  | malformed
  /-- The text is JSON up to here, but its value does not fit what is read. -/
  | mismatch
  deriving DecidableEq

end ParseTrace.Json
