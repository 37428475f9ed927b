import ParseTrace.Proofs.Script.FirstFault
import ParseTrace.Script.Load

/-!
What can go wrong with a script. Each reader has a failure of its own, and a run fails for its
declarations, for a decision that the builder refuses, or because the accept is missing. So a form
is unknown only to the choice of a reader.
-/

namespace ParseTrace

variable {failure : Failure}

theorem SymbolTable.Misnamed.category {known : List Symbol} {name : String} {kind : SymbolKind}
    (h : Misnamed known name kind failure) : failure.category = .grammar := by
  cases h <;> rfl

theorem ScriptEvent.Misnamed.category {symbols : List Symbol} {e : ScriptEvent}
    (h : e.Misnamed symbols failure) : failure.category = .grammar := by
  cases e with
  | shift symbol lexeme line => exact SymbolTable.Misnamed.category h
  | reduce rule => cases h
  | accept => cases h

theorem Script.FirstFault.category {script : Script} (h : script.FirstFault failure) :
    failure.category = .grammar := by
  cases h with
  | symbol _ _ clash => cases clash <;> rfl
  | rule _ _ wrong => exact wrong.category
  | event _ _ wrong => exact wrong.category

end ParseTrace
