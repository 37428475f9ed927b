import ParseTrace.Proofs.Yield

/-!
Where a run finds an error in what it reads. It says so once, in its last call and in its
result, and it names the first token that was not shifted or else the end of the file. Nothing
else that ends a run is reported, and no other failure has that form.
-/

namespace ParseTrace

def Failure.IsSyntaxError (failure : Failure) : Prop :=
  (∃ location found, failure = .unexpectedToken location found) ∨
    ∃ file, failure = .unexpectedEnd file

def Call.GoesOn (c : Call) : Prop :=
  (∃ token, c = .shift token) ∨ ∃ p, c = .reduce p

namespace Run

section Path

variable {σ α : Type} {g : Grammar} {t : Table} {file : String} {r : Receiver σ α}
  {run : Run σ}

theorem isSyntaxError_unexpected (file : String) (run : Run σ) :
    (run.unexpected file).IsSyntaxError := by
  rw [unexpected]
  cases run.input with
  | nil => exact .inr ⟨file, rfl⟩
  | cons token rest => exact .inl ⟨_, _, rfl⟩

theorem exists_call_of_running {next : Run σ} (running : run.step g t file r = .running next) :
    ∃ c, run.call? g t file = some c ∧ c.GoesOn := by
  have decides := step_decides g t file r run
  rw [running] at decides
  generalize run.event? g t = event at decides
  cases decides with
  | @shift top token rest s action input _ =>
    refine ⟨.shift token, ?_, .inl ⟨token, rfl⟩⟩
    simp only [call?, action, input]
  | @reduce rule top p s action known enough _ _ =>
    have fits : ¬ p.overdraws run.states.tail = true := by
      rw [overdraws_tail_iff]
      exact Nat.not_lt.2 enough
    refine ⟨.reduce p, ?_, .inr ⟨p, rfl⟩⟩
    simp only [call?, action, known, if_neg fits]

/-- Of the runs that are passed until one ends all but the last call for shifts and reduces.
The tokens that these take off are those that the last one no longer has. -/
theorem exists_last {steps : Nat} {result : Except Failure α} {s : σ}
    (ended : run.follow g t file r steps = some (result, s)) :
    ∃ before last, (run.visited g t file r steps).getLast? = some last ∧
      (run.visited g t file r steps).filterMap (call? g t file) =
        before ++ (last.call? g t file).toList ∧
      last.step g t file r = .done result s ∧ (∀ c ∈ before, c.GoesOn) ∧
      before.filterMap Call.token? ++ last.input = run.input := by
  induction steps generalizing run with
  | zero => cases ended
  | succ steps ih =>
    rw [follow] at ended
    rw [visited]
    cases outcome : run.step g t file r with
    | done result' s' =>
      rw [outcome] at ended
      cases ended
      refine ⟨[], run, rfl, ?_, outcome, List.forall_mem_nil _, rfl⟩
      cases called : run.call? g t file <;> simp [called]
    | running next =>
      rw [outcome] at ended
      obtain ⟨before, last, ends, calls, done, goOn, input⟩ := ih ended
      obtain ⟨c, called, goesOn⟩ := exists_call_of_running outcome
      have taken := (step_decides g t file r run).input.2 next outcome
      rw [← call?_bind_token? g t file, called, Option.bind_some] at taken
      refine ⟨c :: before, last, ?_, ?_, done, List.forall_mem_cons.2 ⟨goesOn, goOn⟩, ?_⟩
      · rw [List.getLast?_cons]
        exact congrArg (fun found => some (found.getD run)) ends
      · rw [List.filterMap_cons_some called]
        exact congrArg (c :: ·) calls
      · rw [List.filterMap_cons, ← taken, ← input]
        cases c.token? <;> rfl

theorem unexpected_behind (file : String) {tokens taken : List Token}
    (input : taken ++ run.input = tokens)
    (action : t.action run.top (run.lookahead t) = .error ∨
      run.input = [] ∧ ∃ next, t.action run.top (run.lookahead t) = .shift next) :
    (∀ token, tokens[taken.length]? = some token →
      run.unexpected file = .unexpectedToken s!"{file}:{token.line.toInt}" token.lexeme ∧
      t.action run.top token.symbol = .error) ∧
    (taken.length = tokens.length →
      run.unexpected file = .unexpectedEnd file ∧
      (t.action run.top t.endSymbol = .error ∨
        ∃ next, t.action run.top t.endSymbol = .shift next)) := by
  subst input
  rw [unexpected]
  rw [lookahead] at action
  cases left : run.input with
  | nil =>
    rw [left] at action
    refine ⟨fun token found => ?_, fun _ => ⟨rfl, action.imp_right And.right⟩⟩
    simp at found
  | cons first rest =>
    rw [left] at action
    refine ⟨fun token found => ?_, fun all => ?_⟩
    · rw [List.getElem?_append_right (Nat.le_refl _), Nat.sub_self] at found
      obtain rfl : first = token := Option.some.inj found
      exact ⟨rfl, action.resolve_right (by simp)⟩
    · simp at all

end Path

section Last

variable {g : Grammar} {t : Table} {file : String} {base : Nat} {run : Run Builder}
  {result : Except Failure Tree} {b : Builder}

theorem InStep.done_cases (h : run.InStep base)
    (done : run.step g t file Builder.receiver = .done result b) :
    (run.call? g t file = some (.error (run.unexpected file)) ∧
      result = .error (run.unexpected file) ∧
      (t.action run.top (run.lookahead t) = .error ∨
        run.input = [] ∧ ∃ next, t.action run.top (run.lookahead t) = .shift next)) ∨
    (∀ failure, run.call? g t file ≠ some (.error failure)) ∧
      ∀ failure, result = .error failure → ¬ failure.IsSyntaxError := by
  have decides := step_decides g t file Builder.receiver run
  rw [done] at decides
  generalize run.event? g t = event at decides
  cases decides with
  | reject action => exact .inl ⟨by simp only [call?, action], rfl, .inl action⟩
  | @exhausted next action input =>
    have blamed : run.unexpected file = .unexpectedEnd file := by rw [unexpected, input]
    rw [blamed]
    exact .inl ⟨by simp only [call?, action, input], rfl, .inr ⟨input, next, action⟩⟩
  | unknown action unknown =>
    refine .inr ⟨by simp [call?, action, unknown], ?_⟩
    rintro failure ⟨⟩
    rw [Grammar.production] at unknown
    split at unknown
    · cases unknown
    · cases unknown
      simp [Failure.IsSyntaxError]
  | underflow action known short =>
    have short' := (overdraws_tail_iff _ run).2 short
    refine .inr ⟨by simp [call?, action, known, short'], ?_⟩
    rintro failure ⟨⟩
    simp [Failure.IsSyntaxError]
  | @shiftRefused next token rest failure s action input called =>
    cases (congrArg Prod.fst called).symm.trans (h.shift_ok token)
  | noGoto action known enough called goto =>
    have fits := mt (overdraws_tail_iff _ run).1 (Nat.not_lt.2 enough)
    refine .inr ⟨by simp [call?, action, known, fits], ?_⟩
    rintro failure ⟨⟩
    simp [Failure.IsSyntaxError]
  | reduceRefused action known enough called =>
    cases (congrArg Prod.fst called).symm.trans (h.reduce_ok enough)
  | accept action =>
    refine .inr ⟨by simp [call?, action], fun failure refused => ?_⟩
    obtain ⟨f, opened⟩ := h.opened
    have called : Builder.receiver.accept run.receiver = run.receiver.accept := rfl
    rw [called] at refused
    rcases opened.accept_cases with ⟨root, -, done⟩ | ⟨-, count⟩
    · rw [done] at refused
      cases refused
    · rw [count] at refused
      cases refused
      simp [Failure.IsSyntaxError]

end Last

end Run

/-- Until it returns, a run over a fresh builder reports an error exactly if its result is a
syntax error. It reports it once, in its last call and as it stands in the result, and an accept
was not called for. The error is located at the first token that was not shifted, on which the
table has no action in the last state, or, if all were shifted, at the end of the file, where
the table has no action either or asks for one token more. -/
theorem drive_syntax_error {g : Grammar} {t : Table} {file : String} {tokens : List Token}
    {s : Session} {steps : Nat} {result : Except Failure Tree} {calls : Array Call} {b : Builder}
    (returned : drive steps g t file (Builder.receiver.noting fun call _ => call) tokens
      (#[], { session := s }) = some (result, calls, b)) :
    ((∃ failure, .error failure ∈ calls) ↔
      ∃ failure, result = .error failure ∧ failure.IsSyntaxError) ∧
    ∀ failure, result = .error failure → failure.IsSyntaxError →
      ∃ before last k, calls.toList = before ++ [.error failure] ∧ .accept ∉ before ∧
        (∀ failure', .error failure' ∉ before) ∧
        (Run.visited g t file Builder.receiver steps
          ⟨[0], tokens, { session := s }⟩).getLast? = some last ∧
        before.filterMap Call.token? = tokens.take k ∧ k ≤ tokens.length ∧
        (∀ token, tokens[k]? = some token →
          failure = .unexpectedToken s!"{file}:{token.line.toInt}" token.lexeme ∧
          t.action last.top token.symbol = .error) ∧
        (k = tokens.length →
          failure = .unexpectedEnd file ∧
          (t.action last.top t.endSymbol = .error ∨
            ∃ next, t.action last.top t.endSymbol = .shift next)) := by
  rw [drive_noting] at returned
  obtain ⟨⟨result', b'⟩, ended, noted⟩ := Option.map_eq_some_iff.1 returned
  simp only [Option.map_id', Prod.mk.injEq] at noted
  obtain ⟨rfl, rfl, rfl⟩ := noted
  obtain ⟨before, last, ends, made, done, goOn, input⟩ := Run.exists_last ended
  have inStep : last.InStep 0 :=
    (Run.InStep.start (Builder.open_fresh s) tokens).visited steps last (List.mem_of_getLast? ends)
  have silent : ∀ failure, .error failure ∉ before := by
    intro failure reported
    rcases goOn _ reported with ⟨token, other⟩ | ⟨p, other⟩ <;> cases other
  have waiting : .accept ∉ before := by
    intro accepted
    rcases goOn _ accepted with ⟨token, other⟩ | ⟨p, other⟩ <;> cases other
  rw [made]
  rcases inStep.done_cases done with ⟨called, failed, action⟩ | ⟨quiet, sound⟩
  · obtain ⟨named, ended⟩ := Run.unexpected_behind file input action
    have blames : (last.unexpected file).IsSyntaxError := last.isSyntaxError_unexpected file
    refine ⟨iff_of_true ⟨last.unexpected file, by simp [called]⟩ ⟨_, failed, blames⟩, ?_⟩
    intro failure same _
    obtain rfl := Except.error.inj (failed.symm.trans same)
    refine ⟨before, last, (before.filterMap Call.token?).length, by rw [called]; rfl, waiting,
      silent, ends, ?_, ?_, named, ended⟩
    · exact (List.prefix_iff_eq_take.1 ⟨_, input⟩)
    · exact List.IsPrefix.length_le ⟨_, input⟩
  · refine ⟨iff_of_false ?_ ?_, fun failure failed blamed => absurd blamed (sound failure failed)⟩
    · rintro ⟨failure, reported⟩
      rcases List.mem_append.1 (List.mem_toArray.1 reported) with early | late
      · exact silent failure early
      · exact quiet failure (Option.mem_toList.1 late)
    · rintro ⟨failure, failed, blamed⟩
      exact sound failure failed blamed

theorem drive_syntax_error_second :
    let t : Table :=
      { action := fun state symbol =>
          if state = 1 ∧ symbol = 0 then .error else .shift (state + 1)
        goto := fun _ _ => none
        endSymbol := 9 }
    (∃ calls b,
      drive 2 {} t "in.php" (Builder.receiver.noting fun call _ => call)
        [⟨0, "ID", "a", 1⟩, ⟨0, "ID", "b", 2⟩] (#[], { session := ⟨"in.php", 7⟩ }) =
          some (.error (.unexpectedToken "in.php:2" "b"), calls, b) ∧
      ∃ failure, .error failure ∈ calls) ∧
    ∃ calls b,
      drive 2 {} t "in.php" (Builder.receiver.noting fun call _ => call)
        [⟨0, "ID", "a", 1⟩] (#[], { session := ⟨"in.php", 7⟩ }) =
          some (.error (.unexpectedEnd "in.php"), calls, b) ∧
      ∃ failure, .error failure ∈ calls := by
  intro t
  constructor
  · have ended : drive 2 {} t "in.php" (Builder.receiver.noting fun call _ => call)
        [⟨0, "ID", "a", 1⟩, ⟨0, "ID", "b", 2⟩] (#[], { session := ⟨"in.php", 7⟩ }) =
          some (.error (.unexpectedToken "in.php:2" "b"), _, _) := rfl
    exact ⟨_, _, ended, (drive_syntax_error ended).1.2 ⟨_, rfl, .inl ⟨_, _, rfl⟩⟩⟩
  · have ended : drive 2 {} t "in.php" (Builder.receiver.noting fun call _ => call)
        [⟨0, "ID", "a", 1⟩] (#[], { session := ⟨"in.php", 7⟩ }) =
          some (.error (.unexpectedEnd "in.php"), _, _) := rfl
    exact ⟨_, _, ended, (drive_syntax_error ended).1.2 ⟨_, rfl, .inr ⟨_, rfl⟩⟩⟩

end ParseTrace
