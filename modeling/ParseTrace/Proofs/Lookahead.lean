import ParseTrace.Proofs.Yield

/-!
How far a run looks ahead. A step reads one token of its input at most, and only a shift brings
the next one up; so two inputs that begin alike are told apart by no decision, no failure and no
call before the tokens that they share are shifted.
-/

namespace ParseTrace

namespace Call

def upToShift : Nat → List Call → List Call
  | 0, _ => []
  | _ + 1, [] => []
  | k + 1, c :: rest => c :: upToShift (if c.token?.isSome then k else k + 1) rest

def shifts (calls : List Call) : Nat :=
  calls.countP (·.token?.isSome)

theorem shifts_cons_shift (token : Token) (calls : List Call) :
    shifts (.shift token :: calls) = shifts calls + 1 :=
  List.countP_cons_of_pos rfl

theorem shifts_cons_reduce (p : Production) (calls : List Call) :
    shifts (.reduce p :: calls) = shifts calls :=
  List.countP_cons_of_neg Bool.false_ne_true

end Call

namespace Run

variable {σ α : Type}

def calls (g : Grammar) (t : Table) (file : String) (r : Receiver σ α) (steps : Nat)
    (run : Run σ) : List Call :=
  (run.visited g t file r steps).filterMap (call? g t file)

variable (g : Grammar) (t : Table) (file : String) (r : Receiver σ α)

theorem calls_done {steps : Nat} {run : Run σ} {result : Except Failure α} {s : σ}
    (done : run.step g t file r = .done result s) :
    run.calls g t file r (steps + 1) = (run.call? g t file).toList := by
  rw [calls, visited, List.filterMap_cons, done]
  cases run.call? g t file <;> rfl

theorem calls_running {steps : Nat} {run next : Run σ}
    (running : run.step g t file r = .running next) :
    run.calls g t file r (steps + 1) =
      (run.call? g t file).toList ++ next.calls g t file r steps := by
  rw [calls, visited, List.filterMap_cons, running]
  cases run.call? g t file <;> rfl

theorem call?_behind (states : List Nat) (token : Token) (s : σ) (rest rest' : List Token) :
    call? g t file ⟨states, token :: rest, s⟩ = call? g t file ⟨states, token :: rest', s⟩ := rfl

inductive Looks (states : List Nat) (token : Token) (s : σ) : Prop
  | stops (result : Except Failure α) (s' : σ)
      (done : ∀ rest, step g t file r ⟨states, token :: rest, s⟩ = .done result s')
  | takes (top : Nat) (s' : σ)
      (running : ∀ rest, step g t file r ⟨states, token :: rest, s⟩ =
        .running ⟨top :: states, rest, s'⟩)
      (called : ∀ rest, call? g t file ⟨states, token :: rest, s⟩ = some (.shift token))
  | keeps (states' : List Nat) (s' : σ) (p : Production)
      (running : ∀ rest, step g t file r ⟨states, token :: rest, s⟩ =
        .running ⟨states', token :: rest, s'⟩)
      (called : ∀ rest, call? g t file ⟨states, token :: rest, s⟩ = some (.reduce p))

theorem looks (states : List Nat) (token : Token) (s : σ) : Looks g t file r states token s := by
  cases action : t.action (states.headD 0) token.symbol with
  | shift top =>
    have stepped : ∀ rest, step g t file r ⟨states, token :: rest, s⟩ =
        shift file r top ⟨states, token :: rest, s⟩ := fun rest => by
      simp only [step, Run.top, lookahead, action]
    rcases taken : r.shift token s with ⟨_ | _, s'⟩ <;> simp only [shift, taken] at stepped
    · exact .stops _ s' stepped
    · refine .takes top s' stepped fun rest => ?_
      simp only [call?, Run.top, lookahead, action]
  | reduce rule =>
    have stepped : ∀ rest, step g t file r ⟨states, token :: rest, s⟩ =
        reduce g t r rule ⟨states, token :: rest, s⟩ := fun rest => by
      simp only [step, Run.top, lookahead, action]
    simp only [reduce] at stepped
    cases known : g.production rule with
    | error failure =>
      simp only [known] at stepped
      exact .stops _ s stepped
    | ok p =>
      simp only [known] at stepped
      split at stepped
      · exact .stops _ s stepped
      · next fits =>
        have reduces : ∀ rest, call? g t file ⟨states, token :: rest, s⟩ = some (.reduce p) := by
          intro rest
          simp only [call?, Run.top, lookahead, action, known, if_neg fits]
        rcases joined : r.reduce p s with ⟨_ | _, s'⟩ <;> simp only [joined] at stepped
        · exact .stops _ s' stepped
        · cases goto : t.goto ((states.drop p.length).headD 0) p.lhs with
          | none =>
            simp only [goto] at stepped
            exact .stops _ s' stepped
          | some top =>
            simp only [goto] at stepped
            exact .keeps _ s' p stepped reduces
  | accept =>
    refine .stops (r.accept s).1 (r.accept s).2 fun rest => ?_
    simp only [step, Run.top, lookahead, action]
  | error =>
    have stepped : ∀ rest, step g t file r ⟨states, token :: rest, s⟩ =
        abandon r (unexpected file ⟨states, token :: rest, s⟩) ⟨states, token :: rest, s⟩ :=
      fun rest => by simp only [step, Run.top, lookahead, action]
    -- the failure names the token, not what stands behind it
    exact .stops (.error (unexpected file ⟨states, [token], s⟩))
      (r.error (unexpected file ⟨states, [token], s⟩) s) stepped

variable {g t file r} {states : List Nat} {s : σ}

/-- Two runs that face the same tokens call alike until the last of these is shifted. -/
theorem calls_facing (ahead rest rest' : List Token) (steps : Nat) :
    Call.upToShift ahead.length (calls g t file r steps ⟨states, ahead ++ rest, s⟩) =
      Call.upToShift ahead.length (calls g t file r steps ⟨states, ahead ++ rest', s⟩) := by
  induction steps generalizing ahead states s with
  | zero => rfl
  | succ steps ih =>
    cases ahead with
    | nil => rw [List.length_nil, Call.upToShift, Call.upToShift]
    | cons token ahead =>
      simp only [List.cons_append]
      cases looks g t file r states token s with
      | stops result s' done =>
        rw [calls_done g t file r (done _), calls_done g t file r (done _), call?_behind]
      | takes top s' running called =>
        rw [calls_running g t file r (running _), calls_running g t file r (running _), called,
          called]
        exact congrArg (Call.shift token :: ·) (ih ahead)
      | keeps states' s' p running called =>
        rw [calls_running g t file r (running _), calls_running g t file r (running _), called,
          called]
        exact congrArg (Call.reduce p :: ·) (ih (token :: ahead))

theorem follow_facing (ahead rest rest' : List Token) {steps : Nat}
    {outcome : Except Failure α × σ}
    (ended : follow g t file r steps ⟨states, ahead ++ rest, s⟩ = some outcome)
    (few : Call.shifts (calls g t file r steps ⟨states, ahead ++ rest, s⟩) < ahead.length) :
    follow g t file r steps ⟨states, ahead ++ rest', s⟩ = some outcome ∧
      calls g t file r steps ⟨states, ahead ++ rest', s⟩ =
        calls g t file r steps ⟨states, ahead ++ rest, s⟩ := by
  induction steps generalizing ahead states s with
  | zero => cases ended
  | succ steps ih =>
    cases ahead with
    | nil => exact absurd few (Nat.not_lt_zero _)
    | cons token ahead =>
      simp only [List.cons_append] at ended few ⊢
      cases looks g t file r states token s with
      | stops result s' done =>
        rw [calls_done g t file r (done _), calls_done g t file r (done _), call?_behind]
        rw [follow, done] at ended ⊢
        exact ⟨ended, rfl⟩
      | takes top s' running called =>
        simp only [calls_running g t file r (running _), called, Option.toList_some,
          List.cons_append, List.nil_append, Call.shifts_cons_shift, List.length_cons] at few ⊢
        rw [follow, running] at ended ⊢
        obtain ⟨same, alike⟩ := ih ahead ended (Nat.lt_of_succ_lt_succ few)
        exact ⟨same, congrArg (Call.shift token :: ·) alike⟩
      | keeps states' s' p running called =>
        simp only [calls_running g t file r (running _), called, Option.toList_some,
          List.cons_append, List.nil_append, Call.shifts_cons_reduce] at few ⊢
        rw [follow, running] at ended ⊢
        obtain ⟨same, alike⟩ := ih (token :: ahead) ended few
        exact ⟨same, congrArg (Call.reduce p :: ·) alike⟩

end Run

variable {σ α : Type}

theorem drive_noting_iff {steps : Nat} {g : Grammar} {t : Table} {file : String}
    {r : Receiver σ α} {tokens : List Token} {s s' : σ} {result : Except Failure α}
    {made : Array Call} :
    drive steps g t file (r.noting fun call _ => call) tokens (#[], s) =
        some (result, made, s') ↔
      drive steps g t file r tokens s = some (result, s') ∧
        made.toList = Run.calls g t file r steps ⟨[0], tokens, s⟩ := by
  rw [drive_noting, Option.map_eq_some_iff]
  simp only [Option.map_id', Prod.mk.injEq]
  constructor
  · rintro ⟨⟨_, _⟩, ended, rfl, rfl, rfl⟩
    exact ⟨ended, rfl⟩
  · rintro ⟨ended, noted⟩
    exact ⟨_, ended, rfl, Array.toList_inj.1 noted.symm, rfl⟩

/-- No decision, failure or call before the `k`-th shift hangs on a token behind the first `k`.
Within any number of steps runs over inputs that agree so far make the same calls, up to that
shift and with it; and a run that returns with fewer shifts returns like the other. -/
theorem drive_lookahead (g : Grammar) (t : Table) (file : String) (r : Receiver σ α) (s : σ)
    {tokens tokens' : List Token} {k : Nat} (enough : k ≤ tokens.length)
    (agree : tokens.take k = tokens'.take k) (steps : Nat) :
    Call.upToShift k (Run.calls g t file r steps ⟨[0], tokens, s⟩) =
      Call.upToShift k (Run.calls g t file r steps ⟨[0], tokens', s⟩) ∧
    ∀ (result : Except Failure α) (made : Array Call) (s' : σ),
      (drive steps g t file (r.noting fun call _ => call) tokens (#[], s) =
          some (result, made, s') →
        made.toList = Run.calls g t file r steps ⟨[0], tokens, s⟩) ∧
      (Call.shifts made.toList < k →
        (drive steps g t file (r.noting fun call _ => call) tokens (#[], s) =
            some (result, made, s') ↔
          drive steps g t file (r.noting fun call _ => call) tokens' (#[], s) =
            some (result, made, s'))) := by
  obtain ⟨ahead, rest, rest', rfl, rfl, rfl⟩ : ∃ ahead rest rest',
      tokens = ahead ++ rest ∧ tokens' = ahead ++ rest' ∧ k = ahead.length := by
    refine ⟨tokens.take k, tokens.drop k, tokens'.drop k, ?_, ?_, ?_⟩
    · exact (List.take_append_drop k tokens).symm
    · rw [agree, List.take_append_drop]
    · rw [List.length_take, Nat.min_eq_left enough]
  refine ⟨Run.calls_facing ahead rest rest' steps, fun result made s' => ⟨?_, fun few => ?_⟩⟩
  · exact fun ended => (drive_noting_iff.1 ended).2
  · rw [drive_noting_iff, drive_noting_iff]
    constructor
    · rintro ⟨ended, noted⟩
      rw [noted] at few ⊢
      obtain ⟨same, alike⟩ := Run.follow_facing ahead rest rest' ended few
      exact ⟨same, alike.symm⟩
    · rintro ⟨ended, noted⟩
      rw [noted] at few ⊢
      obtain ⟨same, alike⟩ := Run.follow_facing ahead rest' rest ended few
      exact ⟨same, alike.symm⟩

theorem drive_lookahead_second :
    let g : Grammar := { productions := #[⟨2, "E", 1⟩] }
    let t : Table :=
      { action := fun state symbol =>
          if state = 1 then .reduce 0 else if symbol = 1 then .error else .shift 1
        goto := fun _ _ => some 2
        endSymbol := 9 }
    let tokens : List Token := [⟨0, "ID", "a", 1⟩, ⟨1, "+", "+", 2⟩, ⟨0, "ID", "b", 3⟩]
    Call.upToShift 2 (Run.calls g t "in.php" Builder.receiver 3
        ⟨[0], tokens, { session := ⟨"in.php", 7⟩ }⟩) =
      [.shift ⟨0, "ID", "a", 1⟩, .reduce ⟨2, "E", 1⟩,
        .error (.unexpectedToken "in.php:2" "+")] ∧
    ∃ made builder,
      drive 3 g t "in.php" (Builder.receiver.noting fun call _ => call) tokens
          (#[], { session := ⟨"in.php", 7⟩ }) =
        some (.error (.unexpectedToken "in.php:2" "+"), made, builder) := by
  intro g t tokens
  have ended : drive 3 g t "in.php" (Builder.receiver.noting fun call _ => call)
      [⟨0, "ID", "a", 1⟩, ⟨1, "+", "+", 2⟩] (#[], { session := ⟨"in.php", 7⟩ }) =
        some (.error (.unexpectedToken "in.php:2" "+"), _, _) := rfl
  have agree : [⟨0, "ID", "a", 1⟩, ⟨1, "+", "+", 2⟩].take 2 = tokens.take 2 := rfl
  obtain ⟨calls, returns⟩ := drive_lookahead g t "in.php" Builder.receiver
    { session := ⟨"in.php", 7⟩ } (by decide) agree 3
  exact ⟨calls.symm.trans rfl, _, _, ((returns _ _ _).2 (by decide)).1 ended⟩

end ParseTrace
