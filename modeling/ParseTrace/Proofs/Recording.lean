import ParseTrace.Proofs.Lockstep

/-!
A run and the replay of its decisions. Both make the same calls on a builder, though they
stop for different reasons: wherever a run breaks off before its accept, also within a
step, the replay merely comes to the end of its events.
-/

namespace ParseTrace

section Replay

variable {σ α : Type} {g : Grammar} {r : Receiver σ α} {s s' : σ}

theorem replay_shift {token : Token} (called : r.shift token s = (.ok (), s'))
    (rest : List Event) : replay g r (.shift token :: rest) s = replay g r rest s' := by
  rw [replay, called]

theorem replay_reduce {rule : Nat} {p : Production} (known : g.production rule = .ok p)
    (called : r.reduce p s = (.ok (), s')) (rest : List Event) :
    replay g r (.reduce rule :: rest) s = replay g r rest s' := by
  simp only [replay, known, called]

end Replay

/-- How a run over a builder compares with the replay of its events from the same state:
either both end in the same accept, or the run failed before and the replay finds none. -/
inductive Replayed (g : Grammar) (events : List Event) (b : Builder) :
    Except Failure Tree → Builder → Prop
  | accepted {result : Except Failure Tree} {b' : Builder} (accept : .accept ∈ events)
      (count : ∀ failure, result = .error failure → failure = .acceptCount b'.depth)
      (same : replay g Builder.receiver events b = (result, b')) :
      Replayed g events b result b'
  | brokenOff {failure : Failure} {b' : Builder} (pending : .accept ∉ events)
      (missing : replay g Builder.receiver events b = (.error .missingAccept, b')) :
      Replayed g events b (.error failure) b'

namespace Replayed

variable {g : Grammar} {b b' b'' : Builder} {result : Except Failure Tree}

theorem nil (failure : Failure) (b : Builder) : Replayed g [] b (.error failure) b :=
  .brokenOff List.not_mem_nil rfl

theorem accept {f : Forest Nat} (h : b.Open f) :
    Replayed g [.accept] b b.accept.1 b.accept.2 := by
  refine .accepted List.mem_cons_self ?_ rfl
  intro failure refused
  rcases h.accept_cases with ⟨root, -, done⟩ | ⟨-, count⟩
  · simp [done] at refused
  · rw [count] at refused ⊢
    simpa using refused.symm

theorem cons {e : Event} {rest : List Event} (h : Replayed g rest b' result b'')
    (first : replay g Builder.receiver (e :: rest) b = replay g Builder.receiver rest b')
    (other : e ≠ .accept) : Replayed g (e :: rest) b result b'' := by
  cases h with
  | accepted accept count same =>
    exact .accepted (List.mem_cons_of_mem _ accept) count (first.trans same)
  | brokenOff pending missing =>
    refine .brokenOff ?_ (first.trans missing)
    simp [other.symm, pending]

end Replayed

namespace Run

variable {g : Grammar} {t : Table} {file : String} {base : Nat} {run : Run Builder}

theorem record_succ {σ α : Type} (g : Grammar) (t : Table) (file : String)
    (r : Receiver σ α) (steps : Nat) (run : Run σ) :
    run.record g t file r (steps + 1) =
      (run.event? g t).toList ++ match run.step g t file r with
        | .running next => next.record g t file r steps
        | .done _ _ => [] := by
  rw [record, visited, List.filterMap_cons]
  cases run.step g t file r <;> cases run.event? g t <;> rfl

/-- By induction on the steps: an event is replayed by the call that the step made, which
the builder did not refuse; a step without an event is the last and makes no call that
changes the builder. -/
theorem InStep.replayed (h : run.InStep base) {steps : Nat} {result : Except Failure Tree}
    {b : Builder} (ended : run.follow g t file Builder.receiver steps = some (result, b)) :
    Replayed g (run.record g t file Builder.receiver steps) run.receiver result b := by
  induction steps generalizing run with
  | zero => cases ended
  | succ steps ih =>
    have kept : ∀ next, run.step g t file Builder.receiver = .running next →
        next.InStep base := fun next => h.step
    have decides := step_decides g t file Builder.receiver run
    rw [follow] at ended
    rw [record_succ]
    generalize run.event? g t = event at decides ⊢
    generalize run.step g t file Builder.receiver = outcome at decides ended kept ⊢
    cases decides with
    | reject _ =>
      cases ended
      exact .nil _ _
    | exhausted _ _ =>
      cases ended
      exact .nil _ _
    | unknown _ _ =>
      cases ended
      exact .nil _ _
    | underflow _ _ _ =>
      cases ended
      exact .nil _ _
    | shift _ _ called =>
      exact (ih (kept _ rfl) ended).cons (replay_shift called _) (by simp)
    | @shiftRefused _ token _ failure s _ _ called =>
      cases (congrArg Prod.fst called).symm.trans (h.shift_ok token)
    | reduce _ known _ called _ =>
      exact (ih (kept _ rfl) ended).cons (replay_reduce known called _) (by simp)
    | noGoto _ known _ called _ =>
      cases ended
      exact (Replayed.nil _ _).cons (replay_reduce known called _) (by simp)
    | reduceRefused _ known enough called =>
      cases (congrArg Prod.fst called).symm.trans (h.reduce_ok enough)
    | accept _ =>
      cases ended
      obtain ⟨f, opened⟩ := h.opened
      exact .accept opened

end Run

/-- The decisions of a run that ends, replayed on a builder that begins like the run's, make
the calls that the run made. So they end in the same tree; or, if the run failed, in the
same refusal of its accept, and else without one. The builders end alike in any case. -/
theorem drive_replay {steps : Nat} {g : Grammar} {t : Table} {file : String}
    {tokens : List Token} {s : Session} {result : Except Failure Tree} {b : Builder}
    {events : List Event}
    (recorded : Run.record g t file Builder.receiver steps ⟨[0], tokens, { session := s }⟩ = events)
    (ended : drive steps g t file Builder.receiver tokens { session := s } = some (result, b)) :
    (∃ calls : Array Call,
      drive steps g t file (Builder.receiver.noting fun call _ => call) tokens
          (#[], { session := s }) = some (result, calls, b) ∧
        (calls.toList.filter (!·.isError)).map some = events.map (Event.call? g)) ∧
    (∀ tree, result = .ok tree →
      replay g Builder.receiver events { session := s } = (.ok tree, b)) ∧
    ∀ failure, result = .error failure →
      (.accept ∈ events ∧ failure = .acceptCount b.depth ∧
        replay g Builder.receiver events { session := s } = (.error (.acceptCount b.depth), b)) ∨
      (.accept ∉ events ∧
        replay g Builder.receiver events { session := s } = (.error .missingAccept, b)) := by
  subst recorded
  refine ⟨⟨((Run.visited g t file Builder.receiver steps
    ⟨[0], tokens, { session := s }⟩).filterMap (Run.call? g t file)).toArray, ?_, ?_⟩, ?_⟩
  · rw [drive_noting, ended]
    simp
  · exact Run.filter_calls g t file _
  · have compared := (Run.InStep.start (Builder.open_fresh s) tokens).replayed ended
    cases compared with
    | accepted accept count same =>
      refine ⟨fun tree made => by rw [← made]; exact same, fun failure failed => .inl ?_⟩
      obtain rfl := count failure failed
      exact ⟨accept, rfl, by rw [← failed]; exact same⟩
    | brokenOff pending missing => exact ⟨nofun, fun _ _ => .inr ⟨pending, missing⟩⟩

theorem drive_replay_missing_goto :
    (∃ tree b,
      drive 3 { productions := #[⟨2, "E", 1⟩] }
        ⟨fun state _ => if state = 0 then .shift 1 else if state = 1 then .reduce 0 else .accept,
          fun _ _ => some 2, 9⟩
        "in.php" Builder.receiver [⟨0, "ID", "a", 1⟩] { session := ⟨"in.php", 7⟩ } =
          some (.ok tree, b) ∧
      replay { productions := #[⟨2, "E", 1⟩] } Builder.receiver
        [.shift ⟨0, "ID", "a", 1⟩, .reduce 0, .accept] { session := ⟨"in.php", 7⟩ } =
          (.ok tree, b)) ∧
    ∃ b : Builder,
      drive 2 { productions := #[⟨2, "E", 1⟩] }
        ⟨fun state _ => if state = 0 then .shift 1 else .reduce 0, fun _ _ => none, 9⟩
        "in.php" Builder.receiver [⟨0, "ID", "a", 1⟩] { session := ⟨"in.php", 7⟩ } =
          some (.error (.missingGoto 0 2), b) ∧
      b.tree.nodes.size = 2 ∧
      replay { productions := #[⟨2, "E", 1⟩] } Builder.receiver
        [.shift ⟨0, "ID", "a", 1⟩, .reduce 0] { session := ⟨"in.php", 7⟩ } =
          (.error .missingAccept, b) := by
  constructor
  · refine ⟨_, _, rfl, ?_⟩
    have recorded : Run.record { productions := #[⟨2, "E", 1⟩] }
        ⟨fun state _ => if state = 0 then .shift 1 else if state = 1 then .reduce 0 else .accept,
          fun _ _ => some 2, 9⟩
        "in.php" Builder.receiver 3 ⟨[0], [⟨0, "ID", "a", 1⟩], { session := ⟨"in.php", 7⟩ }⟩ =
          [.shift ⟨0, "ID", "a", 1⟩, .reduce 0, .accept] := rfl
    exact (drive_replay recorded rfl).2.1 _ rfl
  · refine ⟨_, rfl, rfl, ?_⟩
    have recorded : Run.record { productions := #[⟨2, "E", 1⟩] }
        ⟨fun state _ => if state = 0 then .shift 1 else .reduce 0, fun _ _ => none, 9⟩
        "in.php" Builder.receiver 2 ⟨[0], [⟨0, "ID", "a", 1⟩], { session := ⟨"in.php", 7⟩ }⟩ =
          [.shift ⟨0, "ID", "a", 1⟩, .reduce 0] := rfl
    rcases (drive_replay recorded rfl).2.2 _ rfl with ⟨accept, -⟩ | ⟨-, same⟩
    · simp at accept
    · exact same

end ParseTrace
