import ParseTrace.Proofs.Automaton
import ParseTrace.Proofs.Calls

/-!
A run over a builder. The automaton puts a state on its stack where the builder puts a
result, and takes off as many of the one as of the other; so both stacks stay of one height,
counted from the start state and from what the builder held at first, and a builder never
refuses a call that the automaton has checked.
-/

namespace ParseTrace.Run

variable {g : Grammar} {t : Table} {file : String} {base : Nat} {run next : Run Builder}

/-- A run over an open builder whose stack keeps step with the states; the builder held
`base` results when the run began. -/
structure InStep (base : Nat) (run : Run Builder) : Prop where
  opened : ∃ f, run.receiver.Open f
  bottom : run.states.getLast? = some 0
  depth : run.receiver.depth = base + (run.states.length - 1)

namespace InStep

theorem start {b : Builder} {f : Forest Nat} (h : b.Open f) (tokens : List Token) :
    InStep b.depth { input := tokens, receiver := b } where
  opened := ⟨f, h⟩
  bottom := rfl
  depth := rfl

theorem length_pos (h : run.InStep base) : 0 < run.states.length := by
  rw [List.length_pos_iff]
  rintro empty
  have bottom := h.bottom
  rw [empty] at bottom
  cases bottom

theorem bottom_drop (h : run.InStep base) {n : Nat} (enough : n ≤ run.states.length - 1) :
    (run.states.drop n).getLast? = some 0 := by
  have positive := h.length_pos
  rw [List.getLast?_drop, if_neg (by omega), h.bottom]

theorem bottom_cons (h : run.InStep base) (top : Nat) {n : Nat}
    (enough : n ≤ run.states.length - 1) :
    (top :: run.states.drop n).getLast? = some 0 := by
  rw [List.getLast?_cons, h.bottom_drop enough]
  rfl

theorem shift_ok (h : run.InStep base) (token : Token) :
    (run.receiver.shift token).1 = .ok () := by
  obtain ⟨f, opened⟩ := h.opened
  rw [opened.shift_eq token]

theorem reduce_ok (h : run.InStep base) {p : Production}
    (enough : p.length ≤ run.states.length - 1) : (run.receiver.reduce p).1 = .ok () := by
  obtain ⟨f, opened⟩ := h.opened
  have depth := h.depth
  rw [opened.reduce_eq (by omega)]

theorem shift (h : run.InStep base) (token : Token) (top : Nat) (rest : List Token) :
    InStep base ⟨top :: run.states, rest, (run.receiver.shift token).2⟩ := by
  obtain ⟨f, opened⟩ := h.opened
  refine ⟨⟨_, opened.shift token⟩, h.bottom_cons top (Nat.zero_le _), ?_⟩
  have depth := h.depth
  have positive := h.length_pos
  rw [opened.shift_eq token]
  simp only [Builder.depth, List.length_cons] at depth ⊢
  omega

theorem reduce (h : run.InStep base) {p : Production}
    (enough : p.length ≤ run.states.length - 1) (top : Nat) (input : List Token) :
    InStep base ⟨top :: run.states.drop p.length, input, (run.receiver.reduce p).2⟩ := by
  obtain ⟨f, opened⟩ := h.opened
  have depth := h.depth
  have positive := h.length_pos
  have held : p.length ≤ run.receiver.depth := by omega
  obtain ⟨kept, taken, -, -, joined⟩ := opened.reduce held
  refine ⟨⟨_, joined⟩, h.bottom_cons top enough, ?_⟩
  rw [opened.reduce_eq held]
  simp only [Builder.depth, List.length_cons, List.length_drop] at depth ⊢
  omega

theorem step (h : run.InStep base)
    (running : run.step g t file Builder.receiver = .running next) : next.InStep base := by
  have decides := step_decides g t file Builder.receiver run
  rw [running] at decides
  generalize run.event? g t = event at decides
  cases decides with
  | @shift top token rest s _ input called =>
    have moved := h.shift token top rest
    rwa [show (run.receiver.shift token).2 = s from congrArg Prod.snd called] at moved
  | @reduce rule top p s _ known enough called _ =>
    have moved := h.reduce enough top run.input
    rwa [show (run.receiver.reduce p).2 = s from congrArg Prod.snd called] at moved

theorem visited (h : run.InStep base) (steps : Nat) :
    ∀ passed ∈ run.visited g t file Builder.receiver steps, passed.InStep base := by
  induction steps generalizing run with
  | zero => rintro passed ⟨⟩
  | succ steps ih =>
    intro passed mem
    rw [Run.visited, List.mem_cons] at mem
    rcases mem with rfl | later
    · exact h
    · cases outcome : run.step g t file Builder.receiver with
      | running next =>
        rw [outcome] at later
        exact ih (h.step outcome) passed later
      | done result s =>
        rw [outcome] at later
        cases later

/-- Over a builder that began with nothing the automaton's check is the builder's. -/
theorem underflow_iff (h : run.InStep 0) {rule : Nat} {p : Production}
    (action : t.action run.top (run.lookahead t) = .reduce rule)
    (known : g.production rule = .ok p) (lhs : String) (needed available : Nat) :
    run.step g t file Builder.receiver =
        .done (.error (.stackUnderflow lhs needed available)) run.receiver ↔
      run.receiver.reduce p =
        (.error (.stackUnderflow lhs needed available), run.receiver) := by
  obtain ⟨f, opened⟩ := h.opened
  have depth := h.depth
  rw [Nat.zero_add] at depth
  have stepped : run.step g t file Builder.receiver = run.reduce g t Builder.receiver rule := by
    rw [Run.step, action]
  rw [stepped, Run.reduce, known]
  by_cases short : run.states.length - 1 < p.length
  · simp only [(overdraws_tail_iff p run).2 short, if_true]
    rw [opened.reduce_underflow (by omega), depth]
    simp
  · have fits : ¬ p.overdraws run.states.tail = true := mt (overdraws_tail_iff p run).1 short
    have held := opened.reduce_eq (p := p) (by omega)
    have called : Builder.receiver.reduce p run.receiver = _ := held
    simp only [if_neg fits, held, called]
    split <;> simp

theorem accept_iff (h : run.InStep 0) :
    (∃ tree, run.receiver.accept.1 = .ok tree) ↔ run.states.length = 2 := by
  obtain ⟨f, opened⟩ := h.opened
  have depth := h.depth
  rcases opened.accept_cases with ⟨root, single, done⟩ | ⟨count, refused⟩
  · have one : run.receiver.depth = 1 := congrArg List.length single
    simp only [done, Except.ok.injEq, exists_eq', true_iff]
    omega
  · simp only [refused, reduceCtorEq, exists_false, false_iff]
    omega

end InStep

/-- At each call the builder holds, beyond what it held at first, one result for each state
above the start state. So the start state is never taken off and no shift or reduce is
refused. If the builder held nothing at first, its own check for a reduce gives what the
automaton's gives, and it accepts if the automaton is in one state above the start. -/
theorem drive_lockstep {b : Builder} (reached : b.Reached) (unfinished : b.finished = false)
    (g : Grammar) (t : Table) (file : String) (tokens : List Token) (steps : Nat) :
    drive steps g t file (Builder.receiver.noting fun call s => (call, s.depth)) tokens (#[], b) =
      (drive steps g t file Builder.receiver tokens b).map (fun (result, s) =>
        (result, ((Run.visited g t file Builder.receiver steps ⟨[0], tokens, b⟩).filterMap
          fun run => (run.call? g t file).map
            (·, b.depth + (run.states.length - 1))).toArray, s)) ∧
    ∀ run ∈ Run.visited g t file Builder.receiver steps ⟨[0], tokens, b⟩,
      run.receiver.depth = b.depth + (run.states.length - 1) ∧
      run.states.getLast? = some 0 ∧
      (∀ token, (run.receiver.shift token).1 = .ok ()) ∧
      (∀ p, run.call? g t file = some (.reduce p) →
        p.length < run.states.length ∧ (run.states.drop p.length).getLast? = some 0 ∧
        (run.receiver.reduce p).1 = .ok ()) ∧
      (b.depth = 0 →
        (∀ rule p, t.action run.top (run.lookahead t) = .reduce rule →
          g.production rule = .ok p → ∀ lhs needed available,
          (run.step g t file Builder.receiver =
              .done (.error (.stackUnderflow lhs needed available)) run.receiver ↔
            run.receiver.reduce p =
              (.error (.stackUnderflow lhs needed available), run.receiver))) ∧
        ((∃ tree, run.receiver.accept.1 = .ok tree) ↔ run.states.length = 2)) := by
  obtain ⟨f, opened⟩ := reached.opened unfinished
  have all : ∀ run ∈ Run.visited g t file Builder.receiver steps ⟨[0], tokens, b⟩,
      run.InStep b.depth := (InStep.start opened tokens).visited steps
  constructor
  · have depths : (Run.visited g t file Builder.receiver steps ⟨[0], tokens, b⟩).filterMap
        (fun run => (run.call? g t file).map (·, run.receiver.depth)) =
        (Run.visited g t file Builder.receiver steps ⟨[0], tokens, b⟩).filterMap
        fun run => (run.call? g t file).map (·, b.depth + (run.states.length - 1)) := by
      refine List.filterMap_congr fun run passed => ?_
      rw [(all run passed).depth]
    rw [drive_noting, depths]
  · intro run passed
    have h := all run passed
    refine ⟨h.depth, h.bottom, h.shift_ok, ?_, ?_⟩
    · intro p called
      have enough := enough_of_call? called
      have positive := h.length_pos
      exact ⟨by omega, h.bottom_drop enough, h.reduce_ok enough⟩
    · intro empty
      rw [empty] at h
      exact ⟨fun rule p action known => h.underflow_iff action known, h.accept_iff⟩

theorem drive_lockstep_underflow :
    ∃ before behind : Run Builder,
      [before, behind] = (Run.visited { productions := #[⟨2, "E", 1⟩, ⟨3, "triple", 3⟩] }
        { action := fun state symbol =>
            if symbol = 9 then .reduce 1 else if state = 1 then .reduce 0 else .shift 1
          goto := fun _ _ => some 2
          endSymbol := 9 } "in.php" Builder.receiver 4
        ⟨[0], [⟨0, "ID", "a", 1⟩, ⟨0, "ID", "b", 2⟩], { session := ⟨"in.php", 7⟩ }⟩).drop 2 ∧
      before.receiver.depth = 1 ∧ (∃ tree, before.receiver.accept.1 = .ok tree) ∧
      behind.receiver.reduce ⟨3, "triple", 3⟩ =
        (.error (.stackUnderflow "triple" 3 2), behind.receiver) := by
  have lockstep := drive_lockstep (.fresh ⟨"in.php", 7⟩) rfl
    { productions := #[⟨2, "E", 1⟩, ⟨3, "triple", 3⟩] }
    { action := fun state symbol =>
        if symbol = 9 then .reduce 1 else if state = 1 then .reduce 0 else .shift 1
      goto := fun _ _ => some 2
      endSymbol := 9 } "in.php" [⟨0, "ID", "a", 1⟩, ⟨0, "ID", "b", 2⟩] 4
  refine ⟨_, _, rfl, ?_⟩
  obtain ⟨depth, -, -, -, accepts⟩ := lockstep.2 _ (List.mem_of_getElem? (i := 2) rfl)
  obtain ⟨-, -, -, -, checks⟩ := lockstep.2 _ (List.mem_of_getElem? (i := 3) rfl)
  exact ⟨depth, (accepts rfl).2.2 rfl, ((checks rfl).1 1 _ rfl rfl _ _ _).1 rfl⟩

end ParseTrace.Run
