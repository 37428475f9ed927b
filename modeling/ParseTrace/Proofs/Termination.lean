import ParseTrace.Proofs.Automaton

/-!
When a run comes to an end. A shift leaves less of the input, and a reduce by two or more leaves
fewer states. A reduce by one leaves as many of both, but it goes one link on in a chain over
the state below the top, under one lookahead. So if no such chain is endless and no production
is empty, a run ends, whatever else is wrong with its table.
-/

namespace ParseTrace

/-- A reduce by one under this lookahead: one state takes the place of another over the same
state below. -/
def Table.UnitReduction (t : Table) (g : Grammar) (below : Nat) (lookahead : UInt32)
    (top next : Nat) : Prop :=
  ∃ rule p, t.action top lookahead = .reduce rule ∧ g.production rule = .ok p ∧ p.length = 1 ∧
    t.goto below p.lhs = some next

namespace Run

variable {σ α : Type} {g : Grammar} {t : Table} {file : String} {r : Receiver σ α}
  {run next : Run σ}

/-- From some number of steps on, following the run gives one and the same answer. -/
def Ends (g : Grammar) (t : Table) (file : String) (r : Receiver σ α) (run : Run σ) : Prop :=
  ∃ outcome enough, ∀ steps, enough ≤ steps → run.follow g t file r steps = some outcome

theorem ends_of_next (h : ∀ next, run.step g t file r = .running next → next.Ends g t file r) :
    run.Ends g t file r := by
  cases outcome : run.step g t file r with
  | done result s =>
    refine ⟨(result, s), 1, fun steps positive => ?_⟩
    obtain ⟨steps, rfl⟩ := Nat.exists_eq_add_of_le' positive
    rw [follow, outcome]
  | running next =>
    obtain ⟨answer, enough, ended⟩ := h next outcome
    refine ⟨answer, enough + 1, fun steps more => ?_⟩
    obtain ⟨steps, rfl⟩ := Nat.exists_eq_add_of_le' (Nat.le_of_add_left_le more)
    rw [follow, outcome]
    exact ended steps (Nat.le_of_succ_le_succ more)

theorem running_cases (nonempty : ∀ rule p, g.production rule = .ok p → p.length ≠ 0)
    (running : run.step g t file r = .running next) :
    next.input.length < run.input.length ∨
    next.input = run.input ∧
      (next.states.length < run.states.length ∨
        ∃ top top' below rest, run.states = top :: below :: rest ∧
          next.states = top' :: below :: rest ∧
          t.UnitReduction g below (run.lookahead t) top top') := by
  have decides := step_decides g t file r run
  rw [running] at decides
  generalize run.event? g t = event at decides
  cases decides with
  | shift _ input _ =>
    left
    rw [input]
    exact Nat.lt_succ_self _
  | @reduce rule top' p s action known enough _ goto =>
    refine .inr ⟨rfl, ?_⟩
    have positive := nonempty rule p known
    by_cases one : p.length = 1
    · right
      rw [one] at enough goto ⊢
      match states : run.states with
      | [] | [_] => simp [states] at enough
      | top :: below :: rest =>
        have head : run.top = top := by rw [Run.top, states, List.headD_cons]
        rw [head] at action
        rw [states] at goto
        exact ⟨top, top', below, rest, rfl, rfl, rule, p, action, known, one, goto⟩
    · left
      simp only [List.length_cons, List.length_drop]
      omega

theorem lookahead_congr (same : next.input = run.input) : next.lookahead t = run.lookahead t := by
  rw [lookahead, lookahead, same]

/-- By induction along the chain over the state below the top: a step leaves less input, fewer
states or the next link of the chain on top. -/
theorem ends_of_chain (nonempty : ∀ rule p, g.production rule = .ok p → p.length ≠ 0)
    {below : Nat} {rest : List Nat} {symbol : UInt32}
    (chain : WellFounded fun next top => t.UnitReduction g below symbol top next)
    {run : Run σ} {top : Nat} (states : run.states = top :: below :: rest)
    (faces : run.lookahead t = symbol)
    (shorter : ∀ next : Run σ, next.input.length < run.input.length → next.Ends g t file r)
    (lower : ∀ next : Run σ, next.input = run.input →
      next.states.length < run.states.length → next.Ends g t file r) :
    run.Ends g t file r := by
  induction top using chain.induction generalizing run with
  | _ top ih =>
    refine ends_of_next fun next running => ?_
    rcases running_cases nonempty running with less | ⟨input, less | link⟩
    · exact shorter next less
    · exact lower next input less
    · obtain ⟨_, top', _, _, states', replaced, unit⟩ := link
      obtain ⟨rfl, rfl, rfl⟩ : _ ∧ _ ∧ _ := by simpa using states.symm.trans states'
      have height : next.states.length = run.states.length := by
        simp only [replaced, states, List.length_cons]
      refine ih top' (faces ▸ unit) replaced ((lookahead_congr input).trans faces) ?_ ?_
      · rwa [input]
      · rwa [input, height]

theorem ends (nonempty : ∀ rule p, g.production rule = .ok p → p.length ≠ 0)
    (chain : ∀ below symbol,
      WellFounded fun next top => t.UnitReduction g below symbol top next) (run : Run σ) :
    run.Ends g t file r := by
  induction tokens : run.input.length using Nat.strong_induction_on generalizing run with
  | _ n ihInput =>
    induction height : run.states.length using Nat.strong_induction_on generalizing run with
    | _ m ihStates =>
      have shorter : ∀ next : Run σ, next.input.length < run.input.length →
          next.Ends g t file r := fun next less => ihInput _ (tokens ▸ less) next rfl
      have lower : ∀ next : Run σ, next.input = run.input →
          next.states.length < run.states.length → next.Ends g t file r :=
        fun next input less => ihStates _ (height ▸ less) next (input ▸ tokens) rfl
      match states : run.states with
      | top :: below :: rest =>
        exact ends_of_chain nonempty (chain below _) states rfl shorter lower
      | [] | [_] =>
        refine ends_of_next fun next running => ?_
        rcases running_cases nonempty running with less | ⟨input, less | link⟩
        · exact shorter next less
        · exact lower next input less
        · -- nothing is below the start state
          obtain ⟨_, _, _, _, states', -⟩ := link
          simp [states] at states'

end Run

/-- A run returns if the grammar has no empty production and the table no endless chain of unit
reductions, that is none over one state and under one lookahead. Any number of steps from some
number on gives the same answer, for every receiver. -/
theorem drive_returns {σ α : Type} {g : Grammar} {t : Table}
    (nonempty : ∀ rule p, g.production rule = .ok p → p.length ≠ 0)
    (finite : ∀ below symbol, ¬ ∃ chain : Nat → Nat, ∀ i,
      t.UnitReduction g below symbol (chain i) (chain (i + 1)))
    (file : String) (r : Receiver σ α) (tokens : List Token) (s : σ) :
    ∃ result s' enough, ∀ steps, enough ≤ steps →
      drive steps g t file r tokens s = some (result, s') := by
  have chain : ∀ below symbol,
      WellFounded fun next top => t.UnitReduction g below symbol top next := by
    intro below symbol
    rw [wellFounded_iff_isEmpty_descending_chain]
    exact ⟨fun ⟨chain, links⟩ => finite below symbol ⟨chain, links⟩⟩
  obtain ⟨⟨result, s'⟩, enough, ended⟩ := Run.ends nonempty chain ⟨[0], tokens, s⟩
  exact ⟨result, s', enough, ended⟩

theorem drive_returns_unit_chain :
    let g : Grammar := { productions := #[⟨2, "E", 1⟩, ⟨3, "T", 1⟩] }
    let t : Table :=
      { action := fun state _ =>
          if state = 1 then .reduce 1 else if state = 2 then .reduce 0 else .shift 1
        goto := fun _ symbol => some (if symbol = 3 then 2 else 3)
        endSymbol := 9 }
    t.UnitReduction g 0 9 1 2 ∧ t.UnitReduction g 0 9 2 3 ∧
    ∃ result b enough, ∀ steps, enough ≤ steps →
      drive steps g t "in.php" Builder.receiver [⟨0, "ID", "a", 1⟩, ⟨0, "ID", "b", 2⟩]
        { session := ⟨"in.php", 7⟩ } = some (result, b) := by
  intro g t
  have produced : ∀ rule p, g.production rule = .ok p →
      rule = 0 ∧ p = ⟨2, "E", 1⟩ ∨ rule = 1 ∧ p = ⟨3, "T", 1⟩ := by
    intro rule p known
    match rule with
    | 0 => exact .inl ⟨rfl, (Except.ok.inj known).symm⟩
    | 1 => exact .inr ⟨rfl, (Except.ok.inj known).symm⟩
    | rule + 2 => cases known
  have nonempty : ∀ rule p, g.production rule = .ok p → p.length ≠ 0 := by
    intro rule p known
    rcases produced rule p known with ⟨-, rfl⟩ | ⟨-, rfl⟩ <;> decide
  have link : ∀ below symbol top next, t.UnitReduction g below symbol top next →
      top = 1 ∧ next = 2 ∨ top = 2 ∧ next = 3 := by
    rintro below symbol top next ⟨rule, p, action, known, -, goto⟩
    simp only [t] at action goto
    rcases produced rule p known with ⟨rfl, rfl⟩ | ⟨rfl, rfl⟩
    · refine .inr ⟨?_, (Option.some.inj goto).symm⟩
      split at action
      · cases action
      · split at action
        · assumption
        · cases action
    · refine .inl ⟨?_, (Option.some.inj goto).symm⟩
      split at action
      · assumption
      · split at action <;> cases action
  have finite : ∀ below symbol, ¬ ∃ chain : Nat → Nat, ∀ i,
      t.UnitReduction g below symbol (chain i) (chain (i + 1)) := by
    rintro below symbol ⟨chain, links⟩
    have first := link _ _ _ _ (links 0)
    have second := link _ _ _ _ (links 1)
    have third := link _ _ _ _ (links 2)
    simp only [Nat.zero_add, Nat.reduceAdd] at first second third
    omega
  exact ⟨⟨1, _, rfl, rfl, rfl, rfl⟩, ⟨0, _, rfl, rfl, rfl, rfl⟩,
    drive_returns nonempty finite "in.php" Builder.receiver _ _⟩

end ParseTrace
