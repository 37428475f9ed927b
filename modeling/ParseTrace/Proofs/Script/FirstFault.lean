import ParseTrace.Proofs.Script.Passes
import ParseTrace.Proofs.Verdict

/-!
What a run looks at before it builds anything: all symbols, then all rules, then all events, also
those behind an accept. The first fault in this order is the one that is reported, and no
identifier has been drawn by then. A script without a fault is replayed, and each event that the
replay performs draws one identifier.
-/

namespace ParseTrace

open SymbolTable (Clash Misnamed)

namespace Script

structure WellDeclared (script : Script) : Prop where
  apart : script.symbols.Pairwise Symbol.Apart
  rules : ∀ r ∈ script.rules, Known script.symbols r.lhs .nonterminal
  events : ∀ e ∈ script.events, e.Known script.symbols

/-- A fault of a script that has none before it, in the order of symbols, rules and events. -/
inductive FirstFault (script : Script) : Failure → Prop
  | symbol {before after : List Symbol} {s : Symbol} {failure : Failure} :
      script.symbols = before ++ s :: after → WellDeclared { symbols := before } →
      Clash before s failure → FirstFault script failure
  | rule {before after : List RuleDecl} {r : RuleDecl} {failure : Failure} :
      script.rules = before ++ r :: after →
      WellDeclared { symbols := script.symbols, rules := before } →
      Misnamed script.symbols r.lhs .nonterminal failure → FirstFault script failure
  | event {before after : List ScriptEvent} {e : ScriptEvent} {failure : Failure} :
      script.events = before ++ e :: after → WellDeclared { script with events := before } →
      e.Misnamed script.symbols failure → FirstFault script failure

instance (script : Script) : Decidable script.WellDeclared :=
  decidable_of_iff (script.symbols.Pairwise Symbol.Apart ∧
      (∀ r ∈ script.rules, Known script.symbols r.lhs .nonterminal) ∧
      ∀ e ∈ script.events, e.Known script.symbols)
    ⟨fun ⟨apart, rules, events⟩ => ⟨apart, rules, events⟩, fun ⟨apart, rules, events⟩ =>
      ⟨apart, rules, events⟩⟩

variable {script : Script} {s : Session} {g : Grammar} {failure : Failure}

theorem firstFault_iff : script.FirstFault failure ↔ script.grammar = .error failure ∨
    ∃ g, script.grammar = .ok g ∧ resolveAll g script.events = .error failure := by
  constructor
  · rintro (⟨split, sound, clash⟩ | ⟨split, sound, wrong⟩ | ⟨split, sound, wrong⟩)
    · refine .inl (grammar_eq_error ?_)
      refine (Grammar.registerAll_eq_error_iff .empty (.refl [])).2 ⟨_, _, _, split, ?_, ?_⟩
      · exact sound.apart
      · exact clash
    · have apart : script.symbols.Pairwise Symbol.Apart := sound.apart
      obtain ⟨g, registered⟩ := Grammar.exists_registerAll apart
      obtain ⟨table, perm, -⟩ := Grammar.table_of_registerAll registered
      refine .inl ((grammar_eq_addRules registered).trans ?_)
      exact (Grammar.addRules_eq_error_iff table).2 ⟨_, _, _, split,
        fun q hq => (Known.congr fun _ => perm.mem_iff).2 (sound.rules q hq),
        wrong.congr fun _ => perm.symm.mem_iff⟩
    · obtain ⟨g, declared⟩ : ∃ g, script.grammar = .ok g :=
        exists_grammar_iff.2 ⟨sound.apart, sound.rules⟩
      obtain ⟨table, perm, -⟩ := grammar_eq_ok declared
      refine .inr ⟨g, declared, (resolveAll_eq_error_iff table).2 ⟨_, _, _, split,
        fun e he => (ScriptEvent.Known.congr fun _ => perm.mem_iff).2 (sound.events e he),
        wrong.congr fun _ => perm.symm.mem_iff⟩⟩
  · rintro (ended | ⟨g, declared, ended⟩)
    · cases registered : Grammar.registerAll script.symbols {} with
      | error clashed =>
        rw [grammar_eq_error registered] at ended
        obtain rfl := Except.error.inj ended
        obtain ⟨before, s, after, split, apart, clash⟩ :=
          (Grammar.registerAll_eq_error_iff .empty (.refl [])).1 registered
        exact .symbol split ⟨apart, nofun, nofun⟩ clash
      | ok g =>
        obtain ⟨table, perm, apart⟩ := Grammar.table_of_registerAll registered
        rw [grammar_eq_addRules registered] at ended
        obtain ⟨before, r, after, split, known, wrong⟩ :=
          (Grammar.addRules_eq_error_iff table).1 ended
        refine .rule split ⟨apart, fun q hq => ?_, nofun⟩ (wrong.congr fun _ => perm.mem_iff)
        exact (Known.congr fun _ => perm.mem_iff).1 (known q hq)
    · obtain ⟨apart, rules⟩ := exists_grammar_iff.1 ⟨g, declared⟩
      obtain ⟨table, perm, -⟩ := grammar_eq_ok declared
      obtain ⟨before, e, after, split, known, wrong⟩ := (resolveAll_eq_error_iff table).1 ended
      refine .event split ⟨apart, rules, fun d hd => ?_⟩ (wrong.congr fun _ => perm.mem_iff)
      exact (ScriptEvent.Known.congr fun _ => perm.mem_iff).1 (known d hd)

theorem wellDeclared_iff : script.WellDeclared ↔
    ∃ g events, script.grammar = .ok g ∧ resolveAll g script.events = .ok events := by
  constructor
  · intro sound
    obtain ⟨g, declared⟩ := exists_grammar_iff.2 ⟨sound.apart, sound.rules⟩
    obtain ⟨table, perm, -⟩ := grammar_eq_ok declared
    obtain ⟨events, resolved⟩ := (exists_resolveAll_iff table).2
      fun e he => (ScriptEvent.Known.congr fun _ => perm.mem_iff).2 (sound.events e he)
    exact ⟨g, events, declared, resolved⟩
  · rintro ⟨g, events, declared, resolved⟩
    obtain ⟨apart, rules⟩ := exists_grammar_iff.1 ⟨g, declared⟩
    obtain ⟨table, perm, -⟩ := grammar_eq_ok declared
    refine ⟨apart, rules, fun e he => (ScriptEvent.Known.congr fun _ => perm.mem_iff).1 ?_⟩
    exact (exists_resolveAll_iff table).1 ⟨events, resolved⟩ e he

theorem not_wellDeclared_iff : ¬ script.WellDeclared ↔ ∃ failure, script.FirstFault failure := by
  simp only [wellDeclared_iff, firstFault_iff]
  cases script.grammar with
  | error failure => simp
  | ok g => cases resolved : resolveAll g script.events <;> simp [resolved]

theorem run_eq_error (fault : script.FirstFault failure) (s : Session) :
    script.run s = (.error failure, s) := by
  rcases firstFault_iff.1 fault with ended | ⟨g, declared, ended⟩
  · rw [run, ended]
  · simp only [run, declared, ended]

/-- A script with a fault among its symbols, rules or shifts fails with the first one, in this
order and whatever its events would do, and draws no identifier. One without is replayed: the
productions are those of its rules, the tokens have the numbers of the terminals that they name,
and each event that is performed before an accept or a failure draws one identifier. -/
theorem run_first_fault (script : Script) (s : Session) :
    (∀ failure, script.FirstFault failure → script.run s = (.error failure, s)) ∧
    (¬ script.WellDeclared ↔ ∃ failure, script.FirstFault failure) ∧
    (script.WellDeclared → ∃ g events,
      script.grammar = .ok g ∧ resolveAll g script.events = .ok events ∧
      List.Forall₂ (RuleDecl.Produces script.symbols) script.rules g.productions.toList ∧
      List.Forall₂ (ScriptEvent.Resolves script.symbols) script.events events ∧
      (script.run s).1 = (replay g Builder.receiver events { session := s }).1 ∧
      (script.run s).2.nextId.toNat =
        (s.nextId.toNat + Tally.performed g 0 events) % 2 ^ 64) := by
  refine ⟨fun failure fault => run_eq_error fault s, not_wellDeclared_iff, fun sound => ?_⟩
  obtain ⟨g, events, declared, resolved⟩ := wellDeclared_iff.1 sound
  have replayed : script.run s = ((replay g Builder.receiver events { session := s }).1,
      (replay g Builder.receiver events { session := s }).2.session) := by
    simp only [run, declared, resolved]
  refine ⟨g, events, declared, resolved, (grammar_eq_ok declared).2.2,
    resolves_of_resolveAll declared resolved, by rw [replayed], ?_⟩
  rw [replayed, (Builder.open_fresh s).session_replay]
  exact toNat_draw s.nextId _

theorem run_first_fault_behind_accept :
    let script : Script :=
      { symbols := [⟨0, "NUM", .terminal⟩, ⟨1, "E", .nonterminal⟩]
        rules := [⟨"E", 1⟩]
        events := [.shift "NUM" "7" 3, .reduce 0, .accept] }
    let spoilt : Script :=
      { script with events := script.events ++ [.shift "E" "x" 4, .shift "F" "y" 4] }
    let s : Session := ⟨"in.php", 18446744073709551615⟩
    spoilt.run s = (.error (.wrongSymbolKind "E" .terminal), s) ∧
    (script.run s).2.nextId.toNat = 1 := by
  intro script spoilt s
  have sound : script.WellDeclared := by decide
  have fault : spoilt.FirstFault (.wrongSymbolKind "E" .terminal) := by
    refine .event rfl sound ?_
    exact .other (s := ⟨1, "E", .nonterminal⟩) (by decide) rfl (by decide)
  obtain ⟨first, -, -⟩ := run_first_fault spoilt s
  obtain ⟨-, -, replayed⟩ := run_first_fault script s
  obtain ⟨g, events, declared, resolved, -, -, -, drawn⟩ := replayed sound
  cases declared
  cases resolved
  exact ⟨first _ fault, drawn.trans (by decide)⟩

end Script

end ParseTrace
