import ParseTrace.Proofs.Occurrences
import ParseTrace.Proofs.SymbolTable
import ParseTrace.Script

/-!
The three passes over a script, through its symbols, its rules and its events. For each pass there
is what it makes if it goes through, and at which item it ends if it does not; both are said of
the declared symbols, since a grammar holds just these.
-/

namespace ParseTrace

open SymbolTable (Clash Misnamed)

def Symbol.Apart (a b : Symbol) : Prop :=
  a.index ≠ b.index ∧ a.name ≠ b.name

def Known (symbols : List Symbol) (name : String) (kind : SymbolKind) : Prop :=
  ∃ s ∈ symbols, s.name = name ∧ s.kind = kind

namespace ScriptEvent

def Known (symbols : List Symbol) : ScriptEvent → Prop
  | .shift symbol _ _ => ParseTrace.Known symbols symbol .terminal
  | .reduce _ | .accept => True

def Misnamed (symbols : List Symbol) : ScriptEvent → Failure → Prop
  | .shift symbol _ _, failure => SymbolTable.Misnamed symbols symbol .terminal failure
  | .reduce _, _ | .accept, _ => False

/-- An event as it is replayed: a token has the number of the terminal that it names. -/
inductive Resolves (symbols : List Symbol) : ScriptEvent → Event → Prop
  | shift {index : UInt32} {symbol lexeme : String} {line : Int32} :
      ⟨index, symbol, .terminal⟩ ∈ symbols →
      Resolves symbols (.shift symbol lexeme line) (.shift ⟨index, symbol, lexeme, line⟩)
  | reduce (rule : UInt64) : Resolves symbols (.reduce rule) (.reduce rule.toNat)
  | accept : Resolves symbols .accept .accept

end ScriptEvent

def RuleDecl.Produces (symbols : List Symbol) (r : RuleDecl) (p : Production) : Prop :=
  ⟨p.lhs, p.lhsName, .nonterminal⟩ ∈ symbols ∧ p.lhsName = r.lhs ∧ p.length = r.length.toNat

section Decidable

variable (symbols : List Symbol)

instance (a b : Symbol) : Decidable (a.Apart b) :=
  inferInstanceAs (Decidable (_ ∧ _))

instance (name : String) (kind : SymbolKind) : Decidable (Known symbols name kind) :=
  inferInstanceAs (Decidable (∃ s ∈ symbols, _ ∧ _))

instance : ∀ e : ScriptEvent, Decidable (e.Known symbols)
  | .shift symbol _ _ => inferInstanceAs (Decidable (Known symbols symbol .terminal))
  | .reduce _ => .isTrue trivial
  | .accept => .isTrue trivial

end Decidable

section Known

variable {symbols symbols' : List Symbol} {name : String} {kind : SymbolKind} {failure : Failure}

theorem Symbol.Apart.symm {a b : Symbol} (h : a.Apart b) : b.Apart a :=
  ⟨h.1.symm, h.2.symm⟩

theorem SymbolTable.Clash.congr {s : Symbol} (h : Clash symbols s failure)
    (same : ∀ r, r ∈ symbols ↔ r ∈ symbols') : Clash symbols' s failure := by
  cases h with
  | index mem eq => exact .index ((same _).1 mem) eq
  | name free mem eq => exact .name (fun r hr => free r ((same r).2 hr)) ((same _).1 mem) eq

theorem SymbolTable.Misnamed.congr (h : Misnamed symbols name kind failure)
    (same : ∀ r, r ∈ symbols ↔ r ∈ symbols') : Misnamed symbols' name kind failure := by
  cases h with
  | unknown free => exact .unknown fun r hr => free r ((same r).2 hr)
  | other mem eq other => exact .other ((same _).1 mem) eq other

theorem SymbolTable.Clash.not_apart {s : Symbol} (h : Clash symbols s failure) :
    ∃ r ∈ symbols, ¬ r.Apart s := by
  cases h with
  | index mem same => exact ⟨_, mem, fun apart => apart.1 same⟩
  | name _ mem same => exact ⟨_, mem, fun apart => apart.2 same⟩

theorem SymbolTable.Sound.pairwise_apart {t : SymbolTable} (h : t.Sound) :
    t.symbols.Pairwise Symbol.Apart := by
  refine h.ascending.imp_of_mem fun {a b} ha hb before => ⟨UInt32.ne_of_lt before, fun same => ?_⟩
  rw [h.eq_of_name ha hb same] at before
  exact UInt32.lt_irrefl _ before

theorem SymbolTable.Sound.known_iff {t : SymbolTable} (h : t.Sound) :
    Known t.symbols name kind ↔ ∃ s, t.expect name kind = .ok s := by
  simp only [h.expect_eq_ok_iff, Known]

theorem SymbolTable.Sound.not_known {t : SymbolTable} (h : t.Sound)
    (wrong : Misnamed t.symbols name kind failure) : ¬ Known t.symbols name kind := by
  rw [h.known_iff, h.expect_eq_error_iff.2 wrong]
  exact nofun

theorem RuleDecl.Produces.known {r : RuleDecl} {p : Production} (h : r.Produces symbols p) :
    Known symbols r.lhs .nonterminal :=
  ⟨_, h.1, h.2.1, rfl⟩

theorem ScriptEvent.Resolves.known {e : ScriptEvent} {event : Event}
    (h : e.Resolves symbols event) : e.Known symbols := by
  cases h with
  | shift mem => exact ⟨_, mem, rfl, rfl⟩
  | reduce rule => trivial
  | accept => trivial

theorem Known.congr (same : ∀ r, r ∈ symbols ↔ r ∈ symbols') :
    Known symbols name kind ↔ Known symbols' name kind := by
  simp only [Known, same]

theorem ScriptEvent.Known.congr {e : ScriptEvent} (same : ∀ r, r ∈ symbols ↔ r ∈ symbols') :
    e.Known symbols ↔ e.Known symbols' := by
  cases e with
  | shift symbol lexeme line => exact ParseTrace.Known.congr same
  | reduce rule => exact .rfl
  | accept => exact .rfl

theorem ScriptEvent.Misnamed.congr {e : ScriptEvent} (h : e.Misnamed symbols failure)
    (same : ∀ r, r ∈ symbols ↔ r ∈ symbols') : e.Misnamed symbols' failure := by
  cases e with
  | shift symbol lexeme line => exact SymbolTable.Misnamed.congr h same
  | reduce rule => exact h
  | accept => exact h

end Known

namespace Grammar

variable {g g' : Grammar} {failure : Failure}

theorem registerAll_eq_ok {symbols : List Symbol} (h : g.table.Sound)
    (done : registerAll symbols g = .ok g') :
    g'.table.Sound ∧ g'.table.symbols.Perm (symbols ++ g.table.symbols) ∧
      g'.productions = g.productions := by
  induction symbols generalizing g with
  | nil =>
    obtain rfl := Except.ok.inj done
    exact ⟨h, .refl _, rfl⟩
  | cons s rest ih =>
    have sound := h.register s
    rw [registerAll, register] at done
    rcases h.register_cases s with ⟨failure, -, refused⟩ | ⟨-, registered⟩
    · rw [refused] at done
      cases done
    · rw [registered] at done sound
      obtain ⟨kept, perm, productions⟩ := ih sound done
      refine ⟨kept, perm.trans ?_, productions⟩
      exact ((SymbolTable.place_perm s g.table.symbols).append_left rest).trans List.perm_middle

/-- Registering fails at the first symbol that clashes with what was there or stands before it. -/
theorem registerAll_eq_error_iff {known symbols : List Symbol} (h : g.table.Sound)
    (perm : g.table.symbols.Perm known) : registerAll symbols g = .error failure ↔
      ∃ before s after, symbols = before ++ s :: after ∧
        (known ++ before).Pairwise Symbol.Apart ∧ Clash (known ++ before) s failure := by
  induction symbols generalizing g known with
  | nil => simp [registerAll]
  | cons s rest ih =>
    have apart : known.Pairwise Symbol.Apart :=
      (perm.pairwise_iff Symbol.Apart.symm).1 h.pairwise_apart
    rw [exists_occurrence_cons_iff, registerAll, register, List.append_nil]
    rcases h.register_cases s with ⟨actual, clash, refused⟩ | ⟨fresh, granted⟩
    · rw [refused]
      constructor
      · rintro ⟨⟩
        exact .inl ⟨apart, clash.congr fun _ => perm.mem_iff⟩
      · rintro (⟨-, given⟩ | ⟨before, r, after, -, distinct, -⟩)
        · rw [h.clash_unique clash (given.congr fun _ => perm.symm.mem_iff)]
        · obtain ⟨r, hr, close⟩ := clash.not_apart
          have far := (List.pairwise_append.1 distinct).2.2 r (perm.mem_iff.1 hr) s
            List.mem_cons_self
          exact absurd far close
    · have free : ¬ Clash known s failure := fun clash =>
        SymbolTable.Sound.not_clash fresh (clash.congr fun _ => perm.symm.mem_iff)
      have next : (g.table.insert s).symbols.Perm (known ++ [s]) :=
        (SymbolTable.place_perm s g.table.symbols).trans
          ((perm.cons s).trans (List.perm_append_singleton s known).symm)
      rw [granted]
      refine (ih (h.insert fresh) next).trans ?_
      simp only [free, and_false, false_or, List.append_assoc, List.singleton_append]

theorem table_of_registerAll {symbols : List Symbol} (done : registerAll symbols {} = .ok g) :
    g.table.Sound ∧ g.table.symbols.Perm symbols ∧ symbols.Pairwise Symbol.Apart := by
  obtain ⟨sound, perm, -⟩ := registerAll_eq_ok .empty done
  rw [List.append_nil] at perm
  exact ⟨sound, perm, (perm.pairwise_iff Symbol.Apart.symm).1 sound.pairwise_apart⟩

theorem exists_registerAll {symbols : List Symbol} (apart : symbols.Pairwise Symbol.Apart) :
    ∃ g, registerAll symbols {} = .ok g := by
  cases done : registerAll symbols {} with
  | ok g => exact ⟨g, rfl⟩
  | error failure =>
    obtain ⟨before, s, after, rfl, -, clash⟩ :=
      (registerAll_eq_error_iff .empty (.refl [])).1 done
    obtain ⟨r, hr, close⟩ := clash.not_apart
    exact absurd ((List.pairwise_append.1 apart).2.2 r hr s List.mem_cons_self) close

theorem addRules_eq_error_iff {rules : List RuleDecl} (h : g.table.Sound) :
    addRules rules g = .error failure ↔ ∃ before r after, rules = before ++ r :: after ∧
      (∀ q ∈ before, Known g.table.symbols q.lhs .nonterminal) ∧
      Misnamed g.table.symbols r.lhs .nonterminal failure := by
  induction rules generalizing g with
  | nil => simp [addRules]
  | cons r rest ih =>
    rw [exists_first_cons_iff, ← h.expect_eq_error_iff, h.known_iff, addRules, addRule]
    cases g.table.expect r.lhs .nonterminal with
    | error actual => simp
    | ok s => simpa using ih (g := { g with productions := g.productions.push _ }) h

theorem addRules_eq_ok {rules : List RuleDecl} (h : g.table.Sound)
    (done : addRules rules g = .ok g') : g'.table = g.table ∧ ∃ added,
      g'.productions.toList = g.productions.toList ++ added ∧
      List.Forall₂ (RuleDecl.Produces g.table.symbols) rules added := by
  induction rules generalizing g with
  | nil =>
    obtain rfl := Except.ok.inj done
    exact ⟨rfl, [], by simp, .nil⟩
  | cons r rest ih =>
    rw [addRules] at done
    rcases g.addRule_cases h r.lhs r.length.toNat with
      ⟨failure, -, refused⟩ | ⟨index, mem, granted⟩
    · rw [refused] at done
      cases done
    · rw [granted] at done
      obtain ⟨table, added, all, produced⟩ := ih (by exact h) done
      refine ⟨table, ⟨index, r.lhs, r.length.toNat⟩ :: added, ?_, .cons ⟨mem, rfl, rfl⟩ produced⟩
      simpa using all

theorem exists_addRules_iff {rules : List RuleDecl} (h : g.table.Sound) :
    (∃ g', addRules rules g = .ok g') ↔
      ∀ r ∈ rules, Known g.table.symbols r.lhs .nonterminal := by
  constructor
  · rintro ⟨g', done⟩
    obtain ⟨-, added, -, produced⟩ := addRules_eq_ok h done
    exact ((List.forall₂_and_left _ _).1 (produced.imp fun _ _ made => ⟨made.known, made⟩)).1
  · intro all
    cases done : addRules rules g with
    | ok g' => exact ⟨g', rfl⟩
    | error failure =>
      obtain ⟨before, r, after, rfl, -, wrong⟩ := (addRules_eq_error_iff h).1 done
      exact absurd (all r (by simp)) (h.not_known wrong)

end Grammar

namespace Script

variable {script : Script} {g : Grammar} {failure : Failure}

theorem resolve_eq_error_iff (h : g.table.Sound) {e : ScriptEvent} :
    e.resolve g = .error failure ↔ e.Misnamed g.table.symbols failure := by
  cases e with
  | shift symbol lexeme line =>
    rw [ScriptEvent.resolve, ScriptEvent.Misnamed, ← h.expect_eq_error_iff]
    cases g.table.expect symbol .terminal <;> simp
  | reduce rule => simp [ScriptEvent.resolve, ScriptEvent.Misnamed]
  | accept => simp [ScriptEvent.resolve, ScriptEvent.Misnamed]

theorem exists_resolve_iff (h : g.table.Sound) {e : ScriptEvent} :
    (∃ event, e.resolve g = .ok event) ↔ e.Known g.table.symbols := by
  cases e with
  | shift symbol lexeme line =>
    rw [ScriptEvent.resolve, ScriptEvent.Known, h.known_iff]
    cases g.table.expect symbol .terminal <;> simp
  | reduce rule => simp [ScriptEvent.resolve, ScriptEvent.Known]
  | accept => simp [ScriptEvent.resolve, ScriptEvent.Known]

theorem resolves_of_resolve (h : g.table.Sound) {e : ScriptEvent} {event : Event}
    (done : e.resolve g = .ok event) : e.Resolves g.table.symbols event := by
  cases e with
  | shift symbol lexeme line =>
    rw [ScriptEvent.resolve] at done
    cases found : g.table.expect symbol .terminal with
    | error failure =>
      rw [found] at done
      cases done
    | ok s =>
      rw [found] at done
      obtain ⟨mem, rfl, kind⟩ := h.expect_eq_ok_iff.1 found
      obtain rfl := Except.ok.inj done
      exact .shift (kind ▸ mem)
  | reduce rule =>
    obtain rfl := Except.ok.inj done
    exact .reduce rule
  | accept =>
    obtain rfl := Except.ok.inj done
    exact .accept

theorem resolveAll_eq_error_iff (h : g.table.Sound) {events : List ScriptEvent} :
    resolveAll g events = .error failure ↔ ∃ before e after, events = before ++ e :: after ∧
      (∀ e ∈ before, e.Known g.table.symbols) ∧ e.Misnamed g.table.symbols failure := by
  induction events with
  | nil => simp [resolveAll]
  | cons e rest ih =>
    rw [exists_first_cons_iff, ← ih, ← resolve_eq_error_iff h, ← exists_resolve_iff h, resolveAll]
    cases e.resolve g with
    | error actual => simp
    | ok event => cases resolveAll g rest <;> simp

theorem forall₂_of_resolveAll (h : g.table.Sound) {events : List ScriptEvent}
    {resolved : List Event} (done : resolveAll g events = .ok resolved) :
    List.Forall₂ (ScriptEvent.Resolves g.table.symbols) events resolved := by
  induction events generalizing resolved with
  | nil =>
    obtain rfl := Except.ok.inj done
    exact .nil
  | cons e rest ih =>
    rw [resolveAll] at done
    split at done
    · cases done
    · next first resolves =>
      split at done
      · cases done
      · next later resolvesAll =>
        obtain rfl := Except.ok.inj done
        exact .cons (resolves_of_resolve h resolves) (ih resolvesAll)

theorem exists_resolveAll_iff (h : g.table.Sound) {events : List ScriptEvent} :
    (∃ resolved, resolveAll g events = .ok resolved) ↔ ∀ e ∈ events, e.Known g.table.symbols := by
  constructor
  · rintro ⟨resolved, done⟩
    have each := forall₂_of_resolveAll h done
    exact ((List.forall₂_and_left _ _).1 (each.imp fun _ _ made => ⟨made.known, made⟩)).1
  · intro all
    cases done : resolveAll g events with
    | ok resolved => exact ⟨resolved, rfl⟩
    | error failure =>
      obtain ⟨before, e, after, rfl, -, wrong⟩ := (resolveAll_eq_error_iff h).1 done
      obtain ⟨event, fine⟩ := (exists_resolve_iff h).2 (all e (by simp))
      rw [(resolve_eq_error_iff h).2 wrong] at fine
      cases fine

theorem grammar_eq_addRules (registered : Grammar.registerAll script.symbols {} = .ok g) :
    script.grammar = Grammar.addRules script.rules g := by
  rw [grammar, Grammar.declare, registered]

theorem grammar_eq_error (clashed : Grammar.registerAll script.symbols {} = .error failure) :
    script.grammar = .error failure := by
  rw [grammar, Grammar.declare, clashed]

theorem exists_grammar_iff : (∃ g, script.grammar = .ok g) ↔
    script.symbols.Pairwise Symbol.Apart ∧
      ∀ r ∈ script.rules, Known script.symbols r.lhs .nonterminal := by
  cases registered : Grammar.registerAll script.symbols {} with
  | error failure =>
    rw [grammar_eq_error registered]
    refine ⟨nofun, fun ⟨apart, _⟩ => ?_⟩
    obtain ⟨g, done⟩ := Grammar.exists_registerAll apart
    rw [registered] at done
    cases done
  | ok g =>
    obtain ⟨sound, perm, apart⟩ := Grammar.table_of_registerAll registered
    rw [grammar_eq_addRules registered, Grammar.exists_addRules_iff sound]
    simp only [Known.congr fun _ => perm.mem_iff, apart, true_and]

theorem grammar_eq_ok (declared : script.grammar = .ok g) :
    g.table.Sound ∧ g.table.symbols.Perm script.symbols ∧
      List.Forall₂ (RuleDecl.Produces script.symbols) script.rules g.productions.toList := by
  obtain ⟨apart, -⟩ := exists_grammar_iff.1 ⟨g, declared⟩
  obtain ⟨g₀, registered⟩ := Grammar.exists_registerAll apart
  obtain ⟨sound, perm, none⟩ := Grammar.registerAll_eq_ok .empty registered
  rw [grammar_eq_addRules registered] at declared
  obtain ⟨same, added, all, produced⟩ := Grammar.addRules_eq_ok sound declared
  rw [List.append_nil] at perm
  rw [none, List.nil_append] at all
  exact ⟨same ▸ sound, same ▸ perm,
    all ▸ produced.imp fun r p made => ⟨perm.mem_iff.1 made.1, made.2⟩⟩

theorem exists_rule_of_production (declared : script.grammar = .ok g) {p : Production}
    (hp : p ∈ g.productions) : ∃ r ∈ script.rules, r.Produces script.symbols p :=
  exists_of_mem_right (grammar_eq_ok declared).2.2 (Array.mem_toList_iff.2 hp)

theorem resolves_of_resolveAll (declared : script.grammar = .ok g) {events : List Event}
    (resolved : resolveAll g script.events = .ok events) :
    List.Forall₂ (ScriptEvent.Resolves script.symbols) script.events events := by
  obtain ⟨table, perm, -⟩ := grammar_eq_ok declared
  refine (forall₂_of_resolveAll table resolved).imp fun e event made => ?_
  cases made with
  | shift mem => exact .shift (perm.mem_iff.1 mem)
  | reduce rule => exact .reduce rule
  | accept => exact .accept

end Script

end ParseTrace
