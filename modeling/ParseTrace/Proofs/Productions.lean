import ParseTrace.Proofs.Registration

/-!
Grammars that grow by symbols and rules in any order. A production copies the index and the name
of its left-hand side while the table is still growing; since no symbol is ever moved or renamed
the copy stays true, and since rules are only ever added behind the others they keep their numbers.
-/

namespace ParseTrace

inductive Amendment where
  | symbol (c : Registration)
  | rule (lhs : String) (length : Nat)

namespace Grammar

def answer (g : Grammar) : Amendment → Except Failure Nat
  | .symbol c => (g.table.perform c).1.map UInt32.toNat
  | .rule lhs length => (g.addRule lhs length).1

def amend (g : Grammar) : Amendment → Grammar
  | .symbol c => { g with table := (g.table.perform c).2 }
  | .rule lhs length => (g.addRule lhs length).2

def amended (steps : List Amendment) : Grammar :=
  steps.foldl amend {}

def answers : Grammar → List Amendment → List (Amendment × Except Failure Nat)
  | _, [] => []
  | g, a :: later => (a, g.answer a) :: answers (g.amend a) later

def ruleNumber? : Amendment × Except Failure Nat → Option Nat
  | (.rule _ _, .ok number) => some number
  | _ => none

def ruleNumbers (steps : List Amendment) : List Nat :=
  (answers {} steps).filterMap ruleNumber?

structure Valid (g : Grammar) : Prop where
  sound : g.table.Sound
  named : ∀ p ∈ g.productions, ⟨p.lhs, p.lhsName, .nonterminal⟩ ∈ g.table.symbols

variable {g : Grammar} {k : Nat} {p : Production}

namespace Valid

theorem empty : Valid {} where
  sound := .empty
  named := by simp

/-- What one step can do: nothing, with a refusal; or add a symbol that clashes with none; or add
a production. -/
theorem amend_cases (h : g.Valid) (a : Amendment) :
    (∃ failure, g.answer a = .error failure ∧ g.amend a = g) ∨
    (∃ c, a = .symbol c ∧
      (∀ s ∈ g.table.symbols, s.index ≠ c.wanted.index ∧ s.name ≠ c.wanted.name) ∧
      (∃ index, g.answer a = .ok index) ∧
      g.amend a = { g with table := g.table.insert c.wanted }) ∨
    ∃ lhs length index, a = .rule lhs length ∧ ⟨index, lhs, .nonterminal⟩ ∈ g.table.symbols ∧
      g.answer a = .ok g.productions.size ∧
      g.amend a = { g with productions := g.productions.push ⟨index, lhs, length⟩ } := by
  cases a with
  | symbol c =>
    rw [answer, amend, SymbolTable.perform_eq_register]
    rcases h.sound.register_cases c.wanted with ⟨failure, -, refused⟩ | ⟨fresh, granted⟩
    · rw [refused]
      exact .inl ⟨failure, rfl, rfl⟩
    · rw [granted]
      exact .inr (.inl ⟨c, rfl, fresh, ⟨_, rfl⟩, rfl⟩)
  | rule lhs length =>
    rw [answer, amend]
    rcases g.addRule_cases h.sound lhs length with ⟨failure, -, refused⟩ | ⟨index, mem, granted⟩
    · rw [refused]
      exact .inl ⟨failure, rfl, rfl⟩
    · rw [granted]
      exact .inr (.inr ⟨lhs, length, index, rfl, mem, rfl, rfl⟩)

theorem amend (h : g.Valid) (a : Amendment) : (g.amend a).Valid := by
  rcases h.amend_cases a with
    ⟨failure, -, same⟩ | ⟨c, rfl, fresh, -, grown⟩ | ⟨lhs, length, index, rfl, mem, -, grown⟩
  · rw [same]
    exact h
  · rw [grown]
    exact ⟨h.sound.insert fresh, fun p hp => SymbolTable.mem_insert.2 (.inr (h.named p hp))⟩
  · rw [grown]
    refine ⟨h.sound, fun p hp => ?_⟩
    rcases Array.mem_push.1 hp with old | rfl
    · exact h.named p old
    · exact mem

theorem getElem?_amend (h : g.Valid) (stored : g.productions[k]? = some p) (a : Amendment) :
    (g.amend a).productions[k]? = some p := by
  rcases h.amend_cases a with
    ⟨failure, -, same⟩ | ⟨c, rfl, -, -, grown⟩ | ⟨lhs, length, index, rfl, -, -, grown⟩
  · rwa [same]
  · rwa [grown]
  · obtain ⟨inside, rfl⟩ := Array.getElem?_eq_some_iff.1 stored
    rw [grown]
    simp [Array.getElem?_push_lt inside]

theorem getElem?_foldl (h : g.Valid) (stored : g.productions[k]? = some p)
    (later : List Amendment) : (later.foldl Grammar.amend g).productions[k]? = some p := by
  induction later generalizing g with
  | nil => exact stored
  | cons a later ih => exact ih (h.amend a) (h.getElem?_amend stored a)

end Valid

theorem amended_concat (steps : List Amendment) (a : Amendment) :
    amended (steps ++ [a]) = (amended steps).amend a := by
  rw [amended, List.foldl_append]
  rfl

theorem valid_amended (steps : List Amendment) : (amended steps).Valid := by
  induction steps using List.reverseRecOn with
  | nil => exact .empty
  | append_singleton steps a ih =>
    rw [amended_concat]
    exact ih.amend a

theorem answers_concat (g : Grammar) (steps : List Amendment) (a : Amendment) :
    answers g (steps ++ [a]) = answers g steps ++ [(a, (steps.foldl amend g).answer a)] := by
  induction steps generalizing g with
  | nil => rfl
  | cons b steps ih => rw [List.cons_append, answers, answers, ih, List.foldl_cons, List.cons_append]

theorem ruleNumbers_eq_range (steps : List Amendment) :
    ruleNumbers steps = List.range (amended steps).productions.size := by
  induction steps using List.reverseRecOn with
  | nil => rfl
  | append_singleton steps a ih =>
    rw [ruleNumbers, answers_concat, List.filterMap_append, ← ruleNumbers, ih, amended_concat,
      ← amended]
    rcases (valid_amended steps).amend_cases a with
      ⟨failure, refused, same⟩ | ⟨c, rfl, -, -, grown⟩ |
        ⟨lhs, length, index, rfl, -, granted, grown⟩
    · rw [refused, same]
      simp [ruleNumber?]
    · rw [grown]
      simp [ruleNumber?]
    · rw [granted, grown, Array.size_push, List.range_succ]
      rfl

/-- After any symbols and rules, granted or refused: the left-hand side of each production is
found under its index, as a nonterminal of its name. The granted rules were numbered from zero
on; each was one for a nonterminal that the table had by then, and its number stands for the
production of that nonterminal and length ever after. A refusal changes nothing. -/
theorem amended_productions (steps : List Amendment) :
    let g := amended steps
    (∀ p ∈ g.productions, g.table.get? p.lhs = some ⟨p.lhs, p.lhsName, .nonterminal⟩) ∧
    ruleNumbers steps = List.range g.productions.size ∧
    (∀ lhs length k, g.answer (.rule lhs length) = .ok k →
      k = (ruleNumbers steps).length ∧
      ∃ index, g.table.lookup? lhs = some ⟨index, lhs, .nonterminal⟩ ∧
        ∀ later, (amended (steps ++ .rule lhs length :: later)).production k =
          .ok ⟨index, lhs, length⟩) ∧
    ∀ a failure, g.answer a = .error failure → g.amend a = g := by
  intro g
  have valid : g.Valid := valid_amended steps
  refine ⟨fun p hp => valid.sound.get?_eq_some_iff.2 ⟨valid.named p hp, rfl⟩,
    ruleNumbers_eq_range steps, fun lhs length k granted => ?_, fun a failure refused => ?_⟩
  · rcases valid.amend_cases (.rule lhs length) with
      ⟨failure, refused, -⟩ | ⟨c, other, -⟩ | ⟨_, _, index, same, mem, numbered, grown⟩
    · rw [refused] at granted
      cases granted
    · cases other
    · cases same
      obtain rfl := Except.ok.inj (numbered.symm.trans granted)
      refine ⟨by rw [ruleNumbers_eq_range, List.length_range], index,
        valid.sound.lookup?_eq_some_iff.2 ⟨mem, rfl⟩, fun later => ?_⟩
      have stored : (g.amend (.rule lhs length)).productions[g.productions.size]? =
          some ⟨index, lhs, length⟩ := by
        rw [grown]
        exact Array.getElem?_push_size
      have kept := (valid.amend (.rule lhs length)).getElem?_foldl stored later
      have split : amended (steps ++ .rule lhs length :: later) =
          later.foldl amend (g.amend (.rule lhs length)) := by
        rw [amended, List.foldl_append]
        rfl
      rw [split, production, kept]
  · rcases valid.amend_cases a with
      ⟨_, -, same⟩ | ⟨c, rfl, -, ⟨index, granted⟩, -⟩ | ⟨_, _, _, rfl, -, granted, -⟩
    · exact same
    · rw [granted] at refused
      cases refused
    · rw [granted] at refused
      cases refused

theorem amended_productions_refusals :
    let steps : List Amendment :=
      [.symbol (.terminal 0 "NUM"), .rule "E" 1, .symbol (.nonterminal 2 "E"), .rule "E" 3,
        .symbol (.terminal 2 "x"), .rule "NUM" 1]
    ruleNumbers steps = [0] ∧
    ∀ later, (amended (steps ++ .rule "E" 1 :: later)).production 1 = .ok ⟨2, "E", 1⟩ := by
  intro steps
  obtain ⟨-, numbered, stable, -⟩ := amended_productions steps
  obtain ⟨-, index, found, kept⟩ := stable "E" 1 1 rfl
  have same : (amended steps).table.lookup? "E" = some ⟨2, "E", .nonterminal⟩ := rfl
  obtain ⟨rfl, -⟩ := Symbol.mk.inj (Option.some.inj (found.symm.trans same))
  exact ⟨numbered, kept⟩

end Grammar

end ParseTrace
