import ParseTrace.Proofs.Script.Run

/-!
The symbols of the tree that a script builds. A grammar takes its symbols from the declarations
one to one, its productions copy the symbols of their left-hand sides, and resolved tokens copy
terminals; so each node shows a declared symbol of its own kind, and the symbol number alone
tells which.
-/

namespace ParseTrace

def Entry.declaration : Entry → Symbol
  | .token symbol name _ _ => ⟨symbol, name, .terminal⟩
  | .interior symbol name _ => ⟨symbol, name, .nonterminal⟩

theorem Node.declaration_entry (n : Node) : n.entry.declaration =
    ⟨n.symbol, n.name, if n.isToken then .terminal else .nonterminal⟩ := by
  unfold Node.entry Node.isToken
  cases n.payload <;> rfl

def Production.entry (p : Production) : Entry :=
  .interior p.lhs p.lhsName p.length

/-- What a script declares of an entry: its symbol, and under an interior entry a rule with that
symbol on its left and with as many entries on its right as there are children. -/
def Script.Declares (script : Script) : Entry → Prop
  | .token symbol name _ _ => ⟨symbol, name, .terminal⟩ ∈ script.symbols
  | .interior symbol name children => ⟨symbol, name, .nonterminal⟩ ∈ script.symbols ∧
      ∃ rule ∈ script.rules, rule.lhs = name ∧ rule.length.toNat = children

theorem Script.Declares.declaration {script : Script} {e : Entry} (h : script.Declares e) :
    e.declaration ∈ script.symbols := by
  cases e with
  | token symbol name lexeme line => exact h
  | interior symbol name children => exact h.1

namespace Script

variable {script : Script} {s : Session} {t : Tree} {g : Grammar}

theorem declares_of_slot? (declared : script.grammar = .ok g) {events : List Event}
    (resolved : resolveAll g script.events = .ok events) {event : Event} (mem : event ∈ events)
    {e : Entry} (made : event.slot? g = some e) : script.Declares e := by
  cases event with
  | shift token =>
    obtain rfl := Option.some.inj made
    obtain ⟨_, -, resolves⟩ := exists_of_mem_right (resolves_of_resolveAll declared resolved) mem
    cases resolves with
    | shift terminal => exact terminal
  | reduce rule =>
    obtain ⟨p, found, rfl⟩ := Option.map_eq_some_iff.1 made
    obtain ⟨r, hr, symbol, lhs, length⟩ :=
      exists_rule_of_production declared (Array.mem_of_getElem? found)
    exact ⟨symbol, r, hr, lhs.symm, length.symm⟩
  | accept => cases made

theorem declares_of_run (done : (script.run s).1 = .ok t) :
    ∀ n ∈ t.nodes, script.Declares n.entry := by
  obtain ⟨g, events, b, declared, resolved, replayed⟩ := exists_events_of_run done
  have made := ((Builder.Made.fresh s).replay replayed).1
  rw [List.nil_append] at made
  intro n hn
  have entry : n.entry ∈ t.entries := List.mem_map_of_mem (Array.mem_toList_iff.2 hn)
  obtain ⟨event, listed, shown⟩ := List.mem_map.1 (made ▸ List.mem_map_of_mem entry)
  exact declares_of_slot? declared resolved ((List.takeWhile_sublist _).subset listed) shown

theorem symbols_injective (declared : script.grammar = .ok g) {a b : Symbol}
    (ha : a ∈ script.symbols) (hb : b ∈ script.symbols) (same : a.index = b.index ∨ a.name = b.name) :
    a = b := by
  obtain ⟨sound, perm, -⟩ := grammar_eq_ok declared
  have ha := perm.mem_iff.2 ha
  have hb := perm.mem_iff.2 hb
  rcases same with index | name
  · exact sound.eq_of_index ha hb index
  · exact sound.eq_of_name ha hb name

/-- Every token of the tree that a script builds shows a declared terminal, and every interior
node a declared nonterminal with a rule of as many entries as the node has children. Two nodes
have the same symbol number exactly if they have the same name, and then both are tokens or
neither is. -/
theorem run_symbols_identify (done : (script.run s).1 = .ok t) :
    (∀ n ∈ t.nodes, script.Declares n.entry) ∧
    ∀ n ∈ t.nodes, ∀ m ∈ t.nodes, (n.symbol = m.symbol ↔ n.name = m.name) ∧
      (n.symbol = m.symbol → n.isToken = m.isToken) := by
  have each := declares_of_run done
  obtain ⟨g, -, -, declared, -⟩ := exists_events_of_run done
  refine ⟨each, fun n hn m hm => ?_⟩
  have equal (same : n.symbol = m.symbol ∨ n.name = m.name) :
      n.symbol = m.symbol ∧ n.name = m.name ∧ n.isToken = m.isToken := by
    have one := symbols_injective declared (each n hn).declaration (each m hm).declaration
    simp only [Node.declaration_entry] at one
    obtain ⟨symbol, name, kind⟩ := Symbol.mk.inj (one same)
    refine ⟨symbol, name, ?_⟩
    cases hn : n.isToken <;> cases hm : m.isToken <;> simp [hn, hm] at kind ⊢
  exact ⟨⟨fun h => (equal (.inl h)).2.1, fun h => (equal (.inr h)).1⟩,
    fun h => (equal (.inl h)).2.2⟩

theorem run_symbols_identify_option :
    let script : Script :=
      { symbols := [⟨7, "stmt", .nonterminal⟩, ⟨0, "ID", .terminal⟩, ⟨3, "opt", .nonterminal⟩]
        rules := [⟨"stmt", 2⟩, ⟨"opt", 0⟩]
        events := [.shift "ID" "x" 1, .reduce 1, .reduce 0, .accept] }
    ∃ t, (script.run ⟨"in.php", 0⟩).1 = .ok t ∧ ∀ n ∈ t.nodes, ∀ m ∈ t.nodes,
      (n.symbol = m.symbol ↔ n.name = m.name) ∧ (n.symbol = m.symbol → n.isToken = m.isToken) := by
  intro script
  have builds : (script.run ⟨"in.php", 0⟩).1.isOk = true := by decide +kernel
  cases done : (script.run ⟨"in.php", 0⟩).1 with
  | error failure =>
    rw [done] at builds
    cases builds
  | ok t => exact ⟨t, rfl, (run_symbols_identify done).2⟩

end Script

end ParseTrace
