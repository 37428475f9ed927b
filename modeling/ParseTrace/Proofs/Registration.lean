import ParseTrace.Proofs.Occurrences
import ParseTrace.Proofs.SymbolTable

/-!
Symbol tables over any history of registrations, granted and refused. Whatever was asked so far,
a table holds what was granted, in the order of the indices, and finds it by index and by name
alike; and what it holds it keeps.
-/

namespace ParseTrace

inductive Registration where
  | symbol (s : Symbol)
  | terminal (index : UInt32) (name : String)
  | nonterminal (index : UInt32) (name : String)

def Registration.wanted : Registration → Symbol
  | .symbol s => s
  | .terminal index name => ⟨index, name, .terminal⟩
  | .nonterminal index name => ⟨index, name, .nonterminal⟩

namespace SymbolTable

def perform (t : SymbolTable) : Registration → Except Failure UInt32 × SymbolTable
  | .symbol s => t.register s
  | .terminal index name => t.terminal index name
  | .nonterminal index name => t.nonterminal index name

def history (calls : List Registration) : SymbolTable :=
  calls.foldl (fun t c => (t.perform c).2) {}

def Registered (calls : List Registration) (s : Symbol) : Prop :=
  ∃ before c after index, calls = before ++ c :: after ∧ c.wanted = s ∧
    ((history before).perform c).1 = .ok index

variable {t : SymbolTable} {s : Symbol} {calls : List Registration}

theorem perform_eq_register (t : SymbolTable) (c : Registration) :
    t.perform c = t.register c.wanted := by
  cases c <;> rfl

namespace Sound

theorem perform (h : t.Sound) (c : Registration) : (t.perform c).2.Sound := by
  rw [perform_eq_register]
  exact h.register c.wanted

theorem mem_register_iff (h : t.Sound) {r : Symbol} :
    s ∈ (t.register r).2.symbols ↔
      s ∈ t.symbols ∨ r = s ∧ ∃ index, (t.register r).1 = .ok index := by
  rcases h.register_cases r with ⟨failure, -, refused⟩ | ⟨-, registered⟩
  · simp [refused]
  · simp [registered, or_comm, eq_comm]

end Sound

theorem history_concat (calls : List Registration) (c : Registration) :
    history (calls ++ [c]) = ((history calls).perform c).2 := by
  rw [history, List.foldl_append]
  rfl

theorem sound_history (calls : List Registration) : (history calls).Sound := by
  induction calls using List.reverseRecOn with
  | nil => exact .empty
  | append_singleton calls c ih =>
    rw [history_concat]
    exact ih.perform c

theorem Registered.append (h : Registered calls s) (later : List Registration) :
    Registered (calls ++ later) s := by
  obtain ⟨before, c, after, index, rfl, wanted, granted⟩ := h
  exact ⟨before, c, after ++ later, index, by simp, wanted, granted⟩

theorem registered_concat_iff {c : Registration} :
    Registered (calls ++ [c]) s ↔
      Registered calls s ∨ c.wanted = s ∧ ∃ index, ((history calls).perform c).1 = .ok index := by
  simp only [Registered, exists_and_left]
  exact exists_occurrence_concat_iff

theorem mem_history_iff : s ∈ (history calls).symbols ↔ Registered calls s := by
  induction calls using List.reverseRecOn with
  | nil => simp [history, Registered]
  | append_singleton calls c ih =>
    rw [history_concat, registered_concat_iff, perform_eq_register,
      (sound_history calls).mem_register_iff, ih]

/-- After any registrations the table is a two-way assignment of indices and names. It lists what
was granted by ascending index, each symbol once, and the two kinds apart. A registration is
granted exactly if neither its index nor its name is taken, and otherwise refused for the holder
of the index or else of the name; a refusal changes nothing. What was granted is found by its
index and by its name ever after. -/
theorem history_two_way (calls : List Registration) :
    let t := history calls
    (∀ index s, t.get? index = some s → s.index = index ∧ t.lookup? s.name = some s) ∧
    (∀ name s, t.lookup? name = some s → s.name = name ∧ t.get? s.index = some s) ∧
    t.symbols.Pairwise (·.index < ·.index) ∧
    (∀ s, s ∈ t.symbols ↔ Registered calls s) ∧
    t.terminals = t.symbols.filter (·.kind = .terminal) ∧
    t.nonterminals = t.symbols.filter (·.kind = .nonterminal) ∧
    (∀ c, (t.perform c).1 = .ok c.wanted.index ↔
      ∀ s, Registered calls s → s.index ≠ c.wanted.index ∧ s.name ≠ c.wanted.name) ∧
    (∀ c failure, (t.perform c).1 = .error failure ↔ Clash t.symbols c.wanted failure) ∧
    (∀ c failure, (t.perform c).1 = .error failure → (t.perform c).2 = t) ∧
    ∀ later s, Registered calls s →
      (history (calls ++ later)).get? s.index = some s ∧
      (history (calls ++ later)).lookup? s.name = some s := by
  intro t
  have sound : t.Sound := sound_history calls
  refine ⟨fun index s found => ?_, fun name s found => ?_, sound.ascending,
    fun s => mem_history_iff, ?_, ?_, fun c => ?_, fun c failure => ?_, fun c failure refused => ?_,
    fun later s registered => ?_⟩
  · obtain ⟨mem, rfl⟩ := sound.get?_eq_some_iff.1 found
    exact ⟨rfl, sound.lookup?_eq_some_iff.2 ⟨mem, rfl⟩⟩
  · obtain ⟨mem, rfl⟩ := sound.lookup?_eq_some_iff.1 found
    exact ⟨rfl, sound.get?_eq_some_iff.2 ⟨mem, rfl⟩⟩
  · rfl
  · refine List.filter_congr fun s _ => ?_
    cases kind : s.kind <;> simp [Symbol.isTerminal, kind]
  · simp only [← mem_history_iff]
    rw [perform_eq_register, ← sound.register_eq_ok_iff]
    rcases sound.register_cases c.wanted with ⟨failure, -, refused⟩ | ⟨-, granted⟩
    · simp [refused]
    · simp [granted]
  · rw [perform_eq_register]
    exact sound.register_eq_error_iff
  · rw [perform_eq_register] at refused ⊢
    rcases sound.register_cases c.wanted with ⟨actual, -, same⟩ | ⟨-, granted⟩
    · rw [same]
    · rw [granted] at refused
      cases refused
  · have kept := mem_history_iff.2 (registered.append later)
    have sound' := sound_history (calls ++ later)
    exact ⟨sound'.get?_eq_some_iff.2 ⟨kept, rfl⟩, sound'.lookup?_eq_some_iff.2 ⟨kept, rfl⟩⟩

theorem history_two_way_crosswise :
    let calls : List Registration :=
      [.terminal 7 "NUM", .nonterminal 1 "expr", .terminal 7 "expr", .symbol ⟨3, "NUM", .nonterminal⟩]
    ((history calls).perform (.terminal 7 "expr")).1 = .error (.duplicateIndex 7 "NUM") ∧
    ((history calls).perform (.nonterminal 3 "expr")).1 = .error (.duplicateName "expr" 1) ∧
    ∀ later, (history (calls ++ later)).lookup? "NUM" = some ⟨7, "NUM", .terminal⟩ := by
  intro calls
  obtain ⟨-, -, -, -, -, -, -, refused, -, kept⟩ := history_two_way calls
  have number : (⟨7, "NUM", .terminal⟩ : Symbol) ∈ (history calls).symbols := by decide
  have expression : (⟨1, "expr", .nonterminal⟩ : Symbol) ∈ (history calls).symbols := by decide
  refine ⟨(refused _ _).2 ?_, (refused _ _).2 ?_, fun later => ?_⟩
  · exact .index number rfl
  · exact .name (by decide) expression rfl
  · exact (kept later ⟨7, "NUM", .terminal⟩ ⟨[], _, _, 7, rfl, rfl, rfl⟩).2

end SymbolTable

end ParseTrace
