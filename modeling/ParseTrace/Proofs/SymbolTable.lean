import Mathlib
import ParseTrace.Grammar

/-!
Symbol tables as one-to-one assignments. What is registered keeps the indices in ascending
order and every name with the index of its symbol, so a symbol is known by its index and by its
name alike, and a name is looked up as the one symbol that has it.
-/

namespace ParseTrace

namespace SymbolTable

structure Sound (t : SymbolTable) : Prop where
  ascending : t.symbols.Pairwise (·.index < ·.index)
  numbered : ∀ {name : String} {index : UInt32}, t.numbers.lookup name = some index ↔
    ∃ s ∈ t.symbols, s.name = name ∧ s.index = index

variable {t : SymbolTable} {s r : Symbol}

theorem place_perm (s : Symbol) (symbols : List Symbol) : (place s symbols).Perm (s :: symbols) := by
  induction symbols with
  | nil => exact .refl _
  | cons r rest ih =>
    rw [place]
    split
    · exact .refl _
    · exact (ih.cons r).trans (.swap s r rest)

theorem pairwise_place {symbols : List Symbol} (ascending : symbols.Pairwise (·.index < ·.index))
    (fresh : ∀ r ∈ symbols, r.index ≠ s.index) :
    (place s symbols).Pairwise (·.index < ·.index) := by
  induction symbols with
  | nil => exact List.pairwise_singleton _ _
  | cons r rest ih =>
    obtain ⟨first, later⟩ := List.pairwise_cons.1 ascending
    rw [place]
    split
    · next before =>
      refine List.pairwise_cons.2 ⟨fun q hq => ?_, ascending⟩
      rcases List.mem_cons.1 hq with rfl | hq
      · exact before
      · exact UInt32.lt_trans before (first q hq)
    · next behind =>
      have above : r.index < s.index :=
        UInt32.lt_of_le_of_ne (UInt32.not_lt.1 behind) (fresh r List.mem_cons_self)
      refine List.pairwise_cons.2
        ⟨fun q hq => ?_, ih later fun q hq => fresh q (List.mem_cons_of_mem _ hq)⟩
      rcases List.mem_cons.1 ((place_perm s rest).mem_iff.1 hq) with rfl | hq
      · exact above
      · exact first q hq

@[simp] theorem mem_insert : s ∈ (t.insert r).symbols ↔ s = r ∨ s ∈ t.symbols := by
  rw [insert, (place_perm r t.symbols).mem_iff, List.mem_cons]

theorem get?_eq_none_iff {index : UInt32} :
    t.get? index = none ↔ ∀ r ∈ t.symbols, r.index ≠ index := by
  simp [get?, List.find?_eq_none]

/-- What a registration reports if these symbols have been registered; the index comes first. -/
inductive Clash (known : List Symbol) (s : Symbol) : Failure → Prop
  | index {holder : Symbol} : holder ∈ known → holder.index = s.index →
      Clash known s (.duplicateIndex s.index holder.name)
  | name {holder : Symbol} : (∀ r ∈ known, r.index ≠ s.index) → holder ∈ known →
      holder.name = s.name → Clash known s (.duplicateName s.name holder.index)

inductive Misnamed (known : List Symbol) (name : String) (kind : SymbolKind) : Failure → Prop
  | unknown : (∀ r ∈ known, r.name ≠ name) → Misnamed known name kind (.unknownSymbol name)
  | other {s : Symbol} : s ∈ known → s.name = name → s.kind ≠ kind →
      Misnamed known name kind (.wrongSymbolKind name kind)

namespace Sound

theorem empty : Sound {} where
  ascending := .nil
  numbered := by simp

theorem eq_of_index (h : t.Sound) (hs : s ∈ t.symbols) (hr : r ∈ t.symbols)
    (same : s.index = r.index) : s = r := by
  have distinct : (t.symbols.map Symbol.index).Nodup :=
    (List.pairwise_map.2 h.ascending).imp UInt32.ne_of_lt
  exact List.inj_on_of_nodup_map distinct hs hr same

theorem eq_of_name (h : t.Sound) (hs : s ∈ t.symbols) (hr : r ∈ t.symbols)
    (same : s.name = r.name) : s = r := by
  have first := h.numbered.2 ⟨s, hs, same, rfl⟩
  have second := h.numbered.2 ⟨r, hr, rfl, rfl⟩
  exact h.eq_of_index hs hr (Option.some.inj (first.symm.trans second))

theorem get?_eq_some_iff (h : t.Sound) {index : UInt32} :
    t.get? index = some s ↔ s ∈ t.symbols ∧ s.index = index := by
  constructor
  · intro found
    exact ⟨List.mem_of_find?_eq_some found, by simpa using List.find?_some found⟩
  · rintro ⟨hs, rfl⟩
    cases found : t.get? s.index with
    | none => exact absurd rfl (get?_eq_none_iff.1 found s hs)
    | some r =>
      have same : r.index = s.index := by simpa using List.find?_some found
      rw [h.eq_of_index (List.mem_of_find?_eq_some found) hs same]

theorem lookup?_eq_some_iff (h : t.Sound) {name : String} :
    t.lookup? name = some s ↔ s ∈ t.symbols ∧ s.name = name := by
  simp only [lookup?, Option.bind_eq_some_iff, h.numbered, h.get?_eq_some_iff]
  constructor
  · rintro ⟨_, ⟨r, hr, rfl, rfl⟩, hs, same⟩
    exact ⟨hs, by rw [h.eq_of_index hs hr same]⟩
  · rintro ⟨hs, rfl⟩
    exact ⟨s.index, ⟨s, hs, rfl, rfl⟩, hs, rfl⟩

theorem lookup_eq_none_iff (h : t.Sound) {name : String} :
    t.numbers.lookup name = none ↔ ∀ r ∈ t.symbols, r.name ≠ name := by
  rw [Option.eq_none_iff_forall_ne_some]
  constructor
  · intro none r hr same
    exact none r.index (h.numbered.2 ⟨r, hr, same, rfl⟩)
  · intro free index found
    obtain ⟨r, hr, same, -⟩ := h.numbered.1 found
    exact free r hr same

/-- A registration is refused for a clash and changes nothing, or it adds a symbol of a new index
and a new name. -/
theorem register_cases (h : t.Sound) (s : Symbol) :
    (∃ failure, Clash t.symbols s failure ∧ t.register s = (.error failure, t)) ∨
    (∀ r ∈ t.symbols, r.index ≠ s.index ∧ r.name ≠ s.name) ∧
      t.register s = (.ok s.index, t.insert s) := by
  rw [SymbolTable.register]
  cases index : t.get? s.index with
  | some holder =>
    obtain ⟨mem, same⟩ := h.get?_eq_some_iff.1 index
    exact .inl ⟨_, .index mem same, rfl⟩
  | none =>
    have free := get?_eq_none_iff.1 index
    cases name : t.numbers.lookup s.name with
    | some existing =>
      obtain ⟨holder, mem, same, rfl⟩ := h.numbered.1 name
      exact .inl ⟨_, .name free mem same, rfl⟩
    | none =>
      have unnamed := h.lookup_eq_none_iff.1 name
      exact .inr ⟨fun r hr => ⟨free r hr, unnamed r hr⟩, rfl⟩

theorem insert (h : t.Sound) (fresh : ∀ r ∈ t.symbols, r.index ≠ s.index ∧ r.name ≠ s.name) :
    (t.insert s).Sound where
  ascending := pairwise_place h.ascending fun r hr => (fresh r hr).1
  numbered := by
    intro name index
    simp only [SymbolTable.insert, List.lookup_cons, (place_perm s t.symbols).mem_iff,
      List.mem_cons, exists_eq_or_imp]
    cases same : name == s.name with
    | true =>
      -- no older symbol has the name, so only the new one can be found by it
      obtain rfl := eq_of_beq same
      have old : ¬ ∃ r ∈ t.symbols, r.name = s.name ∧ r.index = index :=
        fun ⟨r, hr, named, _⟩ => (fresh r hr).2 named
      simp [old]
    | false =>
      have other : s.name ≠ name := fun eq => by simp [eq] at same
      simp [other, h.numbered]

theorem register (h : t.Sound) (s : Symbol) : (t.register s).2.Sound := by
  rcases h.register_cases s with ⟨failure, -, refused⟩ | ⟨fresh, registered⟩
  · rw [refused]
    exact h
  · rw [registered]
    exact h.insert fresh

theorem clash_unique (h : t.Sound) {failure other : Failure} (first : Clash t.symbols s failure)
    (second : Clash t.symbols s other) : failure = other := by
  cases first with
  | index mem same =>
    cases second with
    | index mem' same' => rw [h.eq_of_index mem mem' (same.trans same'.symm)]
    | name free => exact absurd same (free _ mem)
  | name free mem same =>
    cases second with
    | index mem' same' => exact absurd same' (free _ mem')
    | name _ mem' same' => rw [h.eq_of_name mem mem' (same.trans same'.symm)]

theorem not_clash {failure : Failure}
    (fresh : ∀ r ∈ t.symbols, r.index ≠ s.index ∧ r.name ≠ s.name) :
    ¬ Clash t.symbols s failure := by
  rintro (⟨mem, same⟩ | ⟨-, mem, same⟩)
  · exact (fresh _ mem).1 same
  · exact (fresh _ mem).2 same

theorem register_eq_ok_iff (h : t.Sound) :
    (∃ index, (t.register s).1 = .ok index) ↔
      ∀ r ∈ t.symbols, r.index ≠ s.index ∧ r.name ≠ s.name := by
  rcases h.register_cases s with ⟨failure, clash, refused⟩ | ⟨fresh, registered⟩
  · rw [refused]
    exact ⟨nofun, fun fresh => absurd clash (not_clash fresh)⟩
  · rw [registered]
    exact ⟨fun _ => fresh, fun _ => ⟨s.index, rfl⟩⟩

theorem register_eq_error_iff (h : t.Sound) {failure : Failure} :
    (t.register s).1 = .error failure ↔ Clash t.symbols s failure := by
  rcases h.register_cases s with ⟨actual, clash, refused⟩ | ⟨fresh, registered⟩
  · rw [refused]
    constructor
    · rintro ⟨⟩
      exact clash
    · intro given
      rw [h.clash_unique given clash]
  · rw [registered]
    exact ⟨nofun, fun clash => absurd clash (not_clash fresh)⟩

theorem expect_eq_ok_iff (h : t.Sound) {name : String} {kind : SymbolKind} :
    t.expect name kind = .ok s ↔ s ∈ t.symbols ∧ s.name = name ∧ s.kind = kind := by
  rw [expect]
  cases looked : t.lookup? name with
  | none =>
    simp only [reduceCtorEq, false_iff, not_and]
    intro hs named
    rw [h.lookup?_eq_some_iff.2 ⟨hs, named⟩] at looked
    cases looked
  | some r =>
    obtain ⟨hr, named⟩ := h.lookup?_eq_some_iff.1 looked
    by_cases kinds : r.kind = kind
    · simp only [kinds, if_true, Except.ok.injEq]
      constructor
      · rintro rfl
        exact ⟨hr, named, kinds⟩
      · rintro ⟨hs, same, -⟩
        exact h.eq_of_name hr hs (named.trans same.symm)
    · simp only [kinds, if_false, reduceCtorEq, false_iff, not_and]
      intro hs same
      rwa [h.eq_of_name hs hr (same.trans named.symm)]

theorem expect_eq_error_iff (h : t.Sound) {name : String} {kind : SymbolKind} {failure : Failure} :
    t.expect name kind = .error failure ↔ Misnamed t.symbols name kind failure := by
  rw [expect]
  cases looked : t.lookup? name with
  | none =>
    have free : ∀ r ∈ t.symbols, r.name ≠ name := by
      intro r hr named
      rw [h.lookup?_eq_some_iff.2 ⟨hr, named⟩] at looked
      cases looked
    constructor
    · rintro ⟨⟩
      exact .unknown free
    · rintro (_ | ⟨hs, named, -⟩)
      · rfl
      · exact absurd named (free _ hs)
  | some r =>
    obtain ⟨hr, named⟩ := h.lookup?_eq_some_iff.1 looked
    by_cases kinds : r.kind = kind
    · simp only [kinds, if_true, reduceCtorEq, false_iff]
      rintro (free | ⟨hs, same, other⟩)
      · exact free r hr named
      · exact other (h.eq_of_name hs hr (same.trans named.symm) ▸ kinds)
    · simp only [kinds, if_false, Except.error.injEq]
      constructor
      · rintro rfl
        exact .other hr named kinds
      · rintro (free | ⟨-, -, -⟩)
        · exact absurd named (free r hr)
        · rfl

end Sound

end SymbolTable

theorem Grammar.addRule_cases {g : Grammar} (h : g.table.Sound) (lhs : String) (length : Nat) :
    (∃ failure, SymbolTable.Misnamed g.table.symbols lhs .nonterminal failure ∧
      g.addRule lhs length = (.error failure, g)) ∨
    ∃ index, ⟨index, lhs, .nonterminal⟩ ∈ g.table.symbols ∧
      g.addRule lhs length = (.ok g.productions.size,
        { g with productions := g.productions.push ⟨index, lhs, length⟩ }) := by
  rw [addRule]
  cases found : g.table.expect lhs .nonterminal with
  | error failure => exact .inl ⟨failure, h.expect_eq_error_iff.1 found, rfl⟩
  | ok s =>
    obtain ⟨mem, rfl, kind⟩ := h.expect_eq_ok_iff.1 found
    exact .inr ⟨s.index, kind ▸ mem, rfl⟩

end ParseTrace
