import ParseTrace.Builder
import ParseTrace.Proofs.Stacked

/-!
What the calls of a builder do while it is open. Its results stack holds the detached
nodes of an arena that grows bottom up, so a reduce always finds children that it may
attach, and a call fails only for the stack's depth or after the accept.
-/

namespace ParseTrace.Builder

structure Open (b : Builder) (f : Forest Nat) : Prop where
  unfinished : b.finished = false
  stacked : b.tree.Stacked b.stack.reverse f

theorem open_fresh (s : Session) : Open { session := s } .nil where
  unfinished := rfl
  stacked := .empty

namespace Open

variable {b : Builder} {f : Forest Nat}

theorem shift_eq (h : b.Open f) (token : Token) :
    b.shift token = (.ok (),
      { b with
        tree := (b.tree.pushToken b.session token).2.1
        session := b.session.advance
        stack := b.tree.nodes.size :: b.stack }) := by
  simp only [Builder.shift, h.unfinished, Bool.false_eq_true, if_false]
  rfl

theorem shift (h : b.Open f) (token : Token) :
    (b.shift token).2.Open (f ++ .cons b.tree.nodes.size .nil .nil) := by
  rw [h.shift_eq token]
  refine ⟨h.unfinished, ?_⟩
  simpa only [List.reverse_cons] using h.stacked.pushToken b.session token

theorem reverse_stack (b : Builder) (n : Nat) :
    b.stack.reverse = (b.stack.drop n).reverse ++ (b.stack.take n).reverse := by
  rw [← List.reverse_append, List.take_append_drop]

theorem reduce_eq (h : b.Open f) {p : Production} (enough : p.length ≤ b.depth) :
    b.reduce p = (.ok (),
      { b with
        tree := (b.tree.pushInterior b.session p.lhs p.lhsName
          (b.stack.take p.length).reverse).2.1
        session := b.session.advance
        stack := b.tree.nodes.size :: b.stack.drop p.length }) := by
  have fits : p.overdraws b.stack = false := by
    rw [← Bool.not_eq_true, Production.overdraws_iff]
    exact Nat.not_lt.2 enough
  have arena := h.stacked
  rw [reverse_stack b p.length] at arena
  simp only [Builder.reduce, h.unfinished, Bool.false_eq_true, if_false, fits,
    arena.pushInterior_ok]

theorem reduce (h : b.Open f) {p : Production} (enough : p.length ≤ b.depth) :
    ∃ kept taken, f = kept ++ taken ∧ taken.roots.length = p.length ∧
      (b.reduce p).2.Open (kept ++ .cons b.tree.nodes.size taken .nil) := by
  have arena := h.stacked
  rw [reverse_stack b p.length] at arena
  obtain ⟨kept, taken, rfl, -, newest⟩ := Forest.exists_append_of_roots arena.roots
  refine ⟨kept, taken, rfl, ?_, ?_⟩
  · rw [newest, List.length_reverse, List.length_take]
    exact Nat.min_eq_left enough
  · rw [h.reduce_eq enough]
    refine ⟨h.unfinished, ?_⟩
    simpa only [List.reverse_cons] using
      arena.pushInterior newest b.session p.lhs p.lhsName

theorem reduce_underflow (h : b.Open f) {p : Production} (short : b.depth < p.length) :
    b.reduce p = (.error (.stackUnderflow p.lhsName p.length b.depth), b) := by
  have overdraws : p.overdraws b.stack = true := (p.overdraws_iff b.stack).2 short
  simp only [Builder.reduce, h.unfinished, Bool.false_eq_true, if_false, overdraws, if_true]
  rfl

theorem entries_shift (h : b.Open f) (token : Token) :
    (b.shift token).2.tree.entries =
      b.tree.entries ++ [.token token.symbol token.name token.lexeme token.line] := by
  rw [h.shift_eq token]
  exact Tree.entries_pushToken b.tree b.session token

theorem entries_reduce (h : b.Open f) {p : Production} (enough : p.length ≤ b.depth) :
    (b.reduce p).2.tree.entries =
      b.tree.entries ++ [.interior p.lhs p.lhsName p.length] := by
  have arena := h.stacked
  rw [reverse_stack b p.length] at arena
  have taken : (b.stack.take p.length).reverse.length = p.length := by
    rw [List.length_reverse, List.length_take]
    exact Nat.min_eq_left enough
  rw [h.reduce_eq enough, arena.entries_pushInterior, taken]

theorem accept_eq (h : b.Open f) {root : Nat} (single : b.stack = [root]) :
    b.accept = (.ok { b.tree with root := some root },
      { b with tree := {}, stack := [], finished := true }) := by
  have arena := h.stacked
  rw [single] at arena
  simp only [Builder.accept, h.unfinished, Bool.false_eq_true, if_false, single,
    arena.setRoot_ok]

theorem accept_count (h : b.Open f) (count : b.depth ≠ 1) :
    b.accept = (.error (.acceptCount b.depth), b) := by
  simp only [Builder.accept, h.unfinished, Bool.false_eq_true, if_false]
  split
  · next root single => exact absurd (congrArg List.length single) count
  · rfl

theorem accept_cases (h : b.Open f) :
    (∃ root, b.stack = [root] ∧ b.accept = (.ok { b.tree with root := some root },
      { b with tree := {}, stack := [], finished := true })) ∨
    b.depth ≠ 1 ∧ b.accept = (.error (.acceptCount b.depth), b) := by
  by_cases count : b.depth = 1
  · obtain ⟨root, single⟩ := List.length_eq_one_iff.1 count
    exact .inl ⟨root, single, h.accept_eq single⟩
  · exact .inr ⟨count, h.accept_count count⟩

theorem stacked_of_accept (h : b.Open f) {t : Tree} {b' : Builder}
    (accepted : b.accept = (.ok t, b')) :
    ∃ root, t = { b.tree with root := some root } ∧ t.Stacked [root] f := by
  rcases h.accept_cases with ⟨root, single, done⟩ | ⟨-, refused⟩
  · have arena := h.stacked
    rw [single] at arena
    rw [done] at accepted
    obtain rfl := Except.ok.inj (Prod.mk.inj accepted).1
    exact ⟨root, rfl, arena.withRoot (some root)⟩
  · rw [refused] at accepted
    cases accepted

end Open

end ParseTrace.Builder
