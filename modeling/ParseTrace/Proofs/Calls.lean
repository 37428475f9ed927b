import ParseTrace.Proofs.Builder
import ParseTrace.Proofs.Numbering

/-!
The states that calls bring a builder to. Before its accept each call either leaves the
builder as it was or makes one edit of the arena, so the results stack stays in order; after
it nothing changes any more.
-/

namespace ParseTrace.Builder

def after (b : Builder) : Call → Builder
  | .shift token => (b.shift token).2
  | .reduce p => (b.reduce p).2
  | .accept => b.accept.2
  | .error failure => b.error failure

def run (s : Session) (calls : List Call) : Builder :=
  calls.foldl after { session := s }

/-- A state of a builder. Others may draw on its counter, so between two calls the next
identifier can become any. -/
inductive Reached : Builder → Prop
  | fresh (s : Session) : Reached { session := s }
  | call {b : Builder} (c : Call) : Reached b → Reached (b.after c)
  | elsewhere {b : Builder} (id : UInt64) : Reached b →
      Reached { b with session := { b.session with nextId := id } }

variable {b : Builder} {f : Forest Nat}

theorem after_finished (h : b.finished = true) (c : Call) : b.after c = b := by
  cases c <;> simp [after, shift, reduce, accept, error, h]

theorem Open.after_cases (h : b.Open f) (c : Call) :
    b.after c = b ∨ (b.after c).finished = true ∨
    ∃ f', (b.after c).Open f' ∧
      Tree.EditStep (b.tree, b.session) ((b.after c).tree, (b.after c).session) := by
  cases c with
  | shift token =>
    right; right
    refine ⟨_, h.shift token, .token token, ?_⟩
    rw [after, h.shift_eq token]
    rfl
  | reduce p =>
    by_cases enough : p.length ≤ b.depth
    · right; right
      obtain ⟨kept, taken, -, -, opened⟩ := h.reduce enough
      refine ⟨_, opened, .interior p.lhs p.lhsName (b.stack.take p.length).reverse, ?_⟩
      have arena := h.stacked
      rw [Open.reverse_stack b p.length] at arena
      simp only [after, h.reduce_eq enough, Tree.edit, arena.pushInterior_ok]
    · left
      rw [after, h.reduce_underflow (Nat.lt_of_not_le enough)]
  | accept =>
    rcases h.accept_cases with ⟨root, -, done⟩ | ⟨-, refused⟩
    · right; left
      rw [after, done]
    · left
      rw [after, refused]
  | error failure => exact .inl rfl

theorem Reached.opened (h : b.Reached) (unfinished : b.finished = false) :
    ∃ f, b.Open f := by
  induction h with
  | fresh s => exact ⟨_, open_fresh s⟩
  | @call b c _ ih =>
    by_cases before : b.finished = true
    · rw [after_finished before, before] at unfinished
      cases unfinished
    · obtain ⟨f, opened⟩ := ih (Bool.not_eq_true _ ▸ before)
      rcases opened.after_cases c with same | ended | ⟨f', next, -⟩
      · exact ⟨f, by rwa [same]⟩
      · rw [ended] at unfinished
        cases unfinished
      · exact ⟨f', next⟩
  | elsewhere id _ ih =>
    obtain ⟨f, opened⟩ := ih unfinished
    exact ⟨f, opened.unfinished, opened.stacked⟩

theorem run_concat (s : Session) (calls : List Call) (c : Call) :
    run s (calls ++ [c]) = (run s calls).after c := by
  rw [run, List.foldl_append]
  rfl

theorem reached_run (s : Session) (calls : List Call) : (run s calls).Reached := by
  induction calls using List.reverseRecOn with
  | nil => exact .fresh s
  | append_singleton calls c ih =>
    rw [run_concat]
    exact .call c ih

theorem unfinished_of_accept {t : Tree} {b' : Builder} (accepted : b.accept = (.ok t, b')) :
    b.finished = false := by
  cases ended : b.finished with
  | false => rfl
  | true => simp [accept, ended] at accepted

theorem Reached.stacked_of_accept (h : b.Reached) {t : Tree} {b' : Builder}
    (accepted : b.accept = (.ok t, b')) : ∃ root f, t.root = some root ∧ t.Stacked [root] f := by
  obtain ⟨f, opened⟩ := h.opened (unfinished_of_accept accepted)
  obtain ⟨root, rfl, arena⟩ := opened.stacked_of_accept accepted
  exact ⟨root, f, rfl, arena⟩

theorem run_becomes (s : Session) (calls : List Call) :
    (run s calls).finished = true ∨
    ∃ f, (run s calls).Open f ∧
      Tree.Becomes ({}, s) ((run s calls).tree, (run s calls).session) := by
  induction calls using List.reverseRecOn with
  | nil => exact .inr ⟨_, open_fresh s, .refl⟩
  | append_singleton calls c ih =>
    rw [run_concat]
    rcases ih with ended | ⟨f, opened, path⟩
    · rw [after_finished ended]
      exact .inl ended
    · rcases opened.after_cases c with same | ended | ⟨f', next, step⟩
      · rw [same]
        exact .inr ⟨f, opened, path⟩
      · exact .inl ended
      · exact .inr ⟨f', next, path.tail step⟩

end ParseTrace.Builder
