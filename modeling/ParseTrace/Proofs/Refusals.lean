import ParseTrace.Proofs.Calls

/-!
The calls that a builder refuses. After its accept it refuses every decision; before, a
reduce that asks for more than the results stack holds and an accept of other than one
entry. No arena fault shows through, and a refused call might as well not have been made.
-/

namespace ParseTrace.Builder

def answer (b : Builder) : Call → Except Failure (Option Tree)
  | .shift token => (b.shift token).1.map fun _ => none
  | .reduce p => (b.reduce p).1.map fun _ => none
  | .accept => b.accept.1.map some
  | .error _ => .ok none

def answers : Builder → List Call → List (Except Failure (Option Tree))
  | _, [] => []
  | b, c :: later => b.answer c :: answers (b.after c) later

/-- The documented failures: of a builder after its accept, and of a results stack whose
depth does not suit the call. -/
inductive Refuses (b : Builder) : Call → Failure → Prop
  | shift (token : Token) : b.finished = true → Refuses b (.shift token) (.builderFinished .shift)
  | reduce (p : Production) : b.finished = true → Refuses b (.reduce p) (.builderFinished .reduce)
  | accept : b.finished = true → Refuses b .accept (.builderFinished .accept)
  | underflow (p : Production) : b.finished = false → b.depth < p.length →
      Refuses b (.reduce p) (.stackUnderflow p.lhsName p.length b.depth)
  | count : b.finished = false → b.depth ≠ 1 → Refuses b .accept (.acceptCount b.depth)

variable {b : Builder} {f : Forest Nat} {c : Call} {failure : Failure}

theorem Refuses.answer_of_finished (h : b.finished = true) (refused : b.Refuses c failure) :
    b.answer c = .error failure := by
  cases refused with
  | shift token => simp [answer, Builder.shift, h, Except.map]
  | reduce p => simp [answer, Builder.reduce, h, Except.map]
  | accept => simp [answer, Builder.accept, h, Except.map]
  | underflow p unfinished => rw [h] at unfinished; cases unfinished
  | count unfinished => rw [h] at unfinished; cases unfinished

theorem refuses_of_finished (h : b.finished = true) (refused : b.answer c = .error failure) :
    b.Refuses c failure := by
  cases c with
  | shift token =>
    simp only [answer, Builder.shift, h, if_true, Except.map, Except.error.injEq] at refused
    exact refused ▸ .shift token h
  | reduce p =>
    simp only [answer, Builder.reduce, h, if_true, Except.map, Except.error.injEq] at refused
    exact refused ▸ .reduce p h
  | accept =>
    simp only [answer, Builder.accept, h, if_true, Except.map, Except.error.injEq] at refused
    exact refused ▸ .accept h
  | error failure => cases refused

namespace Open

theorem answer_of_refuses (h : b.Open f) (refused : b.Refuses c failure) :
    b.answer c = .error failure := by
  cases refused with
  | shift token finished => rw [h.unfinished] at finished; cases finished
  | reduce p finished => rw [h.unfinished] at finished; cases finished
  | accept finished => rw [h.unfinished] at finished; cases finished
  | underflow p _ short => rw [answer, h.reduce_underflow short]; rfl
  | count _ count => rw [answer, h.accept_count count]; rfl

theorem refuses_of_answer (h : b.Open f) (refused : b.answer c = .error failure) :
    b.Refuses c failure := by
  cases c with
  | shift token =>
    rw [answer, h.shift_eq token] at refused
    cases refused
  | reduce p =>
    by_cases enough : p.length ≤ b.depth
    · rw [answer, h.reduce_eq enough] at refused
      cases refused
    · have short := Nat.lt_of_not_le enough
      rw [answer, h.reduce_underflow short] at refused
      obtain rfl := Except.error.inj refused
      exact .underflow p h.unfinished short
  | accept =>
    rcases h.accept_cases with ⟨root, -, done⟩ | ⟨count, failed⟩
    · rw [answer, done] at refused
      cases refused
    · rw [answer, failed] at refused
      obtain rfl := Except.error.inj refused
      exact .count h.unfinished count
  | error failure => cases refused

theorem after_of_refuses (h : b.Open f) (refused : b.Refuses c failure) : b.after c = b := by
  cases refused with
  | shift token finished => rw [h.unfinished] at finished; cases finished
  | reduce p finished => rw [h.unfinished] at finished; cases finished
  | accept finished => rw [h.unfinished] at finished; cases finished
  | underflow p _ short => rw [after, h.reduce_underflow short]
  | count _ count => rw [after, h.accept_count count]

end Open

namespace Reached

theorem answer_error_iff (h : b.Reached) :
    b.answer c = .error failure ↔ b.Refuses c failure := by
  cases ended : b.finished with
  | true => exact ⟨refuses_of_finished ended, Refuses.answer_of_finished ended⟩
  | false =>
    obtain ⟨f, opened⟩ := h.opened ended
    exact ⟨opened.refuses_of_answer, opened.answer_of_refuses⟩

theorem after_of_refuses (h : b.Reached) (refused : b.Refuses c failure) : b.after c = b := by
  cases ended : b.finished with
  | true => exact after_finished ended c
  | false =>
    obtain ⟨f, opened⟩ := h.opened ended
    exact opened.after_of_refuses refused

end Reached

/-- A call on a builder fails exactly as documented, never with a fault of the arena, and
one that fails leaves the builder as it was, as does the report of a parse error: all later
calls answer as if it had not been made. -/
theorem answer_error_unchanged (h : b.Reached) :
    (∀ c failure, b.answer c = .error failure ↔ b.Refuses c failure) ∧
    (∀ c failure, b.answer c = .error failure →
      (∀ id, failure ≠ .alreadyAttached id) ∧ ∀ i, failure ≠ .danglingIndex i) ∧
    ∀ c, ((∃ failure, b.answer c = .error failure) ∨ ∃ failure, c = .error failure) →
      b.after c = b ∧ ∀ later, b.answers (c :: later) = b.answer c :: b.answers later ∧
        (c :: later).foldl after b = later.foldl after b := by
  refine ⟨fun c failure => h.answer_error_iff, ?_, ?_⟩
  · intro c failure refused
    cases h.answer_error_iff.1 refused <;> exact ⟨nofun, nofun⟩
  · intro c idle
    have same : b.after c = b := by
      rcases idle with ⟨failure, refused⟩ | ⟨failure, rfl⟩
      · exact h.after_of_refuses (h.answer_error_iff.1 refused)
      · rfl
    refine ⟨same, fun later => ⟨?_, ?_⟩⟩
    · rw [answers, same]
    · rw [List.foldl_cons, same]

theorem answer_error_unchanged_underflow :
    (run ⟨"in.php", 0⟩ [.shift ⟨0, "ID", "x", 1⟩]).answers
        [.reduce ⟨1, "pair", 2⟩, .reduce ⟨2, "expr", 1⟩] =
      .error (.stackUnderflow "pair" 2 1) ::
        (run ⟨"in.php", 0⟩ [.shift ⟨0, "ID", "x", 1⟩]).answers [.reduce ⟨2, "expr", 1⟩] := by
  have reached : (run ⟨"in.php", 0⟩ [.shift ⟨0, "ID", "x", 1⟩]).Reached :=
    .call (.shift ⟨0, "ID", "x", 1⟩) (.fresh ⟨"in.php", 0⟩)
  obtain ⟨failures, -, unchanged⟩ := answer_error_unchanged reached
  have refused := (failures (.reduce ⟨1, "pair", 2⟩) (.stackUnderflow "pair" 2 1)).2
    (.underflow ⟨1, "pair", 2⟩ rfl (by decide))
  rw [((unchanged _ (.inl ⟨_, refused⟩)).2 _).1, refused]

end ParseTrace.Builder
