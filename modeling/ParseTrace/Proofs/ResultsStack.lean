import ParseTrace.Proofs.Interleaving
import ParseTrace.Proofs.Unfolding
import ParseTrace.Proofs.Yield

/-!
What the results stack of a builder stands for. Its entries are the nodes that no reduce has taken
yet. Each of them ends a block of the arena that holds all that is below it, and the blocks follow
on each other from the first node to the last; so the tokens below the entries are those that were
shifted, in their order. How many entries there are is known from the granted calls alone.
-/

namespace ParseTrace

def Call.production? : Call → Option Production
  | .reduce p => some p
  | .shift _ | .accept | .error _ => none

namespace Tree

def leaves (t : Tree) (i : Nat) : List Token :=
  (t.describeFrom i).entries.filterMap Entry.token?

/-- From a place on, the arena is divided into blocks. Each ends with one of these entries and
holds the nodes below it, and the last one ends with the arena. -/
inductive Blocks (t : Tree) : Nat → List Nat → Prop
  | none : Blocks t t.nodes.size []
  | block {first entry : Nat} {later : List Nat} : first ≤ entry →
      (∀ i, Relation.ReflTransGen t.Child i entry ↔ first ≤ i ∧ i ≤ entry) →
      Blocks t (entry + 1) later → Blocks t first (entry :: later)

variable {t : Tree} {f : Forest Nat} {stack : List Nat}

/-- Where the post-order goes through consecutive numbers, so it does below each root. -/
theorem Unfolds.blocks (h : t.Unfolds f) {first count : Nat}
    (order : f.postorder = List.range' first count) (size : first + count = t.nodes.size) :
    t.Blocks first f.roots := by
  induction f generalizing first count with
  | nil =>
    have nothing : count = 0 := by simpa [Forest.postorder] using order.symm
    have here : first = t.nodes.size := by omega
    exact here ▸ .none
  | cons i below beside _ ih =>
    obtain ⟨k, le, inner, outer⟩ := List.range'_eq_append_iff.1 order.symm
    obtain ⟨place, positive, rest⟩ := List.range'_eq_cons_iff.1 outer.symm
    have tree : t.Unfolds (.cons i below .nil) := ⟨h.1, h.2.1, trivial⟩
    refine .block (by omega) (fun j => ?_) (ih h.2.2 rest (by omega))
    -- below the root stand the numbers of the inner post-order, and the root comes next
    have member : j ∈ (Forest.cons i below .nil).postorder ↔
        first ≤ j ∧ j < first + k ∨ j = i := by
      simp [Forest.postorder, inner, List.mem_range'_1]
    have reaches := tree.mem_preorder_iff j
    rw [(Forest.preorder_perm_postorder _).mem_iff, member] at reaches
    simp only [Forest.roots, List.mem_singleton, exists_eq_left] at reaches
    rw [← reaches]
    omega

theorem Unfolds.flatMap_leaves (h : t.Unfolds f) (room : f.preorder.length ≤ t.nodes.size) :
    f.roots.flatMap t.leaves = (f.map t.label).preorder.filterMap Entry.token? := by
  induction f with
  | nil => rfl
  | cons i below beside _ ih =>
    have tree : t.Unfolds (.cons i below .nil) := ⟨h.1, h.2.1, trivial⟩
    simp only [Forest.preorder, List.length_cons, List.length_append] at room
    have walk : t.preorderFrom i = (Forest.cons i below .nil).preorder :=
      preorderFrom_eq tree (by simp only [Forest.preorder, List.length_cons, List.append_nil]; omega)
    have first : t.leaves i =
        ((Forest.cons i below .nil).map t.label).preorder.filterMap Entry.token? := by
      rw [leaves, describeFrom, walk, tree.entries_preorder]
    rw [Forest.roots, List.flatMap_cons, first, ih h.2.2 (by omega), ← List.filterMap_append]
    simp [Forest.map, Forest.preorder]

namespace Stacked

theorem mem_iff (h : t.Stacked stack f) {i : Nat} :
    i ∈ stack ↔ ∃ n, t.nodes[i]? = some n ∧ n.parent = none := by
  constructor
  · exact h.free
  · rintro ⟨n, hn, detached⟩
    exact (h.detached i n hn).1 detached

theorem increasing (h : t.Stacked stack f) : stack.Pairwise (· < ·) := by
  have order := f.roots_sublist_postorder
  rw [h.roots, h.postorder] at order
  exact List.pairwise_lt_range.sublist order

theorem blocks (h : t.Stacked stack f) : t.Blocks 0 stack := by
  rw [← h.roots]
  refine h.unfolds.blocks (h.postorder.trans List.range_eq_range') (Nat.zero_add _)

theorem flatMap_leaves (h : t.Stacked stack f) :
    stack.flatMap t.leaves = t.entries.filterMap Entry.token? := by
  rw [← h.roots, h.unfolds.flatMap_leaves h.length_preorder.le,
    Forest.filterMap_preorder_eq_postorder h.unfolds.shownByLeaves, h.postorder_labels]

end Stacked

end Tree

namespace Builder

/-- The builder after these calls. Others may draw on its counter, so each call finds any next
identifier. -/
def called (b : Builder) : List (UInt64 × Call) → Builder
  | [] => b
  | (id, c) :: later => ((b.drawing id).after c).called later

def grant (b : Builder) (c : Call) : List Call :=
  match b.answer c with
  | .ok _ => [c]
  | .error _ => []

def granted (b : Builder) : List (UInt64 × Call) → List Call
  | [] => []
  | (id, c) :: later => (b.drawing id).grant c ++ ((b.drawing id).after c).granted later

def height (done : List Call) : Int :=
  (done.filterMap Call.token?).length -
    ((done.filterMap Call.production?).map fun p => (p.length : Int) - 1).sum

structure Working (done : List Call) (b : Builder) : Prop where
  opened : ∃ f, b.Open f
  unaccepted : .accept ∉ done
  tokens : b.tree.entries.filterMap Entry.token? = done.filterMap Call.token?
  depth : (b.depth : Int) = height done

structure Idle (done : List Call) (b : Builder) : Prop where
  finished : b.finished = true
  stack : b.stack = []
  tree : b.tree = {}
  accepted : .accept ∈ done

variable {b : Builder} {done : List Call}

theorem height_concat (done : List Call) (c : Call) : height (done ++ [c]) = height done +
    match c with
    | .shift _ => 1
    | .reduce p => 1 - (p.length : Int)
    | .accept | .error _ => 0 := by
  cases c <;> simp [height, List.filterMap_cons, Call.token?, Call.production?] <;> omega

namespace Working

theorem fresh (s : Session) : Working [] { session := s } where
  opened := ⟨_, open_fresh s⟩
  unaccepted := List.not_mem_nil
  tokens := rfl
  depth := rfl

theorem drawing (h : b.Working done) (id : UInt64) : (b.drawing id).Working done where
  opened := h.opened.imp fun _ opened => ⟨opened.unfinished, opened.stacked⟩
  unaccepted := h.unaccepted
  tokens := h.tokens
  depth := h.depth

theorem shift (h : b.Working done) (token : Token) :
    b.grant (.shift token) = [.shift token] ∧
      (b.after (.shift token)).Working (done ++ [.shift token]) := by
  obtain ⟨f, opened⟩ := h.opened
  have granted : b.answer (.shift token) = .ok none := by
    rw [answer, opened.shift_eq token]
    rfl
  refine ⟨by rw [grant, granted], ⟨_, opened.shift token⟩, by simpa using h.unaccepted, ?_, ?_⟩
  · rw [after, opened.entries_shift token, List.filterMap_append, h.tokens, List.filterMap_append]
    rfl
  · have depth := h.depth
    rw [height_concat, after, opened.shift_eq token]
    simp only [Builder.depth, List.length_cons] at depth ⊢
    omega

theorem reduce (h : b.Working done) {p : Production} (enough : p.length ≤ b.depth) :
    b.grant (.reduce p) = [.reduce p] ∧
      (b.after (.reduce p)).Working (done ++ [.reduce p]) := by
  obtain ⟨f, opened⟩ := h.opened
  obtain ⟨kept, taken, -, -, next⟩ := opened.reduce enough
  have granted : b.answer (.reduce p) = .ok none := by
    rw [answer, opened.reduce_eq enough]
    rfl
  refine ⟨by rw [grant, granted], ⟨_, next⟩, by simpa using h.unaccepted, ?_, ?_⟩
  · rw [after, opened.entries_reduce enough, List.filterMap_append, h.tokens,
      List.filterMap_append]
    rfl
  · have depth := h.depth
    rw [height_concat, after, opened.reduce_eq enough]
    simp only [Builder.depth, List.length_cons, List.length_drop] at depth enough ⊢
    omega

theorem step (h : b.Working done) (c : Call) :
    (b.after c).Working (done ++ b.grant c) ∨ (b.after c).Idle (done ++ b.grant c) := by
  obtain ⟨f, opened⟩ := h.opened
  have refusal {failure : Failure} (refused : b.answer c = .error failure) (same : b.after c = b) :
      (b.after c).Working (done ++ b.grant c) := by
    rw [grant, refused, same, List.append_nil]
    exact h
  cases c with
  | shift token =>
    obtain ⟨granted, next⟩ := h.shift token
    exact .inl (granted ▸ next)
  | reduce p =>
    by_cases enough : p.length ≤ b.depth
    · obtain ⟨granted, next⟩ := h.reduce enough
      exact .inl (granted ▸ next)
    · have refused := opened.reduce_underflow (Nat.lt_of_not_le enough)
      exact .inl (refusal (by rw [answer, refused]; rfl) (by rw [after, refused]))
  | accept =>
    rcases opened.accept_cases with ⟨root, -, accepted⟩ | ⟨-, refused⟩
    · right
      have granted : b.grant .accept = [.accept] := by
        rw [grant, answer, accepted]
        rfl
      rw [granted, after, accepted]
      exact ⟨rfl, rfl, rfl, List.mem_concat_self⟩
    · exact .inl (refusal (by rw [answer, refused]; rfl) (by rw [after, refused]))
  | error failure =>
    have granted : b.grant (.error failure) = [.error failure] := rfl
    refine .inl ⟨h.opened, by simpa [granted] using h.unaccepted, ?_, ?_⟩
    · simpa [granted, after, error, List.filterMap_cons, Call.token?] using h.tokens
    · rw [granted, height_concat]
      simpa [after, error] using h.depth

end Working

theorem Idle.after (h : b.Idle done) (c : Call) (more : List Call) :
    (b.after c).Idle (done ++ more) := by
  rw [after_finished h.finished]
  exact ⟨h.finished, h.stack, h.tree, List.mem_append_left _ h.accepted⟩

theorem Idle.called (h : b.Idle done) (calls : List (UInt64 × Call)) :
    (b.called calls).Idle (done ++ b.granted calls) := by
  induction calls generalizing b done with
  | nil => simpa [Builder.called, granted] using h
  | cons turn later ih =>
    obtain ⟨id, c⟩ := turn
    have found : (b.drawing id).Idle done := ⟨h.finished, h.stack, h.tree, h.accepted⟩
    rw [Builder.called, granted, ← List.append_assoc]
    exact ih (found.after c _)

theorem Working.called (h : b.Working done) (calls : List (UInt64 × Call)) :
    (b.called calls).Working (done ++ b.granted calls) ∨
      (b.called calls).Idle (done ++ b.granted calls) := by
  induction calls generalizing b done with
  | nil => simpa [Builder.called, granted] using .inl h
  | cons turn later ih =>
    obtain ⟨id, c⟩ := turn
    rw [Builder.called, granted, ← List.append_assoc]
    rcases (h.drawing id).step c with goesOn | ended
    · exact ih goesOn
    · exact .inr (ended.called later)

/-- After any calls, granted or refused, the results stack holds the nodes without a parent, each
once and the oldest at the bottom. The nodes below the entries make up the arena, entry by entry
in consecutive blocks, and the tokens below them, from bottom to top, are those that were shifted;
the stack is as high as the granted shifts and reduces make it. A granted accept leaves neither
entries nor nodes. -/
theorem called_blocks (s : Session) (calls : List (UInt64 × Call)) :
    let fresh : Builder := { session := s }
    let b := fresh.called calls
    let done := fresh.granted calls
    (b.finished = true ↔ .accept ∈ done) ∧
    (∀ i, i ∈ b.stack ↔ ∃ n, b.tree.nodes[i]? = some n ∧ n.parent = none) ∧
    b.stack.reverse.Pairwise (· < ·) ∧
    b.tree.Blocks 0 b.stack.reverse ∧
    b.stack.reverse.flatMap b.tree.leaves =
      (if b.finished then [] else done.filterMap Call.token?) ∧
    (b.depth : Int) = if b.finished then 0 else height done := by
  intro fresh b done
  rcases (Working.fresh s).called calls with working | idle
  · have working : b.Working done := working
    obtain ⟨f, opened⟩ := working.opened
    have arena := opened.stacked
    have running : b.finished = false := opened.unfinished
    refine ⟨?_, fun i => ?_, arena.increasing, arena.blocks, ?_, ?_⟩
    · simp [running, working.unaccepted]
    · rw [← List.mem_reverse, arena.mem_iff]
    · rw [arena.flatMap_leaves, working.tokens, running]
      rfl
    · rw [working.depth, running]
      rfl
  · have idle : b.Idle done := idle
    refine ⟨by simp [idle.finished, idle.accepted], fun i => by simp [idle.stack, idle.tree],
      by simp [idle.stack], ?_, by simp [idle.stack, idle.finished], ?_⟩
    · rw [idle.stack, idle.tree]
      exact .none
    · simp [Builder.depth, idle.stack, idle.finished]

end Builder

end ParseTrace
