import ParseTrace.Proofs.Interleaving

/-!
The identifiers of one tree whose session nobody else draws on, from the first call of its
builder to the last edit of the arena that it handed over. Whatever is asked, and with whatever
answer, each node takes the next identifier and nothing else takes one; so identifiers are
creation indices, counted from where the session began and modulo 2^64.
-/

namespace ParseTrace

namespace Tree.Numbered

variable {first s : Session} {t : Tree}

theorem ids (h : Numbered first t s) : t.ids = drawn first.nextId t.nodes.size := by
  refine List.ext_getElem? fun i => ?_
  rw [Tree.ids, drawn, List.getElem?_map, List.getElem?_map, Array.getElem?_toList]
  by_cases inside : i < t.nodes.size
  · rw [Array.getElem?_eq_getElem inside, List.getElem?_range inside]
    exact congrArg some (h.node (Array.getElem?_eq_getElem inside)).1
  · rw [Array.getElem?_eq_none (Nat.le_of_not_lt inside),
      List.getElem?_eq_none (by rw [List.length_range]; omega)]
    rfl

theorem findById?_id (h : Numbered first t s) (few : t.nodes.size ≤ 2 ^ 64) {i : Nat} {n : Node}
    (hn : t.nodes[i]? = some n) : t.findById? n.id = some i := by
  obtain ⟨inside, rfl⟩ := Array.getElem?_eq_some_iff.1 hn
  rw [findById?, Array.findIdx?_eq_some_iff_getElem]
  refine ⟨inside, beq_self_eq_true _, fun j earlier same => ?_⟩
  have distinct : t.ids.Nodup := h.ids ▸ nodup_drawn few
  have inIds : i < t.ids.length := by rwa [length_ids]
  have inIds' : j < t.ids.length := by omega
  have equal : t.ids[j] = t.ids[i] := by simpa [Tree.ids] using same
  exact Nat.ne_of_lt earlier (distinct.getElem_inj_iff.1 equal)

theorem findById?_eq_none_iff (h : Numbered first t s) {id : UInt64} :
    t.findById? id = none ↔
      ∀ k < t.nodes.size, id.toNat ≠ (first.nextId.toNat + k) % 2 ^ 64 := by
  have member : id ∈ t.ids ↔
      ∃ k < t.nodes.size, id.toNat = (first.nextId.toNat + k) % 2 ^ 64 := by
    simp only [h.ids, drawn, List.mem_map, List.mem_range, ← toNat_draw, UInt64.toNat_inj, eq_comm]
  rw [findById?, Array.findIdx?_eq_none_iff, ← not_iff_not]
  simpa [Tree.ids] using member

end Tree.Numbered

theorem Builder.numbered_after {first : Session} {b : Builder}
    (h : Tree.Numbered first b.tree b.session) (c : Call) :
    Tree.Numbered first ((handed? (b.answer c)).getD (b.after c).tree) (b.after c).session := by
  cases c with
  | shift token =>
    simp only [answer, after, shift]
    split
    · exact h
    · exact h.pushToken token
  | reduce p =>
    simp only [answer, after, reduce]
    split
    · exact h
    split
    · exact h
    -- also a list that the arena refused would have taken no identifier
    have pushed := h.pushInterior p.lhs p.lhsName (b.stack.take p.length).reverse
    split
    · next granted =>
      rw [granted] at pushed
      exact pushed
    · next refused =>
      rw [refused] at pushed
      exact pushed
  | accept =>
    simp only [answer, after, accept]
    split
    · exact h
    split
    · next root _ =>
      have marked := h.setRoot root
      split
      · next granted =>
        rw [granted] at marked
        exact marked
      · next refused =>
        rw [refused] at marked
        exact marked
    · exact h
  | error failure => exact h

theorem Builder.finished_of_handed? {b : Builder} {c : Call}
    (given : (handed? (b.answer c)).isSome) : (b.after c).finished = true := by
  cases c with
  | shift token =>
    rw [answer] at given
    cases answered : (b.shift token).1 <;> simp [answered, handed?, Except.map] at given
  | reduce p =>
    rw [answer] at given
    cases answered : (b.reduce p).1 <;> simp [answered, handed?, Except.map] at given
  | accept =>
    simp only [answer, after, accept] at given ⊢
    split at given
    · next ended => rw [if_pos ended]; exact ended
    · next running =>
      rw [if_neg running]
      split at given
      · split at given
        · rfl
        · cases given
      · cases given
  | error failure => cases given

inductive Task where
  | call (c : Call)
  | edit (e : Edit)

structure Making where
  builder : Builder
  arena : Option Tree := none

namespace Making

def tree (m : Making) : Tree :=
  m.arena.getD m.builder.tree

/-- A builder whose arena is still its own, or an empty arena that is made by hand. The latter
has a builder in name only, which takes no calls. -/
def start (s : Session) (byHand : Bool) : Making where
  builder := { session := s, finished := byHand }
  arena := if byHand then some {} else none

def after (m : Making) : Task → Making
  | .call c => ⟨m.builder.after c, m.arena.or (Builder.handed? (m.builder.answer c))⟩
  | .edit e =>
    match m.arena with
    | none => m
    | some t =>
      let (t, session) := t.edit m.builder.session e
      ⟨{ m.builder with session }, some t⟩

def run (s : Session) (byHand : Bool) (tasks : List Task) : Making :=
  tasks.foldl after (start s byHand)

structure Counted (first : Session) (m : Making) : Prop where
  numbered : Tree.Numbered first m.tree m.builder.session
  closed : m.arena.isSome → m.builder.finished = true

namespace Counted

variable {first : Session} {m : Making}

theorem start (s : Session) (byHand : Bool) : Counted s (start s byHand) where
  numbered := by cases byHand <;> exact .empty s
  closed := by cases byHand <;> simp [Making.start]

theorem call (h : m.Counted first) (c : Call) : (m.after (.call c)).Counted first := by
  have ⟨numbered, closed⟩ := h
  rw [tree] at numbered
  rw [after]
  cases held : m.arena with
  | some t =>
    have idle := Builder.after_finished (closed (by rw [held]; rfl)) c
    rw [held, Option.getD_some] at numbered
    rw [idle]
    exact ⟨numbered, fun _ => closed (by rw [held]; rfl)⟩
  | none =>
    rw [held, Option.getD_none] at numbered
    refine ⟨Builder.numbered_after numbered c, fun given => ?_⟩
    rw [Option.none_or] at given
    exact Builder.finished_of_handed? given

theorem edit (h : m.Counted first) (e : Edit) : (m.after (.edit e)).Counted first := by
  have ⟨numbered, closed⟩ := h
  rw [tree] at numbered
  rw [after]
  cases held : m.arena with
  | none => exact h
  | some t =>
    rw [held, Option.getD_some] at numbered
    exact ⟨numbered.edit e, fun _ => closed (by rw [held]; rfl)⟩

theorem run (s : Session) (byHand : Bool) (tasks : List Task) : (run s byHand tasks).Counted s := by
  rw [Making.run]
  induction tasks using List.reverseRecOn with
  | nil => exact .start s byHand
  | append_singleton tasks task ih =>
    rw [List.foldl_append]
    cases task with
    | call c => exact ih.call c
    | edit e => exact ih.edit e

end Counted

/-- Whatever was asked so far, granted or refused, the node at index `i` has the `i`-th
identifier after the first one, and as many were drawn as there are nodes. So until there are
more nodes than identifiers an identifier finds the one node that it was given to; one that was
not drawn finds none; and the order of identifiers is that of creation exactly as long as the
counter has not come round before the last node. -/
theorem run_identifiers (s : Session) (byHand : Bool) (tasks : List Task) :
    let made := run s byHand tasks
    let count := made.tree.nodes.size
    (∀ i n, made.tree.nodes[i]? = some n → n.id.toNat = (s.nextId.toNat + i) % 2 ^ 64) ∧
    made.builder.session.nextId.toNat = (s.nextId.toNat + count) % 2 ^ 64 ∧
    (count ≤ 2 ^ 64 →
      made.tree.ids.Nodup ∧
      ∀ i n, made.tree.nodes[i]? = some n → made.tree.findById? n.id = some i) ∧
    (∀ id, made.tree.findById? id = none ↔
      ∀ k < count, id.toNat ≠ (s.nextId.toNat + k) % 2 ^ 64) ∧
    (made.tree.ids.Pairwise (· < ·) ↔ s.nextId.toNat + count ≤ 2 ^ 64) := by
  intro made count
  have numbered : Tree.Numbered s made.tree made.builder.session :=
    (Counted.run s byHand tasks).numbered
  refine ⟨fun i n hn => ?_, ?_, fun few => ⟨?_, fun i n => numbered.findById?_id few⟩,
    fun id => numbered.findById?_eq_none_iff, ?_⟩
  · rw [(numbered.node hn).1, toNat_draw]
  · rw [numbered.next]
    exact toNat_draw s.nextId count
  · rw [numbered.ids]
    exact nodup_drawn few
  · rw [numbered.ids]
    exact pairwise_drawn_iff

theorem run_identifiers_wrap :
    let made := run ⟨"in.php", 18446744073709551615⟩ false
      [.call .accept, .call (.shift ⟨0, "ID", "x", 1⟩), .call (.reduce ⟨1, "expr", 1⟩),
        .edit (.root 0), .call .accept, .edit (.token ⟨0, "ID", "y", 2⟩),
        .edit (.interior 2 "pair" [2, 0]), .call (.shift ⟨0, "ID", "z", 3⟩)]
    made.tree.ids = [18446744073709551615, 0, 1] ∧
    made.builder.session.nextId = 2 ∧
    made.tree.findById? 0 = some 1 ∧
    made.tree.findById? 2 = none ∧
    ¬ made.tree.ids.Pairwise (· < ·) := by
  intro made
  have count : made.tree.nodes.size = 3 := by decide +kernel
  obtain ⟨-, -, found, missing, ordered⟩ :=
    run_identifiers ⟨"in.php", 18446744073709551615⟩ false
      [.call .accept, .call (.shift ⟨0, "ID", "x", 1⟩), .call (.reduce ⟨1, "expr", 1⟩),
        .edit (.root 0), .call .accept, .edit (.token ⟨0, "ID", "y", 2⟩),
        .edit (.interior 2 "pair" [2, 0]), .call (.shift ⟨0, "ID", "z", 3⟩)]
  have few : made.tree.nodes.size ≤ 2 ^ 64 := by rw [count]; decide
  have unused : ∀ k < 3, (2 : UInt64).toNat ≠
      ((18446744073709551615 : UInt64).toNat + k) % 2 ^ 64 := by decide
  refine ⟨by decide +kernel, by decide +kernel, (found few).2 1 _ rfl, ?_, ?_⟩
  · exact (missing 2).2 fun k below => unused k (count ▸ below)
  · rw [ordered, ← Nat.not_lt, not_not]
    change 2 ^ 64 < (18446744073709551615 : UInt64).toNat + made.tree.nodes.size
    rw [count]
    decide

end Making

end ParseTrace
