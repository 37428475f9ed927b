import Mathlib.Algebra.BigOperators.Group.Finset.Basic
import ParseTrace.Proofs.Refusals
import ParseTrace.Proofs.Sessions

/-!
Builders that draw on one counter, called in turn. The counter is all that they share, and it
shows in identifiers only: each builder answers as it would by itself. A call takes one
identifier if it makes a node and none otherwise, so the trees divide consecutive identifiers
among them.
-/

namespace ParseTrace

abbrev SameAnswer : Except Failure (Option Tree) → Except Failure (Option Tree) → Prop :=
  Agree (Option.Rel fun t u => t.structurallyEq u = true)

namespace Tree

def ids (t : Tree) : List UInt64 :=
  t.nodes.toList.map Node.id

@[simp] theorem length_ids (t : Tree) : t.ids.length = t.nodes.size := by
  rw [ids, List.length_map, Array.length_toList]

theorem ids_pushToken (t : Tree) (s : Session) (token : Token) :
    (t.pushToken s token).2.1.ids = t.ids ++ [s.nextId] := by
  simp only [ids, pushToken, Array.toList_push, List.map_append, List.map_cons, List.map_nil]

theorem Stacked.ids_pushInterior {t : Tree} {f : Forest Nat} {kept children : List Nat}
    (h : t.Stacked (kept ++ children) f) (s : Session) (symbol : UInt32) (name : String) :
    (t.pushInterior s symbol name children).2.1.ids = t.ids ++ [s.nextId] := by
  rw [h.pushInterior_ok s symbol name]
  simp only [ids, Array.toList_push, List.map_append, List.map_cons, List.map_nil]
  rw [map_adopt fun _ _ => rfl]
  rfl

end Tree

namespace Builder

def drawing (b : Builder) (id : UInt64) : Builder :=
  { b with session := { b.session with nextId := id } }

def handed? : Except Failure (Option Tree) → Option Tree
  | .ok tree => tree
  | .error _ => none

variable {b b' : Builder}

theorem handed?_finished (h : b.finished = true) (c : Call) : handed? (b.answer c) = none := by
  cases c <;> simp [handed?, answer, shift, reduce, accept, h, Except.map]

theorem Open.outcome {f : Forest Nat} (h : b.Open f) (c : Call) :
    handed? (b.answer c) = none ∧ b.after c = b ∨
    handed? (b.answer c) = none ∧
      (b.after c).tree.ids = b.tree.ids ++ [b.session.nextId] ∧
      (b.after c).session = b.session.advance ∨
    ∃ root, b.answer c = .ok (some { b.tree with root }) ∧
      b.after c = { b with tree := {}, stack := [], finished := true } := by
  cases c with
  | shift token =>
    right; left
    rw [answer, after, h.shift_eq token]
    exact ⟨rfl, b.tree.ids_pushToken b.session token, rfl⟩
  | reduce p =>
    by_cases enough : p.length ≤ b.depth
    · right; left
      have arena := h.stacked
      rw [reverse_stack b p.length] at arena
      rw [answer, after, h.reduce_eq enough]
      exact ⟨rfl, arena.ids_pushInterior b.session p.lhs p.lhsName, rfl⟩
    · left
      rw [answer, after, h.reduce_underflow (Nat.lt_of_not_le enough)]
      exact ⟨rfl, rfl⟩
  | accept =>
    rcases h.accept_cases with ⟨root, -, done⟩ | ⟨-, refused⟩
    · right; right
      rw [answer, after, done]
      exact ⟨some root, rfl, rfl⟩
    · left
      rw [answer, after, refused]
      exact ⟨rfl, rfl⟩
  | error failure => exact .inl ⟨rfl, rfl⟩

namespace Matches

theorem drawing (h : b.Matches b') (id : UInt64) : (b.drawing id).Matches b' :=
  ⟨h.finished, h.stack, h.tree⟩

theorem after (h : b.Matches b') (reached : b.Reached) (c : Call) :
    (b.after c).Matches (b'.after c) := by
  cases ended : b.finished with
  | true => rwa [after_finished ended, after_finished (h.finished ▸ ended)]
  | false =>
    obtain ⟨f, opened⟩ := reached.opened ended
    cases c with
    | shift token => exact (h.shift opened token).2
    | reduce p => exact (h.reduce opened p).2
    | accept => exact (h.accept opened).2
    | error failure => exact h

theorem answer (h : b.Matches b') (reached : b.Reached) (c : Call) :
    SameAnswer (b.answer c) (b'.answer c) := by
  have nothing {r r' : Except Failure Unit} (same : r = r') :
      SameAnswer (r.map fun _ => none) (r'.map fun _ => none) :=
    (Agree.of_eq same).map fun _ _ _ => .none
  cases ended : b.finished with
  | true =>
    have ended' : b'.finished = true := h.finished ▸ ended
    cases c with
    | error failure => exact .ok .none
    | _ =>
      simp only [Builder.answer, Builder.shift, Builder.reduce, Builder.accept, ended, ended',
        if_true, Except.map]
      exact .error _
  | false =>
    obtain ⟨f, opened⟩ := reached.opened ended
    cases c with
    | shift token => exact nothing (h.shift opened token).1
    | reduce p => exact nothing (h.reduce opened p).1
    | accept => exact (h.accept opened).1.map fun _ _ same => .some same.structurallyEq
    | error failure => exact .ok .none

end Matches

end Builder

/-- A builder and its answers so far, each with the depth of the results stack after it. -/
structure Parse where
  builder : Builder
  answers : List (Except Failure (Option Tree) × Nat) := []

namespace Parse

def call (p : Parse) (c : Call) : Parse where
  builder := p.builder.after c
  answers := p.answers ++ [(p.builder.answer c, (p.builder.after c).depth)]

def run (s : Session) (calls : List Call) : Parse :=
  calls.foldl call { builder := { session := s } }

def handedOver? (p : Parse) : Option Tree :=
  p.answers.findSome? fun a => Builder.handed? a.1

def tree (p : Parse) : Tree :=
  p.handedOver?.getD p.builder.tree

def drawing (p : Parse) (id : UInt64) : Parse :=
  { p with builder := p.builder.drawing id }

@[simp] theorem tree_drawing (p : Parse) (id : UInt64) : (p.drawing id).tree = p.tree := rfl

@[simp] theorem nextId_drawing (p : Parse) (id : UInt64) :
    (p.drawing id).builder.session.nextId = id := rfl

variable {p q : Parse}

theorem run_append (s : Session) (calls : List Call) (c : Call) :
    run s (calls ++ [c]) = (run s calls).call c := by
  rw [run, List.foldl_append]
  rfl

theorem handedOver?_call (p : Parse) (c : Call) :
    (p.call c).handedOver? = p.handedOver?.or (Builder.handed? (p.builder.answer c)) := by
  rw [handedOver?, call, List.findSome?_append, List.findSome?_singleton]
  rfl

structure Follows (p q : Parse) : Prop where
  reached : p.builder.Reached
  matching : p.builder.Matches q.builder
  answers : List.Forall₂ (fun a a' => SameAnswer a.1 a'.1 ∧ a.2 = a'.2) p.answers q.answers

namespace Follows

theorem start (s s' : Session) :
    Follows { builder := { session := s } } { builder := { session := s' } } where
  reached := .fresh s
  matching := ⟨rfl, rfl, rfl, rfl⟩
  answers := .nil

theorem drawing (h : p.Follows q) (id : UInt64) : (p.drawing id).Follows q where
  reached := .elsewhere id h.reached
  matching := h.matching.drawing id
  answers := h.answers

theorem call (h : p.Follows q) (c : Call) : (p.call c).Follows (q.call c) where
  reached := .call c h.reached
  matching := h.matching.after h.reached c
  answers := by
    refine List.rel_append h.answers (.cons ⟨h.matching.answer h.reached c, ?_⟩ .nil)
    exact (h.matching.after h.reached c).depth

end Follows

structure Sound (p : Parse) : Prop where
  reached : p.builder.Reached
  pending : p.builder.finished = false → p.handedOver? = none

namespace Sound

theorem start (s : Session) : Sound { builder := { session := s } } where
  reached := .fresh s
  pending _ := rfl

theorem drawing (h : p.Sound) (id : UInt64) : (p.drawing id).Sound where
  reached := .elsewhere id h.reached
  pending := h.pending

theorem call (h : p.Sound) (c : Call) : (p.call c).Sound where
  reached := .call c h.reached
  pending unfinished := by
    rw [handedOver?_call]
    cases ended : p.builder.finished with
    | true =>
      rw [Parse.call, Builder.after_finished ended, ended] at unfinished
      cases unfinished
    | false =>
      obtain ⟨f, opened⟩ := h.reached.opened ended
      rw [h.pending ended, Option.none_or]
      rcases opened.outcome c with ⟨nothing, -⟩ | ⟨nothing, -, -⟩ | ⟨root, -, done⟩
      · exact nothing
      · exact nothing
      · rw [Parse.call, done] at unfinished
        cases unfinished

theorem ids_call (h : p.Sound) (c : Call) :
    (p.call c).tree.ids = p.tree.ids ∧
      (p.call c).builder.session.nextId = p.builder.session.nextId ∨
    (p.call c).tree.ids = p.tree.ids ++ [p.builder.session.nextId] ∧
      (p.call c).builder.session.nextId = p.builder.session.nextId + 1 := by
  rw [tree, handedOver?_call, tree]
  cases ended : p.builder.finished with
  | true =>
    left
    rw [Builder.handed?_finished ended, Option.or_none, Parse.call, Builder.after_finished ended]
    exact ⟨rfl, rfl⟩
  | false =>
    obtain ⟨f, opened⟩ := h.reached.opened ended
    rw [h.pending ended, Option.none_or]
    rcases opened.outcome c with ⟨nothing, same⟩ | ⟨nothing, grown, drawn⟩ | ⟨root, handed, done⟩
    · left
      rw [nothing, Parse.call, same]
      exact ⟨rfl, rfl⟩
    · right
      rw [nothing, Parse.call, drawn]
      exact ⟨grown, rfl⟩
    · left
      rw [handed, Parse.call, done]
      exact ⟨rfl, rfl⟩

end Sound

end Parse

structure Parses (ι : Type) where
  nextId : UInt64
  parse : ι → Parse

namespace Parses

variable {ι : Type}

def start (names : ι → String) (first : UInt64) : Parses ι where
  nextId := first
  parse i := { builder := { session := ⟨names i, first⟩ } }

def callsOf [DecidableEq ι] (i : ι) (calls : List (ι × Call)) : List Call :=
  calls.filterMap fun (j, c) => if j = i then some c else none

section Run

variable [DecidableEq ι]

def call (w : Parses ι) (i : ι) (c : Call) : Parses ι :=
  let p := ((w.parse i).drawing w.nextId).call c
  ⟨p.builder.session.nextId, Function.update w.parse i p⟩

def run (names : ι → String) (first : UInt64) (calls : List (ι × Call)) : Parses ι :=
  calls.foldl (fun w (i, c) => w.call i c) (start names first)

theorem run_append (names : ι → String) (first : UInt64) (calls : List (ι × Call)) (i : ι)
    (c : Call) : run names first (calls ++ [(i, c)]) = (run names first calls).call i c := by
  rw [run, List.foldl_append]
  rfl

theorem parse_call_self (w : Parses ι) (i : ι) (c : Call) :
    (w.call i c).parse i = ((w.parse i).drawing w.nextId).call c :=
  Function.update_self _ _ _

theorem parse_call_other (w : Parses ι) {i j : ι} (other : j ≠ i) (c : Call) :
    (w.call i c).parse j = w.parse j :=
  Function.update_of_ne other _ _

theorem callsOf_append_self (calls : List (ι × Call)) (i : ι) (c : Call) :
    callsOf i (calls ++ [(i, c)]) = callsOf i calls ++ [c] := by
  simp [callsOf]

theorem callsOf_append_other (calls : List (ι × Call)) {i j : ι} (other : j ≠ i) (c : Call) :
    callsOf j (calls ++ [(i, c)]) = callsOf j calls := by
  simp [callsOf, other.symm]

theorem run_follows (names : ι → String) (first : UInt64) (calls : List (ι × Call)) (i : ι)
    (s : Session) :
    ((run names first calls).parse i).Follows (Parse.run s (callsOf i calls)) := by
  -- By the last call: only the parse that it goes to has to keep pace with its run alone.
  induction calls using List.reverseRecOn with
  | nil => exact .start _ s
  | append_singleton calls turn ih =>
    obtain ⟨j, c⟩ := turn
    rw [run_append]
    by_cases other : i = j
    · subst other
      rw [parse_call_self, callsOf_append_self, Parse.run_append]
      exact (ih.drawing _).call c
    · rw [parse_call_other _ other, callsOf_append_other calls other]
      exact ih

structure Issued (first : UInt64) (given : List (ι × UInt64)) (w : Parses ι) : Prop where
  nextId : w.nextId = first + .ofNat given.length
  consecutive : given.map Prod.snd = (List.range given.length).map fun k => first + .ofNat k
  ids : ∀ i, (w.parse i).tree.ids = (given.filter (·.1 = i)).map Prod.snd
  sound : ∀ i, (w.parse i).Sound

namespace Issued

variable {first : UInt64} {given : List (ι × UInt64)} {w : Parses ι}

theorem start (names : ι → String) (first : UInt64) : (start names first).Issued first [] where
  nextId := by simp [Parses.start]
  consecutive := rfl
  ids _ := rfl
  sound _ := .start _

theorem call (h : w.Issued first given) (i : ι) (c : Call) :
    ∃ more, (w.call i c).Issued first (given ++ more) := by
  have turn := (h.sound i).drawing w.nextId
  have sound (j : ι) : ((w.call i c).parse j).Sound := by
    by_cases other : j = i
    · rw [other, parse_call_self]
      exact turn.call c
    · rw [parse_call_other _ other]
      exact h.sound j
  rcases turn.ids_call c with ⟨kept, idle⟩ | ⟨grown, drawn⟩
  -- A refused call, an accept or a report leaves the counter where the turn found it.
  · refine ⟨[], ?_, ?_, fun j => ?_, sound⟩
    · rw [List.append_nil]
      exact idle.trans h.nextId
    · rw [List.append_nil]
      exact h.consecutive
    · rw [List.append_nil, ← h.ids j]
      by_cases other : j = i
      · rw [other, parse_call_self, kept, Parse.tree_drawing]
      · rw [parse_call_other _ other]
  · refine ⟨[(i, w.nextId)], ?_, ?_, fun j => ?_, sound⟩
    · rw [List.length_append, List.length_singleton, UInt64.ofNat_add, ← UInt64.add_assoc,
        ← h.nextId]
      exact drawn
    · rw [List.map_append, h.consecutive, List.length_append, List.length_singleton,
        List.range_succ, List.map_append, h.nextId]
      rfl
    · rw [List.filter_append, List.map_append, ← h.ids j]
      by_cases other : j = i
      · rw [other, parse_call_self, grown]
        simp
      · rw [parse_call_other _ other]
        simp [Ne.symm other]

theorem run (names : ι → String) (first : UInt64) (calls : List (ι × Call)) :
    ∃ given, (run names first calls).Issued first given := by
  induction calls using List.reverseRecOn with
  | nil => exact ⟨[], .start names first⟩
  | append_singleton calls turn ih =>
    obtain ⟨given, issued⟩ := ih
    obtain ⟨more, issued⟩ := issued.call turn.1 turn.2
    exact ⟨given ++ more, run_append names first calls turn.1 turn.2 ▸ issued⟩

theorem length [Fintype ι] (h : w.Issued first given) :
    given.length = ∑ i, (w.parse i).tree.nodes.size := by
  have share (i : ι) : (w.parse i).tree.nodes.size = (given.map Prod.fst).count i := by
    rw [← Tree.length_ids, h.ids i, List.length_map, ← List.countP_eq_length_filter,
      List.count, List.countP_map]
    rfl
  have all : ∑ i, (given.map Prod.fst).count i = (given.map Prod.fst).length := by
    have counted := Multiset.sum_count_eq_card (m := (given.map Prod.fst : Multiset ι))
      fun i _ => Finset.mem_univ i
    simpa only [Multiset.coe_count, Multiset.coe_card] using counted
  rw [Finset.sum_congr rfl fun i _ => share i, all, List.length_map]

theorem nodup (h : w.Issued first given) (few : given.length ≤ 2 ^ 64) :
    (given.map Prod.snd).Nodup := by
  rw [h.consecutive]
  exact nodup_drawn few

theorem increasing (h : w.Issued first given) (few : first.toNat + given.length ≤ 2 ^ 64) :
    (given.map Prod.snd).Pairwise (· < ·) := by
  rw [h.consecutive]
  exact pairwise_drawn_iff.2 few

theorem disjoint (h : w.Issued first given) (few : given.length ≤ 2 ^ 64) {i j : ι}
    (other : i ≠ j) : (w.parse i).tree.ids.Disjoint (w.parse j).tree.ids := by
  rw [h.ids i, h.ids j]
  intro id left right
  obtain ⟨x, hx, rfl⟩ := List.mem_map.1 left
  obtain ⟨y, hy, same⟩ := List.mem_map.1 right
  obtain ⟨hx, atI⟩ := List.mem_filter.1 hx
  obtain ⟨hy, atJ⟩ := List.mem_filter.1 hy
  obtain rfl := List.inj_on_of_nodup_map (h.nodup few) hy hx same
  exact other ((of_decide_eq_true atI).symm.trans (of_decide_eq_true atJ))

end Issued

/-- However the calls of parses over one counter alternate, each is answered as if only its own
had been made, in a session of its own: alike trees, the same failures, the same depths. No two
of their nodes share an identifier unless there are more nodes than identifiers, and until the
counter comes round each tree has its identifiers in the order of creation. -/
theorem run_undisturbed [Fintype ι] (names : ι → String) (first : UInt64)
    (calls : List (ι × Call)) :
    let made := run names first calls
    (∀ i s, List.Forall₂ (fun a a' => SameAnswer a.1 a'.1 ∧ a.2 = a'.2)
      (made.parse i).answers (Parse.run s (callsOf i calls)).answers) ∧
    (∑ i, (made.parse i).tree.nodes.size ≤ 2 ^ 64 →
      (∀ i, (made.parse i).tree.ids.Nodup) ∧
      ∀ i j, i ≠ j → (made.parse i).tree.ids.Disjoint (made.parse j).tree.ids) ∧
    (first.toNat + ∑ i, (made.parse i).tree.nodes.size ≤ 2 ^ 64 →
      ∀ i, (made.parse i).tree.ids.Pairwise (· < ·)) := by
  intro made
  obtain ⟨given, issued⟩ := Issued.run names first calls
  have own (i : ι) : (made.parse i).tree.ids.Sublist (given.map Prod.snd) := by
    rw [issued.ids i]
    exact List.filter_sublist.map Prod.snd
  refine ⟨fun i s => (run_follows names first calls i s).answers, fun few => ?_, fun few i => ?_⟩
  · rw [← issued.length] at few
    exact ⟨fun i => (issued.nodup few).sublist (own i), fun i j => issued.disjoint few⟩
  · rw [← issued.length] at few
    exact (issued.increasing few).sublist (own i)

theorem run_undisturbed_turns :
    let calls : List (Bool × Call) :=
      [(true, .shift ⟨0, "ID", "x", 1⟩), (false, .shift ⟨0, "ID", "y", 1⟩),
        (true, .reduce ⟨1, "pair", 2⟩), (false, .reduce ⟨2, "expr", 1⟩),
        (true, .reduce ⟨2, "expr", 1⟩), (true, .accept), (false, .accept)]
    let made := run (fun i => if i then "a.php" else "b.php") 7 calls
    ∑ i, (made.parse i).tree.nodes.size = 4 ∧
    (∀ i s, List.Forall₂ (fun a a' => SameAnswer a.1 a'.1 ∧ a.2 = a'.2)
      (made.parse i).answers (Parse.run s (callsOf i calls)).answers) ∧
    (made.parse true).tree.ids.Disjoint (made.parse false).tree.ids ∧
    ∀ i, (made.parse i).tree.ids.Pairwise (· < ·) := by
  intro calls made
  have total : ∑ i, (made.parse i).tree.nodes.size = 4 := by decide +kernel
  have first : (7 : UInt64).toNat = 7 := rfl
  obtain ⟨alone, distinct, ordered⟩ :=
    run_undisturbed (fun i => if i then "a.php" else "b.php") 7 calls
  refine ⟨total, alone, (distinct ?_).2 true false (by decide), ordered ?_⟩
  · change ∑ i, (made.parse i).tree.nodes.size ≤ 2 ^ 64
    rw [total]
    decide
  · change (7 : UInt64).toNat + ∑ i, (made.parse i).tree.nodes.size ≤ 2 ^ 64
    rw [total, first]
    decide

end Run

end Parses

end ParseTrace
