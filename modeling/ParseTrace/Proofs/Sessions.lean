import ParseTrace.Proofs.Isomorphism
import ParseTrace.Proofs.Recording
import ParseTrace.Script

/-!
The same work under different sessions. What a session gives a node is its identifier and its
file, and no call of a builder looks at either: the answers agree, and the arenas keep
differing in nothing else.
-/

namespace ParseTrace

def Node.bare (n : Node) : Node := { n with id := 0, fileName := "" }

theorem Node.bare_eq_iff {n m : Node} : n.bare = m.bare ↔
    n.symbol = m.symbol ∧ n.name = m.name ∧ n.parent = m.parent ∧ n.payload = m.payload := by
  simp [bare]

theorem Node.children_of_bare {n m : Node} (same : n.bare = m.bare) : n.children = m.children := by
  obtain ⟨-, -, -, payload⟩ := bare_eq_iff.1 same
  rw [children, children, payload]

theorem Payload.map_id (p : Payload) : p.map id = p := by
  cases p <;> simp [Payload.map]

namespace Tree

/-- Arenas that differ in identifiers and file names at most. -/
structure Matches (t u : Tree) : Prop where
  root : t.root = u.root
  nodes : t.nodes.map Node.bare = u.nodes.map Node.bare

variable {t u : Tree} {f : Forest Nat} {stack : List Nat}

theorem map_bare_adopt (parent : Nat) (children : List Nat) (nodes : Array Node) :
    (adopt parent children nodes).map Node.bare = adopt parent children (nodes.map Node.bare) := by
  apply Array.ext_getElem?
  intro i
  rw [Array.getElem?_map, getElem?_adopt, getElem?_adopt, Array.getElem?_map, Option.map_map,
    Option.map_map]
  congr 1
  funext n
  rw [Function.comp_apply, Function.comp_apply]
  split <;> rfl

namespace Matches

theorem size (h : t.Matches u) : t.nodes.size = u.nodes.size := by
  simpa only [Array.size_map] using congrArg Array.size h.nodes

theorem getElem? (h : t.Matches u) (i : Nat) :
    t.nodes[i]?.map Node.bare = u.nodes[i]?.map Node.bare := by
  simpa only [Array.getElem?_map] using congrArg (·[i]?) h.nodes

theorem symm (h : t.Matches u) : u.Matches t := ⟨h.root.symm, h.nodes.symm⟩

theorem node (h : t.Matches u) {i : Nat} {n : Node} (hn : t.nodes[i]? = some n) :
    ∃ m, u.nodes[i]? = some m ∧ m.bare = n.bare := by
  have same := h.getElem? i
  rw [hn, Option.map_some] at same
  exact Option.map_eq_some_iff.1 same.symm

theorem map_entry (h : t.Matches u) (i : Nat) :
    t.nodes[i]?.map Node.entry = u.nodes[i]?.map Node.entry := by
  have same := congrArg (Option.map Node.entry) (h.getElem? i)
  rwa [Option.map_map, Option.map_map] at same

theorem visit (h : t.Matches u) (steps : Nat) (pending : List Nat) (seen : Array Nat) :
    t.visit steps pending seen = u.visit steps pending seen := by
  induction steps generalizing pending seen with
  | zero => rfl
  | succ steps ih =>
    cases pending with
    | nil => rfl
    | cons i pending =>
      cases hn : t.nodes[i]? with
      | none =>
        have hm : u.nodes[i]? = none := by
          have same := h.getElem? i
          rwa [hn, Option.map_none, eq_comm, Option.map_eq_none_iff] at same
        simp only [Tree.visit, hn, hm, ih]
      | some n =>
        obtain ⟨m, hm, same⟩ := h.node hn
        simp only [Tree.visit, hn, hm, Node.children_of_bare same, ih]

theorem preorder (h : t.Matches u) : t.preorder = u.preorder := by
  unfold Tree.preorder preorderFrom
  rw [h.root, h.size]
  cases u.root with
  | none => rfl
  | some r => exact congrArg Array.toList (h.visit _ _ _)

theorem structurallyEq (h : t.Matches u) : t.structurallyEq u = true := by
  rw [Tree.structurallyEq, alike_iff, preorderNodes, preorderNodes, List.map_filterMap,
    List.map_filterMap, h.preorder]
  exact congrArg (u.preorder.filterMap ·) (funext h.map_entry)

theorem unfolds (h : t.Matches u) (ht : t.Unfolds f) : u.Unfolds f := by
  induction f with
  | nil => trivial
  | cons i below beside ih ih' =>
    obtain ⟨⟨n, hn, children⟩, under, aside⟩ := ht
    obtain ⟨m, hm, same⟩ := h.node hn
    exact ⟨⟨m, hm, (Node.children_of_bare same).trans children⟩, ih under, ih' aside⟩

theorem stacked (h : t.Matches u) (arena : t.Stacked stack f) : u.Stacked stack f where
  unfolds := h.unfolds arena.unfolds
  roots := arena.roots
  postorder := by rw [arena.postorder, h.size]
  detached := by
    intro i m hm
    obtain ⟨n, hn, same⟩ := h.symm.node hm
    obtain ⟨-, -, parent, -⟩ := Node.bare_eq_iff.1 same
    rw [← parent]
    exact arena.detached i n hn

theorem withRoot (h : t.Matches u) (root : Option Nat) :
    Matches { t with root } { u with root } := ⟨rfl, h.nodes⟩

theorem push (h : t.Matches u) {n m : Node} (same : n.bare = m.bare) :
    Matches { t with nodes := t.nodes.push n } { u with nodes := u.nodes.push m } where
  root := h.root
  nodes := by rw [Array.map_push, Array.map_push, h.nodes, same]

theorem adopt (h : t.Matches u) (parent : Nat) (children : List Nat) :
    Matches { t with nodes := Tree.adopt parent children t.nodes }
      { u with nodes := Tree.adopt parent children u.nodes } where
  root := h.root
  nodes := by rw [map_bare_adopt, map_bare_adopt, h.nodes]

theorem pushToken (h : t.Matches u) (s s' : Session) (token : Token) :
    (t.pushToken s token).2.1.Matches (u.pushToken s' token).2.1 :=
  h.push rfl

theorem pushInterior {kept children : List Nat} (h : t.Matches u)
    (arena : t.Stacked (kept ++ children) f) (s s' : Session) (symbol : UInt32) (name : String) :
    (t.pushInterior s symbol name children).2.1.Matches
      (u.pushInterior s' symbol name children).2.1 := by
  rw [arena.pushInterior_ok, (h.stacked arena).pushInterior_ok, h.size]
  exact (h.adopt u.nodes.size children).push rfl

theorem describe (h : t.Matches u) (ht : t.Arborescent) (hu : u.Arborescent) :
    t.describe = u.describe := by
  have roots : u.root = t.root.map id := by rw [Option.map_id, h.root, id]
  refine (ht.describe_eq_iff hu).2 (ht.sameRooted_of_moved roots fun r i n _ _ hn => ?_)
  obtain ⟨m, hm, same⟩ := h.node hn
  obtain ⟨symbol, name, -, payload⟩ := Node.bare_eq_iff.1 same
  exact ⟨m, hm, symbol, name, by rw [payload, Payload.map_id]⟩

end Matches

end Tree

inductive Agree {α : Type} (alike : α → α → Prop) : Except Failure α → Except Failure α → Prop
  | error (failure : Failure) : Agree alike (.error failure) (.error failure)
  | ok {a a' : α} : alike a a' → Agree alike (.ok a) (.ok a')

namespace Agree

variable {α β : Type} {alike : α → α → Prop} {alike' : β → β → Prop} {f : α → β}

theorem map (lift : ∀ a a', alike a a' → alike' (f a) (f a')) {r r' : Except Failure α}
    (h : Agree alike r r') : Agree alike' (r.map f) (r'.map f) := by
  cases h with
  | error failure => exact .error failure
  | ok same => exact .ok (lift _ _ same)

theorem of_eq {r r' : Except Failure α} (same : r = r') : Agree Eq r r' := by
  subst same
  cases r with
  | error failure => exact .error failure
  | ok a => exact .ok rfl

end Agree

namespace Builder

namespace Open

variable {b : Builder} {f : Forest Nat} {g : Grammar} {rule : Nat} {p : Production}

theorem replay_shift (o : b.Open f) (g : Grammar) (token : Token) (rest : List Event) :
    replay g receiver (.shift token :: rest) b = replay g receiver rest (b.shift token).2 := by
  have done : (b.shift token).1 = .ok () := congrArg Prod.fst (o.shift_eq token)
  exact ParseTrace.replay_shift (r := receiver) (Prod.ext done rfl) rest

theorem replay_reduce (o : b.Open f) (known : g.production rule = .ok p)
    (enough : p.length ≤ b.depth) (rest : List Event) :
    replay g receiver (.reduce rule :: rest) b = replay g receiver rest (b.reduce p).2 := by
  have done : (b.reduce p).1 = .ok () := congrArg Prod.fst (o.reduce_eq enough)
  exact ParseTrace.replay_reduce (r := receiver) known (Prod.ext done rfl) rest

theorem replay_underflow (o : b.Open f) (known : g.production rule = .ok p)
    (short : b.depth < p.length) (rest : List Event) :
    replay g receiver (.reduce rule :: rest) b =
      (.error (.stackUnderflow p.lhsName p.length b.depth), b) := by
  simp only [replay, known, receiver, o.reduce_underflow short]

end Open

structure Matches (b b' : Builder) : Prop where
  finished : b.finished = b'.finished
  stack : b.stack = b'.stack
  tree : b.tree.Matches b'.tree

namespace Matches

variable {b b' : Builder} {f : Forest Nat}

theorem opened (h : b.Matches b') (o : b.Open f) : b'.Open f where
  unfinished := h.finished ▸ o.unfinished
  stacked := h.stack ▸ h.tree.stacked o.stacked

theorem depth (h : b.Matches b') : b.depth = b'.depth := by
  rw [Builder.depth, Builder.depth, h.stack]

theorem shift (h : b.Matches b') (o : b.Open f) (token : Token) :
    (b.shift token).1 = (b'.shift token).1 ∧ (b.shift token).2.Matches (b'.shift token).2 := by
  rw [o.shift_eq, (h.opened o).shift_eq]
  refine ⟨rfl, h.finished, ?_, h.tree.pushToken _ _ token⟩
  rw [h.stack, h.tree.size]

theorem reduce (h : b.Matches b') (o : b.Open f) (p : Production) :
    (b.reduce p).1 = (b'.reduce p).1 ∧ (b.reduce p).2.Matches (b'.reduce p).2 := by
  by_cases enough : p.length ≤ b.depth
  · have arena := o.stacked
    rw [Open.reverse_stack b p.length] at arena
    rw [o.reduce_eq enough, (h.opened o).reduce_eq (h.depth ▸ enough)]
    refine ⟨rfl, h.finished, ?_, ?_⟩
    · rw [h.stack, h.tree.size]
    · rw [← h.stack]
      exact h.tree.pushInterior arena _ _ p.lhs p.lhsName
  · have short := Nat.lt_of_not_le enough
    rw [o.reduce_underflow short, (h.opened o).reduce_underflow (h.depth ▸ short), h.depth]
    exact ⟨rfl, h⟩

theorem accept (h : b.Matches b') (o : b.Open f) :
    Agree Tree.Matches b.accept.1 b'.accept.1 ∧ b.accept.2.Matches b'.accept.2 := by
  rcases o.accept_cases with ⟨root, single, done⟩ | ⟨count, refused⟩
  · rw [done, (h.opened o).accept_eq (h.stack ▸ single)]
    exact ⟨.ok (h.tree.withRoot _), rfl, rfl, rfl, rfl⟩
  · rw [refused, (h.opened o).accept_count (h.depth ▸ count), h.depth]
    exact ⟨.error _, h⟩

theorem replay (h : b.Matches b') (o : b.Open f) (g : Grammar) (events : List Event) :
    Agree Tree.Matches (ParseTrace.replay g receiver events b).1
      (ParseTrace.replay g receiver events b').1 := by
  induction events generalizing b b' f with
  | nil => exact .error _
  | cons e rest ih =>
    cases e with
    | shift token =>
      rw [o.replay_shift, (h.opened o).replay_shift]
      exact ih (h.shift o token).2 (o.shift token)
    | reduce rule =>
      cases known : g.production rule with
      | error failure =>
        simp only [ParseTrace.replay, known]
        exact .error failure
      | ok p =>
        by_cases enough : p.length ≤ b.depth
        · obtain ⟨_, _, -, -, opened⟩ := o.reduce enough
          rw [o.replay_reduce known enough, (h.opened o).replay_reduce known (h.depth ▸ enough)]
          exact ih (h.reduce o p).2 opened
        · have short := Nat.lt_of_not_le enough
          rw [o.replay_underflow known short,
            (h.opened o).replay_underflow known (h.depth ▸ short), h.depth]
          exact .error _
    | accept => exact (h.accept o).1

end Matches

end Builder

/-- The session of a run decides the identifiers and file names of its tree and nothing else. -/
theorem Script.run_agree (script : Script) (s s' : Session) :
    Agree Tree.Matches (script.run s).1 (script.run s').1 := by
  unfold run
  cases script.grammar with
  | error failure => exact .error failure
  | ok g =>
    dsimp only
    cases resolveAll g script.events with
    | error failure => exact .error failure
    | ok events =>
      have fresh : Builder.Matches { session := s } { session := s' } := ⟨rfl, rfl, rfl, rfl⟩
      exact fresh.replay (Builder.open_fresh s) g events

end ParseTrace
