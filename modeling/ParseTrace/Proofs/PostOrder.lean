import ParseTrace.Proofs.Calls
import ParseTrace.Proofs.Description
import ParseTrace.Proofs.Unfolding

/-!
What a tree becomes when it is described and rebuilt. The new arena holds the nodes below
the root and no others, each at its place in the post-order; a builder creates its nodes in
that order from the start, so its trees come back slot for slot.
-/

namespace ParseTrace

def Payload.map (place : Nat → Nat) : Payload → Payload
  | .token lexeme line => .token lexeme line
  | .interior children => .interior (children.map place)

/-- The second arena holds the listed nodes of the first and nothing else, each in the slot
of its place in the list. They are numbered from the session's next identifier on and name
each other by their new places. -/
structure Tree.Reordered (t : Tree) (root : Nat) (order : List Nat) (s : Session)
    (u : Tree) : Prop where
  size : u.nodes.size = order.length
  marked : u.root = some (order.idxOf root)
  node : ∀ slot i : Nat, order[slot]? = some i → ∃ n : Node, t.nodes[i]? = some n ∧
    u.nodes[slot]? = some
      { n with
        id := s.nextId + .ofNat slot
        fileName := s.fileName
        parent := if i = root then none else n.parent.map order.idxOf
        payload := n.payload.map order.idxOf }

theorem Node.sameShape_iff (a b : Node) : a.sameShape b = true ↔ a.entry = b.entry := by
  unfold Node.sameShape Node.entry
  cases a.payload <;> cases b.payload <;> simp [and_assoc]

theorem Node.payload_eq_map {n m : Node} {place : Nat → Nat} (entries : m.entry = n.entry)
    (children : m.children = n.children.map place) :
    m.symbol = n.symbol ∧ m.name = n.name ∧ m.payload = n.payload.map place := by
  unfold Node.entry Node.children at *
  cases hn : n.payload <;> cases hm : m.payload <;>
    simp_all [Payload.map]

namespace Tree

variable {t u : Tree} {f : Forest Nat}

theorem alike_iff (left right : List Node) :
    alike left right = true ↔ left.map Node.entry = right.map Node.entry := by
  induction left generalizing right with
  | nil => cases right <;> simp [alike]
  | cons a left ih =>
    cases right with
    | nil => simp [alike]
    | cons b right => simp [alike, ih, Node.sameShape_iff]

theorem Unfolds.map_entry_nodes (h : t.Unfolds f) :
    (f.preorder.filterMap (t.nodes[·]?)).map Node.entry = (f.map t.label).preorder := by
  rw [← h.entries_preorder, List.map_filterMap]

theorem idxOf_of_getElem? {order : List Nat} (distinct : order.Nodup) {slot i : Nat}
    (h : order[slot]? = some i) : order.idxOf i = slot := by
  obtain ⟨inside, rfl⟩ := List.getElem?_eq_some_iff.1 h
  exact List.get_idxOf distinct ⟨slot, inside⟩

theorem map_idxOf_self {order : List Nat} (distinct : order.Nodup) :
    order.map order.idxOf = List.range order.length := by
  apply List.ext_getElem
  · simp
  · intro slot inside _
    rw [List.length_map] at inside
    simpa using idxOf_of_getElem? distinct (List.getElem?_eq_getElem inside)

theorem Unfolds.children_map {place : Nat → Nat} (h : t.Unfolds f)
    (h' : u.Unfolds (f.map place)) {i : Nat} (hi : i ∈ f.preorder) :
    ∃ n m, t.nodes[i]? = some n ∧ u.nodes[place i]? = some m ∧
      m.children = n.children.map place := by
  induction f with
  | nil => cases hi
  | cons j below beside ih ih' =>
    obtain ⟨⟨n, hn, children⟩, under, aside⟩ := h
    obtain ⟨⟨m, hm, children'⟩, under', aside'⟩ := h'
    simp only [Forest.preorder, List.mem_cons, List.mem_append] at hi
    rcases hi with rfl | hi | hi
    · exact ⟨n, m, hn, hm, by rw [children', children, Forest.roots_map]⟩
    · exact ih under under' hi
    · exact ih' aside aside' hi

section Copy

-- `u` holds a copy of what stands below a root of `t`, each node at another place
variable {root : Nat} {place : Nat → Nat} {s s' : Session}
  (h : t.Arborescent) (h' : u.Arborescent) (numbered : Numbered s u s')
  (unfolds : t.Unfolds f) (roots : f.roots = [root]) (unfolds' : u.Unfolds (f.map place))
  (labels : (f.map place).map u.label = f.map t.label)
include h h' unfolds roots unfolds'

theorem parent_moved {i : Nat} (hi : i ∈ f.preorder) (inner : i ≠ root) {n m : Node}
    (hn : t.nodes[i]? = some n) (hm : u.nodes[place i]? = some m) :
    m.parent = n.parent.map place := by
  obtain ⟨r, hr, path⟩ := (unfolds.mem_preorder_iff i).1 hi
  rw [roots, List.mem_singleton] at hr
  subst hr
  rcases Relation.ReflTransGen.cases_head path with same | ⟨p, child, rest⟩
  · exact absurd same inner
  have hp : p ∈ f.preorder := (unfolds.mem_preorder_iff p).2 ⟨r, by rw [roots]; simp, rest⟩
  obtain ⟨np, mp, hnp, hmp, children⟩ := unfolds.children_map unfolds' hp
  obtain ⟨n', hn', parent⟩ := h.parent_iff.2 child
  obtain rfl := Option.some.inj (hn.symm.trans hn')
  -- the copy of the parent lists the copy of the child
  have child' : u.Child (place i) (place p) := by
    obtain ⟨np', hnp', listed⟩ := child
    obtain rfl := Option.some.inj (hnp.symm.trans hnp')
    exact ⟨mp, hmp, by rw [children]; exact List.mem_map_of_mem listed⟩
  obtain ⟨m', hm', parent'⟩ := h'.parent_iff.2 child'
  obtain rfl := Option.some.inj (hm.symm.trans hm')
  rw [parent, parent', Option.map_some]

include numbered labels in
theorem node_moved {i : Nat} (hi : i ∈ f.preorder)
    (top : ∀ m, u.nodes[place root]? = some m → m.parent = none) :
    ∃ n, t.nodes[i]? = some n ∧ u.nodes[place i]? = some
      { n with
        id := s.nextId + .ofNat (place i)
        fileName := s.fileName
        parent := if i = root then none else n.parent.map place
        payload := n.payload.map place } := by
  obtain ⟨n, m, hn, hm, children⟩ := unfolds.children_map unfolds' hi
  have entries : m.entry = n.entry := by
    rw [Forest.map_map] at labels
    have same := Forest.eq_of_map_eq labels hi
    rwa [Function.comp_apply, label_eq hm, label_eq hn] at same
  obtain ⟨symbol, name, payload⟩ := Node.payload_eq_map entries children
  obtain ⟨id, fileName⟩ := numbered.node hm
  have parent : m.parent = if i = root then none else n.parent.map place := by
    split
    · next here =>
      subst here
      exact top m hm
    · next inner => exact parent_moved h h' unfolds roots unfolds' hi inner hn hm
  exact ⟨n, hn, by rw [hm, ← symbol, ← name, ← payload, ← id, ← fileName, ← parent]⟩

end Copy

theorem reordered_of_labels {root root' : Nat} {f' : Forest Nat} {s s' : Session}
    (h : t.Arborescent) (unfolds : t.Unfolds f) (roots : f.roots = [root])
    (distinct : f.postorder.Nodup) (h' : u.Arborescent) (numbered : Numbered s u s')
    (arena : u.Stacked [root'] f') (marked : u.root = some root')
    (labels : f'.map u.label = f.map t.label) : t.Reordered root f.postorder s u := by
  have size : u.nodes.size = f.postorder.length := by
    have counts := congrArg (fun g => g.postorder.length) labels
    simpa only [Forest.postorder_map, List.length_map, arena.postorder, List.length_range]
      using counts
  have places : f'.postorder = f.postorder.map f.postorder.idxOf := by
    rw [arena.postorder, map_idxOf_self distinct, size]
  have moved : f' = f.map f.postorder.idxOf := Forest.eq_map_of_postorder labels.symm places
  subst moved
  have top : root' = f.postorder.idxOf root := by
    have heads := arena.roots
    rw [Forest.roots_map, roots] at heads
    exact (List.cons.inj heads).1.symm
  subst top
  refine ⟨size, marked, ?_⟩
  intro slot i hi
  have listed : i ∈ f.preorder :=
    f.preorder_perm_postorder.mem_iff.2 (List.mem_of_getElem? hi)
  have detached : ∀ m, u.nodes[f.postorder.idxOf root]? = some m → m.parent = none :=
    fun m hm => (arena.detached _ m hm).2 List.mem_cons_self
  have node := node_moved h h' numbered unfolds roots arena.unfolds labels listed detached
  rwa [idxOf_of_getElem? distinct hi] at node

namespace Arborescent

variable {root : Nat}

/-- Describing a tree and rebuilding it reorders the nodes below the root and drops the
others. -/
theorem rebuild_describe (h : t.Arborescent) (marked : t.root = some root)
    (unfolds : t.Unfolds f) (roots : f.roots = [root]) (s : Session) :
    ∃ d u, t.describe = some d ∧ (d.rebuild s).1 = .ok u ∧ t.structurallyEq u = true ∧
      t.Reordered root f.postorder s u := by
  obtain ⟨below, rfl⟩ := Forest.eq_cons_of_roots roots
  have walk := h.preorderFrom_eq unfolds
  have listed := h.entries_describeFrom unfolds
  let shown : OrderedTree Entry := ⟨t.label root, below.map t.label⟩
  have counted : shown.forest.Counted Entry.arity := unfolds.counted
  obtain ⟨u, root', f', built, marked', arena, labels⟩ :=
    Description.rebuild_listing counted listed.symm s
  have path := Description.becomes_rebuild built
  have distinct := (Forest.preorder_perm_postorder _).nodup_iff.1 (h.nodup_tree unfolds)
  refine ⟨t.describeFrom root, u, by rw [describe, marked, Option.map_some], built, ?_, ?_⟩
  · rw [structurallyEq, alike_iff, preorderNodes, preorderNodes, preorder, preorder,
      marked, marked']
    simp only [walk, arena.preorderFrom_eq]
    rw [unfolds.map_entry_nodes, arena.unfolds.map_entry_nodes, labels]
    rfl
  · exact reordered_of_labels h unfolds rfl distinct (Arborescent.empty.becomes path)
      ((Numbered.empty s).becomes path) arena marked' labels

end Arborescent

theorem Arborescent.payload_map_eq (h : t.Arborescent) {i : Nat} {n : Node}
    (hn : t.nodes[i]? = some n) {place : Nat → Nat} (fixed : ∀ j < t.nodes.size, place j = j) :
    n.payload.map place = n.payload := by
  cases hp : n.payload with
  | token lexeme line => rfl
  | interior children =>
    have same : children.map place = children := by
      refine (List.map_congr_left fun c hc => ?_).trans (List.map_id children)
      have older : c < i := h.older ⟨n, hn, by rwa [Node.children, hp]⟩
      exact fixed c (older.trans (Array.getElem?_eq_some_iff.1 hn).1)
    rw [Payload.map, same]

theorem Arborescent.parent_map_eq (h : t.Arborescent) {i : Nat} {n : Node}
    (hn : t.nodes[i]? = some n) {place : Nat → Nat} (fixed : ∀ j < t.nodes.size, place j = j) :
    n.parent.map place = n.parent := by
  cases hp : n.parent with
  | none => rfl
  | some p =>
    obtain ⟨m, hm, -⟩ := h.parent_iff.1 ⟨n, hn, hp⟩
    rw [Option.map_some, fixed p (Array.getElem?_eq_some_iff.1 hm).1]

theorem Reordered.eq_renamed {root : Nat} {first s s' : Session}
    (reordered : t.Reordered root f.postorder s u) (h : t.Arborescent)
    (arena : t.Stacked [root] f) (marked : t.root = some root) (numbered : Numbered first t s')
    (ids : s.nextId = first.nextId) :
    u = { t with nodes := t.nodes.map fun n => { n with fileName := s.fileName } } := by
  rw [arena.postorder] at reordered
  obtain ⟨size, marked', node⟩ := reordered
  rw [List.length_range] at size
  have fixed : ∀ i < t.nodes.size, (List.range t.nodes.size).idxOf i = i :=
    fun i inside => idxOf_of_getElem? List.nodup_range (List.getElem?_range inside)
  have nodes : u.nodes = t.nodes.map fun n => { n with fileName := s.fileName } := by
    apply Array.ext_getElem?
    intro slot
    by_cases inside : slot < t.nodes.size
    · obtain ⟨n, hn, hu⟩ := node slot slot (List.getElem?_range inside)
      obtain ⟨id, -⟩ := numbered.node hn
      have parent : (if slot = root then none
          else n.parent.map (List.range t.nodes.size).idxOf) = n.parent := by
        split
        · next here => exact ((arena.detached slot n hn).2 (here ▸ List.mem_cons_self)).symm
        · exact h.parent_map_eq hn fixed
      rw [hu, parent, h.payload_map_eq hn fixed, ids, ← id, Array.getElem?_map, hn]
      rfl
    · have beyond := Nat.le_of_not_lt inside
      rw [Array.getElem?_eq_none (size ▸ beyond), Array.getElem?_eq_none (by simpa using beyond)]
  have roots : u.root = t.root := by
    rw [marked', marked, fixed root (arena.lt_size List.mem_cons_self)]
  have eta : u = ⟨u.nodes, u.root⟩ := rfl
  rw [eta, nodes, roots]

theorem accept_run {s : Session} {calls : List Call} {b : Builder}
    (accepted : (Builder.run s calls).accept = (.ok t, b)) :
    ∃ root f s', t.root = some root ∧ t.Stacked [root] f ∧ Becomes ({}, s) (t, s') := by
  rcases Builder.run_becomes s calls with ended | ⟨f, opened, path⟩
  · rw [Builder.unfinished_of_accept accepted] at ended
    cases ended
  · obtain ⟨root, rfl, arena⟩ := opened.stacked_of_accept accepted
    -- the mark is one edit more
    have last : EditStep ((Builder.run s calls).tree, (Builder.run s calls).session)
        ({ (Builder.run s calls).tree with root := some root }, (Builder.run s calls).session) :=
      ⟨.root root, by rw [edit, (arena.withRoot (Builder.run s calls).tree.root).setRoot_ok]⟩
    exact ⟨root, f, _, rfl, arena, path.tail last⟩

/-- Described and rebuilt, a tree is the same but for its arena, which holds what the root
reaches and nothing else, in post-order and numbered from the session's next identifier on.
For the tree of a builder this is the arena that it was, up to the file name, if the
identifiers begin alike. -/
theorem describe_rebuild_postorder :
    (∀ (edits : List (Session × Edit)) (root : Nat), (built edits).root = some root →
      ∀ s : Session, ∃ f : Forest Nat, f.roots = [root] ∧ (built edits).Unfolds f ∧
        f.postorder.Nodup ∧
        (∀ i, i ∈ f.postorder ↔ Relation.ReflTransGen (built edits).Child i root) ∧
        ∃ d u, (built edits).describe = some d ∧ (d.rebuild s).1 = .ok u ∧
          (built edits).structurallyEq u = true ∧
          (built edits).Reordered root f.postorder s u) ∧
    ∀ (s : Session) (calls : List Call) (t : Tree) (b : Builder),
      (Builder.run s calls).accept = (.ok t, b) →
      ∀ file : String, ∃ d, t.describe = some d ∧
        (d.rebuild ⟨file, s.nextId⟩).1 =
          .ok { t with nodes := t.nodes.map fun n => { n with fileName := file } } := by
  constructor
  · intro edits root marked s
    have h := Arborescent.built edits
    obtain ⟨below, unfolds⟩ := h.exists_unfolds (h.root_lt marked)
    have orders := (Forest.cons root below .nil).preorder_perm_postorder
    refine ⟨_, rfl, unfolds, orders.nodup_iff.1 (h.nodup_tree unfolds), ?_,
      h.rebuild_describe marked unfolds rfl s⟩
    intro i
    rw [← orders.mem_iff, unfolds.mem_preorder_iff]
    simp [Forest.roots]
  · intro s calls t b accepted file
    obtain ⟨root, f, s', marked, arena, path⟩ := accept_run accepted
    have h := Arborescent.empty.becomes path
    obtain ⟨d, u, described, built, -, reordered⟩ :=
      h.rebuild_describe marked arena.unfolds arena.roots ⟨file, s.nextId⟩
    have same := reordered.eq_renamed h arena marked ((Numbered.empty s).becomes path) rfl
    exact ⟨d, described, by rw [built, same]⟩

theorem describe_rebuild_postorder_pair :
    (∃ d u,
      (built [(⟨"a.php", 4⟩, .token ⟨0, "ID", "x", 1⟩), (⟨"b.php", 0⟩, .token ⟨0, "ID", "y", 2⟩),
          (⟨"a.php", 5⟩, .token ⟨0, "ID", "z", 3⟩), (⟨"a.php", 6⟩, .interior 2 "pair" [2, 0]),
          (⟨"a.php", 7⟩, .root 3)]).describe = some d ∧
      (d.rebuild ⟨"out.php", 18446744073709551615⟩).1 = .ok u ∧
      u.nodes.toList.map (·.id) = [18446744073709551615, 0, 1] ∧
      u.nodes.toList.map Node.children = [[], [], [0, 1]]) ∧
    ∃ t b,
      (Builder.run ⟨"a.php", 9⟩ [.shift ⟨0, "ID", "x", 1⟩, .reduce ⟨3, "opt", 0⟩,
        .reduce ⟨2, "pair", 2⟩]).accept = (.ok t, b) ∧
      ∃ d, t.describe = some d ∧ (d.rebuild ⟨"out.php", 9⟩).1 =
        .ok { t with nodes := t.nodes.map fun n => { n with fileName := "out.php" } } := by
  constructor
  · obtain ⟨f, -, -, -, -, d, u, described, built, -, -⟩ := describe_rebuild_postorder.1
      [(⟨"a.php", 4⟩, .token ⟨0, "ID", "x", 1⟩), (⟨"b.php", 0⟩, .token ⟨0, "ID", "y", 2⟩),
        (⟨"a.php", 5⟩, .token ⟨0, "ID", "z", 3⟩), (⟨"a.php", 6⟩, .interior 2 "pair" [2, 0]),
        (⟨"a.php", 7⟩, .root 3)] 3 rfl ⟨"out.php", 18446744073709551615⟩
    refine ⟨d, u, described, built, ?_⟩
    obtain rfl := Option.some.inj described
    obtain rfl := Except.ok.inj built
    exact ⟨rfl, rfl⟩
  · exact ⟨_, _, rfl, describe_rebuild_postorder.2 ⟨"a.php", 9⟩
      [.shift ⟨0, "ID", "x", 1⟩, .reduce ⟨3, "opt", 0⟩, .reduce ⟨2, "pair", 2⟩] _ _ rfl "out.php"⟩

end Tree

end ParseTrace
