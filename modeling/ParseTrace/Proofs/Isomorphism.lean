import ParseTrace.Proofs.PostOrder

/-!
Structural equality as isomorphism. Two walks in pre-order that agree label by label and
arity by arity can only come from one ordered tree, so the lockstep comparison of the walks
decides whether the rooted trees are the same, and so does a comparison of descriptions.
-/

namespace ParseTrace

theorem Node.entry_children_of_moved {n m : Node} {place : Nat → Nat}
    (symbol : m.symbol = n.symbol) (name : m.name = n.name)
    (payload : m.payload = n.payload.map place) :
    m.entry = n.entry ∧ m.children = n.children.map place := by
  unfold Node.entry Node.children
  rw [symbol, name, payload]
  cases n.payload <;> simp [Payload.map]

namespace Tree

/-- What stands at and below these two nodes is the same ordered tree with the same labels. -/
inductive Isomorphic (t u : Tree) : Nat → Nat → Prop
  | token {i j : Nat} {n m : Node} {lexeme : String} {line : Int32} :
      t.nodes[i]? = some n → u.nodes[j]? = some m → n.symbol = m.symbol → n.name = m.name →
      n.payload = .token lexeme line → m.payload = .token lexeme line → Isomorphic t u i j
  | interior {i j : Nat} {n m : Node} {children children' : List Nat} :
      t.nodes[i]? = some n → u.nodes[j]? = some m → n.symbol = m.symbol → n.name = m.name →
      n.payload = .interior children → m.payload = .interior children' →
      List.Forall₂ (Isomorphic t u) children children' → Isomorphic t u i j

def SameRooted (t u : Tree) : Prop :=
  t.root = none ∧ u.root = none ∨
    ∃ r r', t.root = some r ∧ u.root = some r' ∧ Isomorphic t u r r'

variable {t u : Tree} {f g : Forest Nat}

theorem isomorphic_iff {i j : Nat} {n m : Node} (hn : t.nodes[i]? = some n)
    (hm : u.nodes[j]? = some m) :
    Isomorphic t u i j ↔
      n.entry = m.entry ∧ List.Forall₂ (Isomorphic t u) n.children m.children := by
  constructor
  · intro same
    cases same with
    | token hn' hm' symbol name payload payload' =>
      obtain rfl := Option.some.inj (hn.symm.trans hn')
      obtain rfl := Option.some.inj (hm.symm.trans hm')
      simp [Node.entry, Node.children, payload, payload', symbol, name]
    | interior hn' hm' symbol name payload payload' below =>
      obtain rfl := Option.some.inj (hn.symm.trans hn')
      obtain rfl := Option.some.inj (hm.symm.trans hm')
      simpa [Node.entry, Node.children, payload, payload', symbol, name] using
        ⟨below.length_eq, below⟩
  · rintro ⟨entries, below⟩
    unfold Node.entry at entries
    cases hp : n.payload with
    | token lexeme line =>
      cases hq : m.payload with
      | token lexeme' line' =>
        rw [hp, hq] at entries
        obtain ⟨symbol, name, rfl, rfl⟩ := Entry.token.inj entries
        exact .token hn hm symbol name hp hq
      | interior children' => rw [hp, hq] at entries; cases entries
    | interior children =>
      cases hq : m.payload with
      | token lexeme line => rw [hp, hq] at entries; cases entries
      | interior children' =>
        rw [hp, hq] at entries
        obtain ⟨symbol, name, -⟩ := Entry.interior.inj entries
        simp only [Node.children, hp, hq] at below
        exact .interior hn hm symbol name hp hq below

theorem Unfolds.isomorphic_roots_iff (h : t.Unfolds f) (h' : u.Unfolds g) :
    List.Forall₂ (Isomorphic t u) f.roots g.roots ↔ f.map t.label = g.map u.label := by
  induction f generalizing g with
  | nil => cases g <;> simp [Forest.roots, Forest.map]
  | cons i below beside ih ih' =>
    cases g with
    | nil => simp [Forest.roots, Forest.map]
    | cons j below' beside' =>
      obtain ⟨⟨n, hn, children⟩, under, aside⟩ := h
      obtain ⟨⟨m, hm, children'⟩, under', aside'⟩ := h'
      simp only [Forest.roots, Forest.map, List.forall₂_cons, Forest.cons.injEq,
        isomorphic_iff hn hm, children, children', ih under under', ih' aside aside',
        label_eq hn, label_eq hm, and_assoc]

theorem Unfolds.moved {place : Nat → Nat} (h : t.Unfolds f)
    (each : ∀ i ∈ f.preorder, ∀ n, t.nodes[i]? = some n → ∃ m, u.nodes[place i]? = some m ∧
      m.symbol = n.symbol ∧ m.name = n.name ∧ m.payload = n.payload.map place) :
    u.Unfolds (f.map place) ∧ f.map t.label = (f.map place).map u.label := by
  induction f with
  | nil => exact ⟨trivial, rfl⟩
  | cons i below beside ih ih' =>
    obtain ⟨⟨n, hn, children⟩, under, aside⟩ := h
    obtain ⟨m, hm, symbol, name, payload⟩ := each i List.mem_cons_self n hn
    obtain ⟨entries, children'⟩ := Node.entry_children_of_moved symbol name payload
    obtain ⟨under', same⟩ := ih under fun j hj =>
      each j (List.mem_cons_of_mem _ (List.mem_append_left _ hj))
    obtain ⟨aside', same'⟩ := ih' aside fun j hj =>
      each j (List.mem_cons_of_mem _ (List.mem_append_right _ hj))
    refine ⟨⟨⟨m, hm, by rw [children', children, Forest.roots_map]⟩, under', aside'⟩, ?_⟩
    simp only [Forest.map, same, same', label_eq hn, label_eq hm, entries]

namespace Arborescent

variable {r r' : Nat}

theorem isomorphic_iff_describeFrom (h : t.Arborescent) (h' : u.Arborescent)
    (inside : r < t.nodes.size) (inside' : r' < u.nodes.size) :
    Isomorphic t u r r' ↔ t.describeFrom r = u.describeFrom r' := by
  obtain ⟨below, unfolds⟩ := h.exists_unfolds inside
  obtain ⟨below', unfolds'⟩ := h'.exists_unfolds inside'
  have same := unfolds.isomorphic_roots_iff unfolds'
  simp only [Forest.roots, List.forall₂_cons, List.Forall₂.nil, and_true] at same
  rw [same, ← Description.entries_inj, h.entries_describeFrom unfolds,
    h'.entries_describeFrom unfolds']
  constructor
  · intro maps
    rw [maps]
  · -- the entries count their subtrees, so a list of them is read in one way only
    intro lists
    exact (Forest.eq_of_preorder_append unfolds.counted unfolds'.counted rfl
      (congrArg (· ++ []) lists)).1

theorem describe_eq_iff (h : t.Arborescent) (h' : u.Arborescent) :
    t.describe = u.describe ↔ t.SameRooted u := by
  unfold SameRooted
  cases root : t.root with
  | none => cases root' : u.root <;> simp [describe, root, root']
  | some r =>
    cases root' : u.root with
    | none => simp [describe, root, root']
    | some r' =>
      have same := h.isomorphic_iff_describeFrom h' (h.root_lt root) (h'.root_lt root')
      simp [describe, root, root', same]

theorem describeFrom_ne_nil (h : t.Arborescent) (inside : r < t.nodes.size) :
    (t.describeFrom r).entries ≠ [] := by
  obtain ⟨below, unfolds⟩ := h.exists_unfolds inside
  rw [h.entries_describeFrom unfolds]
  simp [Forest.map, Forest.preorder]

theorem structurallyEq_iff (h : t.Arborescent) (h' : u.Arborescent) :
    t.structurallyEq u = true ↔ t.describe = u.describe := by
  have walk : ∀ v : Tree, v.preorderNodes.map Node.entry =
      (v.describe.map Description.entries).getD [] := by
    intro v
    cases root : v.root <;>
      simp [preorderNodes, preorder, describe, describeFrom, root, List.map_filterMap]
  rw [structurallyEq, alike_iff, walk, walk]
  -- the walk from a root is never empty, so it differs from that of a tree without one
  cases root : t.root with
  | none =>
    cases root' : u.root with
    | none => simp [describe, root, root']
    | some r' => simp [describe, root, root', (h'.describeFrom_ne_nil (h'.root_lt root')).symm]
  | some r =>
    cases root' : u.root with
    | none => simp [describe, root, root', h.describeFrom_ne_nil (h.root_lt root)]
    | some r' => simp [describe, root, root', Description.entries_inj]

/-- Identifiers, files, places in the arena and nodes out of the root's reach do not count. -/
theorem sameRooted_of_moved (h : t.Arborescent) {place : Nat → Nat}
    (roots : u.root = t.root.map place)
    (each : ∀ r i n, t.root = some r → Relation.ReflTransGen t.Child i r →
      t.nodes[i]? = some n → ∃ m, u.nodes[place i]? = some m ∧
        m.symbol = n.symbol ∧ m.name = n.name ∧ m.payload = n.payload.map place) :
    t.SameRooted u := by
  cases root : t.root with
  | none => exact .inl ⟨root, by rw [roots, root, Option.map_none]⟩
  | some r =>
    obtain ⟨below, unfolds⟩ := h.exists_unfolds (h.root_lt root)
    have reached : ∀ i ∈ (Forest.cons r below .nil).preorder,
        Relation.ReflTransGen t.Child i r := by
      intro i hi
      obtain ⟨r', hr', path⟩ := (unfolds.mem_preorder_iff i).1 hi
      rwa [List.mem_singleton.1 hr'] at path
    obtain ⟨unfolds', same⟩ := unfolds.moved fun i hi n hn => each r i n root (reached i hi) hn
    have isomorphic := (unfolds.isomorphic_roots_iff unfolds').2 same
    simp only [Forest.roots, Forest.map, List.forall₂_cons, List.Forall₂.nil, and_true]
      at isomorphic
    exact .inr ⟨r, place r, root, by rw [roots, root, Option.map_some], isomorphic⟩

end Arborescent

/-- Structural equality of two arenas says that their rooted trees are the same ordered
labelled tree or that both have none; equal descriptions say the same. It is an equivalence,
and a copy with other identifiers, files and places and with other nodes beside it is equal. -/
theorem structurallyEq_isomorphism :
    (∀ edits edits' : List (Session × Edit),
      ((built edits).structurallyEq (built edits') = true ↔
        SameRooted (built edits) (built edits')) ∧
      ((built edits).structurallyEq (built edits') = true ↔
        (built edits).describe = (built edits').describe)) ∧
    Equivalence (fun edits edits' : List (Session × Edit) =>
      (built edits).structurallyEq (built edits') = true) ∧
    ∀ (edits edits' : List (Session × Edit)) (place : Nat → Nat),
      (built edits').root = (built edits).root.map place →
      (∀ r i n, (built edits).root = some r → Relation.ReflTransGen (built edits).Child i r →
        (built edits).nodes[i]? = some n → ∃ m, (built edits').nodes[place i]? = some m ∧
          m.symbol = n.symbol ∧ m.name = n.name ∧ m.payload = n.payload.map place) →
      (built edits).structurallyEq (built edits') = true := by
  have described : ∀ edits edits' : List (Session × Edit),
      (built edits).structurallyEq (built edits') = true ↔
        (built edits).describe = (built edits').describe :=
    fun edits edits' => (Arborescent.built edits).structurallyEq_iff (.built edits')
  have isomorphic : ∀ edits edits' : List (Session × Edit),
      (built edits).structurallyEq (built edits') = true ↔
        SameRooted (built edits) (built edits') :=
    fun edits edits' => (described edits edits').trans
      ((Arborescent.built edits).describe_eq_iff (.built edits'))
  refine ⟨fun edits edits' => ⟨isomorphic edits edits', described edits edits'⟩, ?_, ?_⟩
  · constructor
    · exact fun edits => (described edits edits).2 rfl
    · exact fun {edits edits'} same =>
        (described edits' edits).2 ((described edits edits').1 same).symm
    · exact fun {edits edits' edits''} same same' => (described edits edits'').2
        (((described edits edits').1 same).trans ((described edits' edits'').1 same'))
  · intro edits edits' place roots each
    exact (isomorphic edits edits').2 ((Arborescent.built edits).sameRooted_of_moved roots each)

theorem structurallyEq_isomorphism_shifted :
    (built [(⟨"a.php", 0⟩, .token ⟨0, "ID", "x", 1⟩), (⟨"a.php", 1⟩, .interior 1 "expr" [0]),
        (⟨"a.php", 2⟩, .root 1)]).structurallyEq
      (built [(⟨"b.php", 7⟩, .token ⟨5, "WS", " ", 1⟩), (⟨"b.php", 8⟩, .token ⟨0, "ID", "x", 1⟩),
        (⟨"b.php", 9⟩, .interior 1 "expr" [1]), (⟨"b.php", 9⟩, .root 2)]) = true := by
  refine structurallyEq_isomorphism.2.2 _ _ (· + 1) rfl ?_
  intro r i n root _ hn
  match i with
  | 0 =>
    obtain rfl := Option.some.inj hn
    exact ⟨_, rfl, rfl, rfl, rfl⟩
  | 1 =>
    obtain rfl := Option.some.inj hn
    exact ⟨_, rfl, rfl, rfl, rfl⟩
  | i + 2 => cases hn

end Tree

end ParseTrace
