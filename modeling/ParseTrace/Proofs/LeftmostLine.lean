import ParseTrace.Proofs.Traversal

/-!
Where the leftmost line of a node comes from. The search goes from child to first child until a
node has none, and that node is also the first without children that the walk in pre-order
meets. So the line can be read off a description, and an empty node that comes before all tokens
hides their lines, however deep it stands.
-/

namespace ParseTrace

def Entry.ownLine : Entry → Int32
  | .token _ _ _ line => line
  | .interior .. => Tree.epsilonLine

namespace Node

variable {n : Node}

theorem isToken_iff : n.isToken = true ↔ ∃ lexeme line, n.payload = .token lexeme line := by
  unfold isToken
  cases n.payload <;> simp

theorem isToken_eq_false_iff : n.isToken = false ↔ ∃ children, n.payload = .interior children := by
  unfold isToken
  cases n.payload <;> simp

theorem line_of_isToken (token : n.isToken = true) : n.line = .ok n.entry.ownLine := by
  obtain ⟨lexeme, line, hp⟩ := isToken_iff.1 token
  simp [Node.line, entry, Entry.ownLine, hp]

theorem children_of_isToken (token : n.isToken = true) : n.children = [] := by
  obtain ⟨lexeme, line, hp⟩ := isToken_iff.1 token
  simp [Node.children, hp]

theorem ownLine_of_interior (interior : n.isToken = false) :
    n.entry.ownLine = Tree.epsilonLine := by
  obtain ⟨children, hp⟩ := isToken_eq_false_iff.1 interior
  simp [entry, Entry.ownLine, hp]

end Node

namespace Tree

def FirstChild (t : Tree) (p c : Nat) : Prop :=
  ∃ n, t.nodes[p]? = some n ∧ n.children.head? = some c

def isChildless (t : Tree) (i : Nat) : Bool :=
  t.nodes[i]?.any (·.children.isEmpty)

def isTokenAt (t : Tree) (i : Nat) : Bool :=
  t.nodes[i]?.any Node.isToken

variable {t u : Tree} {f g : Forest Nat} {i j : Nat} {n : Node}

theorem isChildless_eq (hn : t.nodes[i]? = some n) : t.isChildless i = n.children.isEmpty := by
  rw [isChildless, hn, Option.any_some]

theorem isTokenAt_eq (hn : t.nodes[i]? = some n) : t.isTokenAt i = n.isToken := by
  rw [isTokenAt, hn, Option.any_some]

theorem Arborescent.leftmostLine_eq (h : t.Arborescent) (hn : t.nodes[i]? = some n) :
    t.leftmostLine i = (n.children.head?.map t.leftmostLine).getD n.entry.ownLine := by
  rw [leftmostLine, hn]
  cases hp : n.payload with
  | token lexeme line => simp [hp, Node.children, Node.entry, Entry.ownLine]
  | interior children =>
    cases children with
    | nil => simp [hp, Node.children, Node.entry, Entry.ownLine]
    | cons first rest =>
      have older : first < i := h.older ⟨n, hn, by simp [Node.children, hp]⟩
      simp [hp, Node.children, older]

theorem Arborescent.exists_first_childless (h : t.Arborescent) (hn : t.nodes[i]? = some n) :
    ∃ e m, (t.preorderFrom i).find? t.isChildless = some e ∧ t.nodes[e]? = some m ∧
      m.children = [] ∧ Relation.ReflTransGen t.FirstChild i e ∧
      t.leftmostLine i = m.entry.ownLine := by
  -- the search and the walk both go on with the first child, which is older
  induction i using Nat.strong_induction_on generalizing n with
  | _ i ih =>
    have inside := (Array.getElem?_eq_some_iff.1 hn).1
    rw [h.preorderFrom_cons inside hn, h.leftmostLine_eq hn]
    cases children : n.children with
    | nil =>
      have childless : t.isChildless i = true := by rw [isChildless_eq hn, children]; rfl
      exact ⟨i, n, List.find?_cons_of_pos childless, hn, children, .refl, rfl⟩
    | cons first rest =>
      have older : first < i := h.older ⟨n, hn, children ▸ List.mem_cons_self⟩
      have childful : ¬ t.isChildless i = true := by simp [isChildless_eq hn, children]
      obtain ⟨e, m, found, hm, bare, path, line⟩ :=
        ih first older (Array.getElem?_eq_getElem (older.trans inside))
      have step : t.FirstChild i first := ⟨n, hn, by rw [children]; rfl⟩
      refine ⟨e, m, ?_, hm, bare, .head step path, line⟩
      rw [List.find?_cons_of_neg childful, List.flatMap_cons, List.find?_append, found,
        Option.some_or]

namespace Arborescent

variable (h : t.Arborescent) (inside : i < t.nodes.size)
include h inside

theorem leftmostLine_describeFrom :
    ((t.describeFrom i).entries.find? fun e => e.arity == 0).map Entry.ownLine =
      some (t.leftmostLine i) := by
  have hn := Array.getElem?_eq_getElem inside
  obtain ⟨e, m, found, hm, -, -, line⟩ := h.exists_first_childless hn
  have same : ∀ j ∈ t.preorderFrom i, ((t.label j).arity == 0) = t.isChildless j := by
    intro j hj
    obtain ⟨n, hn⟩ := h.exists_node_of_mem inside hj
    rw [label_eq hn, Node.arity_entry, isChildless_eq hn]
    cases n.children <;> rfl
  rw [h.entries_describeFrom_eq inside, List.find?_map, Function.comp_def, List.find?_congr same,
    found, Option.map_some, Option.map_some, label_eq hm, line]

theorem leftmostLine_congr (h' : u.Arborescent) (inside' : j < u.nodes.size)
    (same : (t.describeFrom i).entries = (u.describeFrom j).entries) :
    t.leftmostLine i = u.leftmostLine j := by
  have line := h.leftmostLine_describeFrom inside
  rw [same, h'.leftmostLine_describeFrom inside'] at line
  exact (Option.some.inj line).symm

end Arborescent

theorem Unfolds.map_leftmostLine (h : t.Arborescent) (h' : u.Arborescent) (ht : t.Unfolds f)
    (hu : u.Unfolds g) (labels : f.map t.label = g.map u.label) :
    f.map t.leftmostLine = g.map u.leftmostLine := by
  induction f generalizing g with
  | nil =>
    cases g with
    | nil => rfl
    | cons j below' beside' => cases labels
  | cons i below beside ih ih' =>
    cases g with
    | nil => cases labels
    | cons j below' beside' =>
      obtain ⟨⟨n, hn, children⟩, under, aside⟩ := ht
      obtain ⟨⟨m, hm, children'⟩, under', aside'⟩ := hu
      obtain ⟨entry, labels, labels'⟩ := Forest.cons.inj labels
      have tree : t.Unfolds (.cons i below .nil) := ⟨⟨n, hn, children⟩, under, trivial⟩
      have tree' : u.Unfolds (.cons j below' .nil) := ⟨⟨m, hm, children'⟩, under', trivial⟩
      have first : t.leftmostLine i = u.leftmostLine j := by
        refine h.leftmostLine_congr (Array.getElem?_eq_some_iff.1 hn).1 h'
          (Array.getElem?_eq_some_iff.1 hm).1 ?_
        rw [h.entries_describeFrom tree, h'.entries_describeFrom tree']
        simp only [Forest.map, entry, labels]
      rw [Forest.map, Forest.map, first, ih under under' labels, ih' aside aside' labels']

/-- The leftmost line of a node is decided by the first node without children that its pre-order
meets, where the path along first children ends: a token gives its line, an interior node the
line that stands for none. If all nodes without children are tokens, then that is the first
token of the pre-order. -/
theorem leftmostLine_first_childless (edits : List (Session × Edit)) {i : Nat} {n : Node}
    (hn : (built edits).nodes[i]? = some n) :
    let t := built edits
    ∃ e m, (t.preorderFrom i).find? t.isChildless = some e ∧ t.nodes[e]? = some m ∧
      Relation.ReflTransGen t.FirstChild i e ∧
      (m.isToken = true → m.line = .ok (t.leftmostLine i)) ∧
      (m.isToken = false → t.leftmostLine i = epsilonLine) ∧
      ((∀ j ∈ t.preorderFrom i, t.isTokenAt j = false → t.isChildless j = false) →
        (t.preorderFrom i).find? t.isTokenAt = some e ∧ m.line = .ok (t.leftmostLine i)) := by
  intro t
  have h := Arborescent.built edits
  have inside := (Array.getElem?_eq_some_iff.1 hn).1
  obtain ⟨e, m, found, hm, bare, path, line⟩ := h.exists_first_childless hn
  have own : m.isToken = true → m.line = .ok (t.leftmostLine i) :=
    fun token => (Node.line_of_isToken token).trans (congrArg Except.ok line.symm)
  refine ⟨e, m, found, hm, path, own,
    fun interior => line.trans (Node.ownLine_of_interior interior), fun full => ?_⟩
  -- a token has no children, so here the tokens are the nodes without
  have same : ∀ j ∈ t.preorderFrom i, t.isTokenAt j = t.isChildless j := by
    intro j hj
    cases token : t.isTokenAt j with
    | false => exact (full j hj token).symm
    | true =>
      obtain ⟨k, hk⟩ := h.exists_node_of_mem inside hj
      rw [isTokenAt_eq hk] at token
      rw [isChildless_eq hk, Node.children_of_isToken token]
      rfl
  have first : (t.preorderFrom i).find? t.isTokenAt = some e :=
    (List.find?_congr same).trans found
  refine ⟨first, own ?_⟩
  rw [← isTokenAt_eq hm]
  exact List.find?_some first

/-- An empty node two levels below hides the token that stands beside it; below its own parent
the token counts. -/
theorem leftmostLine_first_childless_nested :
    let s : Session := ⟨"in.php", 5⟩
    let t := built [(s, .interior 3 "opt" []), (s, .interior 2 "head" [0]),
      (s, .token ⟨0, "ID", "x", 7⟩), (s, .interior 1 "tail" [2]), (s, .interior 4 "decl" [1, 3])]
    t.leftmostLine 4 = epsilonLine ∧ (t.preorderFrom 4).find? t.isTokenAt = some 2 ∧
      t.leftmostLine 3 = 7 := by
  intro s t
  obtain ⟨n, hn⟩ : ∃ n, t.nodes[4]? = some n := Option.isSome_iff_exists.1 (by decide +kernel)
  obtain ⟨n', hn'⟩ : ∃ n, t.nodes[3]? = some n := Option.isSome_iff_exists.1 (by decide +kernel)
  obtain ⟨e, m, found, hm, -, -, none, -⟩ := leftmostLine_first_childless _ hn
  obtain ⟨e', m', -, hm', -, -, -, full⟩ := leftmostLine_first_childless _ hn'
  obtain ⟨found', line⟩ := full (by decide +kernel)
  have empty : (t.preorderFrom 4).find? t.isChildless = some 0 := by decide +kernel
  have token : (t.preorderFrom 3).find? t.isTokenAt = some 2 := by decide +kernel
  obtain rfl := Option.some.inj (empty.symm.trans found)
  obtain rfl := Option.some.inj (token.symm.trans found')
  have head : t.nodes[0]?.map Node.isToken = some false := by decide +kernel
  have tail : t.nodes[2]?.map Node.line = some (.ok 7) := by decide +kernel
  rw [hm, Option.map_some, Option.some.injEq] at head
  rw [hm', Option.map_some, Option.some.injEq] at tail
  exact ⟨none head, by decide +kernel, Except.ok.inj (line.symm.trans tail)⟩

end Tree

end ParseTrace
