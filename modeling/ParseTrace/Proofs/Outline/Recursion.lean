import ParseTrace.Proofs.Outline.Lines

/-!
The outline against the recursion on a tree. The walk keeps the nodes still to write, each with
its depth, and the blanks of all lines so far; the recursion writes a node and then its children,
one level deeper, and makes the blanks of every line anew. Both write the lines of the same
nodes, at the same depths and in the same order.
-/

namespace ParseTrace.Tree

/-- The line of a node at a depth and then, from left to right, the outlines of its children,
one level deeper. A child comes before its parent. -/
def recursiveOutline (t : Tree) (depth i : Nat) : String :=
  match t.nodes[i]? with
  | none => ""
  | some n =>
    match n.payload with
    | .token lexeme line =>
      Text.blanks (2 * depth) ++
        s!"{n.name} #{n.symbol.toNat} {Text.quoted lexeme} line {line.toInt}\n"
    | .interior children =>
      Text.blanks (2 * depth) ++
        s!"{n.name} #{n.symbol.toNat} [{n.fileName}:{(t.leftmostLine i).toInt}]\n" ++
        String.join (children.map fun c => if c < i then recursiveOutline t (depth + 1) c else "")
termination_by i

variable {t : Tree} {f : Forest Nat} {i : Nat} {n : Node}

theorem recursiveOutline_token {lexeme : String} {line : Int32} (hn : t.nodes[i]? = some n)
    (token : n.payload = .token lexeme line) (depth : Nat) :
    t.recursiveOutline depth i = Text.blanks (2 * depth) ++
      s!"{n.name} #{n.symbol.toNat} {Text.quoted lexeme} line {line.toInt}\n" := by
  rw [recursiveOutline, hn]
  simp only [token]

namespace Arborescent

theorem recursiveOutline_interior (h : t.Arborescent) {children : List Nat}
    (hn : t.nodes[i]? = some n) (interior : n.payload = .interior children) (depth : Nat) :
    t.recursiveOutline depth i =
      Text.blanks (2 * depth) ++
        s!"{n.name} #{n.symbol.toNat} [{n.fileName}:{(t.leftmostLine i).toInt}]\n" ++
        String.join (children.map (t.recursiveOutline (depth + 1))) := by
  rw [recursiveOutline, hn]
  simp only [interior]
  refine congrArg (fun below => _ ++ String.join below) (List.map_congr_left fun c hc => ?_)
  have older : c < i := h.older ⟨n, hn, by simpa only [Node.children, interior] using hc⟩
  rw [if_pos older]

theorem recursiveOutline_eq (h : t.Arborescent) (hn : t.nodes[i]? = some n) (depth : Nat) :
    t.recursiveOutline depth i = String.ofList (t.indented (i, depth) ++ ['\n']) ++
      String.join (n.children.map (t.recursiveOutline (depth + 1))) := by
  apply String.toList_inj.1
  cases hp : n.payload with
  | token lexeme line =>
    rw [recursiveOutline_token hn hp]
    simp [indented, lineAt_eq hn, outlineLine, hp, Node.children, Text.toString_text]
  | interior children =>
    rw [h.recursiveOutline_interior hn hp]
    simp [indented, lineAt_eq hn, outlineLine, hp, Node.children, location, hn, Text.toString_text]

/-- The outlines of the roots of a forest are the lines of all its nodes, in pre-order. -/
theorem join_recursiveOutline (h : t.Arborescent) (unfolds : t.Unfolds f) (depth : Nat) :
    String.join (f.roots.map (t.recursiveOutline depth)) =
      String.ofList ((f.levels depth).flatMap (t.indented · ++ ['\n'])) := by
  induction f generalizing depth with
  | nil => rfl
  | cons i below beside ih ih' =>
    obtain ⟨⟨n, hn, children⟩, under, aside⟩ := unfolds
    rw [Forest.roots, List.map_cons, String.join_cons, h.recursiveOutline_eq hn, children,
      ih under, ih' aside, String.append_assoc, ← String.ofList_append, ← String.ofList_append,
      Forest.levels, List.flatMap_cons, List.flatMap_append]

theorem recursiveOutline_root (h : t.Arborescent) {below : Forest Nat}
    (unfolds : t.Unfolds (.cons i below .nil)) (depth : Nat) :
    t.recursiveOutline depth i = String.ofList
      (((Forest.cons i below .nil).levels depth).flatMap (t.indented · ++ ['\n'])) := by
  rw [← h.join_recursiveOutline unfolds, Forest.roots, Forest.roots, List.map_singleton,
    String.join_cons, String.join_nil, String.append_empty]

end Arborescent

/-- The walk with its kept blanks does not fail at any line, and it writes what the recursion
writes: at every depth the blanks and the line of a node, with its lexeme and line or with its
own location, and then the outlines of its children. -/
theorem outline_recursive (edits : List (Session × Edit)) {r : Nat}
    (root : (built edits).root = some r) :
    let t := built edits
    t.outline? = some (t.recursiveOutline 0 r) ∧
    t.outline = t.recursiveOutline 0 r ∧
    toString t = t.recursiveOutline 0 r ∧
    ∀ (depth i : Nat) (n : Node), t.nodes[i]? = some n →
      match n.payload with
      | .token lexeme line =>
        t.recursiveOutline depth i = Text.blanks (2 * depth) ++
          s!"{n.name} #{n.symbol.toNat} {Text.quoted lexeme} line {line.toInt}\n"
      | .interior children =>
        t.recursiveOutline depth i =
          Text.blanks (2 * depth) ++
            s!"{n.name} #{n.symbol.toNat} [{n.fileName}:{(t.leftmostLine i).toInt}]\n" ++
            String.join (children.map (t.recursiveOutline (depth + 1))) := by
  intro t
  have h := Arborescent.built edits
  obtain ⟨below, unfolds⟩ := h.exists_unfolds (h.root_lt root)
  have written : t.outline? = some (t.recursiveOutline 0 r) := by
    rw [h.outline?_eq root unfolds, h.recursiveOutline_root unfolds]
  have same : t.outline = t.recursiveOutline 0 r := by
    rw [outline, written, Option.getD_some]
  refine ⟨written, same, same, fun depth i n hn => ?_⟩
  cases hp : n.payload with
  | token lexeme line => exact recursiveOutline_token hn hp depth
  | interior children => exact h.recursiveOutline_interior hn hp depth

theorem outline_recursive_nested :
    let s : Session := ⟨"in.php", 4⟩
    let t := built [(s, .token ⟨0, "ID", "x", 1⟩), (s, .interior 2 "list" [0]),
      (s, .interior 2 "list" [1]), (s, .token ⟨0, "ID", "y", 2⟩), (s, .interior 1 "pair" [2, 3]),
      (s, .root 4)]
    t.root = some 4 ∧
      t.outline? = some (t.recursiveOutline 0 4) ∧
      t.recursiveOutline 0 4 = "pair #1 [in.php:1]\n" ++ "  list #2 [in.php:1]\n" ++
        "    list #2 [in.php:1]\n" ++ "      ID #0 \"x\" line 1\n" ++ "  ID #0 \"y\" line 2\n" := by
  intro s t
  have root : t.root = some 4 := by decide +kernel
  obtain ⟨written, same, -⟩ := outline_recursive _ root
  refine ⟨root, written, ?_⟩
  rw [← same]
  decide +kernel

end ParseTrace.Tree
