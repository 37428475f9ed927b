import ParseTrace.Proofs.Text.Quoted
import ParseTrace.Proofs.Unfolding
import ParseTrace.Tree.Graph

/-!
Digraphs read back. A label ends at its first quote that is not escaped, and escaping leaves no
such quote inside a label. So the statements of the text are those of the tree, node by node in
pre-order, whatever stands in the names and lexemes.
-/

namespace ParseTrace

namespace Dot

open Script (Stops takeWhile_append stops_cons)

structure Vertex where
  id : Nat
  label : String
  isToken : Bool
  deriving DecidableEq

inductive Statement where
  | vertex (v : Vertex)
  | edge (source target : Nat)
  deriving DecidableEq

section Punctuation

def opening : List Char :=
  "digraph parse_tree \x7b\n  node [shape=box];\n".toList

def closing : List Char :=
  "\x7d\n".toList

def start : List Char :=
  "  n".toList

def arrow : List Char :=
  " -> n".toList

def labelled : List Char :=
  " [label=\"".toList

def ellipse : List Char :=
  ", shape=ellipse".toList

def bracket : List Char :=
  "];\n".toList

def semicolon : List Char :=
  ";\n".toList

end Punctuation

namespace Statement

def vertex? : Statement → Option Vertex
  | vertex v => some v
  | edge _ _ => none

def edge? : Statement → Option (Nat × Nat)
  | vertex _ => none
  | edge source target => some (source, target)

def printed : Statement → List Char
  | vertex v => start ++ Nat.toDigits 10 v.id ++ labelled ++
      v.label.toList.flatMap Tree.labelChar ++ ['"'] ++ (if v.isToken then ellipse else []) ++
      bracket
  | edge source target =>
    start ++ Nat.toDigits 10 source ++ arrow ++ Nat.toDigits 10 target ++ semicolon

end Statement

section Reader

def readNumber (text : List Char) : Option (Nat × List Char) :=
  match text.takeWhile Char.isDigit with
  | [] => none
  | digits => some (Json.decimal digits, text.dropWhile Char.isDigit)

/-- A label up to its first quote that is not escaped, with its escapes undone. -/
def readLabel : List Char → Option (List Char × List Char)
  | '"' :: rest => some ([], rest)
  | '\\' :: '"' :: rest => (readLabel rest).map fun (label, rest) => ('"' :: label, rest)
  | '\\' :: '\\' :: rest => (readLabel rest).map fun (label, rest) => ('\\' :: label, rest)
  | '\\' :: 'n' :: rest => (readLabel rest).map fun (label, rest) => ('\n' :: label, rest)
  | '\\' :: _ => none
  | c :: rest => (readLabel rest).map fun (label, rest) => (c :: label, rest)
  | [] => none

def readStatement (text : List Char) : Option (Statement × List Char) := do
  let (id, text) ← (text.dropPrefix? start).bind readNumber
  match text.dropPrefix? arrow with
  | some text =>
    let (target, text) ← readNumber text
    let text ← text.dropPrefix? semicolon
    return (.edge id target, text)
  | none =>
    let (label, text) ← (text.dropPrefix? labelled).bind readLabel
    match text.dropPrefix? ellipse with
    | some text => (text.dropPrefix? bracket).map ((.vertex ⟨id, .ofList label, true⟩, ·))
    | none => (text.dropPrefix? bracket).map ((.vertex ⟨id, .ofList label, false⟩, ·))

def readStatements (text : List Char) : Option (List Statement) :=
  if text = closing then some []
  else
    match readStatement text with
    | none => none
    | some (statement, rest) =>
      if rest.length < text.length then (readStatements rest).map (statement :: ·) else none
termination_by text.length

def read (text : String) : Option (List Statement) :=
  (text.toList.dropPrefix? opening).bind readStatements

end Reader

section ReadBack

theorem dropPrefix?_append (front rest : List Char) :
    (front ++ rest).dropPrefix? front = some rest :=
  List.dropPrefix?_append_of_beq rest (beq_self_eq_true front)

theorem readNumber_toDigits (n : Nat) {rest : List Char} (stop : Stops Char.isDigit rest) :
    readNumber (Nat.toDigits 10 n ++ rest) = some (n, rest) := by
  have digits : ∀ c ∈ Nat.toDigits 10 n, c.isDigit = true := fun c hc =>
    Nat.isDigit_of_mem_toDigits (by omega) (by omega) hc
  obtain ⟨taken, left⟩ := takeWhile_append digits stop
  rw [readNumber, taken, left]
  cases ds : Nat.toDigits 10 n with
  | nil => exact absurd ds Nat.toDigits_ne_nil
  | cons d ds' => simp [← ds, Json.decimal_toDigits]

theorem readLabel_labelChar (label rest : List Char) :
    readLabel (label.flatMap Tree.labelChar ++ '"' :: rest) = some (label, rest) := by
  induction label with
  | nil => simp [readLabel]
  | cons c label ih =>
    by_cases quote : c = '"'
    · simp [quote, Tree.labelChar, readLabel, ih]
    by_cases backslash : c = '\\'
    · simp [backslash, Tree.labelChar, readLabel, ih]
    by_cases lf : c = '\n'
    · simp [lf, Tree.labelChar, readLabel, ih]
    simp [quote, backslash, lf, Tree.labelChar, readLabel, ih]

theorem readStatement_printed (s : Statement) (rest : List Char) :
    readStatement (s.printed ++ rest) = some (s, rest) := by
  have toArrow : ∀ text, Stops Char.isDigit (arrow ++ text) := fun _ => stops_cons (by decide)
  have toLabel : ∀ text, Stops Char.isDigit (labelled ++ text) := fun _ => stops_cons (by decide)
  have toEnd : ∀ text, Stops Char.isDigit (semicolon ++ text) := fun _ => stops_cons (by decide)
  have noArrow : ∀ text, (labelled ++ text).dropPrefix? arrow = none := fun _ => rfl
  have noShape : ∀ text, (bracket ++ text).dropPrefix? ellipse = none := fun _ => rfl
  cases s with
  | edge source target =>
    simp only [Statement.printed, List.append_assoc, readStatement, dropPrefix?_append,
      Option.bind_some, Option.bind_eq_bind, Option.pure_def,
      readNumber_toDigits source (toArrow _), readNumber_toDigits target (toEnd _)]
  | vertex v =>
    obtain ⟨id, label, isToken⟩ := v
    have quoted : ∀ text, readLabel (label.toList.flatMap Tree.labelChar ++ (['"'] ++ text)) =
        some (label.toList, text) := fun text => readLabel_labelChar label.toList text
    cases isToken <;>
      simp only [Statement.printed, List.append_assoc, readStatement, dropPrefix?_append,
        Option.bind_some, Option.bind_eq_bind, readNumber_toDigits id (toLabel _), noArrow,
        quoted, noShape, if_true, Bool.false_eq_true, if_false, List.nil_append, Option.map_some,
        String.ofList_toList]

theorem readStatements_printed (statements : List Statement) :
    readStatements (statements.flatMap Statement.printed ++ closing) = some statements := by
  induction statements with
  | nil => rw [List.flatMap_nil, List.nil_append, readStatements, if_pos rfl]
  | cons s statements ih =>
    obtain ⟨line, begins⟩ : ∃ line, s.printed = ' ' :: line := by
      cases s <;> simp [Statement.printed, start]
    have more : s.printed ++ (statements.flatMap Statement.printed ++ closing) ≠ closing := by
      simp [begins, closing]
    have shorter : (statements.flatMap Statement.printed ++ closing).length <
        (s.printed ++ (statements.flatMap Statement.printed ++ closing)).length := by
      simp [begins]
    rw [List.flatMap_cons, List.append_assoc, readStatements, if_neg more,
      readStatement_printed]
    simp only [shorter, if_true, ih, Option.map_some]

end ReadBack

end Dot

def Node.vertex (n : Node) : Dot.Vertex :=
  match n.payload with
  | .token lexeme _ => ⟨n.id.toNat, n.name ++ "\n" ++ lexeme, true⟩
  | .interior _ => ⟨n.id.toNat, n.name, false⟩

namespace Tree

open Dot (Statement opening closing)

variable {t : Tree} {f : Forest Nat}

def edgesFrom (t : Tree) (n : Node) : List (Nat × Nat) :=
  (n.children.filterMap (t.nodes[·]?)).map fun child => (n.id.toNat, child.id.toNat)

def statementsOf (t : Tree) (n : Node) : List Statement :=
  .vertex n.vertex :: (t.edgesFrom n).map fun (source, target) => .edge source target

theorem toList_graphNode (n : Node) :
    (graphNode n).toList = (Statement.vertex n.vertex).printed := by
  cases hp : n.payload <;>
    simp only [graphNode, escapedLabel, graphLabel, Node.vertex, Node.isToken, hp,
      Statement.printed, if_true, Bool.false_eq_true, if_false, String.toList_append,
      String.toList_ofList, Text.toString_text, Nat.toString_eq_repr, Nat.toList_repr,
      List.append_assoc]
  all_goals rfl

theorem toList_graphEdge (n child : Node) :
    (graphEdge n child).toList = (Statement.edge n.id.toNat child.id.toNat).printed := by
  simp only [graphEdge, Statement.printed, String.toList_append, Text.toString_text,
    Nat.toString_eq_repr, Nat.toList_repr, List.append_assoc]
  rfl

theorem toList_graph (t : Tree) :
    t.graph.toList =
      opening ++ (t.preorderNodes.flatMap t.statementsOf).flatMap Statement.printed ++ closing := by
  have pieces : ∀ n, (t.graphStatements n).flatMap String.toList =
      (t.statementsOf n).flatMap Statement.printed := by
    intro n
    simp [graphStatements, statementsOf, edgesFrom, toList_graphNode, toList_graphEdge,
      List.flatMap_map, Function.comp_def]
  unfold graph opening closing
  rw [String.toList_append, String.toList_append, String.toList_join, List.flatMap_assoc,
    List.flatMap_assoc, funext pieces]

theorem filterMap_statementsOf (t : Tree) (nodes : List Node) :
    (nodes.flatMap t.statementsOf).filterMap Statement.vertex? = nodes.map Node.vertex ∧
    (nodes.flatMap t.statementsOf).filterMap Statement.edge? = nodes.flatMap t.edgesFrom := by
  induction nodes with
  | nil => simp
  | cons n nodes ih =>
    have own : (t.statementsOf n).filterMap Statement.vertex? = [n.vertex] ∧
        (t.statementsOf n).filterMap Statement.edge? = t.edgesFrom n := by
      simp [statementsOf, List.filterMap_cons, Statement.vertex?, Statement.edge?,
        List.filterMap_map, Function.comp_def]
    simp [own, ih]

namespace Arborescent

variable {r : Nat} {below : Forest Nat} (h : t.Arborescent) (root : t.root = some r)
  (unfolds : t.Unfolds (.cons r below .nil))
include h root unfolds

theorem map_some_preorderNodes :
    t.preorderNodes.map some = (Forest.cons r below .nil).preorder.map (t.nodes[·]?) := by
  have found : ∀ is ⊆ (Forest.cons r below .nil).preorder,
      (is.filterMap (t.nodes[·]?)).map some = is.map (t.nodes[·]?) := by
    intro is inside
    induction is with
    | nil => rfl
    | cons i is ih =>
      obtain ⟨n, hn⟩ := unfolds.exists_node (inside List.mem_cons_self)
      simp [hn, ih fun j hj => inside (List.mem_cons_of_mem i hj)]
  rw [preorderNodes, h.preorder_eq unfolds root]
  exact found _ fun _ hi => hi

theorem exists_child {n : Node} (hn : n ∈ t.preorderNodes) {c : Nat} (hc : c ∈ n.children) :
    ∃ child ∈ t.preorderNodes, t.nodes[c]? = some child := by
  rw [preorderNodes, h.preorder_eq unfolds root] at hn ⊢
  obtain ⟨i, hi, found⟩ := List.mem_filterMap.1 hn
  have below := unfolds.mem_of_child hi ⟨n, found, hc⟩
  obtain ⟨child, hchild⟩ := unfolds.exists_node below
  exact ⟨child, List.mem_filterMap.2 ⟨c, below, hchild⟩, hchild⟩

end Arborescent

/-- The digraph of a rooted tree says of each node in pre-order what it shows and then, in turn,
which its children are. A reader that takes labels up to their first quote that is not escaped
finds these statements in the text and no others. -/
theorem read_graph (edits : List (Session × Edit)) {r : Nat}
    (root : (built edits).root = some r) :
    ∃ below, (built edits).Unfolds (.cons r below .nil) ∧
      let t := built edits
      let statements := t.preorderNodes.flatMap t.statementsOf
      t.preorderNodes.map some = (Forest.cons r below .nil).preorder.map (t.nodes[·]?) ∧
      (∀ n ∈ t.preorderNodes, ∀ c ∈ n.children,
        ∃ child ∈ t.preorderNodes, t.nodes[c]? = some child) ∧
      t.graph.toList = opening ++ statements.flatMap Statement.printed ++ closing ∧
      Dot.read t.graph = some statements ∧
      statements.filterMap Statement.vertex? = t.preorderNodes.map Node.vertex ∧
      statements.filterMap Statement.edge? = t.preorderNodes.flatMap t.edgesFrom := by
  have h := Arborescent.built edits
  obtain ⟨below, unfolds⟩ := h.exists_unfolds (h.root_lt root)
  obtain ⟨vertices, edges⟩ := filterMap_statementsOf (built edits) (built edits).preorderNodes
  refine ⟨below, unfolds, h.map_some_preorderNodes root unfolds,
    fun n hn c hc => h.exists_child root unfolds hn hc, toList_graph _, ?_, vertices, edges⟩
  rw [Dot.read, toList_graph, List.append_assoc, Dot.dropPrefix?_append, Option.bind_some]
  exact Dot.readStatements_printed _

theorem read_graph_hostile :
    let t := built [(⟨"in.php", 0⟩, .token ⟨0, "ID\\", "\"];\n\x7d", 1⟩),
      (⟨"in.php", 1⟩, .interior 1 "\\\" -> n0" [0]), (⟨"in.php", 2⟩, .root 1)]
    t.root = some 1 ∧
    Dot.read t.graph = some [.vertex ⟨1, "\\\" -> n0", false⟩, .edge 1 0,
      .vertex ⟨0, "ID\\\n\"];\n\x7d", true⟩] := by
  intro t
  obtain ⟨_, -, -, -, -, read, -⟩ :=
    read_graph [(⟨"in.php", 0⟩, .token ⟨0, "ID\\", "\"];\n\x7d", 1⟩),
      (⟨"in.php", 1⟩, .interior 1 "\\\" -> n0" [0]), (⟨"in.php", 2⟩, .root 1)] rfl
  exact ⟨rfl, read⟩

end Tree

end ParseTrace
