import ParseTrace.Tree.Walk
import ParseTrace.Text.Quoted

/-!
The indented outline of a tree: one line for each node in pre-order, two blanks for
each level above it. The blanks are kept from line to line and become more only where a
line is deeper than all before it; the others take the first of them.
-/

namespace ParseTrace

namespace Text

def widened (blanks : String) (width : Nat) : String :=
  if blanks.utf8ByteSize < width then widened (blanks ++ "  ") width else blanks
termination_by width - blanks.utf8ByteSize
decreasing_by
  have grown : (blanks ++ "  ").utf8ByteSize = blanks.utf8ByteSize + 2 :=
    String.utf8ByteSize_append
  omega

def firstBytes? (text : String) (count : Nat) : Option String :=
  (text.pos? ⟨count⟩).map fun cut => (text.sliceTo cut).copy

end Text

namespace Tree

def outlineLine (t : Tree) (i : Nat) (n : Node) : String :=
  match n.payload with
  | .token lexeme line =>
    s!"{n.name} #{n.symbol.toNat} " ++ Text.quoted lexeme ++ s!" line {line.toInt}"
  | .interior _ => s!"{n.name} #{n.symbol.toNat} [{t.location i}]"

/-- Writes the pending nodes, each with its depth, before their children. Fails where the
blanks do not reach, where a number stands for no node, or where the steps are used up. -/
def outlineFrom (t : Tree) : Nat → List (Nat × Nat) → String → String → Option String
  | _, [], _, text => some text
  | 0, _ :: _, _, _ => none
  | steps + 1, (i, depth) :: pending, blanks, text =>
    let blanks := Text.widened blanks (2 * depth)
    match t.nodes[i]?, Text.firstBytes? blanks (2 * depth) with
    | some n, some indent =>
      outlineFrom t steps (n.children.map (fun child => (child, depth + 1)) ++ pending) blanks
        (text ++ indent ++ t.outlineLine i n ++ "\n")
    | _, _ => none

/-- Empty for a tree without a root. The number of nodes is enough for the steps. -/
def outline? (t : Tree) : Option String :=
  match t.root with
  | none => some ""
  | some r => t.outlineFrom t.nodes.size [(r, 0)] "" ""

def outline (t : Tree) : String :=
  t.outline?.getD ""

instance : ToString Tree := ⟨outline⟩

end Tree

end ParseTrace
