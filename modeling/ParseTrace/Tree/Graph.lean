import ParseTrace.Tree.Walk

/-!
A tree as a Graphviz digraph. Nodes are named by their identifiers; each is followed
by its edges. Labels escape what could end or break them.
-/

namespace ParseTrace.Tree

def labelChar (c : Char) : List Char :=
  if c = '"' then ['\\', '"']
  else if c = '\\' then ['\\', '\\']
  else if c = '\n' then ['\\', 'n']
  else [c]

def escapedLabel (label : String) : String :=
  String.ofList (label.toList.flatMap labelChar)

def graphLabel (n : Node) : String :=
  match n.payload with
  | .token lexeme _ => n.name ++ "\n" ++ lexeme
  | .interior _ => n.name

def graphNode (n : Node) : String :=
  let shape := if n.isToken then ", shape=ellipse" else ""
  s!"  n{n.id.toNat} [label=\"" ++ escapedLabel (graphLabel n) ++ "\"" ++ shape ++ "];\n"

def graphEdge (n child : Node) : String :=
  s!"  n{n.id.toNat} -> n{child.id.toNat};\n"

def graphStatements (t : Tree) (n : Node) : List String :=
  graphNode n :: (n.children.filterMap (t.nodes[·]?)).map (graphEdge n)

def graph (t : Tree) : String :=
  "digraph parse_tree \x7b\n  node [shape=box];\n" ++
    String.join (t.preorderNodes.flatMap t.graphStatements) ++ "\x7d\n"

end ParseTrace.Tree
