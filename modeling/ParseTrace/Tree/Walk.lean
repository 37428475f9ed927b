import ParseTrace.Tree

/-!
Walks through a tree without recursion on its depth: the pre-order with a list of
nodes still to visit, and the path along first children.
-/

namespace ParseTrace.Tree

/-- Visits the pending nodes, each before its children. Every node of a tree is met
at most once, so as many steps as there are nodes are enough. -/
def visit (t : Tree) : Nat → List Nat → Array Nat → Array Nat
  | 0, _, seen => seen
  | _ + 1, [], seen => seen
  | steps + 1, i :: pending, seen =>
    match t.nodes[i]? with
    | none => visit t steps pending seen
    | some n => visit t steps (n.children ++ pending) (seen.push i)

def preorderFrom (t : Tree) (i : Nat) : List Nat :=
  (t.visit t.nodes.size [i] #[]).toList

def preorder (t : Tree) : List Nat :=
  match t.root with
  | none => []
  | some r => t.preorderFrom r

def preorderNodes (t : Tree) : List Node :=
  t.preorder.filterMap (t.nodes[·]?)

def epsilonLine : Int32 := -2

/-- The line of the token at the end of the path along first children, if the path
ends in a token. A first child comes before its parent. -/
def leftmostLine (t : Tree) (i : Nat) : Int32 :=
  match t.nodes[i]? with
  | none => epsilonLine
  | some n =>
    match n.payload with
    | .token _ line => line
    | .interior [] => epsilonLine
    | .interior (first :: _) => if first < i then leftmostLine t first else epsilonLine
termination_by i

def location (t : Tree) (i : Nat) : String :=
  match t.nodes[i]? with
  | none => ""
  | some n => s!"{n.fileName}:{(t.leftmostLine i).toInt}"

end ParseTrace.Tree
