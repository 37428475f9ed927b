import ParseTrace.Tree.Walk

/-!
Trees without identifiers: the nodes in pre-order, each interior node with the number
of its children. The list alone fixes the tree, and rebuilding it numbers children
before their parents, as a bottom-up parse does.
-/

namespace ParseTrace

inductive Entry where
  | token (symbol : UInt32) (name lexeme : String) (line : Int32)
  | interior (symbol : UInt32) (name : String) (children : Nat)
  deriving DecidableEq

namespace Entry

def symbol : Entry → UInt32
  | .token symbol .. => symbol
  | .interior symbol .. => symbol

def name : Entry → String
  | .token _ name .. => name
  | .interior _ name _ => name

end Entry

structure Description where
  entries : List Entry := []
  deriving DecidableEq

def Node.entry (n : Node) : Entry :=
  match n.payload with
  | .token lexeme line => .token n.symbol n.name lexeme line
  | .interior children => .interior n.symbol n.name children.length

def Node.sameShape (a b : Node) : Bool :=
  a.symbol == b.symbol && a.name == b.name &&
    match a.payload, b.payload with
    | .token lexeme line, .token lexeme' line' => lexeme == lexeme' && line == line'
    | .interior children, .interior children' => children.length == children'.length
    | _, _ => false

namespace Tree

def describeFrom (t : Tree) (i : Nat) : Description :=
  ⟨(t.preorderFrom i).filterMap fun j => t.nodes[j]?.map Node.entry⟩

def describe (t : Tree) : Option Description :=
  t.root.map t.describeFrom

def alike : List Node → List Node → Bool
  | [], [] => true
  | a :: left, b :: right => a.sameShape b && alike left right
  | _, _ => false

def structurallyEq (t u : Tree) : Bool :=
  alike t.preorderNodes u.preorderNodes

end Tree

/-- An interior entry that still waits for children; those it has stand last first. -/
structure Pending where
  symbol : UInt32
  name : String
  expected : Nat
  received : List Nat

/-- A tree half rebuilt: the entries still open, innermost first, and the root once
nothing is open any more. -/
structure Rebuild where
  tree : Tree := {}
  session : Session
  pending : List Pending := []
  root : Option Nat := none

namespace Rebuild

def settle (tree : Tree) (session : Session) :
    List Pending → Nat → Except Failure Unit × Rebuild
  | [], finished => (.ok (), ⟨tree, session, [], some finished⟩)
  | p :: outer, finished =>
    let received := finished :: p.received
    if received.length < p.expected then
      (.ok (), ⟨tree, session, { p with received } :: outer, none⟩)
    else
      match tree.pushInterior session p.symbol p.name received.reverse with
      | (.ok closed, tree, session) => settle tree session outer closed
      | (.error failure, tree, session) => (.error failure, ⟨tree, session, outer, none⟩)

def enter (r : Rebuild) : Entry → Except Failure Unit × Rebuild
  | .token symbol name lexeme line =>
    let (leaf, tree, session) := r.tree.pushToken r.session ⟨symbol, name, lexeme, line⟩
    settle tree session r.pending leaf
  | .interior symbol name 0 =>
    match r.tree.pushInterior r.session symbol name [] with
    | (.ok childless, tree, session) => settle tree session r.pending childless
    | (.error failure, tree, session) => (.error failure, { r with tree, session })
  | .interior symbol name (n + 1) =>
    (.ok (), { r with pending := ⟨symbol, name, n + 1, []⟩ :: r.pending })

def enterAll : List Entry → Rebuild → Except Failure Unit × Rebuild
  | [], r => (.ok (), r)
  | e :: rest, r =>
    if r.root.isSome then
      (.error (.malformedDescription (.trailing (rest.length + 1))), r)
    else
      match r.enter e with
      | (.ok (), r) => enterAll rest r
      | (.error failure, r) => (.error failure, r)

def finish (r : Rebuild) : Except Failure Tree :=
  match r.pending, r.root with
  | p :: _, _ =>
    .error (.malformedDescription (.truncated p.name p.expected p.received.length))
  | [], none => .error (.malformedDescription .empty)
  | [], some root =>
    match r.tree.setRoot root with
    | (.ok (), tree) => .ok tree
    | (.error failure, _) => .error failure

end Rebuild

/-- Builds the described tree. The session also comes back from a failure, since the
nodes made until then have used up identifiers. -/
def Description.rebuild (d : Description) (s : Session) : Except Failure Tree × Session :=
  match Rebuild.enterAll d.entries { session := s } with
  | (.ok (), r) => (r.finish, r.session)
  | (.error failure, r) => (.error failure, r.session)

end ParseTrace
