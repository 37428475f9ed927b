import ParseTrace.Failure

/-!
Parse trees as arenas. Nodes are numbered in creation order and name each other by
these numbers; children exist before their parent. Attaching a node that already
has a parent is refused, which keeps every parent unique.
-/

namespace ParseTrace

structure Token where
  symbol : UInt32
  name : String
  lexeme : String
  line : Int32
  deriving DecidableEq

/-- The context of one parse: the file it reads and the next node identifier.
The counter goes from 2^64 - 1 back to 0. -/
structure Session where
  fileName : String
  nextId : UInt64 := 0
  deriving DecidableEq

def Session.advance (s : Session) : Session :=
  { s with nextId := s.nextId + 1 }

inductive Payload where
  | token (lexeme : String) (line : Int32)
  | interior (children : List Nat)
  deriving DecidableEq

structure Node where
  id : UInt64
  symbol : UInt32
  name : String
  fileName : String
  parent : Option Nat
  payload : Payload
  deriving DecidableEq

namespace Node

def isToken (n : Node) : Bool :=
  match n.payload with
  | .token .. => true
  | .interior _ => false

def kind (n : Node) : NodeKind :=
  match n.payload with
  | .token .. => .token
  | .interior _ => .interior

def children (n : Node) : List Nat :=
  match n.payload with
  | .token .. => []
  | .interior children => children

def lexeme (n : Node) : Except Failure String :=
  match n.payload with
  | .token lexeme _ => .ok lexeme
  | .interior _ => .error (.unsupportedOperation .lexeme n.kind n.name)

def line (n : Node) : Except Failure Int32 :=
  match n.payload with
  | .token _ line => .ok line
  | .interior _ => .error (.unsupportedOperation .line n.kind n.name)

def childAt (n : Node) (i : Nat) : Except Failure Nat :=
  match n.payload with
  | .token .. => .error (.unsupportedOperation .childAt n.kind n.name)
  | .interior children =>
    match children[i]? with
    | some child => .ok child
    | none => .error (.childOutOfRange i children.length n.name)

end Node

structure Tree where
  nodes : Array Node := #[]
  root : Option Nat := none
  deriving DecidableEq

namespace Tree

def node (t : Tree) (i : Nat) : Except Failure Node :=
  match t.nodes[i]? with
  | some n => .ok n
  | none => .error (.danglingIndex i)

def findById? (t : Tree) (id : UInt64) : Option Nat :=
  t.nodes.findIdx? fun n => n.id == id

def tokenCount (t : Tree) : Nat :=
  t.nodes.countP Node.isToken

def interiorCount (t : Tree) : Nat :=
  t.nodes.size - t.tokenCount

def pushToken (t : Tree) (s : Session) (token : Token) : Nat × Tree × Session :=
  let leaf : Node :=
    ⟨s.nextId, token.symbol, token.name, s.fileName, none, .token token.lexeme token.line⟩
  (t.nodes.size, { t with nodes := t.nodes.push leaf }, s.advance)

/-- The fault of the earliest entry that is no node, has a parent, or stood before. -/
def childFault? (t : Tree) (seen : List Nat) : List Nat → Option Failure
  | [] => none
  | i :: rest =>
    match t.nodes[i]? with
    | none => some (.danglingIndex i)
    | some n =>
      if n.parent.isSome || seen.contains i then some (.alreadyAttached n.id)
      else childFault? t (i :: seen) rest

def adopt (parent : Nat) (children : List Nat) (nodes : Array Node) : Array Node :=
  children.foldl (fun ns i => ns.modify i fun n => { n with parent := some parent }) nodes

/-- Adds an interior node over detached nodes. A refused list leaves the tree and
the session as they were. -/
def pushInterior (t : Tree) (s : Session) (symbol : UInt32) (name : String)
    (children : List Nat) : Except Failure Nat × Tree × Session :=
  match t.childFault? [] children with
  | some failure => (.error failure, t, s)
  | none =>
    let index := t.nodes.size
    let interior : Node := ⟨s.nextId, symbol, name, s.fileName, none, .interior children⟩
    (.ok index, { t with nodes := (adopt index children t.nodes).push interior }, s.advance)

def setRoot (t : Tree) (i : Nat) : Except Failure Unit × Tree :=
  match t.nodes[i]? with
  | none => (.error (.danglingIndex i), t)
  | some n =>
    if n.parent.isSome then (.error (.alreadyAttached n.id), t)
    else (.ok (), { t with root := some i })

end Tree

end ParseTrace
