import ParseTrace.Grammar
import ParseTrace.Tree

/-!
Trees from the decisions of a parsing automaton. A shift puts a leaf on the results
stack; a reduce replaces as many entries as its production is long by one node over
them; accept makes the single remaining entry the root. A call that fails leaves the
builder as it was.
-/

namespace ParseTrace

/-- What an automaton reports its decisions to: a state of type `σ` that ends in an `α`. -/
structure Receiver (σ α : Type) where
  shift : Token → σ → Except Failure Unit × σ
  reduce : Production → σ → Except Failure Unit × σ
  accept : σ → Except Failure α × σ
  error : Failure → σ → σ

/-- The results stack has its newest entry first. -/
structure Builder where
  session : Session
  tree : Tree := {}
  stack : List Nat := []
  finished : Bool := false
  deriving DecidableEq

namespace Builder

def depth (b : Builder) : Nat :=
  b.stack.length

def shift (token : Token) (b : Builder) : Except Failure Unit × Builder :=
  if b.finished then (.error (.builderFinished .shift), b)
  else
    let (leaf, tree, session) := b.tree.pushToken b.session token
    (.ok (), { b with tree, session, stack := leaf :: b.stack })

def reduce (p : Production) (b : Builder) : Except Failure Unit × Builder :=
  if b.finished then (.error (.builderFinished .reduce), b)
  else if p.overdraws b.stack then
    (.error (.stackUnderflow p.lhsName p.length b.stack.length), b)
  else
    let children := (b.stack.take p.length).reverse
    let below := b.stack.drop p.length
    match b.tree.pushInterior b.session p.lhs p.lhsName children with
    | (.ok node, tree, session) => (.ok (), { b with tree, session, stack := node :: below })
    | (.error failure, tree, session) =>
      (.error failure, { b with tree, session, stack := below })

def accept (b : Builder) : Except Failure Tree × Builder :=
  if b.finished then (.error (.builderFinished .accept), b)
  else
    match b.stack with
    | [root] =>
      match b.tree.setRoot root with
      | (.ok (), tree) => (.ok tree, { b with tree := {}, stack := [], finished := true })
      | (.error failure, tree) => (.error failure, { b with tree })
    | stack => (.error (.acceptCount stack.length), b)

def error (_ : Failure) (b : Builder) : Builder := b

def receiver : Receiver Builder Tree := ⟨shift, reduce, accept, error⟩

end Builder

inductive Call where
  | shift (token : Token)
  | reduce (p : Production)
  | accept
  | error (failure : Failure)
  deriving DecidableEq

/-- Forwards every call after keeping a note of it and of the state that it finds. -/
def Receiver.noting {σ α β : Type} (r : Receiver σ α) (note : Call → σ → β) :
    Receiver (Array β × σ) α where
  shift := fun token (notes, s) =>
    let notes := notes.push (note (.shift token) s)
    let (result, s) := r.shift token s
    (result, notes, s)
  reduce := fun p (notes, s) =>
    let notes := notes.push (note (.reduce p) s)
    let (result, s) := r.reduce p s
    (result, notes, s)
  accept := fun (notes, s) =>
    let notes := notes.push (note .accept s)
    let (result, s) := r.accept s
    (result, notes, s)
  error := fun failure (notes, s) => (notes.push (note (.error failure) s), r.error failure s)

end ParseTrace
