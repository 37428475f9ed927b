import ParseTrace.Yaml.Token

/-!
YAML documents as nodes. An alias stands for the node that bears the anchor of its name;
it keeps a number, since the document may go on to give that anchor's number away.
-/

namespace ParseTrace.Yaml

inductive Node where
  | scalar (tag : Option String) (style : Style) (text : String)
  | seq (tag : Option String) (items : List Node)
  | map (tag : Option String) (fields : List (Node × Node))
  | alias (number : Nat)

def Node.empty : Node :=
  .scalar none .plain ""

structure Document where
  root : Option Node := none
  /-- The place of the anchored node that each number stands for; the first entry of a
  number counts. -/
  places : List (Nat × Nat) := []
  anchored : List (Nat × Node) := []
  size : Nat := 1

def Document.target? (d : Document) (number : Nat) : Option Node := do
  d.anchored.lookup (← d.places.lookup number)

structure Reading where
  tokens : List Token
  handles : List (List Char × List Char) := []
  numbers : List (List Char × Nat) := []
  places : List (Nat × Nat) := []
  anchored : List (Nat × Node) := []
  size : Nat := 0

abbrev Read (α : Type) := StateT Reading Option α

namespace Read

def peek : Read (Option Token) :=
  return (← get).tokens.head?

def next : Read Unit :=
  modify fun r => { r with tokens := r.tokens.tail }

def tryTake (t : Token) : Read Bool := do
  if (← peek) = some t then
    next
    return true
  else return false

def expect (t : Token) : Read Unit := do
  if !(← tryTake t) then failure

def count (n : Nat) : Read Unit :=
  modify fun r => { r with size := r.size + n }

/-- An anchor's number is the number of names so far; a name that comes again does not
add to these. Gives the place of the node that the anchor stands before. -/
def bindAnchor (name : List Char) : Read Nat := do
  let r ← get
  let number := r.numbers.length
  let place := r.places.length
  set
    { r with
      numbers := (name, number) :: r.numbers.filter (·.1 ≠ name)
      places := (number, place) :: r.places }
  return place

def aliasOf (name : List Char) : Read Node := do
  let number ← (← get).numbers.lookup name
  count 1
  return .alias number

def resolve (t : TagText) : Read (List Char) := do
  if t.handle.isEmpty then return t.suffix
  else
    let stem ← (← get).handles.lookup t.handle
    return stem ++ t.suffix

def properties : Read (Option (List Char) × Option TagText) := do
  match ← peek with
  | some (.anchor name) =>
    next
    match ← peek with
    | some (.tag t) => next; return (some name, some t)
    | _ => return (some name, none)
  | some (.tag t) =>
    next
    match ← peek with
    | some (.anchor name) => next; return (some name, some t)
    | _ => return (none, some t)
  | _ => return (none, none)

def emptyNode : Read Node := do
  count 1
  return .empty

/-- Which nodes may stand at a place: in a flow only flow collections, behind a key or
a colon of a block also a sequence that is not indented. -/
inductive Place where
  | inFlow
  | inBlock
  | inBlockMap
  deriving DecidableEq

mutual

def node (place : Place) : Nat → Read Node
  | 0 => failure
  | steps + 1 => do
    match ← peek with
    | some (.alias name) => next; aliasOf name
    | _ =>
      let (anchor, tag) ← properties
      let tag ← tag.mapM resolve
      let bound ← anchor.mapM fun name => bindAnchor name
      let found ← content place (tag.map String.ofList) anchor.isSome steps
      if let some place := bound then
        modify fun r => { r with anchored := (place, found) :: r.anchored }
      return found

/-- Reads a node behind its tag and anchor; without either it is not empty. A scalar
does not keep the tag `!`. -/
def content (place : Place) (tag : Option String) (anchored : Bool) : Nat → Read Node
  | 0 => failure
  | steps + 1 => do
    let block := place ≠ .inFlow
    match ← peek with
    | some .item =>
      if place = .inBlockMap then
        count 2
        return .seq tag (← looseItems steps [])
      else unwritten
    | some (.scalar style text) =>
      next
      count 1
      return .scalar (if tag = some "!" then none else tag) style (String.ofList text)
    | some .openSeq =>
      next
      count 2
      return .seq tag (← flowItems steps [])
    | some .openMap =>
      next
      count 2
      return .map tag (← flowFields steps [])
    | some .openBlockSeq =>
      if block then
        next
        count 2
        return .seq tag (← blockItems steps [])
      else unwritten
    | some .openBlockMap =>
      if block then
        next
        count 2
        return .map tag (← blockFields steps [])
      else unwritten
    | _ => unwritten
where
  unwritten : Read Node := do
    if anchored || tag.isSome then
      count 1
      return .scalar tag .plain ""
    else failure

def nodeBefore (ends : List Token) (place : Place) : Nat → Read Node
  | 0 => failure
  | steps + 1 => do
    match ← peek with
    | some t => if ends.contains t then emptyNode else node place steps
    | none => failure

def blockItems : Nat → List Node → Read (List Node)
  | 0, _ => failure
  | steps + 1, items => do
    if ← tryTake .item then
      let item ← nodeBefore [.item, .closeBlock] .inBlock steps
      blockItems steps (item :: items)
    else
      expect .closeBlock
      return items.reverse

def looseItems : Nat → List Node → Read (List Node)
  | 0, _ => failure
  | steps + 1, items => do
    if ← tryTake .item then
      let item ← nodeBefore [.item, .key, .value, .closeBlock] .inBlock steps
      looseItems steps (item :: items)
    else return items.reverse

def blockFields : Nat → List (Node × Node) → Read (List (Node × Node))
  | 0, _ => failure
  | steps + 1, fields => do
    if ← tryTake .key then
      let key ← nodeBefore [.key, .value, .closeBlock] .inBlockMap steps
      let value ←
        if ← tryTake .value then nodeBefore [.key, .value, .closeBlock] .inBlockMap steps
        else emptyNode
      blockFields steps ((key, value) :: fields)
    else
      expect .closeBlock
      return fields.reverse

def flowItems : Nat → List Node → Read (List Node)
  | 0, _ => failure
  | steps + 1, items => do
    if ← tryTake .closeSeq then return items.reverse
    else
      if !items.isEmpty then expect .comma
      if ← tryTake .closeSeq then return items.reverse
      else
        let item ←
          if ← tryTake .key then
            count 2
            let field ← flowPair steps
            pure (.map none [field])
          else node .inFlow steps
        flowItems steps (item :: items)

/-- Reads the only field of a mapping without braces. A key that is not written takes up
the token behind it all the same. -/
def flowPair : Nat → Read (Node × Node)
  | 0 => failure
  | steps + 1 => do
    let key ←
      match ← peek with
      | some .value | some .comma | some .closeSeq => next; emptyNode
      | _ => node .inFlow steps
    let value ←
      if ← tryTake .value then nodeBefore [.comma, .closeSeq] .inFlow steps else emptyNode
    return (key, value)

/-- Reads the fields of a flow mapping, which a comma separates; a last comma may be
left over. Without a mark or a colon, a node is a key without a value. -/
def flowFields : Nat → List (Node × Node) → Read (List (Node × Node))
  | 0, _ => failure
  | steps + 1, fields => do
    if ← tryTake .closeMap then return fields.reverse
    else
      if !fields.isEmpty then expect .comma
      if ← tryTake .closeMap then return fields.reverse
      else
        let field ←
          if ← tryTake .key then
            let key ← nodeBefore [.value, .comma, .closeMap] .inFlow steps
            let value ←
              if ← tryTake .value then nodeBefore [.comma, .closeMap] .inFlow steps
              else emptyNode
            pure (key, value)
          else
            let key ← node .inFlow steps
            pure (key, ← emptyNode)
        flowFields steps (field :: fields)

end

/-! ### Documents -/

def directiveOf? : Token → Option Directive
  | .directive d => some d
  | _ => none

def handleOf? : Directive → Option (List Char × List Char)
  | .handle name stem => some (name, stem)
  | .version _ _ => none

def isSupported : Directive → Bool
  | .version major minor => major = 1 && (minor = 1 || minor = 2)
  | .handle _ _ => true

def defaultHandles : List (List Char × List Char) :=
  [(['!'], ['!']), (['!', '!'], "tag:yaml.org,2002:".toList)]

def directives : Read Unit := do
  let r ← get
  let ds := (r.tokens.takeWhile (directiveOf? · |>.isSome)).filterMap directiveOf?
  let handles := ds.filterMap handleOf?
  let versions := ds.length - handles.length
  if !ds.all isSupported || 1 < versions || !(handles.map (·.1)).Nodup then failure
  set
    { r with
      tokens := r.tokens.drop ds.length
      handles := handles ++ defaultHandles }

/-- Reads the only document of a text. Only behind its marker may it be empty. -/
def document : Read (Option Node) := do
  let steps := 5 * (← get).tokens.length + 5
  let root ←
    match ← peek with
    | none => pure none
    | some (.directive _) | some .documentStart =>
      directives
      expect .documentStart
      match ← peek with
      | none | some (.directive _) | some .documentStart | some .documentEnd =>
        some <$> emptyNode
      | some _ => some <$> node .inBlock steps
    | some _ =>
      directives
      some <$> node .inBlock steps
  let rest := (← get).tokens
  if rest.all (· = .documentEnd) then return root else failure

end Read

def Document.ofText? (text : String) : Option Document := do
  let tokens ← tokens? (← characters? text)
  let (root, r) ← Read.document.run { tokens := tokens.toList }
  return { root, places := r.places, anchored := r.anchored, size := max r.size 1 }

end ParseTrace.Yaml
