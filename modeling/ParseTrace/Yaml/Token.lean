import ParseTrace.Yaml.Property
import ParseTrace.Yaml.Scalar

/-!
The tokens of a YAML text. Indentation becomes pairs of tokens that open and close a
block. That a node is a key of a mapping shows only at the colon behind it, so the
tokens for that are put in later, where the key began.
-/

namespace ParseTrace.Yaml

inductive Token where
  | directive (d : Directive)
  | documentStart
  | documentEnd
  | openBlockSeq
  | openBlockMap
  | closeBlock
  | openSeq
  | closeSeq
  | openMap
  | closeMap
  | item
  | comma
  | key
  | value
  | anchor (name : List Char)
  | alias (name : List Char)
  | tag (tag : TagText)
  | scalar (style : Style) (text : List Char)
  deriving DecidableEq

structure KeyPlace where
  before : Nat
  line : Nat
  column : Nat
  /-- A node that begins at the indentation of its block can be nothing but a key. -/
  required : Bool

structure Layout where
  cursor : Cursor
  length : Nat
  tokens : Array Token := #[]
  /-- The first column behind the indentation of the innermost block, 0 outside of all. -/
  margin : Nat := 0
  outerMargins : List Nat := []
  keysAllowed : Bool := true
  key : Option KeyPlace := none
  /-- The same for each flow collection around, and for the block around them. -/
  outerKeys : List (Option KeyPlace) := []

namespace Layout

def flow (s : Layout) : Bool :=
  !s.outerKeys.isEmpty

def push (t : Token) (s : Layout) : Layout :=
  { s with tokens := s.tokens.push t }

def take (n : Nat) (t : Token) (s : Layout) : Layout :=
  { s with tokens := s.tokens.push t, cursor := s.cursor.advance n }

/-- Opens a block at a column behind the indentation so far. The token is put in behind
so many others. -/
def openBlock (column before : Nat) (t : Token) (s : Layout) : Layout :=
  if !s.flow && s.margin ≤ column then
    { s with
      tokens := s.tokens.insertIdxIfInBounds before t
      margin := column + 1
      outerMargins := s.margin :: s.outerMargins }
  else s

def closeBlocksFrom (bound : Nat) : Nat → List Nat → Array Token → Nat × List Nat × Array Token
  | margin, [], tokens => (margin, [], tokens)
  | margin, next :: outer, tokens =>
    if bound < margin then closeBlocksFrom bound next outer (tokens.push .closeBlock)
    else (margin, next :: outer, tokens)

def closeBlocks (bound : Nat) (s : Layout) : Layout :=
  if s.flow then s
  else
    let (margin, outerMargins, tokens) := closeBlocksFrom bound s.margin s.outerMargins s.tokens
    { s with margin, outerMargins, tokens }

def dropKey (s : Layout) : Option Layout :=
  if s.key.any (·.required) then none else some { s with key := none }

def startKey (s : Layout) : Option Layout :=
  if s.keysAllowed then
    s.dropKey.map fun s =>
      { s with
        key := some
          { before := s.tokens.size, line := s.cursor.line, column := s.cursor.column
            required := !s.flow && s.margin = s.cursor.column + 1 } }
  else some s

/-- A key is at most 1024 characters long and does not leave its line. -/
def isStale (c : Cursor) (k : KeyPlace) : Bool :=
  k.line < c.line || k.column + 1024 < c.column

def dropStaleKey (s : Layout) : Option Layout :=
  if s.key.any (isStale s.cursor) then s.dropKey else some s

/-- Passes over blanks, line breaks and comments to the next token. A tab is no blank
where a key may begin in a block. -/
def skipGap : Nat → Layout → Layout
  | 0, s => s
  | steps + 1, s =>
    let (_, c) := s.cursor.span fun c => c = ' ' || (c = '\t' && (s.flow || !s.keysAllowed))
    let (_, c) := if c.rest.head? = some '#' then c.span fun b => !isBreak b else ([], c)
    if c.rest.head?.any isBreak then
      skipGap steps { s with cursor := c.nextLine, keysAllowed := s.keysAllowed || !s.flow }
    else { s with cursor := c }

/-! ### Tokens of one kind -/

def atLineStart (s : Layout) : Option Layout :=
  (s.closeBlocks 0).dropKey.map ({ · with keysAllowed := false })

def directive (s : Layout) : Option Layout := do
  let s ← s.atLineStart
  let (d, cursor) ← directive? s.cursor
  return { s.push (.directive d) with cursor }

def openFlow (t : Token) (s : Layout) : Option Layout :=
  s.startKey.map fun s =>
    { s.take 1 t with keysAllowed := true, key := none, outerKeys := s.key :: s.outerKeys }

def closeFlow (t : Token) (s : Layout) : Option Layout :=
  s.dropKey.map fun s =>
    match s.outerKeys with
    | [] => { s.take 1 t with keysAllowed := false }
    | key :: outerKeys => { s.take 1 t with keysAllowed := false, key, outerKeys }

def comma (s : Layout) : Option Layout :=
  s.dropKey.map fun s => { s.take 1 .comma with keysAllowed := true }

def openBlockHere (t : Token) (s : Layout) : Option Layout :=
  if s.flow || s.keysAllowed then some (s.openBlock s.cursor.column s.tokens.size t) else none

def item (s : Layout) : Option Layout := do
  let s ← s.openBlockHere .openBlockSeq
  let s ← s.dropKey
  return { s.take 1 .item with keysAllowed := true }

def markedKey (s : Layout) : Option Layout := do
  let s ← s.openBlockHere .openBlockMap
  let s ← s.dropKey
  return { s.take 1 .key with keysAllowed := !s.flow }

def value (s : Layout) : Option Layout :=
  match s.key with
  | some k =>
    let s := { s with tokens := s.tokens.insertIdxIfInBounds k.before .key }
    let s := s.openBlock k.column k.before .openBlockMap
    some { s.take 1 .value with key := none, keysAllowed := false }
  | none =>
    (s.openBlockHere .openBlockMap).map fun s =>
      { s.take 1 .value with keysAllowed := !s.flow }

def start (s : Layout) : Option Layout :=
  s.startKey.map ({ · with keysAllowed := false })

def anchor (token : List Char → Token) (s : Layout) : Option Layout := do
  let s ← s.start
  let (name, cursor) ← anchorName? s.cursor
  return { s.push (token name) with cursor }

def tag (s : Layout) : Option Layout := do
  let s ← s.start
  let (tag, cursor) ← tag? s.flow s.cursor
  return { s.push (.tag tag) with cursor }

def block (literal : Bool) (s : Layout) : Option Layout := do
  let s ← s.dropKey
  let (text, cursor) ← block? literal s.margin (s.length + 1) s.cursor
  let style := if literal then Style.literal else .other
  return { s.push (.scalar style text) with cursor, keysAllowed := true }

def quoted (quote : Char) (s : Layout) : Option Layout := do
  let s ← s.start
  let (text, cursor) ← quoted? quote (s.length + 1) [] (s.cursor.advance 1)
  return { s.push (.scalar .other text) with cursor }

def plain (s : Layout) : Option Layout := do
  let s ← s.start
  let (text, broken, cursor) ← plain? s.flow s.margin (s.length + 1) [] {} s.cursor
  return { s.push (.scalar .plain text) with cursor, keysAllowed := broken }

def plainAt (flow : Bool) (c : Char) (rest : List Char) : Bool :=
  !isBlank c && !("-?:,[]\x7b\x7d#&*!|>'\"%@\x60".toList.contains c) ||
    (c = '-' && !rest.head?.any isBlank) ||
    (!flow && (c = '?' || c = ':') && !gapAt rest)

def token (c : Char) (rest : List Char) (s : Layout) : Option Layout :=
  if s.cursor.column = 0 && c = '%' then s.directive
  else
    match s.cursor.marker? with
    | some m =>
      s.atLineStart.map (take 3 (if m = '-' then .documentStart else .documentEnd))
    | none =>
      if c = '[' then s.openFlow .openSeq
      else if c = '{' then s.openFlow .openMap
      else if c = ']' then s.closeFlow .closeSeq
      else if c = '}' then s.closeFlow .closeMap
      else if c = ',' then s.comma
      else if c = '-' && gapAt rest then s.item
      else if c = '?' && (s.flow || gapAt rest) then s.markedKey
      else if c = ':' && (s.flow || gapAt rest) then s.value
      else if c = '*' then s.anchor .alias
      else if c = '&' then s.anchor .anchor
      else if c = '!' then s.tag
      else if c = '|' && !s.flow then s.block true
      else if c = '>' && !s.flow then s.block false
      else if c = '\'' || c = '"' then s.quoted c
      else if plainAt s.flow c rest then s.plain
      else none

def finish : Nat → Layout → Option (Array Token)
  | 0, _ => none
  | steps + 1, s => do
    let s ← (s.skipGap (s.length + 1)).dropStaleKey
    let s := s.closeBlocks (s.cursor.column + 1)
    match s.cursor.rest with
    | [] => (s.closeBlocks 0).dropKey.map (·.tokens)
    | c :: rest => (← s.token c rest).finish steps

end Layout

def tokens? (text : List Char) : Option (Array Token) :=
  Layout.finish (text.length + 1) { cursor := { rest := text }, length := text.length }

end ParseTrace.Yaml
