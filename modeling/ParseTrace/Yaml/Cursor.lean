/-!
Places in a YAML text. A text is read with its line ends normalised, so that each line
break is one character.
-/

namespace ParseTrace.Yaml

def isPermitted (c : Char) : Bool :=
  c = '\t' || c = '\n' || c = '\r' || (' ' ≤ c && c ≤ '~') || c = '\u0085' ||
    ('\u00a0' ≤ c && c ≠ '\ufeff' && c ≠ '\ufffe' && c ≠ '\uffff')

/-- Writes the line ends CR, LF, CR LF and NEL alike. -/
def normalise : List Char → List Char
  | [] => []
  | '\r' :: '\n' :: rest => '\n' :: normalise rest
  | c :: rest => (if c = '\r' || c = '\u0085' then '\n' else c) :: normalise rest

def characters? (text : String) : Option (List Char) :=
  let cs := match text.toList with
    | '\ufeff' :: rest => rest
    | cs => cs
  if cs.all isPermitted then some (normalise cs) else none

def isBreak (c : Char) : Bool :=
  c = '\n' || c = '\u2028' || c = '\u2029'

def isBlank (c : Char) : Bool :=
  c = ' ' || c = '\t'

def isWord (c : Char) : Bool :=
  c.isAlphanum || c = '_' || c = '-'

def isFlowIndicator (c : Char) : Bool :=
  c = ',' || c = '[' || c = ']' || c = '{' || c = '}'

def hexDigit? (c : Char) : Option Nat :=
  if c.isDigit then some (c.toNat - '0'.toNat)
  else if 'a' ≤ c ∧ c ≤ 'f' then some (c.toNat - 'a'.toNat + 10)
  else if 'A' ≤ c ∧ c ≤ 'F' then some (c.toNat - 'A'.toNat + 10)
  else none

def gapAt : List Char → Bool
  | [] => true
  | c :: _ => isBlank c || isBreak c

def lineEndAt : List Char → Bool
  | [] => true
  | c :: _ => isBreak c

structure Cursor where
  rest : List Char
  line : Nat := 0
  column : Nat := 0

namespace Cursor

def advance (n : Nat) (c : Cursor) : Cursor :=
  { c with rest := c.rest.drop n, column := c.column + n }

def nextLine (c : Cursor) : Cursor :=
  match c.rest with
  | b :: rest => if isBreak b then { rest, line := c.line + 1 } else c
  | [] => c

def span (p : Char → Bool) (c : Cursor) : List Char × Cursor :=
  let run := c.rest.takeWhile p
  (run, c.advance run.length)

def marker? (c : Cursor) : Option Char :=
  match c.column, c.rest with
  | 0, '-' :: '-' :: '-' :: rest => if gapAt rest then some '-' else none
  | 0, '.' :: '.' :: '.' :: rest => if gapAt rest then some '.' else none
  | _, _ => none

def endLine? (c : Cursor) : Option Cursor :=
  let (_, c) := c.span isBlank
  let (_, c) := if c.rest.head? = some '#' then c.span fun b => !isBreak b else ([], c)
  if lineEndAt c.rest then some c.nextLine else none

end Cursor

end ParseTrace.Yaml
