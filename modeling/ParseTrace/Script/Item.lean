import ParseTrace.Script
import ParseTrace.Script.Statement

/-!
Scripts read from the pairs of the grammar. The reader takes the inner pairs of a statement in
turn and says so where there is none left; then the numerals are given their values.
-/

namespace ParseTrace.Script

structure Numeral where
  digits : List Char
  place : List Char

/-- A statement with its names as they are meant and its integers as they are written. -/
inductive Statement where
  | file (name : String)
  | symbol (kind : SymbolKind) (index : Numeral) (name : String)
  | rule (lhs : String) (length : Numeral)
  | shift (symbol lexeme : String) (line : Numeral)
  | reduce (rule : Numeral)
  | accept

/-- What is wrong with these characters at this place. -/
structure Objection where
  fault : ScriptFault
  chars : List Char
  place : List Char

def escaped (e : Char) : Char :=
  if e = 'n' then '\n' else if e = 't' then '\t' else e

def unescape : List Char → List Char
  | [] => []
  | c :: rest =>
    if c = '\\' then
      match rest with
      | [] => ['\\']
      | e :: rest => escaped e :: unescape rest
    else c :: unescape rest

namespace Pair

def nameValue (p : Pair) : String :=
  match p.rule with
  | .string =>
    match p.inner with
    | [] => ""
    | body :: _ => String.ofList (unescape body.chars)
  | _ => String.ofList p.chars

def numeral (p : Pair) : Numeral :=
  ⟨p.chars, p.place⟩

def next (statement : Pair) (what : String) : List Pair → Except Objection (Pair × List Pair)
  | [] => .error ⟨.missing what, statement.chars, statement.place⟩
  | found :: later => .ok (found, later)

def symbolStatement (p : Pair) (kind : SymbolKind) : Except Objection Statement := do
  let (index, inner) ← p.next "symbol index" p.inner
  let (name, _) ← p.next "symbol name" inner
  return .symbol kind index.numeral name.nameValue

/-- The statement of a pair; `none` for a pair that is no statement. -/
def statement? (p : Pair) : Except Objection (Option Statement) :=
  match p.rule with
  | .fileDecl => do
    let (name, _) ← p.next "file name" p.inner
    return some (.file name.nameValue)
  | .terminal => (p.symbolStatement .terminal).map some
  | .nonterminal => (p.symbolStatement .nonterminal).map some
  | .rule => do
    let (lhs, inner) ← p.next "rule left-hand side" p.inner
    let (length, _) ← p.next "rule length" inner
    return some (.rule lhs.nameValue length.numeral)
  | .shift => do
    let (symbol, inner) ← p.next "token symbol" p.inner
    let (lexeme, inner) ← p.next "lexeme" inner
    let (line, _) ← p.next "line number" inner
    return some (.shift symbol.nameValue lexeme.nameValue line.numeral)
  | .reduce => do
    let (rule, _) ← p.next "rule number" p.inner
    return some (.reduce rule.numeral)
  | .accept => .ok (some .accept)
  | _ => .ok none

end Pair

inductive Item where
  | file (name : String)
  | symbol (s : Symbol)
  | rule (r : RuleDecl)
  | event (e : ScriptEvent)
  deriving DecidableEq

def digitValue (c : Char) : Nat :=
  c.toNat - '0'.toNat

def natValue (digits : List Char) : Nat :=
  digits.foldl (fun n c => 10 * n + digitValue c) 0

def decimal? (digits : List Char) : Option Nat :=
  if digits ≠ [] ∧ digits.all Char.isDigit then some (natValue digits) else none

def unsigned? : List Char → Option Int
  | '+' :: digits => (decimal? digits).map Int.ofNat
  | digits => (decimal? digits).map Int.ofNat

def signed? : List Char → Option Int
  | '-' :: digits => (decimal? digits).map fun n => -n
  | digits => unsigned? digits

namespace Numeral

def parse (read : List Char → Option Int) (low high : Int) (n : Numeral) : Except Numeral Int :=
  match read n.digits with
  | some value => if low ≤ value ∧ value ≤ high then .ok value else .error n
  | none => .error n

def toUInt32? (n : Numeral) : Except Numeral UInt32 :=
  (n.parse unsigned? 0 (UInt32.size - 1)).map fun value => .ofNat value.toNat

def toUInt64? (n : Numeral) : Except Numeral UInt64 :=
  (n.parse unsigned? 0 (UInt64.size - 1)).map fun value => .ofNat value.toNat

def toInt32? (n : Numeral) : Except Numeral Int32 :=
  (n.parse signed? Int32.minValue.toInt Int32.maxValue.toInt).map .ofInt

def objection (n : Numeral) : Objection :=
  ⟨.outOfRange (String.ofList n.digits), n.digits, n.place⟩

end Numeral

def Statement.item : Statement → Except Numeral Item
  | .file name => .ok (.file name)
  | .symbol kind index name => index.toUInt32?.map fun i => .symbol ⟨i, name, kind⟩
  | .rule lhs length => length.toUInt64?.map fun n => .rule ⟨lhs, n⟩
  | .shift name lexeme line => line.toInt32?.map fun n => .event (.shift name lexeme n)
  | .reduce number => number.toUInt64?.map fun n => .event (.reduce n)
  | .accept => .ok (.event .accept)

def Pair.item? (p : Pair) : Except Objection (Option Item) :=
  match p.statement? with
  | .error objection => .error objection
  | .ok none => .ok none
  | .ok (some s) => (s.item.map some).mapError Numeral.objection

def itemsOf : List Pair → Except Objection (List Item)
  | [] => .ok []
  | p :: later =>
    match p.item? with
    | .error objection => .error objection
    | .ok found =>
      match itemsOf later with
      | .error objection => .error objection
      | .ok others => .ok (found.toList ++ others)

def Item.file? : Item → Option String
  | .file name => some name
  | _ => none

def Item.symbol? : Item → Option Symbol
  | .symbol s => some s
  | _ => none

def Item.rule? : Item → Option RuleDecl
  | .rule r => some r
  | _ => none

def Item.event? : Item → Option ScriptEvent
  | .event e => some e
  | _ => none

/-- The script of these items, each kind in its order; the last file name stands. -/
def ofItems (items : List Item) : Script where
  file := (items.filterMap Item.file?).getLast?
  symbols := items.filterMap Item.symbol?
  rules := items.filterMap Item.rule?
  events := items.filterMap Item.event?

def byteLength : List Char → Nat
  | [] => 0
  | c :: rest => c.utf8Size + byteLength rest

def offset (text place : List Char) : Nat :=
  byteLength text - byteLength place

/-- A text whose first character is already in the way is no script at all. -/
def missingFailure (text : List Char) (m : Missing) : Failure :=
  if offset text m.place = 0 then .invalidScript (.expected .script []) 0 0
  else .invalidScript (.expected m.first m.others) (offset text m.place) 0

def Objection.failure (text : List Char) (o : Objection) : Failure :=
  .invalidScript o.fault (offset text o.place) (byteLength o.chars)

def ofText (text : String) : Except Failure Script :=
  match pairsOf text.toList with
  | .error m => .error (missingFailure text.toList m)
  | .ok [] => .ok {}
  | .ok (root :: _) =>
    match itemsOf root.inner with
    | .error o => .error (o.failure text.toList)
    | .ok items => .ok (ofItems items)

end ParseTrace.Script
