import ParseTrace.Datum
import ParseTrace.Yaml.Cursor
import ParseTrace.Yaml.Scalar

/-!
What the text of a scalar says: nothing, a truth value, an integer, another number or
just the text.
-/

namespace ParseTrace.Yaml

def isLocal (tag : Option String) : Bool :=
  tag.any fun t => t.toList.head? = some '!'

def coreTag (name : String) : String :=
  "tag:yaml.org,2002:" ++ name

def isNullWord (s : String) : Bool :=
  ["~", "null", "Null", "NULL"].contains s

def boolOf? (s : String) : Option Bool :=
  if ["true", "True", "TRUE"].contains s then some true
  else if ["false", "False", "FALSE"].contains s then some false
  else none

def natural? (base : Nat) : List Char → Option Nat
  | [] => none
  | digits =>
    digits.foldlM
      (fun n c => do
        let d ← hexDigit? c
        if d < base then some (base * n + d) else none)
      0

def unsigned : List Char → List Char
  | c :: rest => if c = '+' || c = '-' then rest else c :: rest
  | [] => []

def hasNeedlessZero (text : List Char) : Bool :=
  match unsigned text with
  | '0' :: c :: rest => (c :: rest).all Char.isDigit
  | _ => false

def magnitude? : List Char → Option Nat
  | '0' :: 'x' :: digits => natural? 16 digits
  | '0' :: 'o' :: digits => natural? 8 digits
  | '0' :: 'b' :: digits => natural? 2 digits
  | digits => natural? 10 digits

def natOf? (text : List Char) : Option Nat :=
  if hasNeedlessZero text then none
  else
    match text with
    | '+' :: rest => magnitude? rest
    | _ => magnitude? text

def intOf? (text : List Char) : Option Int :=
  match text with
  | '-' :: rest =>
    if hasNeedlessZero text then none else (magnitude? rest).map fun n => -(n : Int)
  | _ => (natOf? text).map fun n => (n : Int)

def isFinite (digits : List Char) (exponent : Int) : Bool :=
  let digits := digits.dropWhile (· = '0')
  let places := digits.length + exponent
  let limit := 1 <<< 1024 - 1 <<< 970
  if digits.isEmpty || places < 300 then true
  else if 320 < places then false
  else
    let n := (natural? 10 digits).getD 0
    if 0 ≤ exponent then n * Nat.pow 10 exponent.toNat < limit
    else n < limit * Nat.pow 10 (-exponent).toNat

def exponentOf? : List Char → Option Int
  | '-' :: digits => (natural? 10 digits).map fun n => -(n : Int)
  | '+' :: digits => (natural? 10 digits).map fun n => (n : Int)
  | digits => (natural? 10 digits).map fun n => (n : Int)

def isFiniteDecimal (text : List Char) : Bool :=
  let whole := text.takeWhile Char.isDigit
  let text := text.dropWhile Char.isDigit
  let (places, text) := match text with
    | '.' :: rest => (rest.takeWhile Char.isDigit, rest.dropWhile Char.isDigit)
    | _ => ([], text)
  let exponent := match text with
    | [] => some 0
    | e :: rest => if e = 'e' || e = 'E' then exponentOf? rest else none
  match exponent with
  | some e => !(whole ++ places).isEmpty && isFinite (whole ++ places) (e - places.length)
  | none => false

def isReal (s : String) : Bool :=
  let infinities := [".inf", ".Inf", ".INF"]
  if [".nan", ".NaN", ".NAN"].contains s then true
  else
    let body := unsigned s.toList
    infinities.contains (String.ofList body) || isFiniteDecimal body

/-- The value of an integer. One that only 128 bits hold has none here. -/
def datumOfInt? (n : Int) : Option (Option Datum) :=
  if Int64.minValue.toInt ≤ n ∧ n < UInt64.size then some (some (.int n))
  else if -Int.pow 2 127 ≤ n ∧ n < Int.pow 2 128 then some none
  else none

def plainDatum? (s : String) : Option Datum :=
  if s.isEmpty || isNullWord s then some .null
  else
    match boolOf? s, (intOf? s.toList).bind datumOfInt? with
    | some b, _ => some (.bool b)
    | none, some found => found
    | none, none =>
      if !hasNeedlessZero s.toList && isReal s then some .real else some (.text s)

def scalarDatum? (tag : Option String) (style : Style) (s : String) : Option Datum :=
  match tag with
  | none => if style = .plain then plainDatum? s else some (.text s)
  | some t =>
    if t = coreTag "bool" then (boolOf? s).map .bool
    else if t = coreTag "int" then ((intOf? s.toList).bind datumOfInt?).join
    else if t = coreTag "float" then if isReal s then some .real else none
    else if t = coreTag "null" then if isNullWord s then some .null else none
    else some (.text s)

end ParseTrace.Yaml
