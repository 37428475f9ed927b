/-!
Values of unknown shape, as a structured text holds them before it is known what they
are read as, and their fields.
-/

namespace ParseTrace

inductive Datum where
  | null
  | bool (b : Bool)
  | int (n : Int)
  | real
  | text (s : String)
  | seq (items : List Datum)
  | map (fields : List (Datum × Datum))

namespace Datum

def text? : Datum → Option String
  | .text s => some s
  | _ => none

def within? (low high : Int) : Datum → Option Int
  | .int n => if low ≤ n ∧ n < high then some n else none
  | _ => none

def toUInt32? (d : Datum) : Option UInt32 :=
  (d.within? 0 UInt32.size).map fun n => .ofNat n.toNat

def toUInt64? (d : Datum) : Option UInt64 :=
  (d.within? 0 UInt64.size).map fun n => .ofNat n.toNat

def toInt32? (d : Datum) : Option Int32 :=
  (d.within? Int32.minValue.toInt (Int32.maxValue.toInt + 1)).map .ofInt

/-- Which field a key stands for: the field of that name or of that number. The inner
`none` says that it stands for no field, the outer one that it cannot be a key. -/
def keyOf? (names : List String) : Datum → Option (Option String)
  | .text s => some (names.find? (· == s))
  | .int n => if 0 ≤ n then some names[n.toNat]? else none
  | _ => none

/-- The value of a field in a list of pairs. A field given twice has none. -/
def field? (name : String) (found : List (String × Datum)) : Option Datum :=
  match found.filter (·.1 == name) with
  | [(_, d)] => some d
  | _ => none

def known? (names : List String) : List (Datum × Datum) → Option (List (String × Datum))
  | [] => some []
  | (key, d) :: rest =>
    match keyOf? names key, known? names rest with
    | some (some name), some found => some ((name, d) :: found)
    | some none, some found => some found
    | _, _ => none

/-- The values of the named fields, in the order of the names. A sequence gives its
items in that order; a mapping may have other fields too. -/
def fields? (names : List String) : Datum → Option (List Datum)
  | .map pairs =>
    match known? names pairs with
    | some found => names.mapM (field? · found)
    | none => none
  | .seq items => if items.length = names.length then some items else none
  | _ => none

end Datum

end ParseTrace
