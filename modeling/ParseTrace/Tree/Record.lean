import ParseTrace.Json.Reader
import ParseTrace.Tree.Description

/-!
Descriptions as JSON: a flat list of records, each tagged by its kind. Printing uses
one line for each field and two blanks for each level.
-/

namespace ParseTrace

def NodeKind.ofName? (s : String) : Option NodeKind :=
  if s = "token" then some .token
  else if s = "interior" then some .interior
  else none

namespace Entry

def printedFields : Entry → List (String × List Char)
  | .token symbol name lexeme line =>
    [("symbol", (toString symbol.toNat).toList), ("name", Json.escaped name.toList),
      ("lexeme", Json.escaped lexeme.toList), ("line", (toString line.toInt).toList)]
  | .interior symbol name children =>
    [("symbol", (toString symbol.toNat).toList), ("name", Json.escaped name.toList),
      ("children", (toString children).toList)]

def kind : Entry → NodeKind
  | .token .. => .token
  | .interior .. => .interior

def printedField (key : String) (value : List Char) : List Char :=
  "    ".toList ++ Json.escaped key.toList ++ ": ".toList ++ value

def printed (e : Entry) : List Char :=
  "  \x7b\n".toList ++ printedField "kind" (Json.escaped e.kind.name.toList) ++
    e.printedFields.flatMap (fun (key, value) => ",\n".toList ++ printedField key value) ++
    "\n  \x7d".toList

def ofFields? (kind : NodeKind) (d : Datum) : Option Entry :=
  match kind with
  | .token =>
    match d.fields? ["symbol", "name", "lexeme", "line"] with
    | some [symbol, name, lexeme, line] =>
      match symbol.toUInt32?, name.text?, lexeme.text?, line.toInt32? with
      | some symbol, some name, some lexeme, some line => some (.token symbol name lexeme line)
      | _, _, _, _ => none
    | _ => none
  | .interior =>
    match d.fields? ["symbol", "name", "children"] with
    | some [symbol, name, children] =>
      match symbol.toUInt32?, name.text?, children.toUInt64? with
      | some symbol, some name, some children => some (.interior symbol name children.toNat)
      | _, _, _ => none
    | _ => none

/-- An entry stands inside the brackets of the list and of its own. -/
def read : Json.Reader Entry :=
  fun steps ts =>
    match Json.readTagged "kind" NodeKind.ofName? (Json.depthLimit - 2) steps ts with
    | .error fault => .error fault
    | .ok ((kind, fields), rest) =>
      match ofFields? kind fields with
      | some entry => .ok (entry, rest)
      | none => .error .mismatch

end Entry

namespace Description

def printedEntries : List Entry → List Char
  | [] => []
  | [e] => e.printed
  | e :: rest => e.printed ++ ",\n".toList ++ printedEntries rest

def toJson (d : Description) : String :=
  match d.entries with
  | [] => "[]"
  | entries => String.ofList ("[\n".toList ++ printedEntries entries ++ "\n]".toList)

def ofJson (words : Wording) (text : String) : Except Failure Description :=
  match Json.readAll (Json.readSeq Entry.read) text with
  | .error fault => .error (.invalidJson fault (words.descriptionJson text))
  | .ok entries => .ok ⟨entries⟩

end Description

def Tree.record (t : Tree) : String :=
  match t.describe with
  | some d => d.toJson ++ "\n"
  | none => "null\n"

end ParseTrace
