import ParseTrace.Json.Reader
import ParseTrace.Script.Fields

/-!
Scripts in JSON. Unknown fields of a script, a symbol or a rule are passed over, and
each of these may also be the sequence of its fields.
-/

namespace ParseTrace.Script

open Json (Fault Reader)

/-- A kind of symbol is a word, or a mapping of that word to `null`. -/
def readKind : Reader SymbolKind
  | steps, .text contents :: rest =>
    Json.readWord SymbolKind.ofName? steps (.text contents :: rest)
  | steps, .openMap :: rest =>
    match Json.readWord SymbolKind.ofName? steps rest with
    | .error fault => .error fault
    | .ok (kind, ts) =>
      match Json.afterColon ts with
      | .error fault => .error fault
      | .ok (.null :: rest) => (Json.endMap rest).map fun rest => (kind, rest)
      | .ok ts => Json.refuse ts
  | _, [] => .error .ended
  | _, .brokenText reading _ :: _ => .error reading
  | _, _ :: _ => .error .malformed

structure SymbolFields where
  index : Option UInt32 := none
  name : Option String := none
  kind : Option SymbolKind := none

namespace SymbolFields

def member (key : String) (s : SymbolFields) : Reader SymbolFields :=
  fun steps ts =>
    if key = "index" then
      (Json.readOnce (Json.readInteger Datum.toUInt32?) s.index steps ts).map
        fun (index, rest) => ({ s with index }, rest)
    else if key = "name" then
      (Json.readOnce Json.readText s.name steps ts).map fun (name, rest) => ({ s with name }, rest)
    else if key = "kind" then
      (Json.readOnce readKind s.kind steps ts).map fun (kind, rest) => ({ s with kind }, rest)
    else Json.skipField s steps ts

def finish (s : SymbolFields) : Except Fault Symbol :=
  match s.index, s.name, s.kind with
  | some index, some name, some kind => .ok ⟨index, name, kind⟩
  | _, _, _ => .error .mismatch

end SymbolFields

def readSymbol : Reader Symbol
  | steps, .openMap :: rest =>
    Json.readMap SymbolFields.member {} SymbolFields.finish steps rest
  | steps, .openSeq :: rest => do
    let missing {α : Type} : Except Fault α := .error .mismatch
    let (index, ts) ← Json.readItemOr missing true (Json.readInteger Datum.toUInt32?) steps rest
    let (name, ts) ← Json.readItemOr missing false Json.readText steps ts
    let (kind, ts) ← Json.readItemOr missing false readKind steps ts
    let rest ← Json.endSeq ts
    return (⟨index, name, kind⟩, rest)
  | _, ts => Json.refuse ts

structure RuleFields where
  lhs : Option String := none
  length : Option UInt64 := none

namespace RuleFields

def member (key : String) (s : RuleFields) : Reader RuleFields :=
  fun steps ts =>
    if key = "lhs" then
      (Json.readOnce Json.readText s.lhs steps ts).map fun (lhs, rest) => ({ s with lhs }, rest)
    else if key = "length" then
      (Json.readOnce (Json.readInteger Datum.toUInt64?) s.length steps ts).map
        fun (length, rest) => ({ s with length }, rest)
    else Json.skipField s steps ts

def finish (s : RuleFields) : Except Fault RuleDecl :=
  match s.lhs, s.length with
  | some lhs, some length => .ok ⟨lhs, length⟩
  | _, _ => .error .mismatch

end RuleFields

def readRule : Reader RuleDecl
  | steps, .openMap :: rest => Json.readMap RuleFields.member {} RuleFields.finish steps rest
  | steps, .openSeq :: rest => do
    let missing {α : Type} : Except Fault α := .error .mismatch
    let (lhs, ts) ← Json.readItemOr missing true Json.readText steps rest
    let (length, ts) ←
      Json.readItemOr missing false (Json.readInteger Datum.toUInt64?) steps ts
    let rest ← Json.endSeq ts
    return (⟨lhs, length⟩, rest)
  | _, ts => Json.refuse ts

/-- An event stands inside the brackets of the script, of the list and of its own. -/
def readEvent : Reader ScriptEvent :=
  fun steps ts =>
    match Json.readTagged "event" Decision.ofName? (Json.depthLimit - 3) steps ts with
    | .error fault => .error fault
    | .ok ((decision, fields), rest) =>
      match ScriptEvent.ofFields? decision fields with
      | some event => .ok (event, rest)
      | none => .error .mismatch

structure Fields where
  file : Option (Option String) := none
  symbols : Option (List Symbol) := none
  rules : Option (List RuleDecl) := none
  events : Option (List ScriptEvent) := none

namespace Fields

def member (key : String) (s : Fields) : Reader Fields :=
  fun steps ts =>
    if key = "file" then
      (Json.readOnce Json.readOptionalText s.file steps ts).map
        fun (file, rest) => ({ s with file }, rest)
    else if key = "symbols" then
      (Json.readOnce (Json.readSeq readSymbol) s.symbols steps ts).map
        fun (symbols, rest) => ({ s with symbols }, rest)
    else if key = "rules" then
      (Json.readOnce (Json.readSeq readRule) s.rules steps ts).map
        fun (rules, rest) => ({ s with rules }, rest)
    else if key = "events" then
      (Json.readOnce (Json.readSeq readEvent) s.events steps ts).map
        fun (events, rest) => ({ s with events }, rest)
    else Json.skipField s steps ts

def script (s : Fields) : Script where
  file := s.file.getD none
  symbols := s.symbols.getD []
  rules := s.rules.getD []
  events := s.events.getD []

end Fields

def readScript : Reader Script
  | steps, .openMap :: rest =>
    Json.readMap Fields.member {} (fun s => .ok s.script) steps rest
  | steps, .openSeq :: rest => do
    let (file, ts) ← Json.readItemOr (.ok none) true Json.readOptionalText steps rest
    let (symbols, ts) ← Json.readItemOr (.ok []) false (Json.readSeq readSymbol) steps ts
    let (rules, ts) ← Json.readItemOr (.ok []) false (Json.readSeq readRule) steps ts
    let (events, ts) ← Json.readItemOr (.ok []) false (Json.readSeq readEvent) steps ts
    let rest ← Json.endSeq ts
    return ({ file, symbols, rules, events }, rest)
  | _, ts => Json.refuse ts

def ofJson (words : Wording) (text : String) : Except Failure Script :=
  (Json.readAll readScript text).mapError fun fault => .invalidJson fault (words.scriptJson text)

end ParseTrace.Script
