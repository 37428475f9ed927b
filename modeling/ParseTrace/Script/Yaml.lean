import ParseTrace.Script.Fields
import ParseTrace.Yaml.Node
import ParseTrace.Yaml.Value

/-!
Scripts in YAML. What a declared field holds is read as the text it is written with;
the fields of an event are values first, so that a number there is no text.
-/

namespace ParseTrace.Script

open Yaml (Document)

def yamlRoom : Nat := 128

/-- Reads nodes. The state says how many aliases may still be followed, which bounds the
work, since the nodes that aliases stand for may hold aliases themselves. -/
abbrev FromYaml (α : Type) := StateT Nat Option α

namespace FromYaml

def follow (d : Document) : Yaml.Node → FromYaml Yaml.Node
  | .alias number => do
    let left ← get
    if left = 0 then failure
    set (left - 1)
    d.target? number
  | node => pure node

def text (d : Document) (node : Yaml.Node) : FromYaml String := do
  match ← follow d node with
  | .scalar _ _ s => return s
  | _ => failure

def optionalText (d : Document) (node : Yaml.Node) : FromYaml (Option String) := do
  match ← follow d node with
  | .scalar tag style s =>
    if style ≠ .plain then return some s
    else
      match tag with
      | none => return if s.isEmpty || Yaml.isNullWord s then none else some s
      | some t =>
        if t ≠ Yaml.coreTag "null" then return some s
        else if Yaml.isNullWord s then return none
        else failure
  | _ => failure

def natural (bound : Nat) (d : Document) (node : Yaml.Node) : FromYaml Nat := do
  match ← follow d node with
  | .scalar tag style s =>
    if style = .plain || (style = .literal && tag = some (Yaml.coreTag "int")) then
      let n ← Yaml.natOf? s.toList
      if n < bound then return n else failure
    else failure
  | _ => failure

def kind (d : Document) (node : Yaml.Node) : FromYaml SymbolKind := do
  match ← follow d node with
  | .scalar tag style s =>
    match tag with
    | some t =>
      if Yaml.isLocal tag then
        if style = .plain && (s.isEmpty || Yaml.isNullWord s) then
          SymbolKind.ofName? (String.ofList (t.toList.drop 1))
        else failure
      else SymbolKind.ofName? s
    | none => SymbolKind.ofName? s
  | _ => failure

def items {α : Type} (read : Document → Yaml.Node → FromYaml α) (d : Document) (node : Yaml.Node) :
    FromYaml (List α) := do
  match ← follow d node with
  | .seq _ nodes => nodes.mapM (read d)
  | .scalar _ .plain "" => return []
  | _ => failure

/-- Reads the fields of a mapping that have one of these names, each at most once; where
nothing is written there are none. -/
def fields (names : List String) (d : Document) (node : Yaml.Node) :
    FromYaml (List (String × Yaml.Node)) := do
  match ← follow d node with
  | .map _ pairs =>
    let named ← pairs.mapM fun (key, value) => return (← text d key, value)
    let known := named.filter fun (name, _) => names.contains name
    if (known.map (·.1)).Nodup then return known else failure
  | .scalar _ .plain "" => return []
  | _ => failure

def required {α : Type} (name : String) (found : List (String × Yaml.Node))
    (read : Document → Yaml.Node → FromYaml α) (d : Document) : FromYaml α := do
  match found.lookup name with
  | some node => read d node
  | none => failure

def optional {α : Type} (name : String) (absent : α) (found : List (String × Yaml.Node))
    (read : Document → Yaml.Node → FromYaml α) (d : Document) : FromYaml α := do
  match found.lookup name with
  | some node => read d node
  | none => return absent

def symbol (d : Document) (node : Yaml.Node) : FromYaml Symbol := do
  let found ← fields ["index", "name", "kind"] d node
  let index ← required "index" found (natural UInt32.size) d
  let name ← required "name" found text d
  let kind ← required "kind" found kind d
  return ⟨.ofNat index, name, kind⟩

def rule (d : Document) (node : Yaml.Node) : FromYaml RuleDecl := do
  let found ← fields ["lhs", "length"] d node
  let lhs ← required "lhs" found text d
  let length ← required "length" found (natural UInt64.size) d
  return ⟨lhs, .ofNat length⟩

def datum (d : Document) : Nat → Yaml.Node → FromYaml Datum
  | 0, node => do
    match ← follow d node with
    | .scalar tag style s => if Yaml.isLocal tag then failure else Yaml.scalarDatum? tag style s
    | _ => failure
  | room + 1, node => do
    match ← follow d node with
    | .scalar tag style s => if Yaml.isLocal tag then failure else Yaml.scalarDatum? tag style s
    | .seq tag nodes =>
      if Yaml.isLocal tag then failure else return .seq (← nodes.mapM (datum d room))
    | .map tag pairs =>
      if Yaml.isLocal tag then failure
      else
        return .map
          (← pairs.mapM fun (key, value) => return (← datum d room key, ← datum d room value))
    | .alias _ => failure

def decision (d : Document) (node : Yaml.Node) : FromYaml Decision := do
  Decision.ofName? (← text d node)

def eventFields (d : Document) (room : Nat) :
    List (Yaml.Node × Yaml.Node) → FromYaml (List Decision × List (Datum × Datum))
  | [] => return ([], [])
  | (key, value) :: rest => do
    match ← datum d room key with
    | .text "event" =>
      let found ← decision d value
      let (decisions, others) ← eventFields d room rest
      return (found :: decisions, others)
    | key =>
      let value ← datum d room value
      let (decisions, others) ← eventFields d room rest
      return (decisions, (key, value) :: others)

def event (d : Document) (node : Yaml.Node) : FromYaml ScriptEvent := do
  let room := yamlRoom - 3
  match ← follow d node with
  | .map tag pairs =>
    if Yaml.isLocal tag then failure
    match ← eventFields d room pairs with
    | ([decision], others) => ScriptEvent.ofFields? decision (.map others)
    | _ => failure
  | .seq tag (first :: rest) =>
    if Yaml.isLocal tag then failure
    let decision ← decision d first
    ScriptEvent.ofFields? decision (.seq (← rest.mapM (datum d room)))
  | _ => failure

def script (d : Document) : FromYaml Script := do
  match d.root with
  | none => return {}
  | some root =>
    let found ← fields ["file", "symbols", "rules", "events"] d root
    return {
      file := ← optional "file" none found optionalText d
      symbols := ← optional "symbols" [] found (items symbol) d
      rules := ← optional "rules" [] found (items rule) d
      events := ← optional "events" [] found (items event) d }

end FromYaml

def ofYaml (words : Wording) (text : String) : Except Failure Script :=
  match Document.ofText? text with
  | none => .error (.invalidYaml (words.scriptYaml text))
  | some d =>
    match (FromYaml.script d).run (100 * d.size) with
    | some (s, _) => .ok s
    | none => .error (.invalidYaml (words.scriptYaml text))

end ParseTrace.Script
