import ParseTrace.Proofs.Json.Fields
import ParseTrace.Script

/-!
How a script may be encoded in JSON, said without a reader. The script and each of its parts
is a mapping of declared fields, which stand in any order and among any texts under other
names; an event has its decision as a tag among them. A file name that is missing may be left
out or be null, and an empty list may be left out.
-/

namespace ParseTrace

open Json (Supplies ValueText pairs stringText_escaped supplies_refl)

def Datum.Record (names : List String) (declared : List (String × Datum)) (d : Datum) : Prop :=
  ∃ given, Supplies names declared given ∧ d = .map (pairs given)

namespace Symbol

def fields (s : Symbol) : List (String × Datum) :=
  [("index", .int s.index.toNat), ("name", .text s.name), ("kind", .text s.kind.name)]

def Encoded (s : Symbol) : Datum → Prop :=
  Datum.Record ["index", "name", "kind"] s.fields

end Symbol

namespace RuleDecl

def fields (r : RuleDecl) : List (String × Datum) :=
  [("lhs", .text r.lhs), ("length", .int r.length.toNat)]

def Encoded (r : RuleDecl) : Datum → Prop :=
  Datum.Record ["lhs", "length"] r.fields

end RuleDecl

namespace ScriptEvent

def decision : ScriptEvent → Decision
  | .shift .. => .shift
  | .reduce _ => .reduce
  | .accept => .accept

def fields : ScriptEvent → List (String × Datum)
  | .shift symbol lexeme line =>
    [("symbol", .text symbol), ("lexeme", .text lexeme), ("line", .int line.toInt)]
  | .reduce rule => [("rule", .int rule.toNat)]
  | .accept => []

def Encoded (e : ScriptEvent) : Datum → Prop :=
  Datum.Record ("event" :: e.fields.map (·.1)) (("event", .text e.decision.name) :: e.fields)

end ScriptEvent

namespace Script

inductive FileEncoded : Option String → Datum → Prop
  | name (s : String) : FileEncoded (some s) (.text s)
  | null : FileEncoded none .null

inductive ListEncoded {α : Type} (encoded : α → Datum → Prop) (items : List α) : Datum → Prop
  | seq {values : List Datum} : List.Forall₂ encoded items values →
      ListEncoded encoded items (.seq values)

/-- A field that may be left out where it has its default. -/
inductive OptionalField {α : Type} (encoded : α → Datum → Prop) (name : String) (default : α) :
    α → List (String × Datum) → Prop
  | given {a : α} {d : Datum} : encoded a d → OptionalField encoded name default a [(name, d)]
  | absent : OptionalField encoded name default default []

inductive Encoded (s : Script) (d : Datum) : Prop
  | record {file symbols rules events : List (String × Datum)} :
      OptionalField FileEncoded "file" none s.file file →
      OptionalField (ListEncoded Symbol.Encoded) "symbols" [] s.symbols symbols →
      OptionalField (ListEncoded RuleDecl.Encoded) "rules" [] s.rules rules →
      OptionalField (ListEncoded ScriptEvent.Encoded) "events" [] s.events events →
      d.Record ["file", "symbols", "rules", "events"] (file ++ symbols ++ rules ++ events) →
      Encoded s d

def EncodedIn (s : Script) (text : String) : Prop :=
  ∃ d, s.Encoded d ∧ Json.ElementText d text.toList

section Existence

theorem exists_valueText_text (s : String) : ∃ t, ValueText (.text s) t :=
  ⟨_, .text (stringText_escaped s)⟩

theorem exists_valueText_nat {n : Nat} (bounded : n < UInt64.size) :
    ∃ t, ValueText (.int n) t :=
  ⟨_, Json.valueText_nat bounded⟩

theorem exists_encoded_symbol (s : Symbol) : ∃ d, s.Encoded d ∧ ∃ t, ValueText d t := by
  have index := exists_valueText_nat (Nat.lt_trans s.index.toNat_lt (by decide))
  exact ⟨_, ⟨_, supplies_refl _ _, rfl⟩, Json.exists_valueText_map
    (by simp [Symbol.fields, index, exists_valueText_text])⟩

theorem exists_encoded_rule (r : RuleDecl) : ∃ d, r.Encoded d ∧ ∃ t, ValueText d t := by
  have length := exists_valueText_nat r.length.toNat_lt
  exact ⟨_, ⟨_, supplies_refl _ _, rfl⟩, Json.exists_valueText_map
    (by simp [RuleDecl.fields, length, exists_valueText_text])⟩

theorem exists_encoded_event (e : ScriptEvent) : ∃ d, e.Encoded d ∧ ∃ t, ValueText d t := by
  refine ⟨_, ⟨_, supplies_refl _ _, rfl⟩, Json.exists_valueText_map ?_⟩
  cases e with
  | shift symbol lexeme line =>
    have number : ∃ t, ValueText (.int line.toInt) t := ⟨_, Json.valueText_int32 line⟩
    simp [ScriptEvent.fields, number, exists_valueText_text]
  | reduce rule =>
    simp [ScriptEvent.fields, exists_valueText_nat rule.toNat_lt, exists_valueText_text]
  | accept => simp [ScriptEvent.fields, exists_valueText_text]

theorem exists_listEncoded {α : Type} {encoded : α → Datum → Prop}
    (each : ∀ a, ∃ d, encoded a d ∧ ∃ t, ValueText d t) (items : List α) :
    ∃ d, ListEncoded encoded items d ∧ ∃ t, ValueText d t := by
  choose value encodes written using each
  have values : List.Forall₂ encoded items (items.map value) := by
    induction items with
    | nil => exact .nil
    | cons a later ih => exact .cons (encodes a) ih
  refine ⟨_, .seq values, Json.exists_valueText_seq ?_⟩
  simpa using fun a _ => written a

theorem exists_encodedIn (s : Script) : ∃ text, s.EncodedIn text := by
  obtain ⟨file, isFile, fileText⟩ : ∃ d, FileEncoded s.file d ∧ ∃ t, ValueText d t := by
    cases s.file with
    | none => exact ⟨_, .null, _, .null⟩
    | some name => exact ⟨_, .name name, exists_valueText_text name⟩
  obtain ⟨symbols, areSymbols, symbolsText⟩ := exists_listEncoded exists_encoded_symbol s.symbols
  obtain ⟨rules, areRules, rulesText⟩ := exists_listEncoded exists_encoded_rule s.rules
  obtain ⟨events, areEvents, eventsText⟩ := exists_listEncoded exists_encoded_event s.events
  have encoded : s.Encoded (.map (pairs
      [("file", file), ("symbols", symbols), ("rules", rules), ("events", events)])) :=
    .record (.given isFile) (.given areSymbols) (.given areRules) (.given areEvents)
      ⟨_, supplies_refl _ _, rfl⟩
  obtain ⟨t, value⟩ : ∃ t, ValueText (.map (pairs
      [("file", file), ("symbols", symbols), ("rules", rules), ("events", events)])) t :=
    Json.exists_valueText_map (by simp [fileText, symbolsText, rulesText, eventsText])
  have written := Json.ElementText.spaced Json.spaces_nil value Json.spaces_nil
  exact ⟨.ofList ([] ++ t ++ []), _, encoded, by rwa [String.toList_ofList]⟩

end Existence

end Script

end ParseTrace
