import ParseTrace.Proofs.Script.Encoded
import ParseTrace.Proofs.Script.Text
import ParseTrace.Script.Json

/-!
A script is read from every JSON text that encodes it. The reader of each part keeps what it
has read of the fields, and behind the last one it has the part.
-/

namespace ParseTrace

open Json (ReadsBack Scalar Supplies Takes TakesAll pairs readsBack_integer readsBack_seq
  readsBack_tagged readsBack_text readsBack_token seen seen_append seen_of_mem
  takes_of_readOnce)

namespace Symbol

theorem readsBack_kind (kind : SymbolKind) :
    ReadsBack Script.readKind kind (Datum.text kind.name).tokens := by
  refine readsBack_token (by simp) (by simp) fun steps rest => ?_
  cases kind <;> simp [Script.readKind, Json.readWord, SymbolKind.name, SymbolKind.ofName?]

def kept (s : Symbol) (done : List (String × Datum)) : Script.SymbolFields where
  index := seen "index" done s.index
  name := seen "name" done s.name
  kind := seen "kind" done s.kind

theorem takes_fields (s : Symbol) {f : String × Datum} (hf : f ∈ s.fields)
    (done : List (String × Datum)) (fresh : f.1 ∉ done.map (·.1)) :
    Takes Script.SymbolFields.member (s.kept done) f (s.kept (done ++ [f])) := by
  simp only [fields, List.mem_cons, List.not_mem_nil, or_false] at hf
  rcases hf with rfl | rfl | rfl
  · exact takes_of_readOnce (fun index => { s.kept done with index }) fresh
      (readsBack_integer (Datum.toUInt32?_int s.index)) (fun _ _ => rfl)
      (by simp [kept, seen_append])
  · exact takes_of_readOnce (fun name => { s.kept done with name }) fresh
      (readsBack_text s.name) (fun _ _ => rfl) (by simp [kept, seen_append])
  · exact takes_of_readOnce (fun kind => { s.kept done with kind }) fresh
      (readsBack_kind s.kind) (fun _ _ => rfl) (by simp [kept, seen_append])

theorem Encoded.readsBack {s : Symbol} {d : Datum} (h : s.Encoded d) :
    ReadsBack Script.readSymbol s d.tokens := by
  obtain ⟨given, supplies, rfl⟩ := h
  have all : TakesAll Script.SymbolFields.member s.kept given :=
    supplies.takesAll (List.Sublist.refl _) (by decide) (fun f hf => s.takes_fields hf)
      (by simp +contextual [kept, seen_append, eq_comm])
      (by simp +contextual [Script.SymbolFields.member])
  have every : ∀ f ∈ s.fields, f.1 ∈ given.map (·.1) :=
    fun f hf => List.mem_map_of_mem (supplies.mem hf)
  have finished : (s.kept given).finish = .ok s := by
    simp only [fields, List.forall_mem_cons] at every
    obtain ⟨index, name, kind, -⟩ := every
    simp only [Script.SymbolFields.finish, kept, seen_of_mem index, seen_of_mem name,
      seen_of_mem kind]
  exact all.readsBack finished fun _ _ => rfl

end Symbol

namespace RuleDecl

def kept (r : RuleDecl) (done : List (String × Datum)) : Script.RuleFields where
  lhs := seen "lhs" done r.lhs
  length := seen "length" done r.length

theorem takes_fields (r : RuleDecl) {f : String × Datum} (hf : f ∈ r.fields)
    (done : List (String × Datum)) (fresh : f.1 ∉ done.map (·.1)) :
    Takes Script.RuleFields.member (r.kept done) f (r.kept (done ++ [f])) := by
  simp only [fields, List.mem_cons, List.not_mem_nil, or_false] at hf
  rcases hf with rfl | rfl
  · exact takes_of_readOnce (fun lhs => { r.kept done with lhs }) fresh (readsBack_text r.lhs)
      (fun _ _ => rfl) (by simp [kept, seen_append])
  · exact takes_of_readOnce (fun length => { r.kept done with length }) fresh
      (readsBack_integer (Datum.toUInt64?_toNat r.length)) (fun _ _ => rfl)
      (by simp [kept, seen_append])

theorem Encoded.readsBack {r : RuleDecl} {d : Datum} (h : r.Encoded d) :
    ReadsBack Script.readRule r d.tokens := by
  obtain ⟨given, supplies, rfl⟩ := h
  have all : TakesAll Script.RuleFields.member r.kept given :=
    supplies.takesAll (List.Sublist.refl _) (by decide) (fun f hf => r.takes_fields hf)
      (by simp +contextual [kept, seen_append, eq_comm])
      (by simp +contextual [Script.RuleFields.member])
  have every : ∀ f ∈ r.fields, f.1 ∈ given.map (·.1) :=
    fun f hf => List.mem_map_of_mem (supplies.mem hf)
  have finished : (r.kept given).finish = .ok r := by
    simp only [fields, List.forall_mem_cons] at every
    obtain ⟨lhs, length, -⟩ := every
    simp only [Script.RuleFields.finish, kept, seen_of_mem lhs, seen_of_mem length]
  exact all.readsBack finished fun _ _ => rfl

end RuleDecl

namespace ScriptEvent

theorem ofFields?_supplies {e : ScriptEvent} {given : List (String × Datum)}
    (h : Supplies (e.fields.map (·.1)) e.fields given) :
    ofFields? e.decision (.map (pairs given)) = some e := by
  have found := Datum.fields?_supplies (by cases e <;> simp [fields]) h
  cases e with
  | shift symbol lexeme line =>
    simp only [fields, List.map_cons, List.map_nil] at found
    simp only [decision, ofFields?, found, Datum.text?, Datum.toInt32?_int]
  | reduce rule =>
    simp only [fields, List.map_cons, List.map_nil] at found
    simp only [decision, ofFields?, found, Datum.toUInt64?_toNat, Option.map_some]
  | accept => rfl

theorem exists_scalar (e : ScriptEvent) {f : String × Datum} (hf : f ∈ e.fields) :
    ∃ t, Scalar f.2 t := by
  cases e with
  | shift symbol lexeme line =>
    simp only [fields, List.mem_cons, List.not_mem_nil, or_false] at hf
    rcases hf with rfl | rfl | rfl
    · exact ⟨_, .text symbol⟩
    · exact ⟨_, .text lexeme⟩
    · exact ⟨_, .int line.toInt⟩
  | reduce rule =>
    rw [List.mem_singleton.1 hf]
    exact ⟨_, .int rule.toNat⟩
  | accept => cases hf

theorem ofName?_decision (e : ScriptEvent) :
    Decision.ofName? e.decision.name = some e.decision := by
  cases e <;> simp [decision, Decision.name, Decision.ofName?]

theorem Encoded.readsBack {e : ScriptEvent} {d : Datum} (h : e.Encoded d) :
    ReadsBack Script.readEvent e d.tokens := by
  obtain ⟨given, supplies, rfl⟩ := h
  have distinct : ("event" :: e.fields.map (·.1)).Nodup := by cases e <;> simp [fields]
  have tagged := readsBack_tagged e.ofName?_decision supplies distinct
    (fun f hf => e.exists_scalar hf) (Json.depthLimit - 3)
  have meant := ofFields?_supplies (supplies.untagged (List.nodup_cons.1 distinct).1)
  refine ⟨tagged.begins, fun steps rest room => ?_⟩
  simp only [Script.readEvent, tagged.read steps rest room, meant]

end ScriptEvent

namespace Script

section Values

theorem FileEncoded.readsBack {file : Option String} {d : Datum} (h : FileEncoded file d) :
    ReadsBack Json.readOptionalText file d.tokens := by
  cases h with
  | name s => exact Json.readsBack_optionalText_some s
  | null => exact Json.readsBack_optionalText_none

variable {α : Type} {encoded : α → Datum → Prop}

theorem ListEncoded.readsBack {item : Json.Reader α} {items : List α} {d : Datum}
    (h : ListEncoded encoded items d)
    (each : ∀ {a : α} {d : Datum}, encoded a d → ReadsBack item a d.tokens) :
    ReadsBack (Json.readSeq item) items d.tokens := by
  cases h with
  | seq values => exact readsBack_seq (values.imp fun _ _ h => each h)

variable {name : String} {default a : α} {fields given : List (String × Datum)}

theorem OptionalField.sublist (h : OptionalField encoded name default a fields) :
    (fields.map (·.1)).Sublist [name] := by
  cases h with
  | given => exact List.Sublist.refl _
  | absent => exact List.nil_sublist _

theorem OptionalField.takes {σ : Type} {member : String → σ → Json.Reader σ} {s s' : σ}
    {r : Json.Reader α} {f : String × Datum} {done : List (String × Datum)}
    (h : OptionalField encoded name default a fields) (hf : f ∈ fields)
    (each : ∀ {d : Datum}, encoded a d → ReadsBack r a d.tokens) (put : Option α → σ)
    (fresh : f.1 ∉ done.map (·.1))
    (reads : ∀ steps ts, member name s steps ts =
      (Json.readOnce r (seen name done a) steps ts).map fun (a, rest) => (put a, rest))
    (kept : f.1 = name → put (some a) = s') : Takes member s f s' := by
  cases h with
  | given value =>
    obtain rfl := List.mem_singleton.1 hf
    exact takes_of_readOnce put fresh (each value) reads (kept rfl)
  | absent => cases hf

theorem OptionalField.getD_seen (h : OptionalField encoded name default a fields)
    (supplied : ∀ f ∈ fields, f ∈ given) : (seen name given a).getD default = a := by
  cases h with
  | given =>
    rw [seen_of_mem (List.mem_map_of_mem (supplied _ List.mem_cons_self)), Option.getD_some]
  | absent =>
    unfold seen
    split <;> rfl

end Values

/-- What the reader keeps of a script behind these fields of it. -/
def kept (s : Script) (done : List (String × Datum)) : Script.Fields where
  file := seen "file" done s.file
  symbols := seen "symbols" done s.symbols
  rules := seen "rules" done s.rules
  events := seen "events" done s.events

section Fields

variable {s : Script} {file symbols rules events : List (String × Datum)}
  (hFile : OptionalField FileEncoded "file" none s.file file)
  (hSymbols : OptionalField (ListEncoded Symbol.Encoded) "symbols" [] s.symbols symbols)
  (hRules : OptionalField (ListEncoded RuleDecl.Encoded) "rules" [] s.rules rules)
  (hEvents : OptionalField (ListEncoded ScriptEvent.Encoded) "events" [] s.events events)
include hFile hSymbols hRules hEvents

theorem sublist_fields : ((file ++ symbols ++ rules ++ events).map (·.1)).Sublist
    ["file", "symbols", "rules", "events"] := by
  have named :=
    ((hFile.sublist.append hSymbols.sublist).append hRules.sublist).append hEvents.sublist
  simpa only [← List.map_append, List.cons_append, List.nil_append] using named

theorem takes_fields {f : String × Datum} (hf : f ∈ file ++ symbols ++ rules ++ events)
    (done : List (String × Datum)) (fresh : f.1 ∉ done.map (·.1)) :
    Takes Fields.member (s.kept done) f (s.kept (done ++ [f])) := by
  simp only [List.mem_append] at hf
  rcases hf with ((hf | hf) | hf) | hf
  · exact hFile.takes hf FileEncoded.readsBack (fun file => { s.kept done with file }) fresh
      (fun _ _ => rfl) fun name => by simp [kept, seen_append, name]
  · exact hSymbols.takes hf (·.readsBack Symbol.Encoded.readsBack)
      (fun symbols => { s.kept done with symbols }) fresh (fun _ _ => rfl)
      fun name => by simp [kept, seen_append, name]
  · exact hRules.takes hf (·.readsBack RuleDecl.Encoded.readsBack)
      (fun rules => { s.kept done with rules }) fresh (fun _ _ => rfl)
      fun name => by simp [kept, seen_append, name]
  · exact hEvents.takes hf (·.readsBack ScriptEvent.Encoded.readsBack)
      (fun events => { s.kept done with events }) fresh (fun _ _ => rfl)
      fun name => by simp [kept, seen_append, name]

theorem script_kept {given : List (String × Datum)}
    (supplied : ∀ f ∈ file ++ symbols ++ rules ++ events, f ∈ given) :
    (s.kept given).script = s := by
  simp only [List.mem_append, or_imp, forall_and] at supplied
  obtain ⟨⟨⟨inFile, inSymbols⟩, inRules⟩, inEvents⟩ := supplied
  simp only [Fields.script, kept, hFile.getD_seen inFile, hSymbols.getD_seen inSymbols,
    hRules.getD_seen inRules, hEvents.getD_seen inEvents]

end Fields

theorem Encoded.readsBack {s : Script} {d : Datum} (h : s.Encoded d) :
    ReadsBack readScript s d.tokens := by
  cases h with
  | record hFile hSymbols hRules hEvents fields =>
    obtain ⟨given, supplies, rfl⟩ := fields
    have all : TakesAll Fields.member s.kept given :=
      supplies.takesAll (sublist_fields hFile hSymbols hRules hEvents) (by decide)
        (fun f hf => takes_fields hFile hSymbols hRules hEvents hf)
        (by simp +contextual [kept, seen_append, eq_comm])
        (by simp +contextual [Fields.member])
    have whole : (s.kept given).script = s :=
      script_kept hFile hSymbols hRules hEvents fun f hf => supplies.mem hf
    -- a script without fields is one too, so the reader has nothing to refuse at the end
    have opens : ∀ steps rest, readScript steps (.openMap :: rest) =
        Json.readMap Fields.member (s.kept []) (fun s => .ok s.script) steps rest :=
      fun _ _ => rfl
    exact all.readsBack (by rw [whole]) opens

/-- A script is read from every JSON text that encodes it, whatever the order of the fields,
the blanks, the escapes and the texts under other names. The text form and the JSON form of a
script are read as the same script, and every session runs them to the same result. -/
theorem ofJson_of_encodedIn {s : Script} {text : String} (h : s.EncodedIn text)
    (words : Wording) :
    ofJson words text = .ok s ∧
      ∀ laid, s.LaidOut laid → ofText laid = ofJson words text ∧
        ∀ session, (ofText laid).map (·.run session) =
          (ofJson words text).map (·.run session) := by
  obtain ⟨d, encoded, written⟩ := h
  have read := encoded.readsBack.read (d.tokens.length + 1) [] (Nat.le_succ _)
  rw [List.append_nil] at read
  have fromJson : ofJson words text = .ok s := by
    simp only [ofJson, Json.readAll, written.tokens, read, Except.mapError]
  refine ⟨fromJson, fun laid h => ?_⟩
  obtain ⟨its, lines, file, symbols, rules, events⟩ := h
  have fromText : ofText laid = .ok s := by
    rw [lines.ofText_eq, ofItems, ← file, ← symbols, ← rules, ← events]
  rw [fromText, fromJson]
  exact ⟨rfl, fun _ => rfl⟩

section Shift

def shiftText : String :=
  "\x7b\"events\": [\x7b\"x\": \"\", \"line\": -7, \"lexeme\": \"\\u00E9\", " ++
    "\"symbol\": \"a\", \"event\": \"shift\"\x7d\n], \"file\": null\x7d"

theorem encodedIn_shift : EncodedIn { events := [.shift "a" "é" (-7)] } shiftText := by
  let fields : List (String × Datum) :=
    [("event", .text "shift"), ("symbol", .text "a"), ("lexeme", .text "é"), ("line", .int (-7)),
      ("x", .text "")]
  have event : ScriptEvent.Encoded (.shift "a" "é" (-7)) (.map (pairs fields.reverse)) :=
    ⟨_, ⟨[("x", .text "")], List.reverse_perm fields, by simp [ScriptEvent.fields]⟩, rfl⟩
  have encoded : Encoded { events := [.shift "a" "é" (-7)] }
      (.map (pairs [("events", .seq [.map (pairs fields.reverse)]), ("file", .null)])) :=
    .record (.given .null) .absent .absent (.given (.seq (.cons event .nil)))
      ⟨_, ⟨[], .swap _ _ _, by simp⟩, rfl⟩
  have none := Json.spaces_nil
  have blank : Json.Spaces [' '] := by simp [Json.Spaces]
  have lineFeed : Json.Spaces ['\n'] := by simp [Json.Spaces]
  have member (key : String) {d : Datum} {b t : List Char} (before : Json.Spaces b)
      (value : Json.ValueText d t) := Json.MemberText.field before (Json.stringText_escaped key)
        none (.spaced blank value none)
  have word (s : String) := Json.ValueText.text (Json.stringText_escaped s)
  have line : Json.ValueText (.int (-7)) ['-', '7'] := .int (by decide) (by decide)
  have zero : Json.HexDigit 0 '0' := .lower (by decide)
  have accent : Json.UnitText 'é'.toNat ['0', '0', 'E', '9'] :=
    .digits zero zero (.upper (by decide)) (.lower (by decide))
  have lexeme : Json.StringText "é" _ := .quoted (.cons (.unit accent) .nil)
  have members := Json.MembersText.cons (member "x" none (word "")) <|
    .cons (member "line" blank line) <| .cons (member "lexeme" blank (.text lexeme)) <|
      .cons (member "symbol" blank (word "a")) <| .last (member "event" blank (word "shift"))
  have events := Json.ValueText.seq (.last (.spaced none (.map members) lineFeed))
  have written := Json.ElementText.spaced none (.map <| .cons (member "events" none events) <|
    .last (member "file" blank .null)) none
  exact ⟨_, encoded, written⟩

theorem ofJson_of_encodedIn_shift :
    ofJson default shiftText = .ok { events := [.shift "a" "é" (-7)] } :=
  (ofJson_of_encodedIn encodedIn_shift default).1

end Shift

end Script

end ParseTrace
