import ParseTrace.Proofs.Arena
import ParseTrace.Proofs.Json.Fields
import ParseTrace.Tree.Record

/-!
A description is read back from its own text, also with blanks around it. What is printed for
it is a JSON text of a list of tagged mappings, one for each entry, and each of these is read
as the entry that was printed.
-/

namespace ParseTrace

open Json (ElementText ElementsText MemberText MembersText ReadsBack Scalar Spaces ValueText
  isSpace pairs readsBack_tagged seqTokens seqTokens_congr seqTokens_map spaces_iff spaces_nil
  stringText_escaped supplies_refl tokens valueText_int32 valueText_nat)

namespace Entry

def fields : Entry → List (String × Datum)
  | .token symbol name lexeme line =>
    [("symbol", .int symbol.toNat), ("name", .text name), ("lexeme", .text lexeme),
      ("line", .int line.toInt)]
  | .interior symbol name children =>
    [("symbol", .int symbol.toNat), ("name", .text name), ("children", .int children)]

def datum (e : Entry) : Datum :=
  .map (pairs (("kind", .text e.kind.name) :: e.fields))

section Printing

theorem memberText_printedField (key : String) {d : Datum} {value after : List Char}
    (h : ValueText d value) (blank : Spaces after) :
    MemberText (key, d) ('\n' :: printedField key value ++ after) := by
  have indent : Spaces "\n    ".toList := by simp [Spaces]
  have space : Spaces [' '] := by simp [Spaces]
  have member := MemberText.field indent (stringText_escaped key) spaces_nil
    (.spaced space h blank)
  simpa [printedField] using member

def laterFields (printed : List (String × List Char)) : List Char :=
  printed.flatMap fun (key, value) => ",\n".toList ++ printedField key value

theorem membersText_printed (key : String) {d : Datum} {value after : List Char}
    {printed : List (String × List Char)} {fields : List (String × Datum)}
    (h : ValueText d value)
    (later : List.Forall₂ (fun p f => p.1 = f.1 ∧ ValueText f.2 p.2) printed fields)
    (blank : Spaces after) :
    MembersText ((key, d) :: fields)
      ('\n' :: printedField key value ++ laterFields printed ++ after) := by
  induction later generalizing key d value with
  | nil => exact .last (by simpa [laterFields] using memberText_printedField key h blank)
  | @cons p f printed fields first _ ih =>
    obtain ⟨name, d'⟩ := f
    obtain ⟨rfl, h'⟩ := first
    have members := MembersText.cons (memberText_printedField key h spaces_nil) (ih p.1 h')
    simpa [laterFields] using members

variable {e : Entry}

theorem valueText_printedFields (bounded : e.arity < UInt64.size) :
    List.Forall₂ (fun p f => p.1 = f.1 ∧ ValueText f.2 p.2) e.printedFields e.fields := by
  have symbol (n : UInt32) := valueText_nat (Nat.lt_trans n.toNat_lt (by decide))
  have text (s : String) := ValueText.text (stringText_escaped s)
  cases e with
  | token n name lexeme line =>
    exact .cons ⟨rfl, symbol n⟩ <| .cons ⟨rfl, text name⟩ <| .cons ⟨rfl, text lexeme⟩ <|
      .cons ⟨rfl, valueText_int32 line⟩ .nil
  | interior n name children =>
    exact .cons ⟨rfl, symbol n⟩ <| .cons ⟨rfl, text name⟩ <|
      .cons ⟨rfl, valueText_nat bounded⟩ .nil

theorem elementText_printed (bounded : e.arity < UInt64.size) {before after : List Char}
    (blank : Spaces before) (blank' : Spaces after) :
    ElementText e.datum (before ++ e.printed ++ after) := by
  have closing : Spaces "\n  ".toList := by simp [Spaces]
  have indented : Spaces (before ++ "  ".toList) := by
    intro c hc
    rcases List.mem_append.1 hc with outer | inner
    · exact blank c outer
    · exact .inl (by simpa using inner)
  have value := ValueText.map (membersText_printed "kind" (.text (stringText_escaped e.kind.name))
    (valueText_printedFields bounded) closing)
  have element := ElementText.spaced indented value blank'
  have whole : e.printed = "  ".toList ++ ('{' :: ('\n' :: printedField "kind"
      (Json.escaped e.kind.name.toList) ++ laterFields e.printedFields ++ "\n  ".toList) ++
        ['}']) := by
    simp [printed, laterFields]
  rw [whole, datum]
  simpa only [List.append_assoc] using element

theorem tokens_printed (bounded : e.arity < UInt64.size) : tokens e.printed = e.datum.tokens := by
  have element := elementText_printed bounded spaces_nil spaces_nil
  rw [List.nil_append, List.append_nil] at element
  exact element.tokens

end Printing

section Reading

variable {e : Entry}

theorem ofFields?_token {d symbol name lexeme line : Datum} {s : UInt32} {n l : String} {i : Int32}
    (found : d.fields? ["symbol", "name", "lexeme", "line"] = some [symbol, name, lexeme, line])
    (hs : symbol.toUInt32? = some s) (hn : name.text? = some n) (hl : lexeme.text? = some l)
    (hi : line.toInt32? = some i) : ofFields? .token d = some (.token s n l i) := by
  simp only [ofFields?, found, hs, hn, hl, hi]

theorem ofFields?_interior {d symbol name children : Datum} {s : UInt32} {n : String} {k : UInt64}
    (found : d.fields? ["symbol", "name", "children"] = some [symbol, name, children])
    (hs : symbol.toUInt32? = some s) (hn : name.text? = some n)
    (hk : children.toUInt64? = some k) :
    ofFields? .interior d = some (.interior s n k.toNat) := by
  simp only [ofFields?, found, hs, hn, hk]

theorem ofFields?_fields (bounded : e.arity < UInt64.size) :
    ofFields? e.kind (.map (pairs e.fields)) = some e := by
  cases e with
  | token symbol name lexeme line =>
    have found := Datum.fields?_pairs (token symbol name lexeme line).fields (by simp [fields])
    exact ofFields?_token found (Datum.toUInt32?_int symbol) rfl rfl (Datum.toInt32?_int line)
  | interior symbol name children =>
    have found := Datum.fields?_pairs (interior symbol name children).fields (by simp [fields])
    have exact : (UInt64.ofNat children).toNat = children := UInt64.toNat_ofNat_of_lt bounded
    have read := ofFields?_interior found (Datum.toUInt32?_int symbol) rfl
      (Datum.toUInt64?_int bounded)
    rwa [exact] at read

theorem ofName?_name (kind : NodeKind) : NodeKind.ofName? kind.name = some kind := by
  cases kind <;> simp [NodeKind.ofName?, NodeKind.name]

theorem exists_scalar (e : Entry) {f : String × Datum} (hf : f ∈ e.fields) :
    ∃ t, Scalar f.2 t := by
  cases e with
  | token symbol name lexeme line =>
    simp only [fields, List.mem_cons, List.not_mem_nil, or_false] at hf
    rcases hf with rfl | rfl | rfl | rfl
    · exact ⟨_, .int symbol.toNat⟩
    · exact ⟨_, .text name⟩
    · exact ⟨_, .text lexeme⟩
    · exact ⟨_, .int line.toInt⟩
  | interior symbol name children =>
    simp only [fields, List.mem_cons, List.not_mem_nil, or_false] at hf
    rcases hf with rfl | rfl | rfl
    · exact ⟨_, .int symbol.toNat⟩
    · exact ⟨_, .text name⟩
    · exact ⟨_, .int children⟩

theorem readsBack (bounded : e.arity < UInt64.size) : ReadsBack read e (tokens e.printed) := by
  rw [tokens_printed bounded]
  have distinct : ("kind" :: e.fields.map (·.1)).Nodup := by cases e <;> simp [fields]
  have others : ∀ f ∈ e.fields, f.1 ≠ "kind" := by cases e <;> simp [fields]
  have tagged := readsBack_tagged (ofName?_name e.kind) (supplies_refl _ _) distinct
    (fun f hf => e.exists_scalar hf) (Json.depthLimit - 2)
  rw [List.filter_cons_of_neg (by simp), List.filter_eq_self.2 (by simpa using others)] at tagged
  refine ⟨tagged.begins, fun steps rest room => ?_⟩
  have step := tagged.read steps rest room
  simp only [Entry.read, datum, step, ofFields?_fields bounded]

end Reading

end Entry

namespace Description

variable {d : Description}

theorem elementsText_printedEntries {first : Entry} {later : List Entry}
    (bounded : ∀ e ∈ first :: later, e.arity < UInt64.size) :
    ElementsText ((first :: later).map Entry.datum)
      ('\n' :: printedEntries (first :: later) ++ ['\n']) := by
  have feed : Spaces ['\n'] := by simp [Spaces]
  obtain ⟨bound, bounds⟩ := List.forall_mem_cons.1 bounded
  induction later generalizing first with
  | nil => exact .last (Entry.elementText_printed bound feed feed)
  | cons second later ih =>
    obtain ⟨bound', bounds'⟩ := List.forall_mem_cons.1 bounds
    have elements := ElementsText.cons (Entry.elementText_printed bound feed spaces_nil)
      (ih bounds bound' bounds')
    simpa [printedEntries] using elements

/-- The text of a description is a JSON text of the list of its mappings, with blanks around
it or not. -/
theorem elementText_toJson (bounded : ∀ e ∈ d.entries, e.arity < UInt64.size)
    {before after : List Char} (blank : ∀ c ∈ before ++ after, isSpace c = true) :
    ElementText (.seq (d.entries.map Entry.datum)) (before ++ (d.toJson.toList ++ after)) := by
  have front : Spaces before := spaces_iff.2 fun c hc => blank c (List.mem_append_left _ hc)
  have back : Spaces after := spaces_iff.2 fun c hc => blank c (List.mem_append_right _ hc)
  rw [← List.append_assoc]
  cases entries : d.entries with
  | nil =>
    have text : d.toJson.toList = '[' :: [] ++ [']'] := by simp [toJson, entries]
    rw [text]
    exact .spaced front (.emptySeq spaces_nil) back
  | cons first later =>
    have text : d.toJson.toList =
        '[' :: ('\n' :: printedEntries (first :: later) ++ ['\n']) ++ [']'] := by
      simp [toJson, entries]
    rw [text]
    exact .spaced front (.seq (elementsText_printedEntries (entries ▸ bounded))) back

theorem tokens_toJson (bounded : ∀ e ∈ d.entries, e.arity < UInt64.size) {before after : List Char}
    (blank : ∀ c ∈ before ++ after, isSpace c = true) :
    tokens (before ++ (d.toJson.toList ++ after)) =
      seqTokens (fun e => tokens e.printed) d.entries := by
  have each : d.entries.map (fun e => tokens e.printed) =
      d.entries.map (Datum.tokens ∘ Entry.datum) :=
    List.map_congr_left fun e he => Entry.tokens_printed (bounded e he)
  rw [(elementText_toJson bounded blank).tokens, Datum.tokens_seq, seqTokens_map]
  exact seqTokens_congr each.symm

theorem ofJson_toJson (bounded : ∀ e ∈ d.entries, e.arity < UInt64.size) {before after : List Char}
    (blank : ∀ c ∈ before ++ after, isSpace c = true) (words : Wording) :
    ofJson words (String.ofList (before ++ (d.toJson.toList ++ after))) = .ok d := by
  have read := Json.readSeq_seqTokens (fun e he => Entry.readsBack (bounded e he))
    (Nat.le_succ (seqTokens (fun e => tokens e.printed) d.entries).length) []
  rw [List.append_nil, List.map_id'] at read
  simp only [ofJson, Json.readAll, String.toList_ofList, tokens_toJson bounded blank, read]

end Description

end ParseTrace
