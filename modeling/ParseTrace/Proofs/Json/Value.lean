import ParseTrace.Proofs.Json.Record

/-!
The text of a description as JSON of no particular type. A reader that knows nothing of
descriptions finds a list of flat mappings in it, each with its kind first; the reader of
descriptions finds the description, whatever blanks stand around the text.
-/

namespace ParseTrace

namespace Json

section Mappings

def anyMember (item : Reader Datum) (key : String) (fields : List (Datum × Datum)) :
    Reader (List (Datum × Datum)) :=
  fun steps ts => (readValue item steps ts).map fun (d, rest) => ((.text key, d) :: fields, rest)

theorem readDatum_openMap (room steps : Nat) (rest : List Token) :
    readDatum (room + 1) steps (.openMap :: rest) =
      readMap (anyMember (readDatum room)) [] (fun fields => .ok (.map fields.reverse))
        steps rest := rfl

theorem readDatum_openSeq (room steps : Nat) (rest : List Token) :
    readDatum (room + 1) steps (.openSeq :: rest) =
      (readSeq (readDatum room) steps (.openSeq :: rest)).map
        fun (items, rest) => (.seq items, rest) := rfl

theorem anyMember_scalar {d : Datum} {t : Token} (scalar : Scalar d t) (room : Nat)
    (key : String) (fields : List (Datum × Datum)) (steps : Nat) (rest : List Token) :
    anyMember (readDatum room) key fields steps (.colon :: t :: rest) =
      .ok ((.text key, d) :: fields, rest) := by
  rw [anyMember, readValue, afterColon]
  simp only [scalar.readDatum, Except.map]

theorem readsBack_scalars {fields : List (String × Datum)}
    (scalars : ∀ f ∈ fields, ∃ t, Scalar f.2 t) (room : Nat) :
    ReadsBack (readDatum (room + 1)) (.map (pairs fields)) (Datum.map (pairs fields)).tokens := by
  have all : TakesAll (anyMember (readDatum room)) (fun done => (pairs done).reverse) fields := by
    intro before f front steps rest _
    obtain ⟨t, scalar⟩ := scalars f (front.subset (List.mem_append_right _ List.mem_cons_self))
    rw [scalar.tokens, List.cons_append, List.singleton_append, anyMember_scalar scalar]
    simp [pairs]
  exact all.readsBack (by rw [List.reverse_reverse])
    fun steps rest => readDatum_openMap room steps rest

end Mappings

end Json

open Json (ReadsBack isSpace pairs readAll readDatum readsBack_scalars readDatum_openSeq
  seqTokens tokens)

namespace Entry

theorem readsBack_datum {e : Entry} (bounded : e.arity < UInt64.size) :
    ReadsBack (readDatum 1) e.datum (tokens e.printed) := by
  rw [tokens_printed bounded]
  exact readsBack_scalars
    (List.forall_mem_cons.2 ⟨⟨_, .text e.kind.name⟩, fun f hf => e.exists_scalar hf⟩) 0

end Entry

namespace Description

variable {d : Description}

theorem readDatum_seqTokens (bounded : ∀ e ∈ d.entries, e.arity < UInt64.size) {steps : Nat}
    (room : (seqTokens (fun e => tokens e.printed) d.entries).length ≤ steps) :
    readDatum 2 steps (seqTokens (fun e => tokens e.printed) d.entries) =
      .ok (.seq (d.entries.map Entry.datum), []) := by
  have read := Json.readSeq_seqTokens (fun e he => Entry.readsBack_datum (bounded e he)) room []
  rw [List.append_nil] at read
  have opened : ∃ rest, seqTokens (fun e => tokens e.printed) d.entries = .openSeq :: rest := by
    cases d.entries <;> exact ⟨_, rfl⟩
  obtain ⟨rest, opened⟩ := opened
  rw [opened] at read ⊢
  rw [readDatum_openSeq, read]
  rfl

/-- With any blanks before and after it, the text of a description is the JSON list of the
mappings that its entries are, and it is read back as the description. The description need
not be that of a tree; only its counts have to be 64-bit numbers. -/
theorem ofJson_toJson_spaced (bounded : ∀ e ∈ d.entries, e.arity < UInt64.size)
    {before after : String} (blank : ∀ c ∈ before.toList ++ after.toList, isSpace c = true)
    (words : Wording) :
    readAll (readDatum 2) (before ++ d.toJson ++ after) =
        .ok (.seq (d.entries.map Entry.datum)) ∧
      ofJson words (before ++ d.toJson ++ after) = .ok d := by
  have text : before ++ d.toJson ++ after =
      String.ofList (before.toList ++ (d.toJson.toList ++ after.toList)) := by
    simp [String.ofList_append, String.append_assoc]
  rw [text]
  refine ⟨?_, ofJson_toJson bounded blank words⟩
  have read := readDatum_seqTokens bounded
    (Nat.le_succ (seqTokens (fun e => tokens e.printed) d.entries).length)
  simp only [readAll, String.toList_ofList, tokens_toJson bounded blank, read]

theorem ofJson_toJson_spaced_escapes :
    ofJson default (" \t" ++ toJson ⟨[.interior 4294967295 "a\"\\b" 18446744073709551615,
        .token 0 "\x01é" "\r\n\t" (-2147483648)]⟩ ++ "\n") =
      .ok ⟨[.interior 4294967295 "a\"\\b" 18446744073709551615,
        .token 0 "\x01é" "\r\n\t" (-2147483648)]⟩ :=
  (ofJson_toJson_spaced (by simp [Entry.arity, UInt64.size]) (by simp [isSpace]) default).2

end Description

end ParseTrace
