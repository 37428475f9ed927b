import ParseTrace.Proofs.Json.Reader
import ParseTrace.Proofs.Json.Text

/-!
How a value may be laid out as a JSON text, said without a reader. Blanks may stand around
each value and each key; strings are spelled in any way, and an integer by its digits, with
a minus before those of a negative one. Whatever the layout, the text has the tokens of the
value and no others.
-/

namespace ParseTrace

open Json (laterTokens pairs seqTokens)

namespace Datum

mutual

def tokens : Datum → List Json.Token
  | .null => [.null]
  | .bool b => [.bool b]
  | .int n => [.number (.ok (some n))]
  | .real => [.number (.ok none)]
  | .text s => [.text (.ok s)]
  | .seq items => .openSeq :: (itemTokens items).tail ++ [.closeSeq]
  | .map fields => .openMap :: (memberTokens fields).tail ++ [.closeMap]

def itemTokens : List Datum → List Json.Token
  | [] => []
  | d :: later => .comma :: d.tokens ++ itemTokens later

def memberTokens : List (Datum × Datum) → List Json.Token
  | [] => []
  | (key, d) :: later => .comma :: key.tokens ++ .colon :: d.tokens ++ memberTokens later

end

theorem itemTokens_eq_laterTokens (items : List Datum) :
    itemTokens items = laterTokens tokens items := by
  induction items with
  | nil => rfl
  | cons d later ih => rw [itemTokens, laterTokens, ih]

theorem tokens_seq (items : List Datum) : (Datum.seq items).tokens = seqTokens tokens items := by
  cases items with
  | nil => rfl
  | cons d later =>
    rw [tokens, itemTokens, itemTokens_eq_laterTokens]
    rfl

theorem exists_tokens_eq_cons (d : Datum) :
    ∃ (t : Json.Token) (later : List Json.Token),
      d.tokens = t :: later ∧ t ≠ .closeSeq ∧ t ≠ .comma := by
  cases d <;> exact ⟨_, _, rfl, by simp, by simp⟩

end Datum

namespace Json

open Script (Stops stops_cons stops_nil)

def Spaces (b : List Char) : Prop :=
  ∀ c ∈ b, c = ' ' ∨ c = '\t' ∨ c = '\n' ∨ c = '\r'

theorem spaces_nil : Spaces [] := by simp [Spaces]

theorem spaces_iff {b : List Char} : Spaces b ↔ ∀ c ∈ b, isSpace c = true := by
  simp [Spaces, isSpace, or_assoc]

mutual

/-- The texts of a value. An integer is one of at most 64 bits. -/
inductive ValueText : Datum → List Char → Prop
  | null : ValueText .null "null".toList
  | true : ValueText (.bool true) "true".toList
  | false : ValueText (.bool false) "false".toList
  | int {n : Int} : -2 ^ 63 ≤ n → n < 2 ^ 64 → ValueText (.int n) (toString n).toList
  | text {s : String} {t : List Char} : StringText s t → ValueText (.text s) t
  | emptySeq {b : List Char} : Spaces b → ValueText (.seq []) ('[' :: b ++ [']'])
  | seq {items : List Datum} {t : List Char} : ElementsText items t →
      ValueText (.seq items) ('[' :: t ++ [']'])
  | emptyMap {b : List Char} : Spaces b → ValueText (.map []) ('{' :: b ++ ['}'])
  | map {fields : List (String × Datum)} {t : List Char} : MembersText fields t →
      ValueText (.map (pairs fields)) ('{' :: t ++ ['}'])

inductive ElementText : Datum → List Char → Prop
  | spaced {d : Datum} {b t b' : List Char} : Spaces b → ValueText d t → Spaces b' →
      ElementText d (b ++ t ++ b')

inductive ElementsText : List Datum → List Char → Prop
  | last {d : Datum} {t : List Char} : ElementText d t → ElementsText [d] t
  | cons {d : Datum} {later : List Datum} {t t' : List Char} : ElementText d t →
      ElementsText later t' → ElementsText (d :: later) (t ++ ',' :: t')

inductive MemberText : String × Datum → List Char → Prop
  | field {key : String} {d : Datum} {b k b' t : List Char} : Spaces b → StringText key k →
      Spaces b' → ElementText d t → MemberText (key, d) (b ++ k ++ b' ++ ':' :: t)

inductive MembersText : List (String × Datum) → List Char → Prop
  | last {f : String × Datum} {t : List Char} : MemberText f t → MembersText [f] t
  | cons {f : String × Datum} {later : List (String × Datum)} {t t' : List Char} :
      MemberText f t → MembersText later t' → MembersText (f :: later) (t ++ ',' :: t')

end

section Numbers

theorem valueText_nat {n : Nat} (bounded : n < UInt64.size) :
    ValueText (.int n) (toString n).toList :=
  .int (by omega) (Int.ofNat_lt.2 bounded)

theorem valueText_int32 (n : Int32) : ValueText (.int n.toInt) (toString n.toInt).toList := by
  have low : -2 ^ 31 ≤ n.toInt := n.minValue_le_toInt
  have high : n.toInt ≤ 2 ^ 31 - 1 := n.toInt_le
  exact .int (by omega) (by omega)

end Numbers

section Existence

theorem exists_valueText_seq {items : List Datum} (each : ∀ d ∈ items, ∃ t, ValueText d t) :
    ∃ t, ValueText (.seq items) t := by
  have elements : items = [] ∨ ∃ t, ElementsText items t := by
    induction items with
    | nil => exact .inl rfl
    | cons d later ih =>
      obtain ⟨⟨t, value⟩, others⟩ := List.forall_mem_cons.1 each
      right
      rcases ih others with rfl | ⟨t', later⟩
      · exact ⟨_, .last (.spaced spaces_nil value spaces_nil)⟩
      · exact ⟨_, .cons (.spaced spaces_nil value spaces_nil) later⟩
  rcases elements with rfl | ⟨t, elements⟩
  · exact ⟨_, .emptySeq spaces_nil⟩
  · exact ⟨_, .seq elements⟩

theorem exists_valueText_map {fields : List (String × Datum)}
    (each : ∀ f ∈ fields, ∃ t, ValueText f.2 t) : ∃ t, ValueText (.map (pairs fields)) t := by
  have members : fields = [] ∨ ∃ t, MembersText fields t := by
    induction fields with
    | nil => exact .inl rfl
    | cons f later ih =>
      obtain ⟨⟨t, value⟩, others⟩ := List.forall_mem_cons.1 each
      have member := MemberText.field spaces_nil (stringText_escaped f.1) spaces_nil
        (.spaced spaces_nil value spaces_nil)
      right
      rcases ih others with rfl | ⟨t', later⟩
      · exact ⟨_, .last member⟩
      · exact ⟨_, .cons member later⟩
  rcases members with rfl | ⟨t, members⟩
  · exact ⟨_, .emptyMap spaces_nil⟩
  · exact ⟨_, .map members⟩

end Existence

section Blanks

variable {b rest : List Char}

theorem Spaces.tokens_append (h : Spaces b) (rest : List Char) :
    tokens (b ++ rest) = tokens rest :=
  tokens_spaces (spaces_iff.1 h) rest

theorem Spaces.stops_append (h : Spaces b) (stop : Stops continuesNumber rest) :
    Stops continuesNumber (b ++ rest) := by
  cases b with
  | nil => exact stop
  | cons c b => rcases h c List.mem_cons_self with rfl | rfl | rfl | rfl <;> exact stops_cons rfl

end Blanks

section Tokens

theorem tokens_word {c : Char} {w rest : List Char} {token : Token}
    (solid : isSpace c = false)
    (read : ∀ rest, tokenAt c (w ++ rest) = word token w (w ++ rest)) :
    tokens (c :: w ++ rest) = token :: tokens rest := by
  have whole : ∀ w, word token w (w ++ rest) = (token, rest) := by
    intro w
    induction w with
    | nil => rfl
    | cons a w ih => rw [List.cons_append, word, if_pos rfl, ih]
  rw [List.cons_append, tokens_cons solid, read, whole]

theorem memberTokens_pairs_cons (f : String × Datum) (later : List (String × Datum)) :
    Datum.memberTokens (pairs (f :: later)) =
      .comma :: .text (.ok f.1) :: .colon :: f.2.tokens ++ Datum.memberTokens (pairs later) := by
  rfl

theorem tokens_tail {ts : List Token} {text rest : List Char}
    (h : .comma :: tokens text = ts ++ tokens rest) (nonempty : ts ≠ []) :
    tokens text = ts.tail ++ tokens rest := by
  cases ts with
  | nil => exact absurd rfl nonempty
  | cons t ts => exact (List.cons.inj h).2

theorem ElementsText.ne_nil {items : List Datum} {t : List Char} (h : ElementsText items t) :
    Datum.itemTokens items ≠ [] := by
  cases h <;> simp [Datum.itemTokens]

theorem MembersText.ne_nil {fields : List (String × Datum)} {t : List Char}
    (h : MembersText fields t) : Datum.memberTokens (pairs fields) ≠ [] := by
  cases h <;> simp [memberTokens_pairs_cons]

-- By recursion on how the text is made up. With a comma put before it, the first item of a
-- list is like the later ones, so that lists need no case of their own for it.
mutual

theorem ValueText.tokens_append {d : Datum} {t : List Char} :
    ValueText d t → ∀ rest, Stops continuesNumber rest →
      tokens (t ++ rest) = d.tokens ++ tokens rest
  | .null, rest, _ => tokens_word rfl fun _ => rfl
  | .true, rest, _ => tokens_word rfl fun _ => rfl
  | .false, rest, _ => tokens_word rfl fun _ => rfl
  | .int low high, rest, stop => tokens_int low high stop
  | .text spelled, rest, _ => spelled.tokens rest
  | .emptySeq spaces, rest, _ => by
    rw [List.append_assoc, List.cons_append, tokens_punctuation rfl, spaces.tokens_append,
      List.singleton_append, tokens_punctuation rfl]
    rfl
  | .seq items, rest, _ => by
    have inside := items.tokens_append (']' :: rest) (stops_cons rfl)
    rw [List.append_assoc, List.cons_append, tokens_punctuation rfl, List.singleton_append,
      tokens_tail inside items.ne_nil, tokens_punctuation rfl, Datum.tokens]
    simp
  | .emptyMap spaces, rest, _ => by
    rw [List.append_assoc, List.cons_append, tokens_punctuation rfl, spaces.tokens_append,
      List.singleton_append, tokens_punctuation rfl]
    rfl
  | .map members, rest, _ => by
    have inside := members.tokens_append ('}' :: rest) (stops_cons rfl)
    rw [List.append_assoc, List.cons_append, tokens_punctuation rfl, List.singleton_append,
      tokens_tail inside members.ne_nil, tokens_punctuation rfl, Datum.tokens]
    simp

theorem ElementText.tokens_append {d : Datum} {t : List Char} :
    ElementText d t → ∀ rest, Stops continuesNumber rest →
      tokens (t ++ rest) = d.tokens ++ tokens rest
  | .spaced before value after, rest, stop => by
    rw [List.append_assoc, List.append_assoc, before.tokens_append,
      value.tokens_append _ (after.stops_append stop), after.tokens_append]

theorem ElementsText.tokens_append {items : List Datum} {t : List Char} :
    ElementsText items t → ∀ rest, Stops continuesNumber rest →
      .comma :: tokens (t ++ rest) = Datum.itemTokens items ++ tokens rest
  | .last element, rest, stop => by
    rw [element.tokens_append rest stop]
    simp [Datum.itemTokens]
  | .cons element later, rest, stop => by
    have others := later.tokens_append rest stop
    rw [List.append_assoc, List.cons_append, element.tokens_append _ (stops_cons rfl),
      tokens_punctuation rfl, others]
    simp [Datum.itemTokens]

theorem MemberText.tokens_append {f : String × Datum} {t : List Char} :
    MemberText f t → ∀ rest, Stops continuesNumber rest →
      tokens (t ++ rest) = .text (.ok f.1) :: .colon :: f.2.tokens ++ tokens rest
  | .field before key after value, rest, stop => by
    rw [List.append_assoc, List.append_assoc, List.append_assoc, before.tokens_append, key.tokens,
      after.tokens_append, List.cons_append, tokens_punctuation rfl, value.tokens_append rest stop]
    rfl

theorem MembersText.tokens_append {fields : List (String × Datum)} {t : List Char} :
    MembersText fields t → ∀ rest, Stops continuesNumber rest →
      .comma :: tokens (t ++ rest) = Datum.memberTokens (pairs fields) ++ tokens rest
  | .last member, rest, stop => by
    rw [member.tokens_append rest stop, memberTokens_pairs_cons]
    simp [pairs, Datum.memberTokens]
  | .cons member later, rest, stop => by
    have others := later.tokens_append rest stop
    rw [List.append_assoc, List.cons_append, member.tokens_append _ (stops_cons rfl),
      tokens_punctuation rfl, others, memberTokens_pairs_cons]
    simp

end

theorem ElementText.tokens {d : Datum} {t : List Char} (h : ElementText d t) :
    tokens t = d.tokens := by
  have alone := h.tokens_append [] (stops_nil _)
  rwa [tokens_nil, List.append_nil, List.append_nil] at alone

end Tokens

end Json

end ParseTrace
