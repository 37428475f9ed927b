import ParseTrace.Proofs.Script.Part

/-!
The forms of the statements of a text script, said without a reader and for numbers of any size.
A piece is judged with the text behind it, since bare names and numerals are as long as they can
be, and a numeral is kept as it is written, with the place where it stands. The readers take
these forms and nothing else.
-/

namespace ParseTrace.Script

def StringAt (s : String) (text rest : List Char) : Prop :=
  ∃ t, (Piece.string s).Spelled false t ∧ text = t ++ rest

/-- A name between quotes, or bare and then as long as it can be. -/
def NameAt (s : String) (text rest : List Char) : Prop :=
  ∃ bare t, (Piece.name s).Spelled bare t ∧ text = t ++ rest ∧
    (bare = true → Stops isIdentRest rest)

structure Digits (digits text rest : List Char) : Prop where
  nonempty : digits ≠ []
  all : ∀ c ∈ digits, c.isDigit = true
  stop : Stops Char.isDigit rest
  whole : text = digits ++ rest

inductive IntegerAt : Numeral → List Char → List Char → Prop
  | digits {t text rest : List Char} : Digits t text rest → IntegerAt ⟨t, text⟩ text rest

inductive LineAt : Numeral → List Char → List Char → Prop
  | digits {t text rest : List Char} : Digits t text rest → LineAt ⟨t, text⟩ text rest
  | negative {t text rest : List Char} : Digits t text rest →
      LineAt ⟨'-' :: t, '-' :: text⟩ ('-' :: text) rest

def Behind {α : Type} (stands : α → List Char → List Char → Prop) (a : α)
    (text rest : List Char) : Prop :=
  ∃ b piece, Blanks b ∧ stands a piece rest ∧ text = b ++ piece

inductive Statement.At : Statement → List Char → List Char → Prop
  | file {name : String} {text rest : List Char} : Behind StringAt name text rest →
      At (.file name) ("file".toList ++ text) rest
  | symbol (kind : SymbolKind) {index : Numeral} {name : String} {text middle rest : List Char} :
      Behind IntegerAt index text middle → Behind NameAt name middle rest →
      At (.symbol kind index name) (kind.name.toList ++ text) rest
  | rule {lhs : String} {length : Numeral} {text middle rest : List Char} :
      Behind NameAt lhs text middle → Behind IntegerAt length middle rest →
      At (.rule lhs length) ("rule".toList ++ text) rest
  | shift {symbol lexeme : String} {line : Numeral} {text middle middle' rest : List Char} :
      Behind NameAt symbol text middle → Behind StringAt lexeme middle middle' →
      Behind LineAt line middle' rest →
      At (.shift symbol lexeme line) ("shift".toList ++ text) rest
  | reduce {rule : Numeral} {text rest : List Char} : Behind IntegerAt rule text rest →
      At (.reduce rule) ("reduce".toList ++ text) rest
  | accept {rest : List Char} : At .accept ("accept".toList ++ rest) rest

def Part.Inside (p : Part) : Prop :=
  ∀ text missing, p text = .error missing → missing.place <:+ text

/-- A reader that takes exactly what stands here, which is what its pairs say in this view. -/
structure Part.Takes {α : Type} (p : Part) (view : Pair → α)
    (stands : α → List Char → List Char → Prop) : Prop where
  read : ∀ {text found rest}, p text = .ok (found, rest) → stands (view found) text rest
  exists_found : ∀ {text a rest}, stands a text rest →
    ∃ found, p text = .ok (found, rest) ∧ view found = a
  atPart : ∀ {text a rest}, stands a text rest → AtPart text
  rest : ∀ {text a rest}, stands a text rest → rest <:+ text
  inside : p.Inside

section Takes

theorem string_takes : Part.Takes string Pair.nameValue StringAt where
  read := exists_of_string
  exists_found := fun ⟨_, spelled, whole⟩ => whole ▸ exists_string_append spelled _
  atPart := fun ⟨_, spelled, whole⟩ => whole ▸ spelled.atPart _
  rest := fun ⟨t, _, whole⟩ => whole ▸ List.suffix_append t _
  inside := by
    intro text missing h
    unfold string at h
    split at h <;> cases h
    exact List.suffix_rfl

theorem name_takes : Part.Takes name Pair.nameValue NameAt where
  read := exists_of_name
  exists_found := fun ⟨_, _, spelled, whole, stop⟩ => whole ▸ exists_name_append spelled stop
  atPart := fun ⟨_, _, spelled, whole, _⟩ => whole ▸ spelled.atPart _
  rest := fun ⟨_, t, _, whole, _⟩ => whole ▸ List.suffix_append t _
  inside := by
    intro text missing h
    unfold name at h
    split at h <;> cases h
    exact List.suffix_rfl

theorem Digits.takeWhile {t text rest : List Char} (h : Digits t text rest) :
    text.takeWhile Char.isDigit = t ∧ text.dropWhile Char.isDigit = rest := by
  rw [h.whole]
  exact takeWhile_append h.all h.stop

theorem digits_takeWhile {text : List Char} (some : text.takeWhile Char.isDigit ≠ []) :
    Digits (text.takeWhile Char.isDigit) text (text.dropWhile Char.isDigit) where
  nonempty := some
  all := fun _ hc => List.mem_takeWhile_imp hc
  stop := stops_dropWhile _ text
  whole := List.takeWhile_append_dropWhile.symm

theorem Digits.atPart {t text rest : List Char} (h : Digits t text rest) : AtPart text := by
  obtain ⟨nonempty, all, -, rfl⟩ := h
  exact (decimal_natValue nonempty all).atPart rest

theorem Digits.unsigned {t text rest : List Char} (h : Digits t text rest) :
    text.head? ≠ some '-' := by
  obtain ⟨nonempty, all, -, rfl⟩ := h
  cases t with
  | nil => exact absurd rfl nonempty
  | cons c t =>
    intro sign
    obtain rfl := Option.some.inj sign
    cases all '-' List.mem_cons_self

theorem integer_takes : Part.Takes integer Pair.numeral IntegerAt where
  read := by
    intro text found rest h
    unfold integer at h
    split at h
    · cases h
    · next some =>
      cases h
      exact .digits (digits_takeWhile some)
  exists_found := by
    rintro text _ rest ⟨digits⟩
    refine ⟨⟨.integer, _, text, []⟩, ?_, rfl⟩
    rw [integer, digits.takeWhile.1, digits.takeWhile.2]
    split
    · exact absurd rfl digits.nonempty
    · rfl
  atPart := fun ⟨digits⟩ => digits.atPart
  rest := fun ⟨digits⟩ => digits.whole ▸ List.suffix_append _ _
  inside := by
    intro text missing h
    unfold integer at h
    split at h <;> cases h
    exact List.suffix_rfl

theorem line_takes : Part.Takes line Pair.numeral LineAt where
  read := by
    intro text found rest h
    unfold line at h
    simp only at h
    split at h
    · cases h
    · next some =>
      cases h
      by_cases sign : text.head? = Option.some '-'
      · cases text with
        | nil => cases sign
        | cons c text =>
          obtain rfl := Option.some.inj sign
          exact .negative (digits_takeWhile some)
      · simp only [sign, if_false, List.length_nil, List.drop_zero, List.nil_append] at some ⊢
        exact .digits (digits_takeWhile some)
  exists_found := by
    have nonempty : ∀ {t text rest}, Digits t text rest →
        text.takeWhile Char.isDigit ≠ [] := fun h => h.takeWhile.1 ▸ h.nonempty
    rintro text _ rest (digits | @⟨_, text, _, digits⟩)
    · refine ⟨⟨.line, _, text, []⟩, ?_, rfl⟩
      simp only [line, digits.unsigned, if_false, List.length_nil, List.drop_zero,
        List.nil_append]
      split
      · next none => exact absurd none (nonempty digits)
      · rw [digits.takeWhile.1, digits.takeWhile.2]
    · refine ⟨⟨.line, _, '-' :: text, []⟩, ?_, rfl⟩
      simp only [line, List.head?_cons, if_true, List.length_cons, List.length_nil,
        List.drop_succ_cons, List.drop_zero]
      split
      · next none => exact absurd none (nonempty digits)
      · rw [digits.takeWhile.1, digits.takeWhile.2]
        rfl
  atPart := by
    rintro text n rest (digits | digits)
    · exact digits.atPart
    · exact ⟨'-', _, rfl, by decide, by decide, by decide⟩
  rest := by
    rintro text n rest (digits | digits)
    · exact digits.whole ▸ List.suffix_append _ _
    · exact (digits.whole ▸ List.suffix_append _ _).trans (List.suffix_cons _ _)
  inside := by
    intro text missing h
    unfold line at h
    simp only at h
    split at h <;> cases h
    exact List.suffix_rfl

variable {α : Type} {p : Part} {view : Pair → α} {stands : α → List Char → List Char → Prop}
  {later : List Part} {text rest : List Char}

theorem inOrder_nil (text : List Char) : inOrder [] text = .ok ([], text) := rfl

theorem Part.Takes.exists_behind (h : p.Takes view stands) {found : List Pair}
    (read : inOrder (p :: later) text = .ok (found, rest)) :
    ∃ first others middle, Behind stands (view first) text middle ∧
      inOrder later middle = .ok (others, rest) ∧ found = first :: others := by
  rw [inOrder] at read
  split at read
  · cases read
  · next first middle taken =>
    split at read
    · cases read
    · next others _ more =>
      cases read
      have here := h.read taken
      obtain ⟨b, blanks, whole⟩ := exists_blanks (h.atPart here)
      exact ⟨first, others, middle, ⟨b, skip text, blanks, here, whole⟩, more, rfl⟩

theorem Part.Takes.exists_inOrder (h : p.Takes view stands) {a : α} {middle : List Char}
    {others : List Pair} (here : Behind stands a text middle)
    (more : inOrder later middle = .ok (others, rest)) :
    ∃ first, inOrder (p :: later) text = .ok (first :: others, rest) ∧ view first = a := by
  obtain ⟨b, piece, blanks, here, rfl⟩ := here
  obtain ⟨first, taken, seen⟩ := h.exists_found here
  refine ⟨first, ?_, seen⟩
  rw [inOrder, skip_blanks blanks, skip_of_atPart (h.atPart here), taken]
  simp only [more]

end Takes

section Statements

variable {s : Statement} {text rest : List Char} {word : String} {tag : ScriptPart}
  {parts : List Part}

theorem behind?_append (word text : List Char) : behind? word (word ++ text) = some text := by
  induction word with
  | nil => rfl
  | cons w word ih => rw [List.cons_append, behind?, if_pos rfl, ih]

theorem eq_append_of_behind? {word text rest : List Char} (h : behind? word text = some rest) :
    text = word ++ rest := by
  induction word generalizing text with
  | nil => cases h; rfl
  | cons w word ih =>
    cases text with
    | nil => cases h
    | cons c text =>
      rw [behind?] at h
      split at h
      · next same => rw [ih h, same, List.cons_append]
      · cases h

theorem statement?_keyword (member : (word, tag, parts) ∈ keywords) (text : List Char) :
    statement? (word.toList ++ text) =
      statementAmong [(word, tag, parts)] (word.toList ++ text) := by
  simp only [keywords, List.mem_cons, List.not_mem_nil, or_false, Prod.mk.injEq] at member
  rcases member with ⟨rfl, rfl, rfl⟩ | ⟨rfl, rfl, rfl⟩ | ⟨rfl, rfl, rfl⟩ | ⟨rfl, rfl, rfl⟩ |
    ⟨rfl, rfl, rfl⟩ | ⟨rfl, rfl, rfl⟩ | ⟨rfl, rfl, rfl⟩ <;> rfl

theorem exists_of_statementAmong {entries : List (String × ScriptPart × List Part)}
    {result : Except Missing (Pair × List Char)} (h : statementAmong entries text = some result) :
    ∃ word tag parts behind, (word, tag, parts) ∈ entries ∧ text = word.toList ++ behind ∧
      ((∃ missing, inOrder parts behind = .error missing ∧ result = .error missing) ∨
        ∃ inner rest chars, inOrder parts behind = .ok (inner, rest) ∧
          result = .ok (⟨tag, chars, text, inner⟩, rest)) := by
  induction entries with
  | nil => cases h
  | cons entry others ih =>
    obtain ⟨word, tag, parts⟩ := entry
    rw [statementAmong] at h
    split at h
    · next behind found =>
      refine ⟨word, tag, parts, behind, List.mem_cons_self, eq_append_of_behind? found, ?_⟩
      split at h
      · next missing refused => exact .inl ⟨missing, refused, (Option.some.inj h).symm⟩
      · next inner rest read => exact .inr ⟨inner, rest, _, read, (Option.some.inj h).symm⟩
    · obtain ⟨word', tag', parts', behind, member, found⟩ := ih h
      exact ⟨word', tag', parts', behind, List.mem_cons_of_mem _ member, found⟩

theorem exists_at_of_symbol (kind : SymbolKind) {inner : List Pair}
    (read : inOrder [integer, name] text = .ok (inner, rest)) (chars place : List Char) :
    ∃ s, (Pair.mk tag chars place inner).symbolStatement kind = .ok s ∧
      s.At (kind.name.toList ++ text) rest := by
  obtain ⟨index, _, _, number, more, rfl⟩ := integer_takes.exists_behind read
  obtain ⟨name, _, _, named, done, rfl⟩ := name_takes.exists_behind more
  cases done
  exact ⟨_, rfl, .symbol kind number named⟩

/-- The parts behind a keyword are as many as the reader of its statement asks for. -/
theorem exists_at_of_keyword (member : (word, tag, parts) ∈ keywords) {inner : List Pair}
    (read : inOrder parts text = .ok (inner, rest)) (chars place : List Char) :
    ∃ s, (Pair.mk tag chars place inner).statement? = .ok (some s) ∧
      s.At (word.toList ++ text) rest := by
  simp only [keywords, List.mem_cons, List.not_mem_nil, or_false, Prod.mk.injEq] at member
  rcases member with ⟨rfl, rfl, rfl⟩ | ⟨rfl, rfl, rfl⟩ | ⟨rfl, rfl, rfl⟩ | ⟨rfl, rfl, rfl⟩ |
    ⟨rfl, rfl, rfl⟩ | ⟨rfl, rfl, rfl⟩ | ⟨rfl, rfl, rfl⟩
  · obtain ⟨name, _, _, quoted, done, rfl⟩ := string_takes.exists_behind read
    cases done
    exact ⟨_, rfl, .file quoted⟩
  · obtain ⟨s, value, here⟩ := exists_at_of_symbol .terminal read chars place
    exact ⟨s, congrArg (Except.map some) value, here⟩
  · obtain ⟨s, value, here⟩ := exists_at_of_symbol .nonterminal read chars place
    exact ⟨s, congrArg (Except.map some) value, here⟩
  · obtain ⟨lhs, _, _, named, more, rfl⟩ := name_takes.exists_behind read
    obtain ⟨length, _, _, number, done, rfl⟩ := integer_takes.exists_behind more
    cases done
    exact ⟨_, rfl, .rule named number⟩
  · obtain ⟨symbol, _, _, named, more, rfl⟩ := name_takes.exists_behind read
    obtain ⟨lexeme, _, _, quoted, more', rfl⟩ := string_takes.exists_behind more
    obtain ⟨line, _, _, signed, done, rfl⟩ := line_takes.exists_behind more'
    cases done
    exact ⟨_, rfl, .shift named quoted signed⟩
  · obtain ⟨rule, _, _, number, done, rfl⟩ := integer_takes.exists_behind read
    cases done
    exact ⟨_, rfl, .reduce number⟩
  · cases read
    exact ⟨_, rfl, .accept⟩

theorem exists_at_of_statement? {p : Pair} (h : statement? text = some (.ok (p, rest))) :
    ∃ s, p.statement? = .ok (some s) ∧ s.At text rest := by
  obtain ⟨word, tag, parts, behind, member, rfl, ⟨_, _, no⟩ | ⟨inner, _, chars, read, taken⟩⟩ :=
    exists_of_statementAmong h
  · cases no
  · cases taken
    exact exists_at_of_keyword member read _ _

theorem exists_statement?_keyword (word : String) (tag : ScriptPart) {inner : List Pair}
    (member : (word, tag, parts) ∈ keywords) (read : inOrder parts text = .ok (inner, rest)) :
    ∃ chars place, statement? (word.toList ++ text) =
      some (.ok (⟨tag, chars, place, inner⟩, rest)) := by
  rw [statement?_keyword member, statementAmong, behind?_append]
  simp only [read]
  exact ⟨_, _, rfl⟩

theorem Statement.At.exists_statement? (h : s.At text rest) :
    ∃ p, statement? text = some (.ok (p, rest)) ∧ p.statement? = .ok (some s) := by
  rcases h with (quoted | ⟨kind, number, named⟩ | ⟨named, number⟩ | ⟨named, quoted, signed⟩ |
    number | _)
  · obtain ⟨name, read, rfl⟩ := string_takes.exists_inOrder quoted (inOrder_nil _)
    obtain ⟨_, _, taken⟩ := exists_statement?_keyword "file" .fileDecl (by simp [keywords]) read
    exact ⟨_, taken, rfl⟩
  · obtain ⟨name, last, rfl⟩ := name_takes.exists_inOrder named (inOrder_nil _)
    obtain ⟨index, read, rfl⟩ := integer_takes.exists_inOrder number last
    cases kind with
    | terminal =>
      obtain ⟨_, _, taken⟩ :=
        exists_statement?_keyword "terminal" .terminal (by simp [keywords]) read
      exact ⟨_, taken, rfl⟩
    | nonterminal =>
      obtain ⟨_, _, taken⟩ :=
        exists_statement?_keyword "nonterminal" .nonterminal (by simp [keywords]) read
      exact ⟨_, taken, rfl⟩
  · obtain ⟨length, last, rfl⟩ := integer_takes.exists_inOrder number (inOrder_nil _)
    obtain ⟨lhs, read, rfl⟩ := name_takes.exists_inOrder named last
    obtain ⟨_, _, taken⟩ := exists_statement?_keyword "rule" .rule (by simp [keywords]) read
    exact ⟨_, taken, rfl⟩
  · obtain ⟨line, last, rfl⟩ := line_takes.exists_inOrder signed (inOrder_nil _)
    obtain ⟨lexeme, last', rfl⟩ := string_takes.exists_inOrder quoted last
    obtain ⟨symbol, read, rfl⟩ := name_takes.exists_inOrder named last'
    obtain ⟨_, _, taken⟩ := exists_statement?_keyword "shift" .shift (by simp [keywords]) read
    exact ⟨_, taken, rfl⟩
  · obtain ⟨rule, read, rfl⟩ := integer_takes.exists_inOrder number (inOrder_nil _)
    obtain ⟨_, _, taken⟩ := exists_statement?_keyword "reduce" .reduce (by simp [keywords]) read
    exact ⟨_, taken, rfl⟩
  · exact ⟨_, rfl, rfl⟩

theorem Statement.At.atPart (h : s.At text rest) : AtPart text := by
  cases h with
  | file => exact ⟨'f', _, rfl, by decide⟩
  | symbol kind =>
    cases kind with
    | terminal => exact ⟨'t', _, rfl, by decide⟩
    | nonterminal => exact ⟨'n', _, rfl, by decide⟩
  | rule => exact ⟨'r', _, rfl, by decide⟩
  | shift => exact ⟨'s', _, rfl, by decide⟩
  | reduce => exact ⟨'r', _, rfl, by decide⟩
  | accept => exact ⟨'a', _, rfl, by decide⟩

end Statements

end ParseTrace.Script
