import ParseTrace.Proofs.Script.Form

/-!
The grammar of text scripts: lines with at most one statement each, of which only the last may
lack its end. The texts of the grammar are those whose pairs are taken line by line, and of each
pair the reader of statements makes the statement that stands on the line.
-/

namespace ParseTrace.Script

inductive OnLine : Option Statement → List Char → List Char → Prop
  | empty {b c tail : List Char} : Blanks b → Comment c → OnLine none (b ++ c ++ tail) tail
  | statement {s : Statement} {b text b' c tail : List Char} : Blanks b →
      s.At text (b' ++ c ++ tail) → Blanks b' → Comment c → OnLine (some s) (b ++ text) tail

inductive Sentences : List Statement → List Char → Prop
  | last {found : Option Statement} {text : List Char} : OnLine found text [] →
      Sentences found.toList text
  | cons {found : Option Statement} {text e rest : List Char} {others : List Statement} :
      OnLine found text (e ++ rest) → LineEnd e → Sentences others rest →
      Sentences (found.toList ++ others) text

section Ends

variable {text rest : List Char}

theorem LineEnd.atEnd {e : List Char} (h : LineEnd e) (rest : List Char) :
    AtEnd (e ++ rest) := by
  cases h <;> exact stops_cons rfl

theorem LineEnd.lineEnd?_append {e : List Char} (h : LineEnd e) (rest : List Char) :
    ∃ next, lineEnd? (e ++ rest) = some next ∧ (next = rest ∨ rest = '\n' :: next) := by
  cases h with
  | lf => exact ⟨rest, rfl, .inl rfl⟩
  | crlf => exact ⟨rest, rfl, .inl rfl⟩
  | cr =>
    cases rest with
    | nil => exact ⟨[], rfl, .inl rfl⟩
    | cons d rest =>
      by_cases feed : d = '\n'
      · subst feed
        exact ⟨rest, rfl, .inr rfl⟩
      · refine ⟨d :: rest, ?_, .inl rfl⟩
        simp [lineEnd?, isLineEnd, feed]

theorem exists_of_lineEnd? (h : lineEnd? text = some rest) :
    ∃ e, LineEnd e ∧ text = e ++ rest := by
  unfold lineEnd? at h
  split at h
  · cases h
    exact ⟨_, .crlf, rfl⟩
  · split at h
    · next ending =>
      cases h
      rcases isLineEnd_iff.1 ending with rfl | rfl
      · exact ⟨_, .lf, rfl⟩
      · exact ⟨_, .cr, rfl⟩
    · cases h
  · cases h

theorem AtEnd.eq_nil (h : AtEnd text) (last : lineEnd? text = none) : text = [] := by
  cases text with
  | nil => rfl
  | cons c rest =>
    obtain ⟨next, found, -⟩ : ∃ next, lineEnd? (c :: rest) = some next ∧
        (next = rest ∨ rest = '\n' :: next) := by
      have ending : isLineEnd c = true := by simpa using h c rfl
      rcases isLineEnd_iff.1 ending with rfl | rfl
      · exact LineEnd.lf.lineEnd?_append rest
      · exact LineEnd.cr.lineEnd?_append rest
    rw [last] at found
    cases found

theorem AtEnd.statement?_eq_none (h : AtEnd text) : statement? text = none := by
  cases text with
  | nil => rfl
  | cons c rest =>
    have ending : isLineEnd c = true := by simpa using h c rfl
    rcases isLineEnd_iff.1 ending with rfl | rfl <;> rfl

theorem endLine_append {b c tail : List Char} (blanks : Blanks b) (comment : Comment c)
    (stop : AtEnd tail) : endLine (b ++ c ++ tail) = .ok (lineEnd? tail) := by
  rw [endLine, skip_append blanks comment stop]
  cases last : lineEnd? tail with
  | some next => rfl
  | none => rw [stop.eq_nil last]

theorem exists_of_endLine {next : Option (List Char)} (h : endLine text = .ok next) :
    ∃ b c tail, Blanks b ∧ Comment c ∧ AtEnd tail ∧ text = b ++ c ++ tail ∧
      lineEnd? tail = next := by
  obtain ⟨b, c, blanks, comment, whole, -⟩ := exists_skip text
  refine ⟨b, c, skip text, blanks, comment, ?_, whole, ?_⟩ <;> unfold endLine at h <;> split at h
  · next found =>
    obtain ⟨e, ending, split⟩ := exists_of_lineEnd? found
    rw [split]
    exact ending.atEnd _
  · split at h
    · next nothing =>
      rw [nothing]
      exact stops_nil _
    · cases h
  · next found =>
    cases h
    exact found
  · next none =>
    split at h <;> cases h
    exact none

end Ends

/-- How the reader takes a line: the pair of the statement on it, and what follows its end if
anything does. -/
inductive Reads (text : List Char) : Option Pair → Option (List Char) → Prop
  | empty {next : Option (List Char)} : statement? (skip text) = none →
      endLine text = .ok next → Reads text none next
  | statement {p : Pair} {rest : List Char} {next : Option (List Char)} :
      statement? (skip text) = some (.ok (p, rest)) → endLine rest = .ok next →
      Reads text (some p) next

section Reads

variable {text : List Char} {taken : Option Pair}

theorem Reads.statements_last (h : Reads text taken none) :
    statements text = .ok taken.toList := by
  rw [statements.eq_def]
  cases h with
  | empty nothing ending =>
    split <;> rename_i here <;> rw [nothing] at here <;> cases here
    split <;> rename_i there <;> rw [ending] at there <;> cases there
    rfl
  | statement read ending =>
    split <;> rename_i here <;> rw [read] at here <;> cases here
    split <;> rename_i there <;> rw [ending] at there <;> cases there
    rfl

theorem Reads.statements_more {next : List Char} {others : List Pair}
    (h : Reads text taken (some next)) (more : statements next = .ok others) :
    statements text = .ok (taken.toList ++ others) := by
  rw [statements.eq_def]
  cases h with
  | empty nothing ending =>
    split <;> rename_i here <;> rw [nothing] at here <;> cases here
    split <;> rename_i there <;> rw [ending] at there <;> cases there
    exact more
  | statement read ending =>
    split <;> rename_i here <;> rw [read] at here <;> cases here
    split <;> rename_i there <;> rw [ending] at there <;> cases there
    rw [more]
    rfl

/-- A text that is read is read line by line, and each next line is nearer to the end. -/
theorem exists_of_statements {ps : List Pair} (h : statements text = .ok ps) :
    ∃ taken, (Reads text taken none ∧ ps = taken.toList) ∨
      ∃ next others, Reads text taken (some next) ∧ next.length < text.length ∧
        statements next = .ok others ∧ ps = taken.toList ++ others := by
  rw [statements.eq_def] at h
  split at h
  · cases h
  · next p rest read =>
    have shorter : rest.length ≤ text.length :=
      (length_statement_le read).trans (length_skip_le text)
    split at h
    · cases h
    · next ending =>
      cases h
      exact ⟨some p, .inl ⟨.statement read ending, rfl⟩⟩
    · next next ending =>
      have line := length_endLine_lt ending
      dsimp only at h
      split at h
      · cases h
      · next others more =>
        cases h
        exact ⟨some p, .inr ⟨next, others, .statement read ending, by omega, more, rfl⟩⟩
  · next nothing =>
    split at h
    · cases h
    · next ending =>
      cases h
      exact ⟨none, .inl ⟨.empty nothing ending, rfl⟩⟩
    · next next ending =>
      exact ⟨none, .inr ⟨next, ps, .empty nothing ending, length_endLine_lt ending, h, rfl⟩⟩

end Reads

def Say (ps : List Pair) (all : List Statement) : Prop :=
  List.Forall₂ (fun p s => p.statement? = .ok (some s)) ps all

section Lines

variable {found : Option Statement} {all : List Statement} {taken : Option Pair} {ps : List Pair}
  {text tail : List Char}

theorem OnLine.exists_reads (h : OnLine found text tail) (stop : AtEnd tail) :
    ∃ taken, Reads text taken (lineEnd? tail) ∧ Say taken.toList found.toList := by
  cases h with
  | empty blanks comment =>
    refine ⟨none, .empty ?_ (endLine_append blanks comment stop), .nil⟩
    rw [skip_append blanks comment stop]
    exact stop.statement?_eq_none
  | statement blanks here blanks' comment =>
    obtain ⟨p, read, value⟩ := here.exists_statement?
    refine ⟨some p, .statement ?_ (endLine_append blanks' comment stop), .cons value .nil⟩
    rw [skip_blanks blanks, skip_of_atPart here.atPart, read]

theorem Reads.exists_onLine {next : Option (List Char)} (h : Reads text taken next) :
    ∃ found tail, Say taken.toList found.toList ∧ OnLine found text tail ∧ AtEnd tail ∧
      lineEnd? tail = next := by
  cases h with
  | empty _ ending =>
    obtain ⟨b, c, tail, blanks, comment, stop, rfl, more⟩ := exists_of_endLine ending
    exact ⟨none, tail, .nil, .empty blanks comment, stop, more⟩
  | statement read ending =>
    obtain ⟨s, value, here⟩ := exists_at_of_statement? read
    obtain ⟨b, blanks, whole⟩ := exists_blanks here.atPart
    obtain ⟨b', c, tail, blanks', comment, stop, rfl, more⟩ := exists_of_endLine ending
    exact ⟨some s, tail, .cons value .nil, whole ▸ .statement blanks here blanks' comment, stop,
      more⟩

/-- A line feed behind a carriage return is an empty line as well as none. -/
theorem statements_lf {next : List Char} (h : statements ('\n' :: next) = .ok ps) :
    statements next = .ok ps := by
  obtain ⟨taken, ⟨last, -⟩ | ⟨next', others, line, -, more, rfl⟩⟩ := exists_of_statements h
  · cases last with
    | empty _ ending => cases ending
    | statement read _ => cases read
  · cases line with
    | empty _ ending =>
      cases ending
      exact more
    | statement read _ => cases read

theorem Sentences.exists_statements (h : Sentences all text) :
    ∃ ps, statements text = .ok ps ∧ Say ps all := by
  induction h with
  | last line =>
    obtain ⟨taken, read, value⟩ := line.exists_reads (stops_nil _)
    exact ⟨_, read.statements_last, value⟩
  | @cons found text e rest others line ending _ ih =>
    obtain ⟨taken, read, value⟩ := line.exists_reads (ending.atEnd rest)
    obtain ⟨ps, below, values⟩ := ih
    obtain ⟨next, more, place⟩ := ending.lineEnd?_append rest
    rw [more] at read
    refine ⟨_, read.statements_more ?_, List.rel_append value values⟩
    -- a carriage return may take along the line feed that ends the empty line behind it
    rcases place with rfl | rfl
    · exact below
    · exact statements_lf below

/-- What is taken as pairs is a text of the grammar, and the pairs are read as its statements. -/
theorem exists_sentences_of_statements (h : statements text = .ok ps) :
    ∃ all, Say ps all ∧ Sentences all text := by
  -- on the length: what follows a line end is shorter than the text
  induction hn : text.length using Nat.strong_induction_on generalizing text ps with
  | _ n ih =>
    obtain ⟨taken, ⟨read, rfl⟩ | ⟨next, others, read, shorter, more, rfl⟩⟩ :=
      exists_of_statements h
    · obtain ⟨found, tail, value, line, stop, last⟩ := read.exists_onLine
      rw [stop.eq_nil last] at line
      exact ⟨_, value, .last line⟩
    · obtain ⟨found, tail, value, line, -, ended⟩ := read.exists_onLine
      obtain ⟨e, ending, rfl⟩ := exists_of_lineEnd? ended
      obtain ⟨all, values, below⟩ := ih _ (hn ▸ shorter) more rfl
      exact ⟨_, List.rel_append value values, .cons line ending below⟩

end Lines

end ParseTrace.Script
