import ParseTrace.Proofs.Script.Statement

/-!
Texts of scripts against their layouts. The lines of a layout are the lines of a sentence whose
statements say the items. So every layout of a script is read as that script, and a text that
is read as a script lays it out; nothing in an accepted text is passed over but blanks, comments
and line ends.
-/

namespace ParseTrace.Script

def items : List Statement → Except Numeral (List Item)
  | [] => .ok []
  | s :: later =>
    match s.item with
    | .error n => .error n
    | .ok i =>
      match items later with
      | .error n => .error n
      | .ok others => .ok (i :: others)

section Items

theorem items_append {a b : List Statement} {x y : List Item} (ha : items a = .ok x)
    (hb : items b = .ok y) : items (a ++ b) = .ok (x ++ y) := by
  induction a generalizing x with
  | nil =>
    cases ha
    exact hb
  | cons s a ih =>
    rw [items] at ha
    split at ha
    · cases ha
    · next i value =>
      split at ha
      · cases ha
      · next others rest =>
        cases ha
        rw [List.cons_append, items, value, ih rest]
        rfl

theorem exists_of_items_append {a b : List Statement} {z : List Item}
    (h : items (a ++ b) = .ok z) :
    ∃ x y, items a = .ok x ∧ items b = .ok y ∧ z = x ++ y := by
  induction a generalizing z with
  | nil => exact ⟨[], z, rfl, h, rfl⟩
  | cons s a ih =>
    rw [List.cons_append, items] at h
    split at h
    · cases h
    · next i value =>
      split at h
      · cases h
      · next others rest =>
        cases h
        obtain ⟨x, y, first, second, rfl⟩ := ih rest
        exact ⟨i :: x, y, by rw [items, value, first], second, rfl⟩

theorem item?_eq {p : Pair} {s : Statement} (value : p.statement? = .ok (some s)) :
    p.item? = (s.item.map some).mapError Numeral.objection := by
  rw [Pair.item?, value]

theorem Say.itemsOf_eq {ps : List Pair} {all : List Statement} (h : Say ps all) {last : Pair}
    (ending : last.item? = .ok none) :
    itemsOf (ps ++ [last]) = (items all).mapError Numeral.objection := by
  induction h with
  | nil =>
    simp only [List.nil_append, itemsOf, ending]
    rfl
  | @cons p s ps all value _ ih =>
    rw [List.cons_append, itemsOf, item?_eq value, ih, items]
    cases s.item with
    | error n => rfl
    | ok i => cases items all <;> rfl

/-- The reader of pairs looks at nothing but the statements that they are read as. -/
theorem ofText_eq {text : String} {ps : List Pair} {all : List Statement}
    (read : statements text.toList = .ok ps) (h : Say ps all) :
    ofText text = ((items all).map ofItems).mapError fun n => n.objection.failure text.toList := by
  have ending : (Pair.mk .endOfInput [] [] []).item? = .ok none := rfl
  rw [ofText, pairsOf, read]
  simp only [Except.map, h.itemsOf_eq ending]
  cases items all <;> rfl

end Items

section Lines

variable {text tail : List Char} {its : List Item} {all : List Statement}

theorem Line.exists_onLine {i : Option Item} {t : List Char} (h : Line i t) (stop : AtEnd tail) :
    ∃ found, OnLine found (t ++ tail) tail ∧ items found.toList = .ok i.toList := by
  cases h with
  | empty blanks comment => exact ⟨none, .empty blanks comment, rfl⟩
  | @item i b t b' c blanks written blanks' comment =>
    have apart : Stops isIdentRest (b' ++ c ++ tail) := by
      rw [List.append_assoc]
      refine blanks'.stops_append rfl rfl ?_
      cases comment with
      | none => exact stop.stops rfl rfl
      | text _ => exact stops_cons rfl
    obtain ⟨s, here, value⟩ := written.exists_at apart
    have line := OnLine.statement blanks here blanks' comment
    refine ⟨some s, ?_, by simp only [Option.toList_some, items, value]⟩
    simpa only [List.append_assoc] using line

theorem OnLine.exists_line {found : Option Statement} (h : OnLine found text tail)
    (values : items found.toList = .ok its) :
    ∃ i t, its = i.toList ∧ Line i t ∧ text = t ++ tail := by
  cases h with
  | empty blanks comment =>
    cases values
    exact ⟨none, _, rfl, .empty blanks comment, rfl⟩
  | @statement s b t b' c _ blanks here blanks' comment =>
    obtain ⟨i, value, rfl⟩ : ∃ i, s.item = .ok i ∧ its = [i] := by
      simp only [Option.toList_some, items] at values
      split at values
      · cases values
      · next i value =>
        cases values
        exact ⟨i, value, rfl⟩
    obtain ⟨a, written, rfl⟩ := here.exists_written value
    refine ⟨some i, _, rfl, .item blanks written blanks' comment, ?_⟩
    simp only [List.append_assoc]

theorem Lines.exists_sentences (h : Lines its text) :
    ∃ all, Sentences all text ∧ items all = .ok its := by
  induction h with
  | last line =>
    obtain ⟨found, on, values⟩ := line.exists_onLine (stops_nil _)
    rw [List.append_nil] at on
    exact ⟨_, .last on, values⟩
  | cons line ending _ ih =>
    obtain ⟨others, sentences, values⟩ := ih
    obtain ⟨found, on, value⟩ := line.exists_onLine (ending.atEnd _)
    rw [← List.append_assoc] at on
    exact ⟨_, .cons on ending sentences, items_append value values⟩

theorem Sentences.lines (h : Sentences all text) (values : items all = .ok its) :
    Lines its text := by
  induction h generalizing its with
  | last on =>
    obtain ⟨i, t, rfl, line, rfl⟩ := on.exists_line values
    rw [List.append_nil]
    exact .last line
  | cons on ending _ ih =>
    obtain ⟨x, y, first, second, rfl⟩ := exists_of_items_append values
    obtain ⟨i, t, rfl, line, rfl⟩ := on.exists_line first
    rw [← List.append_assoc]
    exact .cons line ending (ih second)

end Lines

theorem Lines.ofText_eq {text : String} {its : List Item} (h : Lines its text.toList) :
    ofText text = .ok (ofItems its) := by
  obtain ⟨all, sentences, values⟩ := h.exists_sentences
  obtain ⟨ps, read, say⟩ := sentences.exists_statements
  rw [Script.ofText_eq read say, values]
  rfl

/-- Every text that lays out a script is read as that script. The order of items of
different kinds, blanks, comments, empty lines, quotes, escapes, leading zeros and the
kinds of line ends make no difference. -/
theorem ofText_of_laidOut {s : Script} {text : String} (h : LaidOut s text) :
    ofText text = .ok s := by
  obtain ⟨its, lines, file, symbols, rules, events⟩ := h
  rw [lines.ofText_eq, ofItems, ← file, ← symbols, ← rules, ← events]

theorem laidOut_rule :
    LaidOut { rules := [⟨"E", 1⟩], events := [.accept] } "rule E 01 # one\r\naccept" := by
  have blank : Blanks [' '] := by simp [Blanks]
  have lhs : (Piece.name "E").Spelled true "E".toList := .bare (.cons rfl (by simp))
  have length : (Piece.nat 1).Spelled false ['0', '1'] := .nat (.zeros 1)
  have row := Row.first blank lhs (.cons blank (fun _ _ => by simp) length .nil)
  have comment : Comment ['#', ' ', 'o', 'n', 'e'] := .text (by simp)
  have rule := Line.item blanks_nil (Item.Written.row (i := .rule ⟨"E", 1⟩) row) blank comment
  have accept := Line.item blanks_nil (Item.Written.row (i := .event .accept) .nil)
    blanks_nil .none
  exact ⟨_, .cons rule .crlf (.last accept), rfl, rfl, rfl, rfl⟩

theorem ofText_of_laidOut_rule :
    ofText "rule E 01 # one\r\naccept" = .ok { rules := [⟨"E", 1⟩], events := [.accept] } :=
  ofText_of_laidOut laidOut_rule

/-- A text that is read as a script lays it out: nothing in it is passed over but blanks,
comments and line ends, every numeral is in range, and no item is lost, doubled or moved. -/
theorem laidOut_of_ofText {s : Script} {text : String} (h : ofText text = .ok s) :
    LaidOut s text := by
  cases read : statements text.toList with
  | error missing =>
    rw [ofText, pairsOf, read] at h
    cases h
  | ok ps =>
    obtain ⟨all, say, sentences⟩ := exists_sentences_of_statements read
    rw [ofText_eq read say] at h
    cases values : items all with
    | error n =>
      rw [values] at h
      cases h
    | ok its =>
      rw [values] at h
      cases h
      exact ⟨its, sentences.lines values, rfl, rfl, rfl, rfl⟩

theorem laidOut_of_ofText_shift :
    LaidOut { file := some "a", events := [.shift "x" "\n" (-7)] }
      "file \"a\"\rshift x\"\\n\" -07#" :=
  laidOut_of_ofText (by decide +kernel)

end ParseTrace.Script
