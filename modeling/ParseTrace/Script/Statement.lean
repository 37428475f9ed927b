import ParseTrace.Script.Part

/-!
The grammar of text scripts: at most one statement on a line, each a keyword and its parts.
The pairs of a text are those of its statements, in the pair of the whole script; they are
made before any of them is looked at, so a text that breaks the grammar is refused for that,
whatever its numerals say.
-/

namespace ParseTrace.Script

/-- The keywords, each with its rule and the parts behind it. No keyword begins another. -/
def keywords : List (String × ScriptPart × List Part) :=
  [("file", .fileDecl, [string]),
    ("terminal", .terminal, [integer, name]),
    ("nonterminal", .nonterminal, [integer, name]),
    ("rule", .rule, [name, integer]),
    ("shift", .shift, [name, string, line]),
    ("reduce", .reduce, [integer]),
    ("accept", .accept, [])]

def statementAmong : List (String × ScriptPart × List Part) → List Char →
    Option (Except Missing (Pair × List Char))
  | [], _ => none
  | (word, tag, parts) :: others, text =>
    match behind? word.toList text with
    | some behind =>
      match inOrder parts behind with
      | .error missing => some (.error missing)
      | .ok (inner, rest) =>
        some (.ok (⟨tag, text.take (text.length - rest.length), text, inner⟩, rest))
    | none => statementAmong others text

def statement? (text : List Char) : Option (Except Missing (Pair × List Char)) :=
  statementAmong keywords text

theorem shrinks_keywords : ∀ entry ∈ keywords, ∀ p ∈ entry.2.2, Shrinks p := by
  simp [keywords, shrinks_string, shrinks_name, shrinks_integer, shrinks_line]

theorem length_statementAmong_le {entries : List (String × ScriptPart × List Part)}
    {text rest : List Char} {found : Pair} (hs : ∀ entry ∈ entries, ∀ p ∈ entry.2.2, Shrinks p)
    (h : statementAmong entries text = some (.ok (found, rest))) :
    rest.length ≤ text.length := by
  induction entries with
  | nil => cases h
  | cons entry others ih =>
    obtain ⟨word, tag, parts⟩ := entry
    rw [statementAmong] at h
    split at h
    · next behind hb =>
      split at h
      · cases h
      · next inner tail hp =>
        cases h
        have first := length_behind_le hb
        have second := length_inOrder_le (hs _ List.mem_cons_self) hp
        omega
    · exact ih (fun entry he => hs entry (List.mem_cons_of_mem _ he)) h

theorem length_statement_le {text rest : List Char} {found : Pair}
    (h : statement? text = some (.ok (found, rest))) : rest.length ≤ text.length :=
  length_statementAmong_le shrinks_keywords h

def endLine (text : List Char) : Except Missing (Option (List Char)) :=
  match lineEnd? (skip text) with
  | some next => .ok (some next)
  | none =>
    match skip text with
    | [] => .ok none
    | place => .error ⟨place, .endOfInput, []⟩

theorem length_endLine_lt {text next : List Char} (h : endLine text = .ok (some next)) :
    next.length < text.length := by
  have skipped := length_skip_le text
  unfold endLine at h
  split at h
  · next hn =>
    cases h
    have := length_lineEnd_lt hn
    omega
  · split at h <;> cases h

def statements (text : List Char) : Except Missing (List Pair) :=
  match h : statement? (skip text) with
  | some (.error missing) => .error missing
  | some (.ok (found, rest)) =>
    match hl : endLine rest with
    | .error missing => .error missing
    | .ok none => .ok [found]
    | .ok (some next) =>
      have : next.length < text.length := by
        have skipped := length_skip_le text
        have parts := length_statement_le h
        have line := length_endLine_lt hl
        omega
      match statements next with
      | .error missing => .error missing
      | .ok others => .ok (found :: others)
  | none =>
    match hl : endLine text with
    | .error missing =>
      .error { missing with
        others := [.fileDecl, .terminal, .nonterminal, .rule, .shift, .reduce, .accept] }
    | .ok none => .ok []
    | .ok (some next) =>
      have : next.length < text.length := length_endLine_lt hl
      statements next
termination_by text.length

/-- The pairs of a text: the one of the whole script. The end of the input is a pair as well. -/
def pairsOf (text : List Char) : Except Missing (List Pair) :=
  (statements text).map fun found =>
    [⟨.script, text, text, found ++ [⟨.endOfInput, [], [], []⟩]⟩]

end ParseTrace.Script
