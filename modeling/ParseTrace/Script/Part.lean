import ParseTrace.Failure

/-!
The pieces of a text script: blanks and comments, line ends, names, quoted strings and
numerals. A place in a text is the part of the text that begins there. What a rule of the
grammar takes is kept as a pair, with the pairs of the rules that it is made of. No piece
gives back more than it was given, so reading a script comes to an end.
-/

namespace ParseTrace.Script

def isBlank (c : Char) : Bool :=
  c = ' ' || c = '\t'

def isLineEnd (c : Char) : Bool :=
  c = '\n' || c = '\r'

def lineEnd? : List Char → Option (List Char)
  | '\r' :: '\n' :: rest => some rest
  | c :: rest => if isLineEnd c then some rest else none
  | [] => none

/-- Passes over blanks and then a comment, which runs to the end of its line. -/
def skip (text : List Char) : List Char :=
  match text.dropWhile isBlank with
  | '#' :: rest => rest.dropWhile fun c => !isLineEnd c
  | rest => rest

def behind? : List Char → List Char → Option (List Char)
  | [], text => some text
  | _ :: _, [] => none
  | w :: word, c :: text => if w = c then behind? word text else none

structure Missing where
  place : List Char
  first : ScriptPart
  others : List ScriptPart := []

/-- The characters that a rule took, where they stand, and the pairs inside. -/
structure Pair where
  rule : ScriptPart
  chars : List Char
  place : List Char
  inner : List Pair := []

abbrev Part := List Char → Except Missing (Pair × List Char)

def inOrder : List Part → List Char → Except Missing (List Pair × List Char)
  | [], text => .ok ([], text)
  | p :: later, text =>
    match p (skip text) with
    | .error missing => .error missing
    | .ok (found, middle) =>
      match inOrder later middle with
      | .error missing => .error missing
      | .ok (others, rest) => .ok (found :: others, rest)

def isIdentStart (c : Char) : Bool :=
  c.isAlpha || c = '_'

def isIdentRest (c : Char) : Bool :=
  c.isAlphanum || c = '_'

def ident? : List Char → Option (List Char × List Char)
  | c :: rest =>
    if isIdentStart c then some (c :: rest.takeWhile isIdentRest, rest.dropWhile isIdentRest)
    else none
  | [] => none

def isEscape (c : Char) : Bool :=
  c = '"' || c = '\\' || c = 'n' || c = 't'

/-- What stands up to the closing quote, escapes as they are, and what follows the quote. -/
def stringBody? : List Char → Option (List Char × List Char)
  | [] => none
  | '\\' :: e :: rest =>
    if isEscape e then
      match stringBody? rest with
      | some (body, rest) => some ('\\' :: e :: body, rest)
      | none => none
    else none
  | c :: rest =>
    if c = '"' then some ([], rest)
    else
      match stringBody? rest with
      | some (body, rest) => some (c :: body, rest)
      | none => none

def string? : List Char → Option (Pair × List Char)
  | [] => none
  | c :: text =>
    if c = '"' then
      match stringBody? text with
      | some (body, rest) =>
        some (⟨.string, '"' :: body ++ ['"'], c :: text, [⟨.inner, body, text, []⟩]⟩, rest)
      | none => none
    else none

def string : Part :=
  fun text =>
    match string? text with
    | some found => .ok found
    | none => .error ⟨text, .string, []⟩

def name : Part :=
  fun text =>
    match ident? text, string? text with
    | some (chars, rest), _ => .ok (⟨.ident, chars, text, []⟩, rest)
    | none, some found => .ok found
    | none, none => .error ⟨text, .ident, [.string]⟩

def integer : Part :=
  fun text =>
    match text.takeWhile Char.isDigit with
    | [] => .error ⟨text, .integer, []⟩
    | digits => .ok (⟨.integer, digits, text, []⟩, text.dropWhile Char.isDigit)

def line : Part :=
  fun text =>
    let sign := if text.head? = some '-' then ['-'] else []
    let text' := text.drop sign.length
    match text'.takeWhile Char.isDigit with
    | [] => .error ⟨text, .line, []⟩
    | digits => .ok (⟨.line, sign ++ digits, text, []⟩, text'.dropWhile Char.isDigit)

def Shrinks (p : Part) : Prop :=
  ∀ text found rest, p text = .ok (found, rest) → rest.length ≤ text.length

theorem length_skip_le (text : List Char) : (skip text).length ≤ text.length := by
  have blanks := (List.dropWhile_sublist isBlank (l := text)).length_le
  unfold skip
  split
  · next rest h =>
    have comment := (List.dropWhile_sublist (fun c => !isLineEnd c) (l := rest)).length_le
    rw [h, List.length_cons] at blanks
    omega
  · exact blanks

theorem length_lineEnd_lt {text rest : List Char} (h : lineEnd? text = some rest) :
    rest.length < text.length := by
  unfold lineEnd? at h
  split at h
  · cases h
    simp only [List.length_cons]
    omega
  · split at h
    · cases h
      simp only [List.length_cons]
      omega
    · cases h
  · cases h

theorem length_behind_le {word text rest : List Char} (h : behind? word text = some rest) :
    rest.length ≤ text.length := by
  induction word generalizing text with
  | nil => cases h; exact Nat.le_refl _
  | cons w word ih =>
    cases text with
    | nil => cases h
    | cons c text =>
      rw [behind?] at h
      split at h
      · have := ih h
        simp only [List.length_cons]
        omega
      · cases h

theorem length_inOrder_le {parts : List Part} (hs : ∀ p ∈ parts, Shrinks p)
    {text rest : List Char} {found : List Pair} (h : inOrder parts text = .ok (found, rest)) :
    rest.length ≤ text.length := by
  induction parts generalizing text found with
  | nil =>
    cases h
    exact Nat.le_refl _
  | cons p later ih =>
    rw [inOrder] at h
    split at h
    · cases h
    · next first middle hp =>
      split at h
      · cases h
      · next others tail hl =>
        cases h
        have skipped := length_skip_le text
        have here := hs p List.mem_cons_self _ _ _ hp
        have below := ih (fun q hq => hs q (List.mem_cons_of_mem _ hq)) hl
        omega

theorem length_stringBody_le {text body rest : List Char}
    (h : stringBody? text = some (body, rest)) : rest.length ≤ text.length := by
  fun_induction stringBody? text generalizing body rest with
  | case1 => cases h
  | case2 e text _ body' rest' he ih =>
    cases h
    have := ih he
    simp only [List.length_cons]
    omega
  | case3 => cases h
  | case4 => cases h
  | case5 text =>
    cases h
    simp only [List.length_cons]
    omega
  | case6 c text _ _ body' rest' he ih =>
    cases h
    have := ih he
    simp only [List.length_cons]
    omega
  | case7 => cases h

theorem length_string_le {text rest : List Char} {found : Pair}
    (h : string? text = some (found, rest)) : rest.length ≤ text.length := by
  unfold string? at h
  split at h
  · cases h
  · split at h
    · split at h
      · next hb =>
        cases h
        have := length_stringBody_le hb
        simp only [List.length_cons]
        omega
      · cases h
    · cases h

theorem shrinks_string : Shrinks string := by
  intro text found rest h
  unfold string at h
  split at h
  · next hs =>
    cases h
    exact length_string_le hs
  · cases h

theorem shrinks_name : Shrinks name := by
  intro text found rest h
  unfold name at h
  split at h
  · next hi =>
    cases h
    unfold ident? at hi
    split at hi
    · split at hi
      · cases hi
        next c tail _ =>
        have := (List.dropWhile_sublist isIdentRest (l := tail)).length_le
        simp only [List.length_cons]
        omega
      · cases hi
    · cases hi
  · next hs =>
    cases h
    exact length_string_le hs
  · cases h

theorem shrinks_integer : Shrinks integer := by
  intro text found rest h
  unfold integer at h
  split at h
  · cases h
  · cases h
    exact (List.dropWhile_sublist _).length_le

theorem shrinks_line : Shrinks line := by
  intro text found rest h
  unfold line at h
  simp only at h
  split at h
  · cases h
  · cases h
    refine Nat.le_trans (List.dropWhile_sublist _).length_le ?_
    rw [List.length_drop]
    omega

end ParseTrace.Script
