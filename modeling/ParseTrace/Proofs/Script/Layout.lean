import Mathlib.Data.List.Basic
import ParseTrace.Script.Item

/-!
How a script may be laid out as a text, said without a reader. A line holds at most one
item: its keyword, then the parts of the item with blanks before each, and a comment may
close the line. Strings are written between quotes and names also bare; numbers may have
leading zeros.
-/

namespace ParseTrace.Script

def Blanks (b : List Char) : Prop :=
  ∀ c ∈ b, c = ' ' ∨ c = '\t'

/-- A comment runs up to the end of its line; there need not be one. -/
inductive Comment : List Char → Prop
  | none : Comment []
  | text {t : List Char} : (∀ c ∈ t, c ≠ '\n' ∧ c ≠ '\r') → Comment ('#' :: t)

inductive LineEnd : List Char → Prop
  | lf : LineEnd ['\n']
  | crlf : LineEnd ['\r', '\n']
  | cr : LineEnd ['\r']

inductive Between : List Char → List Char → Prop
  | nil : Between [] []
  | plain {c : Char} {t s : List Char} :
      c ≠ '"' → c ≠ '\\' → Between t s → Between (c :: t) (c :: s)
  | quote {t s : List Char} : Between t s → Between ('\\' :: '"' :: t) ('"' :: s)
  | backslash {t s : List Char} : Between t s → Between ('\\' :: '\\' :: t) ('\\' :: s)
  | newline {t s : List Char} : Between t s → Between ('\\' :: 'n' :: t) ('\n' :: s)
  | tab {t s : List Char} : Between t s → Between ('\\' :: 't' :: t) ('\t' :: s)

inductive Identifier : List Char → Prop
  | cons {c : Char} {t : List Char} : isIdentStart c → (∀ d ∈ t, isIdentRest d) →
      Identifier (c :: t)

inductive Decimal (n : Nat) : List Char → Prop
  | zeros (k : Nat) : Decimal n (List.replicate k '0' ++ Nat.toDigits 10 n)

inductive Piece where
  | string (s : String)
  | name (s : String)
  | nat (n : Nat)
  | int (n : Int)

def Piece.IsNumber : Piece → Prop
  | .string _ | .name _ => False
  | .nat _ | .int _ => True

/-- The texts of a part; the mark says whether the text is a bare name. -/
inductive Piece.Spelled : Piece → Bool → List Char → Prop
  | string {s : String} {t : List Char} :
      Between t s.toList → Spelled (.string s) false ('"' :: t ++ ['"'])
  | quoted {s : String} {t : List Char} :
      Between t s.toList → Spelled (.name s) false ('"' :: t ++ ['"'])
  | bare {s : String} : Identifier s.toList → Spelled (.name s) true s.toList
  | nat {n : Nat} {t : List Char} : Decimal n t → Spelled (.nat n) false t
  | int {n : Nat} {t : List Char} : Decimal n t → Spelled (.int n) false t
  | negative {n : Nat} {t : List Char} : Decimal n t → Spelled (.int (-n)) false ('-' :: t)

/-- The parts in a row, behind a bare name or not. Blanks may stand before each, and must
stand between a bare name and a number. -/
inductive Row : Bool → List Piece → List Char → Prop
  | nil {bare : Bool} : Row bare [] []
  | cons {bare bare' : Bool} {p : Piece} {rest : List Piece} {b t row : List Char} :
      Blanks b → (bare = true → p.IsNumber → b ≠ []) → p.Spelled bare' t →
      Row bare' rest row → Row bare (p :: rest) (b ++ t ++ row)

namespace Item

def keyword : Item → String
  | .file _ => "file"
  | .symbol s => s.kind.name
  | .rule _ => "rule"
  | .event (.shift ..) => "shift"
  | .event (.reduce _) => "reduce"
  | .event .accept => "accept"

def pieces : Item → List Piece
  | .file name => [.string name]
  | .symbol s => [.nat s.index.toNat, .name s.name]
  | .rule r => [.name r.lhs, .nat r.length.toNat]
  | .event (.shift name lexeme number) => [.name name, .string lexeme, .int number.toInt]
  | .event (.reduce number) => [.nat number.toNat]
  | .event .accept => []

inductive Written (i : Item) : List Char → Prop
  | row {t : List Char} : Row false i.pieces t → Written i (i.keyword.toList ++ t)

end Item

inductive Line : Option Item → List Char → Prop
  | empty {b c : List Char} : Blanks b → Comment c → Line none (b ++ c)
  | item {i : Item} {b t b' c : List Char} : Blanks b → i.Written t → Blanks b' →
      Comment c → Line (some i) (b ++ t ++ b' ++ c)

/-- The lines of a text; only the last one may lack its end. -/
inductive Lines : List Item → List Char → Prop
  | last {i : Option Item} {t : List Char} : Line i t → Lines i.toList t
  | cons {i : Option Item} {t e rest : List Char} {items : List Item} : Line i t →
      LineEnd e → Lines items rest → Lines (i.toList ++ items) (t ++ e ++ rest)

/-- A text that lays out a script: the items on its lines are the fields of the script,
each kind in its order, and the last file name counts. -/
def LaidOut (s : Script) (text : String) : Prop :=
  ∃ items, Lines items text.toList ∧
    s.file = (items.filterMap Item.file?).getLast? ∧
    s.symbols = items.filterMap Item.symbol? ∧
    s.rules = items.filterMap Item.rule? ∧
    s.events = items.filterMap Item.event?

section Existence

theorem blanks_nil : Blanks [] := fun _ h => by cases h

theorem exists_between (s : List Char) : ∃ t, Between t s := by
  induction s with
  | nil => exact ⟨[], .nil⟩
  | cons c s ih =>
    obtain ⟨t, between⟩ := ih
    by_cases quote : c = '"'
    · subst quote
      exact ⟨_, .quote between⟩
    by_cases backslash : c = '\\'
    · subst backslash
      exact ⟨_, .backslash between⟩
    · exact ⟨_, .plain quote backslash between⟩

theorem Piece.exists_spelled (p : Piece) : ∃ t, p.Spelled false t := by
  cases p with
  | string s =>
    obtain ⟨t, between⟩ := exists_between s.toList
    exact ⟨_, .string between⟩
  | name s =>
    obtain ⟨t, between⟩ := exists_between s.toList
    exact ⟨_, .quoted between⟩
  | nat n => exact ⟨_, .nat (.zeros 0)⟩
  | int i =>
    cases i with
    | ofNat n => exact ⟨_, .int (.zeros 0)⟩
    | negSucc n => exact ⟨_, .negative (n := n + 1) (.zeros 0)⟩

theorem Piece.exists_row (pieces : List Piece) : ∃ t, Row false pieces t := by
  induction pieces with
  | nil => exact ⟨[], .nil⟩
  | cons p rest ih =>
    obtain ⟨t, spelled⟩ := p.exists_spelled
    obtain ⟨row, written⟩ := ih
    exact ⟨_, .cons blanks_nil (fun h => by cases h) spelled written⟩

theorem exists_lines (items : List Item) : ∃ text, Lines items text := by
  induction items with
  | nil => exact ⟨_, .last (.empty blanks_nil .none)⟩
  | cons i items ih =>
    obtain ⟨row, written⟩ := Piece.exists_row i.pieces
    obtain ⟨rest, lines⟩ := ih
    have line := Line.item blanks_nil (Item.Written.row written) blanks_nil .none
    exact ⟨_, .cons line .lf lines⟩

def toItems (s : Script) : List Item :=
  s.file.toList.map .file ++ s.symbols.map .symbol ++ s.rules.map .rule ++ s.events.map .event

theorem ofItems_toItems (s : Script) : ofItems s.toItems = s := by
  obtain ⟨file, symbols, rules, events⟩ := s
  cases file <;>
    simp only [ofItems, toItems, Option.toList_none, Option.toList_some, List.map_nil,
      List.map_cons, List.filterMap_append, List.filterMap_map, Function.comp_def,
      Item.file?, Item.symbol?, Item.rule?, Item.event?, List.filterMap_none, List.filterMap_some,
      List.filterMap_nil, List.filterMap_cons, List.nil_append, List.append_nil,
      List.getLast?_nil, List.getLast?_singleton]

/-- No script is beyond the text form. -/
theorem exists_laidOut (s : Script) : ∃ text, LaidOut s text := by
  obtain ⟨text, lines⟩ := exists_lines s.toItems
  have fields := (ofItems_toItems s).symm
  refine ⟨String.ofList text, s.toItems, ?_, congrArg Script.file fields,
    congrArg Script.symbols fields, congrArg Script.rules fields, congrArg Script.events fields⟩
  rw [String.toList_ofList]
  exact lines

end Existence

end ParseTrace.Script
