import ParseTrace.Yaml.Cursor

/-!
The texts of scalars: plain, in quotes and in blocks. Inside the first two a line break
is folded into a space, and empty lines stand for line breaks.
-/

namespace ParseTrace.Yaml

inductive Style where
  | plain
  | literal
  | other
  deriving DecidableEq

/-- Blanks and line breaks between two words, each list backwards. Only the blanks
before the first break are kept. -/
structure Gap where
  blanks : List Char := []
  breaks : List Char := []

namespace Gap

def read (margin : Nat) (g : Gap) (line column : Nat) : List Char → Option (Gap × Cursor)
  | [] => some (g, ⟨[], line, column⟩)
  | c :: rest =>
    if isBreak c then read margin { g with breaks := c :: g.breaks } (line + 1) 0 rest
    else if isBlank c then
      if g.breaks.isEmpty then
        read margin { g with blanks := c :: g.blanks } line (column + 1) rest
      else if c = '\t' && column < margin then none
      else read margin g line (column + 1) rest
    else some (g, ⟨c :: rest, line, column⟩)

def folded (g : Gap) : List Char :=
  match g.breaks.reverse with
  | [] => g.blanks
  | '\n' :: [] => [' ']
  | '\n' :: _ => g.breaks.dropLast
  | _ => g.breaks

end Gap

/-! ### Plain scalars -/

def plainWord (flow : Bool) (said : List Char) (line column : Nat) :
    List Char → Option (List Char × Cursor)
  | [] => some (said, ⟨[], line, column⟩)
  | c :: rest =>
    if gapAt (c :: rest) then some (said, ⟨c :: rest, line, column⟩)
    else if flow && c = ':' && rest.head?.any (fun d => isFlowIndicator d || d = '?') then none
    else if (c = ':' && gapAt rest) || (flow && isFlowIndicator c) then
      some (said, ⟨c :: rest, line, column⟩)
    else plainWord flow (c :: said) line (column + 1) rest

def plain? (flow : Bool) (margin : Nat) :
    Nat → List Char → Gap → Cursor → Option (List Char × Bool × Cursor)
  | 0, _, _, _ => none
  | steps + 1, said, gap, c =>
    if c.marker?.isSome || c.rest.head? = some '#' then
      some (said.reverse, !gap.breaks.isEmpty, c)
    else
      match plainWord flow [] c.line c.column c.rest with
      | none => none
      | some ([], _) => some (said.reverse, !gap.breaks.isEmpty, c)
      | some (word, c) =>
        let said := word ++ gap.folded ++ said
        match Gap.read margin {} c.line c.column c.rest with
        | none => none
        | some (gap, next) =>
          if !flow && next.column < margin then
            some (said.reverse, !gap.breaks.isEmpty, next)
          else plain? flow margin steps said gap next

/-! ### Quoted scalars -/

def hexNumber? (count : Nat) (text : List Char) : Option Nat :=
  let digits := text.take count
  if digits.length = count then
    (digits.mapM hexDigit?).map fun ds => ds.foldl (fun n d => 16 * n + d) 0
  else none

def charOf? (n : Nat) : Option Char :=
  if n.isValidChar then some (Char.ofNat n) else none

def escape? : List Char → Option (Char × Nat)
  | [] => none
  | c :: rest =>
    let numeric (digits : Nat) : Option (Char × Nat) := do
      let d ← charOf? (← hexNumber? digits rest)
      return (d, digits + 1)
    match c with
    | '0' => some ('\x00', 1)
    | 'a' => some ('\x07', 1)
    | 'b' => some ('\x08', 1)
    | 't' | '\t' => some ('\t', 1)
    | 'n' => some ('\n', 1)
    | 'v' => some ('\x0b', 1)
    | 'f' => some ('\x0c', 1)
    | 'r' => some ('\r', 1)
    | 'e' => some ('\x1b', 1)
    | ' ' | '"' | '/' | '\\' => some (c, 1)
    | 'N' => some ('\u0085', 1)
    | '_' => some ('\u00a0', 1)
    | 'L' => some ('\u2028', 1)
    | 'P' => some ('\u2029', 1)
    | 'x' => numeric 2
    | 'u' => numeric 4
    | 'U' => numeric 8
    | _ => none

/-- Reads the rest of a scalar in quotes and the closing quote, in no more than so many
steps. A quote between single quotes is written twice; a break behind a backslash
stands for nothing. -/
def quoted? (quote : Char) : Nat → List Char → Cursor → Option (List Char × Cursor)
  | 0, _, _ => none
  | steps + 1, said, c =>
    if c.marker?.isSome then none
    else
      match c.rest with
      | [] => none
      | d :: rest =>
        if d = quote then
          if quote = '\'' && rest.head? = some quote then
            quoted? quote steps (d :: said) (c.advance 2)
          else some (said.reverse, c.advance 1)
        else if d = '\\' && quote = '"' then
          if !rest.isEmpty && lineEndAt rest then
            match Gap.read 0 { breaks := rest.take 1 } (c.line + 1) 0 (rest.drop 1) with
            | none => none
            | some (gap, c) => quoted? quote steps (gap.breaks.dropLast ++ said) c
          else
            match escape? rest with
            | none => none
            | some (e, used) => quoted? quote steps (e :: said) (c.advance (used + 1))
        else if gapAt (d :: rest) then
          match Gap.read 0 {} c.line c.column (d :: rest) with
          | none => none
          | some (gap, c) => quoted? quote steps (gap.folded ++ said) c
        else quoted? quote steps (d :: said) (c.advance 1)

/-! ### Block scalars -/

inductive Chomp where
  | strip
  | clip
  | keep

def Chomp.of? : Option Char → Option Chomp
  | some '+' => some .keep
  | some '-' => some .strip
  | _ => none

structure BlockHeader where
  chomp : Chomp := .clip
  step : Option Nat := none

def BlockHeader.read? (c : Cursor) : Option (BlockHeader × Cursor) :=
  let digit? (c : Cursor) : Option Nat :=
    c.rest.head?.bind fun d => if d.isDigit then some (d.toNat - '0'.toNat) else none
  let found : BlockHeader × Cursor :=
    match Chomp.of? c.rest.head?, digit? c with
    | some chomp, _ =>
      match digit? (c.advance 1) with
      | some step => (⟨chomp, some step⟩, c.advance 2)
      | none => (⟨chomp, none⟩, c.advance 1)
    | none, some step =>
      match Chomp.of? (c.advance 1).rest.head? with
      | some chomp => (⟨chomp, some step⟩, c.advance 2)
      | none => (⟨.clip, some step⟩, c.advance 1)
    | none, none => ({}, c)
  if found.1.step = some 0 then none else some found

/-- Passes over indentation and empty lines, whose breaks are kept backwards. No tab may
stand in the indentation. With `indent = 0` the indentation is not known yet: then all
spaces belong to it, and the widest one is found. -/
def emptyLines (indent widest : Nat) (breaks : List Char) (line column : Nat) :
    List Char → Option (Nat × List Char × Cursor)
  | [] => some (max widest column, breaks, ⟨[], line, column⟩)
  | c :: rest =>
    let within := indent = 0 || column < indent
    if within && c = ' ' then emptyLines indent widest breaks line (column + 1) rest
    else if within && c = '\t' then none
    else if isBreak c then
      emptyLines indent (max widest column) (c :: breaks) (line + 1) 0 rest
    else some (max widest column, breaks, ⟨c :: rest, line, column⟩)

/-- What is read of a block scalar: its text, the break of its last line and the breaks
behind that, all backwards, and whether that line began with a blank. -/
structure BlockText where
  said : List Char := []
  lastBreak : List Char := []
  breaks : List Char := []
  blank : Bool := false

/-- The text before the next line, which begins with a blank or does not. A folded
break between two lines that do not is a space, or nothing before empty lines. -/
def BlockText.joined (literal blank : Bool) (b : BlockText) : List Char :=
  if !literal && b.lastBreak = ['\n'] && !b.blank && !blank then
    if b.breaks.isEmpty then ' ' :: b.said else b.breaks ++ b.said
  else b.breaks ++ b.lastBreak ++ b.said

def BlockText.finish (chomp : Chomp) (b : BlockText) : List Char :=
  match chomp with
  | .strip => b.said.reverse
  | .clip => (b.lastBreak ++ b.said).reverse
  | .keep => (b.breaks ++ b.lastBreak ++ b.said).reverse

def blockLines (literal : Bool) (chomp : Chomp) (indent : Nat) :
    Nat → BlockText → Cursor → Option (List Char × Cursor)
  | 0, _, _ => none
  | steps + 1, b, c =>
    if c.column = indent && !c.rest.isEmpty then
      let blank := c.rest.head?.any isBlank
      let (text, c) := c.span fun d => !isBreak d
      let lastBreak := c.rest.take 1
      let c := c.nextLine
      match emptyLines indent 0 [] c.line c.column c.rest with
      | none => none
      | some (_, breaks, next) =>
        let said := text.reverse ++ b.joined literal blank
        blockLines literal chomp indent steps { said, lastBreak, breaks, blank } next
    else some (b.finish chomp, c)

def block? (literal : Bool) (margin steps : Nat) (c : Cursor) :
    Option (List Char × Cursor) := do
  let (header, c) ← BlockHeader.read? (c.advance 1)
  let c ← c.endLine?
  let known := match header.step with
    | some step => margin - 1 + step
    | none => 0
  let (widest, breaks, c) ← emptyLines known 0 [] c.line c.column c.rest
  let indent := if known = 0 then max (max widest margin) 1 else known
  blockLines literal header.chomp indent steps { breaks } c

end ParseTrace.Yaml
