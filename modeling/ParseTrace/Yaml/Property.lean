import ParseTrace.Yaml.Cursor

/-!
What stands before a node, and before a document: anchors and tags as they are written,
and the directives that say what the handles of tags stand for.
-/

namespace ParseTrace.Yaml

/-- A tag as it is written. A tag in angle brackets has the empty handle. -/
structure TagText where
  handle : List Char
  suffix : List Char
  deriving DecidableEq

def anchorName? (c : Cursor) : Option (List Char × Cursor) :=
  match (c.advance 1).span isWord with
  | ([], _) => none
  | (name, c) =>
    if gapAt c.rest || c.rest.head?.any ("?:,]\x7d%@\x60".toList.contains ·) then some (name, c)
    else none

def isTagChar (c : Char) : Bool :=
  isWord c || ";/?:@&=+$.!~*'()".toList.contains c

def octet? : List Char → Option (Nat × List Char)
  | '%' :: a :: b :: rest =>
    match hexDigit? a, hexDigit? b with
    | some a, some b => some (16 * a + b, rest)
    | _, _ => none
  | _ => none

def furtherOctets? : Nat → Nat → List Char → Option (Nat × List Char)
  | 0, n, text => some (n, text)
  | count + 1, n, text =>
    match octet? text with
    | some (o, rest) =>
      if o / 64 = 2 then furtherOctets? count (64 * n + o % 64) rest else none
    | none => none

def escapedChar? (text : List Char) : Option (Char × List Char) :=
  let found := match octet? text with
    | some (o, rest) =>
      if o < 128 then some (o, rest)
      else if o / 32 = 6 then furtherOctets? 1 (o % 32) rest
      else if o / 16 = 14 then furtherOctets? 2 (o % 16) rest
      else if o / 8 = 30 then furtherOctets? 3 (o % 8) rest
      else none
    | none => none
  found.map fun (n, rest) => (if n.isValidChar then Char.ofNat n else '\ufffd', rest)

def tagText? : Nat → List Char → Option (List Char)
  | _, [] => some []
  | 0, _ :: _ => none
  | steps + 1, c :: rest =>
    if c = '%' then
      match escapedChar? (c :: rest) with
      | some (e, rest) => (tagText? steps rest).map (e :: ·)
      | none => none
    else (tagText? steps rest).map (c :: ·)

/-- Reads the rest of a tag; between angle brackets, or in a directive, it may also hold
a comma or brackets. -/
def tagRest? (wide : Bool) (c : Cursor) : Option (List Char × Cursor) :=
  let (run, c) := c.span fun d => isTagChar d || d = '%' || (wide && ",[]".toList.contains d)
  (tagText? run.length run).map fun text => (text, c)

def handle? (c : Cursor) : Option (List Char × Cursor) :=
  match c.rest with
  | '!' :: _ =>
    let (name, c) := (c.advance 1).span isWord
    if c.rest.head? = some '!' then some ('!' :: name ++ ['!'], c.advance 1)
    else some ('!' :: name, c)
  | _ => none

def isNamedHandle (handle : List Char) : Bool :=
  2 ≤ handle.length && handle.getLast? = some '!'

def tag? (flow : Bool) (c : Cursor) : Option (TagText × Cursor) := do
  let (tag, c) ←
    if (c.advance 1).rest.head? = some '<' then do
      let (suffix, c) ← tagRest? true (c.advance 2)
      if suffix.isEmpty || c.rest.head? ≠ some '>' then none
      else some (TagText.mk [] suffix, c.advance 1)
    else do
      let (handle, c) ← handle? c
      let (suffix, c) ← tagRest? false c
      if isNamedHandle handle then
        if suffix.isEmpty then none else some (TagText.mk handle suffix, c)
      else
        let suffix := handle.drop 1 ++ suffix
        some (if suffix.isEmpty then TagText.mk [] ['!'] else TagText.mk ['!'] suffix, c)
  if gapAt c.rest || (flow && c.rest.head? = some ',') then some (tag, c) else none

inductive Directive where
  | version (major minor : Nat)
  | handle (name stem : List Char)
  deriving DecidableEq

def versionNumber? (c : Cursor) : Option (Nat × Cursor) :=
  let (digits, c) := c.span Char.isDigit
  if digits.isEmpty || 9 < digits.length then none
  else some (digits.foldl (fun n d => 10 * n + (d.toNat - '0'.toNat)) 0, c)

def directive? (c : Cursor) : Option (Directive × Cursor) := do
  let (name, c) := (c.advance 1).span isWord
  if !gapAt c.rest then none
  else
    let (_, c) := c.span isBlank
    if name = "YAML".toList then
      let (major, c) ← versionNumber? c
      if c.rest.head? ≠ some '.' then none
      else
        let (minor, c) ← versionNumber? (c.advance 1)
        return (.version major minor, ← c.endLine?)
    else if name = "TAG".toList then
      let (handle, c) ← handle? c
      let (gap, c) := c.span isBlank
      if gap.isEmpty || (handle ≠ ['!'] && !isNamedHandle handle) then none
      else
        let (stem, c) ← tagRest? true c
        if stem.isEmpty || !gapAt c.rest then none
        else return (.handle handle stem, ← c.endLine?)
    else none

end ParseTrace.Yaml
