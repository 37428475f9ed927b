import ParseTrace.Json.Text

/-!
JSON texts as tokens. Reading a value and passing over it can judge the same
characters differently, so strings and numbers keep what a reader would say of them.
The list ends with the first token that nobody accepts.
-/

namespace ParseTrace.Json

inductive Token where
  | openSeq
  | closeSeq
  | openMap
  | closeMap
  | comma
  | colon
  | null
  | bool (b : Bool)
  | text (contents : Except Fault String)
  | number (value : Except Fault (Option Int))
  | brokenText (reading skipping : Fault)
  | broken (reading skipping : Fault)

def isSpace (c : Char) : Bool :=
  c = ' ' || c = '\t' || c = '\n' || c = '\r'

def punctuation? (c : Char) : Option Token :=
  if c = '[' then some .openSeq
  else if c = ']' then some .closeSeq
  else if c = '{' then some .openMap
  else if c = '}' then some .closeMap
  else if c = ',' then some .comma
  else if c = ':' then some .colon
  else none

/-- A fault where the text may just have ended: one who passes over a number does not
tell the two apart. -/
def brokenNumber (text : List Char) : Token :=
  match text with
  | [] => .broken .ended .malformed
  | _ => .broken .malformed .malformed

def decimal (digits : List Char) : Nat :=
  digits.foldl (fun n c => 10 * n + (c.toNat - '0'.toNat)) 0

def significand (n : Nat) : List Char → Nat × Nat
  | [] => (n, 0)
  | c :: rest =>
    let next := 10 * n + (c.toNat - '0'.toNat)
    if next < UInt64.size then significand next rest else (n, rest.length + 1)

/-- The natural number of at most 53 significant bits that lies nearest; a tie goes to
the even one. -/
def nearest53 (n : Nat) : Nat :=
  let shift := n.log2 - 52
  let kept := n >>> shift
  let lost := n - (kept <<< shift)
  let half := (1 <<< shift) / 2
  if shift = 0 then n
  else if lost > half ∨ (lost = half ∧ kept % 2 = 1) then (kept + 1) <<< shift
  else kept <<< shift

/-- Whether a number is too large for a double: the product of two rounded factors
rounds to infinity. -/
def exceedsDouble (n : Nat) (exponent : Int) : Bool :=
  n != 0 && 0 ≤ exponent &&
    (308 < exponent ||
      1 <<< 1024 - 1 <<< 970 ≤ nearest53 n * nearest53 (Nat.pow 10 exponent.toNat))

def numberValue (negative : Bool) (whole : List Char) (fraction : Option (List Char))
    (exponent : Option (Bool × List Char)) : Except Fault (Option Int) :=
  let n := decimal whole
  if fraction.isNone && exponent.isNone && n < UInt64.size then
    if !negative then .ok (some n)
    else if 0 < n ∧ n ≤ 1 <<< 63 then .ok (some (-n))
    else .ok none
  else
    let (kept, left) := significand 0 whole
    let places := fraction.getD []
    let (kept, dropped) := significand kept places
    let used := places.length - dropped
    let power : Int := match exponent with
      | none => 0
      | some (true, digits) => -decimal digits
      | some (false, digits) => decimal digits
    if exceedsDouble kept (left - used + power) then .error .malformed else .ok none

def digits (text : List Char) : List Char × List Char :=
  (text.takeWhile Char.isDigit, text.dropWhile Char.isDigit)

def numberEnd (negative : Bool) (whole : List Char) (fraction : Option (List Char))
    (text : List Char) : Token × List Char :=
  match text with
  | [] => (.number (numberValue negative whole fraction none), [])
  | c :: rest =>
    if c = 'e' || c = 'E' then
      let minus := rest.head? = some '-'
      let rest := if minus || rest.head? = some '+' then rest.drop 1 else rest
      match digits rest with
      | ([], _) => (brokenNumber rest, [])
      | (ds, rest) => (.number (numberValue negative whole fraction (some (minus, ds))), rest)
    else (.number (numberValue negative whole fraction none), text)

def numberRest (negative : Bool) (whole : List Char) (text : List Char) :
    Token × List Char :=
  match text with
  | '.' :: rest =>
    match digits rest with
    | ([], _) => (brokenNumber rest, [])
    | (ds, rest) => numberEnd negative whole (some ds) rest
  | _ => numberEnd negative whole none text

def number (negative : Bool) (text : List Char) : Token × List Char :=
  match digits text with
  | ([], _) => (brokenNumber text, [])
  | ('0' :: _ :: _, _) => (.broken .malformed .malformed, [])
  | (ds, rest) => numberRest negative ds rest

def word (token : Token) : List Char → List Char → Token × List Char
  | [], text => (token, text)
  | _ :: _, [] => (.broken .ended .ended, [])
  | w :: rest, c :: text =>
    if w = c then word token rest text else (.broken .malformed .malformed, [])

def tokenAt (c : Char) (rest : List Char) : Token × List Char :=
  match punctuation? c with
  | some token => (token, rest)
  | none =>
    if c = '"' then
      match readString rest with
      | .closed contents rest => (.text (contents.map String.ofList), rest)
      | .broken reading skipping => (.brokenText reading skipping, [])
    else if c = '-' then number true rest
    else if c.isDigit then number false (c :: rest)
    else if c = 'n' then word .null "ull".toList rest
    else if c = 't' then word (.bool true) "rue".toList rest
    else if c = 'f' then word (.bool false) "alse".toList rest
    else (.broken .malformed .malformed, [])

theorem length_digits_le (text : List Char) : (digits text).2.length ≤ text.length :=
  (List.dropWhile_sublist _).length_le

theorem length_numberEnd_le (negative : Bool) (whole : List Char)
    (fraction : Option (List Char)) (text : List Char) :
    (numberEnd negative whole fraction text).2.length ≤ text.length := by
  unfold numberEnd
  split
  · exact Nat.le_refl _
  · next c rest =>
    split
    · have trimmed : ∀ b : Bool, (if b then rest.drop 1 else rest).length ≤ rest.length := by
        intro b
        split
        · rw [List.length_drop]; omega
        · exact Nat.le_refl _
      simp only
      split
      · exact Nat.zero_le _
      · next ds rest' h =>
        have shorter := length_digits_le
          (if (rest.head? = some '-' || rest.head? = some '+') then rest.drop 1 else rest)
        rw [h] at shorter
        have := trimmed (rest.head? = some '-' || rest.head? = some '+')
        simp only [List.length_cons] at *
        omega
    · exact Nat.le_refl _

theorem length_numberRest_le (negative : Bool) (whole text : List Char) :
    (numberRest negative whole text).2.length ≤ text.length := by
  unfold numberRest
  split
  · next rest =>
    split
    · exact Nat.zero_le _
    · next ds rest' _ h =>
      have shorter := length_digits_le rest
      rw [h] at shorter
      have := length_numberEnd_le negative whole (some ds) rest'
      simp only [List.length_cons] at *
      omega
  · exact length_numberEnd_le _ _ _ _

theorem length_number_le (negative : Bool) (text : List Char) :
    (number negative text).2.length ≤ text.length := by
  have shorter := length_digits_le text
  unfold number
  split
  · exact Nat.zero_le _
  · exact Nat.zero_le _
  · next ds rest _ _ h =>
    rw [h] at shorter
    exact Nat.le_trans (length_numberRest_le negative ds rest) shorter

theorem length_number_lt (c : Char) (rest : List Char) (hc : c.isDigit = true) :
    (number false (c :: rest)).2.length < (c :: rest).length := by
  have split_eq : digits (c :: rest) =
      (c :: rest.takeWhile Char.isDigit, rest.dropWhile Char.isDigit) := by
    simp [digits, hc]
  have shorter : (rest.dropWhile Char.isDigit).length ≤ rest.length :=
    (List.dropWhile_sublist _).length_le
  unfold number
  rw [split_eq]
  split
  · simp
  · simp
  · next ds rest' _ h =>
    cases h
    have := length_numberRest_le false (c :: rest.takeWhile Char.isDigit)
      (rest.dropWhile Char.isDigit)
    simp only [List.length_cons]
    omega

theorem length_word_le (token : Token) (w text : List Char) :
    (word token w text).2.length ≤ text.length := by
  induction w generalizing text with
  | nil => exact Nat.le_refl _
  | cons a w ih =>
    cases text with
    | nil => exact Nat.le_refl _
    | cons c text =>
      rw [word]
      split
      · have := ih text
        simp only [List.length_cons]
        omega
      · exact Nat.zero_le _

theorem length_tokenAt_le (c : Char) (rest : List Char) :
    (tokenAt c rest).2.length ≤ rest.length := by
  unfold tokenAt
  split
  · exact Nat.le_refl _
  · split
    · split
      · next h => exact length_readString_le h
      · exact Nat.zero_le _
    · split
      · exact length_number_le true rest
      · split
        · next hc =>
          have := length_number_lt c rest hc
          simp only [List.length_cons] at this
          omega
        · repeat' split
          all_goals first
            | exact length_word_le _ _ _
            | exact Nat.zero_le _

def tokens (text : List Char) : List Token :=
  match text with
  | [] => []
  | c :: rest =>
    if isSpace c then tokens rest
    else
      have := length_tokenAt_le c rest
      (tokenAt c rest).1 :: tokens (tokenAt c rest).2
termination_by text.length
decreasing_by
  · simp only [List.length_cons]; omega
  · simp only [List.length_cons]; omega

end ParseTrace.Json
