import Mathlib
import ParseTrace.Json.Text

/-!
How a string may be spelled in JSON, said without a reader. A character stands for itself,
behind a backslash as itself or as a letter, or as the number of its code, in hexadecimal
digits of either case; beyond sixteen bits the number is that of a surrogate pair. The
reader finds the character from in front of any rest.
-/

namespace ParseTrace.Json

inductive HexDigit : Nat → Char → Prop
  | lower {n : Nat} : n < 16 → HexDigit n n.digitChar
  | upper {n : Nat} : n < 16 → HexDigit n n.digitChar.toUpper

inductive UnitText (n : Nat) : List Char → Prop
  | digits {a b c d : Char} : HexDigit (n / 0x1000) a → HexDigit (n / 0x100 % 0x10) b →
      HexDigit (n / 0x10 % 0x10) c → HexDigit (n % 0x10) d → UnitText n [a, b, c, d]

def highSurrogate (c : Char) : Nat :=
  0xd800 + (c.toNat - 0x10000) / 0x400

def lowSurrogate (c : Char) : Nat :=
  0xdc00 + (c.toNat - 0x10000) % 0x400

inductive CharText : Char → List Char → Prop
  | plain {c : Char} : c ≠ '"' → c ≠ '\\' → 0x20 ≤ c.toNat → CharText c [c]
  | quote : CharText '"' ['\\', '"']
  | backslash : CharText '\\' ['\\', '\\']
  | slash : CharText '/' ['\\', '/']
  | backspace : CharText '\x08' ['\\', 'b']
  | formFeed : CharText '\x0c' ['\\', 'f']
  | lineFeed : CharText '\n' ['\\', 'n']
  | carriageReturn : CharText '\r' ['\\', 'r']
  | tab : CharText '\t' ['\\', 't']
  | unit {c : Char} {t : List Char} : UnitText c.toNat t → CharText c ('\\' :: 'u' :: t)
  | pair {c : Char} {t t' : List Char} : 0x10000 ≤ c.toNat → UnitText (highSurrogate c) t →
      UnitText (lowSurrogate c) t' → CharText c ('\\' :: 'u' :: t ++ '\\' :: 'u' :: t')

inductive CharsText : List Char → List Char → Prop
  | nil : CharsText [] []
  | cons {c : Char} {s t t' : List Char} :
      CharText c t → CharsText s t' → CharsText (c :: s) (t ++ t')

inductive StringText (s : String) : List Char → Prop
  | quoted {t : List Char} : CharsText s.toList t → StringText s ('"' :: t ++ ['"'])

section Digits

theorem hexValue?_digitChar : ∀ n < 16, hexValue? n.digitChar = some n := by decide

theorem hexValue?_toUpper : ∀ n < 16, hexValue? n.digitChar.toUpper = some n := by decide

theorem HexDigit.hexValue? {n : Nat} {c : Char} (h : HexDigit n c) : hexValue? c = some n := by
  cases h with
  | lower small => exact hexValue?_digitChar n small
  | upper small => exact hexValue?_toUpper n small

theorem UnitText.codeUnit {n : Nat} {t : List Char} (h : UnitText n t) (rest : List Char) :
    codeUnit (t ++ rest) = .ok (n, rest) := by
  cases h with
  | digits a b c d =>
    have value : ((n / 0x1000 * 16 + n / 0x100 % 0x10) * 16 + n / 0x10 % 0x10) * 16 + n % 0x10 =
        n := by omega
    simp only [List.cons_append, List.nil_append, Json.codeUnit, a.hexValue?, b.hexValue?,
      c.hexValue?, d.hexValue?, value]

end Digits

section Characters

theorem readString_escape {e c : Char} (escape : unescape? e = some c) (rest : List Char) :
    readString ('\\' :: e :: rest) = (readString rest).cons c := by
  rw [readString]
  simp [escape]

theorem unescape?_u : unescape? 'u' = none := by decide

theorem readString_unit {n : Nat} {text rest : List Char} (unit : codeUnit text = .ok (n, rest))
    (whole : isSurrogate n = false) :
    readString ('\\' :: 'u' :: text) = (readString rest).cons (.ofNat n) := by
  have high : isHighSurrogate n = false := by
    simp only [isSurrogate, isHighSurrogate, Bool.and_eq_false_iff, decide_eq_false_iff_not] at *
    omega
  have low : isLowSurrogate n = false := by
    simp only [isSurrogate, isLowSurrogate, Bool.and_eq_false_iff, decide_eq_false_iff_not] at *
    omega
  rw [readString]
  simp only [Char.reduceEq, if_false, Char.reduceToNat, Nat.reduceLT, if_true, unescape?_u]
  split
  · next found => rw [unit] at found; cases found
  · next found =>
    rw [unit] at found
    cases found
    simp only [high, low, Bool.false_eq_true, if_false]

theorem readString_pair {high low : Nat} {text text' rest : List Char}
    (first : codeUnit text = .ok (high, '\\' :: 'u' :: text')) (isHigh : isHighSurrogate high)
    (second : codeUnit text' = .ok (low, rest)) (isLow : isLowSurrogate low) :
    readString ('\\' :: 'u' :: text) = (readString rest).cons (pairedChar high low) := by
  have half : secondHalf high ('\\' :: 'u' :: text') = .paired (pairedChar high low) rest := by
    simp only [secondHalf, if_true, second, isLow]
  rw [readString]
  simp only [Char.reduceEq, if_false, Char.reduceToNat, Nat.reduceLT, if_true, unescape?_u]
  split
  · next found => rw [first] at found; cases found
  · next found =>
    cases first.symm.trans found
    rw [if_pos isHigh]
    split
    · next found => rw [half] at found; cases found
    · next found => rw [half] at found; cases found
    · next found =>
      obtain ⟨rfl, rfl⟩ := SecondHalf.paired.inj (half.symm.trans found)
      rfl

theorem isSurrogate_toNat (c : Char) : isSurrogate c.toNat = false := by
  have valid : c.toNat < 0xd800 ∨ (0xdfff < c.toNat ∧ c.toNat < 0x110000) := c.valid
  simp only [isSurrogate, Bool.and_eq_false_iff, decide_eq_false_iff_not]
  omega

theorem toNat_lt (c : Char) : c.toNat < 0x110000 := by
  have valid : c.toNat < 0xd800 ∨ (0xdfff < c.toNat ∧ c.toNat < 0x110000) := c.valid
  omega

theorem isHighSurrogate_highSurrogate (c : Char) : isHighSurrogate (highSurrogate c) = true := by
  have bound := toNat_lt c
  rw [isHighSurrogate, highSurrogate, Bool.and_eq_true, decide_eq_true_iff, decide_eq_true_iff]
  omega

theorem isLowSurrogate_lowSurrogate (c : Char) : isLowSurrogate (lowSurrogate c) = true := by
  rw [isLowSurrogate, lowSurrogate, Bool.and_eq_true, decide_eq_true_iff, decide_eq_true_iff]
  omega

theorem pairedChar_surrogates {c : Char} (large : 0x10000 ≤ c.toNat) :
    pairedChar (highSurrogate c) (lowSurrogate c) = c := by
  have sum : 0x10000 + (highSurrogate c - 0xd800) * 0x400 + (lowSurrogate c - 0xdc00) =
      c.toNat := by
    simp only [highSurrogate, lowSurrogate]
    omega
  rw [pairedChar, sum, Char.ofNat_toNat]

theorem CharText.readString {c : Char} {t : List Char} (h : CharText c t) (rest : List Char) :
    readString (t ++ rest) = (readString rest).cons c := by
  cases h with
  | plain quote backslash solid =>
    have control : ¬ c.toNat < 0x20 := Nat.not_lt.2 solid
    rw [List.singleton_append, readString.eq_def]
    simp [quote, backslash, control]
  | quote => exact readString_escape rfl rest
  | backslash => exact readString_escape rfl rest
  | slash => exact readString_escape rfl rest
  | backspace => exact readString_escape rfl rest
  | formFeed => exact readString_escape rfl rest
  | lineFeed => exact readString_escape rfl rest
  | carriageReturn => exact readString_escape rfl rest
  | tab => exact readString_escape rfl rest
  | unit unit =>
    have read := readString_unit (unit.codeUnit rest) (isSurrogate_toNat c)
    rwa [Char.ofNat_toNat] at read
  | @pair _ t t' large high low =>
    have first := high.codeUnit ('\\' :: 'u' :: t' ++ rest)
    have read := readString_pair first (isHighSurrogate_highSurrogate c) (low.codeUnit rest)
      (isLowSurrogate_lowSurrogate c)
    rw [pairedChar_surrogates large] at read
    simpa only [List.cons_append, List.append_assoc] using read

theorem CharsText.readString {s t : List Char} (h : CharsText s t) (rest : List Char) :
    readString (t ++ '"' :: rest) = .closed (.ok s) rest := by
  induction h with
  | nil =>
    rw [List.nil_append, readString.eq_def]
    rfl
  | cons first _ ih =>
    rw [List.append_assoc, first.readString, ih]
    rfl

end Characters

end ParseTrace.Json
