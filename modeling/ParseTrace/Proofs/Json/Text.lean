import ParseTrace.Json.Token
import ParseTrace.Proofs.Json.Spelling
import ParseTrace.Proofs.Script.Part

/-!
A string, a number or a mark of punctuation is read as one token from in front of any rest,
except that digits must not go on behind a number. What is written for a string is one of its
texts.
-/

namespace ParseTrace.Json

open Script (Stops stops_cons takeWhile_append)

theorem charText_escapedChar (c : Char) : CharText c (escapedChar c) := by
  unfold escapedChar
  split
  · next h => subst h; exact .quote
  split
  · next h => subst h; exact .backslash
  split
  · next h => subst h; exact .backspace
  split
  · next h => subst h; exact .formFeed
  split
  · next h => subst h; exact .lineFeed
  split
  · next h => subst h; exact .carriageReturn
  split
  · next h => subst h; exact .tab
  split
  · next control =>
    have zero : ∀ {n : Nat}, n = 0 → HexDigit n '0' := by
      rintro n rfl
      exact .lower (by decide)
    have digit : ∀ {n m : Nat}, n = m → m < 16 → HexDigit n (hexChar m) := by
      rintro n m rfl small
      exact .lower small
    exact .unit (.digits (zero (by omega)) (zero (by omega)) (digit (by omega) (by omega))
      (digit rfl (by omega)))
  · next quote backslash _ _ _ _ _ plain => exact .plain quote backslash (Nat.not_lt.1 plain)

theorem charsText_escaped (s : List Char) : CharsText s (s.flatMap escapedChar) := by
  induction s with
  | nil => exact .nil
  | cons c s ih =>
    rw [List.flatMap_cons]
    exact .cons (charText_escapedChar c) ih

theorem stringText_escaped (s : String) : StringText s (escaped s.toList) :=
  .quoted (charsText_escaped s.toList)

section Tokens

theorem tokens_nil : tokens [] = [] := by
  rw [tokens]

theorem tokens_cons {c : Char} (solid : isSpace c = false) (rest : List Char) :
    tokens (c :: rest) = (tokenAt c rest).1 :: tokens (tokenAt c rest).2 := by
  rw [tokens]
  simp [solid]

theorem tokens_spaces {spaces : List Char} (all : ∀ c ∈ spaces, isSpace c = true)
    (rest : List Char) : tokens (spaces ++ rest) = tokens rest := by
  induction spaces with
  | nil => rfl
  | cons c spaces ih =>
    rw [List.cons_append, tokens, if_pos (all c List.mem_cons_self)]
    exact ih fun d hd => all d (List.mem_cons_of_mem _ hd)

theorem tokens_punctuation {c : Char} {token : Token} (mark : punctuation? c = some token)
    (rest : List Char) : tokens (c :: rest) = token :: tokens rest := by
  have solid : isSpace c = false := by
    unfold punctuation? at mark
    unfold isSpace
    grind
  rw [tokens_cons solid, tokenAt, mark]

theorem StringText.tokens {s : String} {t : List Char} (h : StringText s t)
    (rest : List Char) : tokens (t ++ rest) = .text (.ok s) :: tokens rest := by
  cases h with
  | @quoted t inside =>
    have whole : '"' :: t ++ ['"'] ++ rest = '"' :: (t ++ '"' :: rest) := by simp
    have read : tokenAt '"' (t ++ '"' :: rest) = (.text (.ok s), rest) := by
      simp [tokenAt, punctuation?, inside.readString, Except.map]
    rw [whole, tokens_cons rfl, read]

end Tokens

section Numbers

/-- What prolongs the digits of a number or makes another number of it. -/
def continuesNumber (c : Char) : Bool :=
  c.isDigit || c = '.' || c = 'e' || c = 'E'

theorem head_toDigits {n : Nat} (positive : 0 < n) : (Nat.toDigits 10 n).head? ≠ some '0' := by
  induction n using Nat.strong_induction_on with
  | _ n ih =>
    by_cases small : n < 10
    · rw [Nat.toDigits_of_lt_base small]
      simp
      omega
    · rw [Nat.toDigits_of_base_le (by omega) (by omega)]
      have shorter := ih (n / 10) (by omega) (by omega)
      cases ds : Nat.toDigits 10 (n / 10) with
      | nil => exact absurd ds Nat.toDigits_ne_nil
      | cons d ds' => rw [ds] at shorter; simpa using shorter

theorem digits_toDigits (n : Nat) {rest : List Char} (stop : Stops continuesNumber rest) :
    digits (Nat.toDigits 10 n ++ rest) = (Nat.toDigits 10 n, rest) := by
  have inside : ∀ c ∈ Nat.toDigits 10 n, Char.isDigit c = true :=
    fun c hc => Nat.isDigit_of_mem_toDigits (by omega) (by omega) hc
  have ended : Stops Char.isDigit rest := stop.mono fun c hc => by simp [continuesNumber, hc]
  obtain ⟨taken, left⟩ := takeWhile_append inside ended
  rw [digits, taken, left]

theorem decimal_toDigits (n : Nat) : decimal (Nat.toDigits 10 n) = n :=
  Nat.ofDigitChars_ten_toDigits

theorem numberRest_of_stops {negative : Bool} {whole rest : List Char}
    (stop : Stops continuesNumber rest) :
    numberRest negative whole rest = (.number (numberValue negative whole none none), rest) := by
  cases rest with
  | nil => rfl
  | cons c rest =>
    have ends := stop c rfl
    simp only [continuesNumber, Bool.or_eq_false_iff, decide_eq_false_iff_not] at ends
    obtain ⟨⟨⟨-, dot⟩, e⟩, E⟩ := ends
    unfold numberRest
    split
    · next point => exact absurd (List.cons.inj point).1 dot
    · simp [numberEnd, e, E]

theorem number_toDigits (negative : Bool) (n : Nat) {rest : List Char}
    (stop : Stops continuesNumber rest) :
    number negative (Nat.toDigits 10 n ++ rest) =
      (.number (numberValue negative (Nat.toDigits 10 n) none none), rest) := by
  have read := digits_toDigits n stop
  unfold number
  rw [read]
  split
  · next none => exact absurd (Prod.mk.inj none).1 Nat.toDigits_ne_nil
  · next leading =>
    -- a leading zero with a digit behind it is no number's
    have digits := (Prod.mk.inj leading).1
    by_cases zero : n = 0
    · rw [zero, Nat.toDigits_zero] at digits
      cases digits
    · have head := head_toDigits (Nat.pos_of_ne_zero zero)
      rw [digits] at head
      exact absurd rfl head
  · next whole =>
    obtain ⟨rfl, rfl⟩ := Prod.mk.inj whole
    exact numberRest_of_stops stop

theorem tokens_digit {d : Char} (digit : d.isDigit = true) (rest : List Char) :
    tokens (d :: rest) = (number false (d :: rest)).1 :: tokens (number false (d :: rest)).2 := by
  have other : ∀ c : Char, c.isDigit = false → d ≠ c := by
    rintro c no rfl
    rw [no] at digit
    cases digit
  have solid : isSpace d = false := by simp [isSpace, other]
  have mark : punctuation? d = none := by simp [punctuation?, other]
  rw [tokens_cons solid, tokenAt, mark]
  simp [other, digit]

theorem tokens_toDigits {n : Nat} (bounded : n < UInt64.size) {rest : List Char}
    (stop : Stops continuesNumber rest) :
    tokens (Nat.toDigits 10 n ++ rest) = .number (.ok (some n)) :: tokens rest := by
  have value : numberValue false (Nat.toDigits 10 n) none none = .ok (some n) := by
    simp [numberValue, decimal_toDigits, bounded]
  have read := number_toDigits false n stop
  rw [value] at read
  cases ds : Nat.toDigits 10 n with
  | nil => exact absurd ds Nat.toDigits_ne_nil
  | cons d ds' =>
    have digit : d.isDigit = true :=
      Nat.isDigit_of_mem_toDigits (b := 10) (n := n) (by omega) (by omega) (by rw [ds]; simp)
    rw [ds, List.cons_append] at read
    rw [List.cons_append, tokens_digit digit, read]

theorem tokens_nat {n : Nat} (bounded : n < UInt64.size) {rest : List Char}
    (stop : Stops continuesNumber rest) :
    tokens ((toString n).toList ++ rest) = .number (.ok (some n)) :: tokens rest := by
  rw [Nat.toString_eq_ofList_toDigits, String.toList_ofList, tokens_toDigits bounded stop]

theorem tokens_negative {n : Nat} (positive : 0 < n) (bounded : n ≤ 2 ^ 63) {rest : List Char}
    (stop : Stops continuesNumber rest) :
    tokens ('-' :: Nat.toDigits 10 n ++ rest) = .number (.ok (some (-n))) :: tokens rest := by
  have fits : n < UInt64.size := Nat.lt_of_le_of_lt bounded (by decide)
  have value : numberValue true (Nat.toDigits 10 n) none none = .ok (some (-n)) := by
    simpa [numberValue, decimal_toDigits, fits, positive] using bounded
  have minus : tokenAt '-' (Nat.toDigits 10 n ++ rest) =
      number true (Nat.toDigits 10 n ++ rest) := rfl
  rw [List.cons_append, tokens_cons rfl, minus, number_toDigits true n stop, value]

theorem tokens_int {n : Int} (low : -2 ^ 63 ≤ n) (high : n < UInt64.size) {rest : List Char}
    (stop : Stops continuesNumber rest) :
    tokens ((toString n).toList ++ rest) = .number (.ok (some n)) :: tokens rest := by
  cases n with
  | ofNat n => exact tokens_nat (Int.ofNat_lt.1 high) stop
  | negSucc n =>
    have written : (toString (Int.negSucc n)).toList = '-' :: Nat.toDigits 10 (n + 1) := by
      change ("-" ++ Nat.repr (n + 1)).toList = _
      rw [String.toList_append, Nat.toList_repr]
      rfl
    rw [written, tokens_negative (Nat.succ_pos n) (by omega) stop]
    rfl

end Numbers

end ParseTrace.Json
