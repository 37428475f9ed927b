import Mathlib
import ParseTrace.Proofs.Script.Layout

/-!
The pieces of a text script and their texts. The readers of strings and names take as much as
they can, so they read a piece from in front of any rest that cannot prolong it, and they read
nothing else; any digits at all are the digits of their value behind zeros.
-/

namespace ParseTrace.Script

def Stops (f : Char → Bool) (text : List Char) : Prop :=
  ∀ c, text.head? = some c → f c = false

theorem stops_nil (f : Char → Bool) : Stops f [] := fun _ h => by cases h

theorem stops_cons {f : Char → Bool} {c : Char} {text : List Char} (h : f c = false) :
    Stops f (c :: text) := by
  intro d hd
  obtain rfl := Option.some.inj hd
  exact h

theorem Stops.mono {f g : Char → Bool} {text : List Char} (h : Stops g text)
    (sub : ∀ c, f c = true → g c = true) : Stops f text := by
  intro c hc
  by_contra yes
  have prolonged := sub c (Bool.of_not_eq_false yes)
  rw [h c hc] at prolonged
  cases prolonged

theorem stops_dropWhile (f : Char → Bool) (text : List Char) : Stops f (text.dropWhile f) := by
  intro c hc
  have stop := List.head?_dropWhile_not f text
  rw [hc] at stop
  simpa using stop

theorem takeWhile_append {f : Char → Bool} {a rest : List Char} (inside : ∀ c ∈ a, f c = true)
    (stop : Stops f rest) :
    (a ++ rest).takeWhile f = a ∧ (a ++ rest).dropWhile f = rest := by
  rw [List.takeWhile_append_of_pos inside, List.dropWhile_append_of_pos inside]
  cases rest with
  | nil => exact ⟨List.append_nil a, rfl⟩
  | cons c rest => simp [stop c rfl]

section Blanks

theorem isBlank_iff {c : Char} : isBlank c = true ↔ c = ' ' ∨ c = '\t' := by
  simp [isBlank]

theorem isLineEnd_iff {c : Char} : isLineEnd c = true ↔ c = '\n' ∨ c = '\r' := by
  simp [isLineEnd]

theorem Blanks.stops_append {f : Char → Bool} {b text : List Char} (h : Blanks b)
    (space : f ' ' = false) (tab : f '\t' = false) (stop : Stops f text) :
    Stops f (b ++ text) := by
  cases b with
  | nil => exact stop
  | cons c b =>
    rcases h c List.mem_cons_self with rfl | rfl
    · exact stops_cons space
    · exact stops_cons tab

def AtEnd (text : List Char) : Prop :=
  Stops (fun c => !isLineEnd c) text

/-- A place where a part begins: no blank, no comment and no line end. -/
def AtPart (text : List Char) : Prop :=
  ∃ c rest, text = c :: rest ∧ isBlank c = false ∧ c ≠ '#' ∧ isLineEnd c = false

theorem AtEnd.stops {f : Char → Bool} {text : List Char} (h : AtEnd text)
    (lf : f '\n' = false) (cr : f '\r' = false) : Stops f text := by
  intro c head
  have ending : isLineEnd c = true := by simpa using h c head
  rcases isLineEnd_iff.1 ending with rfl | rfl
  · exact lf
  · exact cr

theorem not_atPart_of_atEnd {text : List Char} (h : AtEnd text) : ¬AtPart text := by
  rintro ⟨c, rest, rfl, -, -, inside⟩
  have ending := h c rfl
  simp [inside] at ending

theorem Comment.skip_append {c rest : List Char} (h : Comment c) (stop : AtEnd rest) :
    skip (c ++ rest) = rest := by
  cases h with
  | none =>
    cases rest with
    | nil => rfl
    | cons d rest =>
      have ending : isLineEnd d = true := by simpa using stop d rfl
      rcases isLineEnd_iff.1 ending with rfl | rfl <;> rfl
  | @text t inside =>
    have all : ∀ d ∈ t, (fun c => !isLineEnd c) d = true := by
      intro d hd
      simpa [isLineEnd] using inside d hd
    exact (takeWhile_append all stop).2

theorem skip_blanks {b text : List Char} (h : Blanks b) : skip (b ++ text) = skip text := by
  have all : ∀ c ∈ b, isBlank c = true := fun c hc => isBlank_iff.2 (h c hc)
  rw [skip, skip, List.dropWhile_append_of_pos all]

theorem skip_append {b c rest : List Char} (blanks : Blanks b) (comment : Comment c)
    (stop : AtEnd rest) : skip (b ++ c ++ rest) = rest := by
  rw [List.append_assoc, skip_blanks blanks, comment.skip_append stop]

theorem skip_of_atPart {text : List Char} (h : AtPart text) : skip text = text := by
  obtain ⟨c, rest, rfl, solid, hash, -⟩ := h
  rw [skip, List.dropWhile_cons, solid]
  simp only [Bool.false_eq_true, if_false]
  split
  · next eq => exact absurd (List.cons.inj eq).1 hash
  · rfl

theorem exists_skip (text : List Char) :
    ∃ b c, Blanks b ∧ Comment c ∧ text = b ++ c ++ skip text ∧ (c ≠ [] → AtEnd (skip text)) := by
  have blanks : Blanks (text.takeWhile isBlank) :=
    fun c hc => isBlank_iff.1 (List.mem_takeWhile_imp hc)
  have whole : text.takeWhile isBlank ++ text.dropWhile isBlank = text :=
    List.takeWhile_append_dropWhile
  unfold skip
  split
  · next rest comment =>
    rw [comment] at whole
    refine ⟨_, '#' :: rest.takeWhile fun c => !isLineEnd c, blanks, .text ?_, ?_, fun _ => ?_⟩
    · intro c hc
      simpa [isLineEnd] using List.mem_takeWhile_imp hc
    · rw [List.append_assoc, List.cons_append, List.takeWhile_append_dropWhile, whole]
    · exact stops_dropWhile _ rest
  · next rest _ =>
    refine ⟨_, [], blanks, .none, ?_, fun h => absurd rfl h⟩
    rw [List.append_nil, whole]

theorem exists_blanks {text : List Char} (h : AtPart (skip text)) :
    ∃ b, Blanks b ∧ text = b ++ skip text := by
  obtain ⟨b, c, blanks, _, whole, ended⟩ := exists_skip text
  by_cases comment : c = []
  · rw [comment, List.append_nil] at whole
    exact ⟨b, blanks, whole⟩
  · exact absurd h (not_atPart_of_atEnd (ended comment))

end Blanks

section Strings

theorem Between.stringBody?_append {t s : List Char} (h : Between t s) (rest : List Char) :
    stringBody? (t ++ '"' :: rest) = some (t, rest) := by
  induction h with
  | nil => rfl
  | @plain c t s quote backslash _ ih =>
    have ordinary : ∀ e tail, c = '\\' → t ++ '"' :: rest = e :: tail → False :=
      fun _ _ escape _ => backslash escape
    rw [List.cons_append, stringBody?.eq_3 _ _ ordinary, if_neg quote, ih]
  | quote _ ih | backslash _ ih | newline _ ih | tab _ ih =>
    simp only [List.cons_append, stringBody?, ih]
    rfl

theorem unescape_cons {c : Char} (h : c ≠ '\\') (rest : List Char) :
    unescape (c :: rest) = c :: unescape rest := by
  rw [unescape.eq_def]
  exact if_neg h

theorem unescape_backslash (e : Char) (rest : List Char) :
    unescape ('\\' :: e :: rest) = escaped e :: unescape rest := by
  rw [unescape.eq_def]
  exact if_pos rfl

theorem Between.unescape_eq {t s : List Char} (h : Between t s) : unescape t = s := by
  induction h with
  | nil => rfl
  | plain _ backslash _ ih => rw [unescape_cons backslash, ih]
  | quote _ ih | backslash _ ih | newline _ ih | tab _ ih =>
    rw [unescape_backslash, ih]
    rfl

theorem between_of_isEscape {e : Char} (h : isEscape e = true) {t s : List Char}
    (inside : Between t s) : Between ('\\' :: e :: t) (escaped e :: s) := by
  have known : e = '"' ∨ e = '\\' ∨ e = 'n' ∨ e = 't' := by simpa [isEscape, or_assoc] using h
  rcases known with rfl | rfl | rfl | rfl
  · exact .quote inside
  · exact .backslash inside
  · exact .newline inside
  · exact .tab inside

theorem between_of_stringBody? {text body rest : List Char}
    (h : stringBody? text = some (body, rest)) :
    Between body (unescape body) ∧ text = body ++ '"' :: rest := by
  fun_induction stringBody? text generalizing body rest with
  | case1 => cases h
  | case2 e text known body' rest' found ih =>
    cases h
    obtain ⟨inside, rfl⟩ := ih found
    exact ⟨between_of_isEscape known inside, rfl⟩
  | case3 => cases h
  | case4 => cases h
  | case5 text => cases h; exact ⟨.nil, rfl⟩
  | case6 c text escape quote body' rest' found ih =>
    cases h
    obtain ⟨inside, rfl⟩ := ih found
    have backslash : c ≠ '\\' := by
      rintro rfl
      cases body' with
      | nil => exact escape _ _ rfl rfl
      | cons e t => exact escape _ _ rfl rfl
    refine ⟨?_, rfl⟩
    rw [unescape_cons backslash]
    exact .plain quote backslash inside
  | case7 => cases h

theorem exists_string?_append {t s : List Char} (h : Between t s) (rest : List Char) :
    ∃ found, string? ('"' :: t ++ ['"'] ++ rest) = some (found, rest) ∧
      found.nameValue = String.ofList s := by
  have taken : string? ('"' :: (t ++ '"' :: rest)) = some (⟨.string, '"' :: t ++ ['"'],
      '"' :: (t ++ '"' :: rest), [⟨.inner, t, t ++ '"' :: rest, []⟩]⟩, rest) := by
    rw [string?, if_pos rfl, h.stringBody?_append]
  have whole : '"' :: t ++ ['"'] ++ rest = '"' :: (t ++ '"' :: rest) := by simp
  rw [whole]
  exact ⟨_, taken, congrArg String.ofList h.unescape_eq⟩

theorem exists_of_string? {text rest : List Char} {found : Pair}
    (h : string? text = some (found, rest)) :
    ∃ t, Between t found.nameValue.toList ∧ text = '"' :: t ++ ['"'] ++ rest := by
  unfold string? at h
  split at h
  · cases h
  · split at h
    · next quote =>
      split at h
      · next body tail taken =>
        cases h
        obtain ⟨inside, rfl⟩ := between_of_stringBody? taken
        refine ⟨body, ?_, by simp [quote]⟩
        rwa [Pair.nameValue, String.toList_ofList]
      · cases h
    · cases h

theorem exists_string_append {s : String} {bare : Bool} {t : List Char}
    (h : (Piece.string s).Spelled bare t) (rest : List Char) :
    ∃ found, string (t ++ rest) = .ok (found, rest) ∧ found.nameValue = s := by
  cases h with
  | string inside =>
    obtain ⟨found, taken, value⟩ := exists_string?_append inside rest
    rw [String.ofList_toList] at value
    exact ⟨found, by rw [string, taken], value⟩

theorem exists_of_string {text rest : List Char} {found : Pair}
    (h : string text = .ok (found, rest)) :
    ∃ t, (Piece.string found.nameValue).Spelled false t ∧ text = t ++ rest := by
  unfold string at h
  split at h
  · next taken =>
    cases h
    obtain ⟨t, inside, whole⟩ := exists_of_string? taken
    exact ⟨_, .string inside, whole⟩
  · cases h

end Strings

section Names

theorem ident?_append {a rest : List Char} (h : Identifier a)
    (stop : Stops isIdentRest rest) : ident? (a ++ rest) = some (a, rest) := by
  cases h with
  | cons start inside =>
    obtain ⟨taken, left⟩ := takeWhile_append inside stop
    rw [List.cons_append, ident?, if_pos start, taken, left]

theorem exists_of_ident? {text a rest : List Char} (h : ident? text = some (a, rest)) :
    Identifier a ∧ text = a ++ rest ∧ Stops isIdentRest rest := by
  unfold ident? at h
  split at h
  · next c tail =>
    split at h
    · next start =>
      cases h
      refine ⟨.cons start fun d hd => List.mem_takeWhile_imp hd, ?_, stops_dropWhile _ _⟩
      rw [List.cons_append, List.takeWhile_append_dropWhile]
    · cases h
  · cases h

theorem exists_name_append {s : String} {bare : Bool} {t rest : List Char}
    (h : (Piece.name s).Spelled bare t) (stop : bare = true → Stops isIdentRest rest) :
    ∃ found, name (t ++ rest) = .ok (found, rest) ∧ found.nameValue = s := by
  cases h with
  | bare ident =>
    have taken := ident?_append ident (stop rfl)
    exact ⟨⟨.ident, s.toList, _, []⟩, by rw [name, taken], String.ofList_toList⟩
  | @quoted _ t inside =>
    have quote : ident? ('"' :: t ++ ['"'] ++ rest) = none := rfl
    obtain ⟨found, taken, value⟩ := exists_string?_append inside rest
    rw [String.ofList_toList] at value
    exact ⟨found, by rw [name, quote, taken], value⟩

theorem exists_of_name {text rest : List Char} {found : Pair}
    (h : name text = .ok (found, rest)) :
    ∃ bare t, (Piece.name found.nameValue).Spelled bare t ∧ text = t ++ rest ∧
      (bare = true → Stops isIdentRest rest) := by
  unfold name at h
  split at h
  · next _ a tail taken =>
    cases h
    obtain ⟨ident, whole, stop⟩ := exists_of_ident? taken
    refine ⟨true, a, ?_, whole, fun _ => stop⟩
    have spelled := Piece.Spelled.bare (s := String.ofList a)
    rw [String.toList_ofList] at spelled
    exact spelled ident
  · next _ taken =>
    cases h
    obtain ⟨t, inside, whole⟩ := exists_of_string? taken
    exact ⟨false, _, .quoted inside, whole, fun no => by cases no⟩
  · cases h

end Names

section Numbers

theorem natValue_eq (t : List Char) : natValue t = Nat.ofDigitChars 10 t 0 := rfl

theorem Decimal.natValue {n : Nat} {t : List Char} (h : Decimal n t) : natValue t = n := by
  cases h with
  | zeros k => rw [natValue_eq, Nat.ofDigitChars_append, Nat.ofDigitChars_replicate_zero,
      Nat.mul_zero, Nat.ofDigitChars_ten_toDigits]

theorem Decimal.isDigit {n : Nat} {t : List Char} (h : Decimal n t) :
    ∀ c ∈ t, c.isDigit = true := by
  cases h with
  | zeros k =>
    intro c hc
    rcases List.mem_append.1 hc with zero | digit
    · rw [List.eq_of_mem_replicate zero]
      rfl
    · exact Nat.isDigit_of_mem_toDigits (by omega) (by omega) digit

theorem Decimal.ne_nil {n : Nat} {t : List Char} (h : Decimal n t) : t ≠ [] := by
  cases h with
  | zeros k =>
    intro empty
    have none := (List.append_eq_nil_iff.1 empty).2
    have some : 0 < (Nat.toDigits 10 n).length := Nat.length_toDigits_pos
    rw [none] at some
    cases some

theorem toDigits_digitValue {c : Char} (h : c.isDigit = true) :
    digitValue c < 10 ∧ Nat.toDigits 10 (digitValue c) = [c] := by
  have bounds : 48 ≤ c.toNat ∧ c.toNat ≤ 57 := Char.isDigit_iff_toNat.1 h
  have value : digitValue c = c.toNat - 48 := rfl
  have small : digitValue c < 10 := by omega
  refine ⟨small, ?_⟩
  have same : (digitValue c).digitChar = c := by
    rw [← Char.toNat_inj, Nat.toNat_digitChar_of_lt_ten small]
    omega
  rw [Nat.toDigits_of_lt_base small, same]

theorem decimal_natValue {t : List Char} (nonempty : t ≠ [])
    (digits : ∀ c ∈ t, c.isDigit = true) : Decimal (natValue t) t := by
  induction t using List.reverseRecOn with
  | nil => exact absurd rfl nonempty
  | append_singleton t c ih =>
    obtain ⟨small, last⟩ := toDigits_digitValue (digits c (by simp))
    have value : natValue (t ++ [c]) = 10 * natValue t + digitValue c := by
      rw [natValue, List.foldl_append]
      rfl
    rw [value]
    by_cases first : t = []
    · subst first
      have alone := Decimal.zeros (n := digitValue c) 0
      rw [last] at alone
      simpa [natValue] using alone
    · have before := ih first fun d hd => digits d (List.mem_append_left _ hd)
      generalize natValue t = n at before
      cases before with
      | zeros k =>
        rcases Nat.eq_zero_or_pos n with rfl | positive
        · have more := Decimal.zeros (n := digitValue c) (k + 1)
          rw [last, List.replicate_succ'] at more
          simpa [Nat.toDigits_zero] using more
        · have longer := Decimal.zeros (n := 10 * n + digitValue c) k
          rw [← Nat.toDigits_append_toDigits (by omega) positive small, last] at longer
          simpa only [List.append_assoc] using longer

theorem Decimal.decimal? {n : Nat} {t : List Char} (h : Decimal n t) : decimal? t = some n := by
  have digits : t.all Char.isDigit = true := List.all_eq_true.2 h.isDigit
  rw [Script.decimal?, if_pos ⟨h.ne_nil, digits⟩, h.natValue]

theorem Decimal.unsigned? {n : Nat} {t : List Char} (h : Decimal n t) :
    unsigned? t = some (n : Int) := by
  unfold Script.unsigned?
  split
  · have sign := h.isDigit '+' List.mem_cons_self
    cases sign
  · rw [h.decimal?]
    rfl

theorem Decimal.signed? {n : Nat} {t : List Char} (h : Decimal n t) :
    signed? t = some (n : Int) := by
  unfold Script.signed?
  split
  · have sign := h.isDigit '-' List.mem_cons_self
    cases sign
  · exact h.unsigned?

theorem Decimal.signed?_negative {n : Nat} {t : List Char} (h : Decimal n t) :
    Script.signed? ('-' :: t) = some (-n : Int) := by
  rw [Script.signed?, h.decimal?]
  rfl

end Numbers

section Beginnings

theorem atPart_of_class {f : Char → Bool} {c : Char} {rest : List Char} (inside : f c = true)
    (outside : f ' ' = false ∧ f '\t' = false ∧ f '#' = false ∧ f '\n' = false ∧ f '\r' = false) :
    AtPart (c :: rest) := by
  obtain ⟨space, tab, hash, lf, cr⟩ := outside
  refine ⟨c, rest, rfl, ?_, ?_, ?_⟩
  · by_contra blank
    rcases isBlank_iff.1 (Bool.of_not_eq_false blank) with rfl | rfl <;> simp_all
  · rintro rfl
    simp_all
  · by_contra ending
    rcases isLineEnd_iff.1 (Bool.of_not_eq_false ending) with rfl | rfl <;> simp_all

theorem Decimal.atPart {n : Nat} {t : List Char} (h : Decimal n t) (rest : List Char) :
    AtPart (t ++ rest) := by
  cases t with
  | nil => exact absurd rfl h.ne_nil
  | cons c t => exact atPart_of_class (h.isDigit c List.mem_cons_self) (by decide)

theorem Piece.Spelled.atPart {p : Piece} {bare : Bool} {t : List Char} (h : p.Spelled bare t)
    (rest : List Char) : AtPart (t ++ rest) := by
  cases h with
  | string | quoted => exact ⟨'"', _, rfl, by decide, by decide, by decide⟩
  | @bare s ident =>
    generalize s.toList = t at ident
    cases ident with
    | cons start _ => exact atPart_of_class start (by decide)
  | nat decimal | int decimal => exact decimal.atPart rest
  | negative => exact ⟨'-', _, rfl, by decide, by decide, by decide⟩

theorem Piece.Spelled.stops_isDigit {s : String} {bare : Bool} {t : List Char}
    (h : (Piece.name s).Spelled bare t) (rest : List Char) :
    Stops Char.isDigit (t ++ rest) := by
  cases h with
  | quoted => exact stops_cons (by decide)
  | bare ident =>
    generalize s.toList = t at ident
    cases ident with
    | @cons c t start _ =>
      refine stops_cons ?_
      by_contra digit
      have bounds : 48 ≤ c.toNat ∧ c.toNat ≤ 57 :=
        Char.isDigit_iff_toNat.1 (Bool.of_not_eq_false digit)
      have start : (c.isUpper ∨ c.isLower) ∨ c = '_' := by
        simpa [isIdentStart, Char.isAlpha] using start
      rcases start with (upper | lower) | rfl
      · have bound : 65 ≤ c.toNat ∧ c.toNat ≤ 90 := by
          simpa [Char.isUpper, UInt32.le_iff_toNat_le] using upper
        omega
      · have bound : 97 ≤ c.toNat ∧ c.toNat ≤ 122 := by
          simpa [Char.isLower, UInt32.le_iff_toNat_le] using lower
        omega
      · exact digit rfl

theorem Piece.Spelled.stops_isIdentRest {s : String} {bare : Bool} {t : List Char}
    (h : (Piece.string s).Spelled bare t) (rest : List Char) :
    Stops isIdentRest (t ++ rest) := by
  cases h with
  | string => exact stops_cons (by decide)

theorem isIdentRest_of_isDigit (c : Char) (h : c.isDigit = true) : isIdentRest c = true := by
  simp [isIdentRest, Char.isAlphanum, h]

theorem Blanks.stops_of_ne_nil {f : Char → Bool} {b : List Char} (h : Blanks b)
    (nonempty : b ≠ []) (space : f ' ' = false) (tab : f '\t' = false) (text : List Char) :
    Stops f (b ++ text) := by
  cases b with
  | nil => exact absurd rfl nonempty
  | cons c b =>
    rcases h c List.mem_cons_self with rfl | rfl
    · exact stops_cons space
    · exact stops_cons tab

end Beginnings

end ParseTrace.Script
