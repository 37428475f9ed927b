import ParseTrace.Proofs.Json.Text
import ParseTrace.Text.Quoted

/-!
Quoted text read back. Each character is written in a form that tells where it ends and which
character it is, so no two texts are quoted alike; a quoted text is on one line; and a quote
inside it stands behind a backslash, which shows from behind where the text begins.
-/

namespace ParseTrace.Text

theorem toString_text (s : String) : toString s = s := rfl

section Hexadecimal

def hexValue (digits : List Char) : Nat :=
  digits.foldl (fun n d => 16 * n + (Json.hexValue? d).getD 0) 0

theorem hexValue_toDigits (n : Nat) : hexValue (Nat.toDigits 16 n) = n := by
  induction n using Nat.strong_induction_on with
  | _ n ih =>
    have last := Json.hexValue?_digitChar
    by_cases small : n < 16
    · rw [Nat.toDigits_of_lt_base small]
      simp [hexValue, last n small]
    · rw [Nat.toDigits_of_base_le (by omega) (by omega), hexValue, List.foldl_append]
      change 16 * hexValue (Nat.toDigits 16 (n / 16)) +
        (Json.hexValue? (Nat.digitChar (n % 16))).getD 0 = n
      rw [ih (n / 16) (by omega), last (n % 16) (by omega), Option.getD_some]
      omega

theorem forall_mem_toDigits {P : Char → Prop} (each : ∀ k < 16, P (Nat.digitChar k)) (n : Nat) :
    ∀ c ∈ Nat.toDigits 16 n, P c := by
  induction n using Nat.strong_induction_on with
  | _ n ih =>
    by_cases small : n < 16
    · rw [Nat.toDigits_of_lt_base small]
      simpa using each n small
    · rw [Nat.toDigits_of_base_le (by omega) (by omega)]
      intro c hc
      rcases List.mem_append.1 hc with front | last
      · exact ih (n / 16) (by omega) c front
      · rw [List.mem_singleton.1 last]
        exact each (n % 16) (by omega)

end Hexadecimal

def unquoteChar? : List Char → Option (Char × List Char)
  | '\\' :: '0' :: rest => some ('\x00', rest)
  | '\\' :: 't' :: rest => some ('\t', rest)
  | '\\' :: 'r' :: rest => some ('\r', rest)
  | '\\' :: 'n' :: rest => some ('\n', rest)
  | '\\' :: '"' :: rest => some ('"', rest)
  | '\\' :: '\\' :: rest => some ('\\', rest)
  | '\\' :: 'u' :: '{' :: rest =>
    some (Char.ofNat (hexValue (rest.takeWhile (· != '}'))), (rest.dropWhile (· != '}')).tail)
  | '\\' :: _ => none
  | c :: rest => some (c, rest)
  | [] => none

theorem unquoteChar?_quotedChar (c : Char) (rest : List Char) :
    unquoteChar? (quotedChar c ++ rest) = some (c, rest) := by
  unfold quotedChar
  split
  · next h => subst h; rfl
  split
  · next h => subst h; rfl
  split
  · next h => subst h; rfl
  split
  · next h => subst h; rfl
  split
  · next h => subst h; rfl
  split
  · next h => subst h; rfl
  split
  · have inside : ∀ d ∈ hexDigits c, (d != '}') = true :=
      forall_mem_toDigits (by decide) c.toNat
    have stop : Script.Stops (· != '}') ('}' :: rest) := Script.stops_cons (by decide)
    obtain ⟨taken, left⟩ := Script.takeWhile_append inside stop
    have value : hexValue (hexDigits c) = c.toNat := hexValue_toDigits c.toNat
    simp [unquoteChar?, taken, left, value]
  · next _ _ _ _ _ backslash _ =>
    rw [List.singleton_append, unquoteChar?]
    all_goals simp [backslash]

theorem flatMap_quotedChar_inj {s s' : List Char}
    (same : s.flatMap quotedChar = s'.flatMap quotedChar) : s = s' := by
  have read : ∀ (c : Char) (cs : List Char),
      unquoteChar? ((c :: cs).flatMap quotedChar) = some (c, cs.flatMap quotedChar) := by
    intro c cs
    rw [List.flatMap_cons, unquoteChar?_quotedChar]
  induction s generalizing s' with
  | nil =>
    cases s' with
    | nil => rfl
    | cons d s' =>
      have none := read d s'
      rw [← same] at none
      cases none
  | cons c s ih =>
    have first := read c s
    rw [same] at first
    cases s' with
    | nil => cases first
    | cons d s' =>
      rw [read, Option.some.injEq, Prod.mk.injEq] at first
      obtain ⟨rfl, rest⟩ := first
      rw [ih rest.symm]

theorem quotedChar_cases (c : Char) :
    quotedChar c = ['\\', '"'] ∨ '"' ∉ quotedChar c ∧ '\n' ∉ quotedChar c := by
  unfold quotedChar
  split
  · right; decide
  split
  · right; decide
  split
  · right; decide
  split
  · right; decide
  split
  · left; rfl
  split
  · right; decide
  split
  · have digits : ∀ d ∈ hexDigits c, d ≠ '"' ∧ d ≠ '\n' :=
      forall_mem_toDigits (by decide) c.toNat
    right
    simpa using ⟨fun mem => (digits _ mem).1 rfl, fun mem => (digits _ mem).2 rfl⟩
  · next lf quote _ _ =>
    right
    simp [Ne.symm lf, Ne.symm quote]

theorem getLast?_of_quote {s front behind : List Char}
    (h : s.flatMap quotedChar = front ++ '"' :: behind) : front.getLast? = some '\\' := by
  induction s generalizing front with
  | nil => simp at h
  | cons c s ih =>
    rw [List.flatMap_cons] at h
    rcases List.append_eq_append_iff.1 h with ⟨later, rfl, rest⟩ | ⟨here, split, rest⟩
    · rw [List.getLast?_append, ih rest, Option.some_or]
    · cases here with
      | nil => exact absurd (@ih [] rest.symm) nofun
      | cons d here =>
        obtain ⟨rfl, -⟩ := List.cons.inj rest
        rcases quotedChar_cases c with escape | ⟨none, -⟩
        · cases front with
          | nil => cases escape.symm.trans split
          | cons e front =>
            obtain ⟨rfl, tail⟩ := List.cons.inj (escape.symm.trans split)
            cases front with
            | nil => rfl
            | cons e' front => simp at tail
        · simp [split] at none

theorem lineFeed_notMem_quoted (s : String) : '\n' ∉ (quoted s).toList := by
  have inside : ∀ c, '\n' ∉ quotedChar c := by
    intro c
    rcases quotedChar_cases c with escape | ⟨-, none⟩
    · simp [escape]
    · exact none
  simp [quoted, inside]

theorem toList_quoted (s : String) :
    (quoted s).toList = '"' :: s.toList.flatMap quotedChar ++ ['"'] :=
  String.toList_ofList

theorem eq_of_quoted_suffix {s s' : String} {more : List Char}
    (h : (quoted s).toList = more ++ (quoted s').toList) (last : more.getLast? ≠ some '\\') :
    more = [] ∧ s = s' := by
  rw [toList_quoted, toList_quoted, ← List.append_assoc, List.append_left_inj] at h
  cases more with
  | nil => exact ⟨rfl, String.toList_inj.1 (flatMap_quotedChar_inj (List.cons.inj h).2)⟩
  | cons d more =>
    have backslash := getLast?_of_quote (List.cons.inj h).2
    exact absurd (by rw [List.getLast?_cons, backslash, Option.getD_some]) last

/-- A quoted text is recognised from behind, unless it follows a backslash. -/
theorem append_quoted_inj {front front' : List Char} {s s' : String}
    (h : front.getLast? ≠ some '\\') (h' : front'.getLast? ≠ some '\\')
    (same : front ++ (quoted s).toList = front' ++ (quoted s').toList) :
    front = front' ∧ s = s' := by
  have suffix : ∀ (start more : List Char), (start ++ more).getLast? ≠ some '\\' →
      more.getLast? ≠ some '\\' := by
    intro start more last backslash
    rw [List.getLast?_append, backslash, Option.some_or] at last
    exact last rfl
  rcases List.append_eq_append_iff.1 same with ⟨more, rfl, rest⟩ | ⟨more, rfl, rest⟩
  · obtain ⟨rfl, texts⟩ := eq_of_quoted_suffix rest (suffix _ _ h')
    exact ⟨(List.append_nil _).symm, texts⟩
  · obtain ⟨rfl, texts⟩ := eq_of_quoted_suffix rest (suffix _ _ h)
    exact ⟨List.append_nil _, texts.symm⟩

end ParseTrace.Text
