import ParseTrace.Proofs.Script.Text

/-!
Where the diagnostics of a text script point. A reader only points at a place of the text that
it was given, so the bytes before a place are those of whole characters. A text outside the
grammar is refused at such a place, and a text of the grammar only for its first numeral that
no value of its field has; no pair of the grammar ever lacks an inner pair that its reader takes.
-/

namespace ParseTrace.Script

section Bytes

@[simp] theorem byteLength_append (a b : List Char) :
    byteLength (a ++ b) = byteLength a + byteLength b := by
  induction a with
  | nil => exact (Nat.zero_add _).symm
  | cons c a ih => rw [List.cons_append, byteLength, byteLength, ih, Nat.add_assoc]

theorem utf8ByteSize_ofList (t : List Char) : (String.ofList t).utf8ByteSize = byteLength t := by
  rw [String.utf8ByteSize_ofList]
  induction t with
  | nil => rfl
  | cons c t ih => rw [String.utf8Len_cons, byteLength, ih, Nat.add_comm]

theorem offset_append (before place : List Char) :
    offset (before ++ place) place = byteLength before := by
  rw [offset, byteLength_append, Nat.add_sub_cancel_right]

end Bytes

section Places

theorem skip_suffix (text : List Char) : skip text <:+ text := by
  obtain ⟨b, c, -, -, whole, -⟩ := exists_skip text
  exact ⟨b ++ c, whole.symm⟩

variable {α : Type} {p : Part} {view : Pair → α} {stands : α → List Char → List Char → Prop}

def Part.Within (p : Part) : Prop :=
  p.Inside ∧ ∀ text found rest, p text = .ok (found, rest) → rest <:+ text

theorem Part.Takes.within (h : p.Takes view stands) : p.Within :=
  ⟨h.inside, fun _ _ _ read => h.rest (h.read read)⟩

theorem place_of_inOrder {parts : List Part} (within : ∀ p ∈ parts, p.Within) {text : List Char}
    {missing : Missing} (h : inOrder parts text = .error missing) : missing.place <:+ text := by
  induction parts generalizing text with
  | nil => cases h
  | cons p later ih =>
    obtain ⟨inside, left⟩ := within p List.mem_cons_self
    rw [inOrder] at h
    split at h
    · next refused =>
      cases h
      exact (inside _ _ refused).trans (skip_suffix text)
    · next found middle read =>
      split at h
      · next refused =>
        cases h
        have below := ih (fun q hq => within q (List.mem_cons_of_mem _ hq)) refused
        exact below.trans ((left _ _ _ read).trans (skip_suffix text))
      · cases h

theorem Part.Takes.rest_behind (h : p.Takes view stands) {a : α} {text rest : List Char}
    (here : Behind stands a text rest) : rest <:+ text := by
  obtain ⟨b, piece, -, here, rfl⟩ := here
  exact (h.rest here).trans (List.suffix_append b piece)

theorem Statement.At.rest {s : Statement} {text rest : List Char} (h : s.At text rest) :
    rest <:+ text := by
  rcases h with (quoted | ⟨_, number, named⟩ | ⟨named, number⟩ | ⟨named, quoted, signed⟩ | number | _)
  · exact (string_takes.rest_behind quoted).trans (List.suffix_append _ _)
  · exact ((name_takes.rest_behind named).trans (integer_takes.rest_behind number)).trans
      (List.suffix_append _ _)
  · exact ((integer_takes.rest_behind number).trans (name_takes.rest_behind named)).trans
      (List.suffix_append _ _)
  · exact ((line_takes.rest_behind signed).trans ((string_takes.rest_behind quoted).trans
      (name_takes.rest_behind named))).trans (List.suffix_append _ _)
  · exact (integer_takes.rest_behind number).trans (List.suffix_append _ _)
  · exact List.suffix_append _ _

theorem within_keywords : ∀ entry ∈ keywords, ∀ p ∈ entry.2.2, p.Within := by
  simp [keywords, string_takes.within, name_takes.within, integer_takes.within, line_takes.within]

theorem place_of_statement? {text : List Char} {missing : Missing}
    (h : statement? text = some (.error missing)) : missing.place <:+ text := by
  obtain ⟨word, tag, parts, behind, member, rfl, ⟨_, refused, same⟩ | ⟨_, _, _, _, no⟩⟩ :=
    exists_of_statementAmong h
  · cases same
    exact (place_of_inOrder (within_keywords _ member) refused).trans (List.suffix_append _ _)
  · cases no

theorem rest_of_endLine {text next : List Char} (h : endLine text = .ok (some next)) :
    next <:+ text := by
  obtain ⟨b, c, tail, -, -, -, rfl, ended⟩ := exists_of_endLine h
  obtain ⟨e, -, rfl⟩ := exists_of_lineEnd? ended
  exact (List.suffix_append e next).trans (List.suffix_append (b ++ c) _)

theorem place_of_endLine {text : List Char} {missing : Missing}
    (h : endLine text = .error missing) : missing.place <:+ text := by
  unfold endLine at h
  split at h
  · cases h
  · split at h <;> cases h
    exact skip_suffix text

theorem place_of_statements {text : List Char} {missing : Missing}
    (h : statements text = .error missing) : missing.place <:+ text := by
  -- on the length: what follows a line end is shorter than the text
  induction hn : text.length using Nat.strong_induction_on generalizing text missing with
  | _ n ih =>
    rw [statements.eq_def] at h
    split at h
    · next error =>
      cases h
      exact (place_of_statement? error).trans (skip_suffix text)
    · next p rest read =>
      obtain ⟨s, -, here⟩ := exists_at_of_statement? read
      have behind : rest <:+ text := here.rest.trans (skip_suffix text)
      split at h
      · next error =>
        cases h
        exact (place_of_endLine error).trans behind
      · cases h
      · next next ending =>
        have below := rest_of_endLine ending
        dsimp only at h
        split at h
        · next error =>
          cases h
          have shorter : next.length < text.length :=
            (length_endLine_lt ending).trans_le behind.length_le
          exact (ih _ (hn ▸ shorter) error rfl).trans (below.trans behind)
        · cases h
    · next nothing =>
      split at h
      · next error =>
        cases h
        have inside := place_of_endLine error
        exact inside
      · cases h
      · next next ending =>
        exact (ih _ (hn ▸ length_endLine_lt ending) h rfl).trans (rest_of_endLine ending)

end Places

section Numerals

def Statement.numeral? : Statement → Option Numeral
  | .file _ | .accept => none
  | .symbol _ n _ | .rule _ n | .shift _ _ n | .reduce n => some n

/-- Some value of the field that the numeral is for is what the numeral says. -/
def Statement.Fits : Statement → Prop
  | .file _ | .accept => True
  | .symbol _ n _ => ∃ i : UInt32, unsigned? n.digits = some (i.toNat : Int)
  | .rule _ n | .reduce n => ∃ i : UInt64, unsigned? n.digits = some (i.toNat : Int)
  | .shift _ _ n => ∃ i : Int32, signed? n.digits = some i.toInt

theorem eq_of_parse_error {α : Type} {read : List Char → Option Int} {low high : Int}
    {f : Int → α} {n n' : Numeral} (h : (n.parse read low high).map f = .error n') : n' = n := by
  unfold Numeral.parse at h
  split at h
  · split at h <;> cases h
    rfl
  · cases h
    rfl

theorem value_or_error {α β : Type} {n : Numeral} {r : Except Numeral α} {is : α → Prop}
    (f : α → β) (own : ∀ {n'}, r = .error n' → n' = n) (ok : ∀ {i}, r = .ok i ↔ is i) :
    (∃ i, is i) ∧ (∃ b, r.map f = .ok b) ∨ (¬ ∃ i, is i) ∧ r.map f = .error n := by
  cases r with
  | ok i => exact .inl ⟨⟨i, ok.1 rfl⟩, f i, rfl⟩
  | error n' =>
    refine .inr ⟨?_, congrArg Except.error (own rfl)⟩
    rintro ⟨i, value⟩
    cases ok.2 value

theorem Statement.item_cases (s : Statement) :
    s.Fits ∧ (∃ i, s.item = .ok i) ∨
      ¬ s.Fits ∧ ∃ n, s.numeral? = some n ∧ s.item = .error n := by
  cases s with
  | file | accept => exact .inl ⟨trivial, _, rfl⟩
  | symbol kind n name =>
    refine (value_or_error _ eq_of_parse_error toUInt32?_eq_ok_iff).imp id ?_
    exact fun h => ⟨h.1, n, rfl, h.2⟩
  | rule lhs n =>
    refine (value_or_error _ eq_of_parse_error toUInt64?_eq_ok_iff).imp id ?_
    exact fun h => ⟨h.1, n, rfl, h.2⟩
  | shift symbol lexeme n =>
    refine (value_or_error _ eq_of_parse_error toInt32?_eq_ok_iff).imp id ?_
    exact fun h => ⟨h.1, n, rfl, h.2⟩
  | reduce n =>
    refine (value_or_error _ eq_of_parse_error toUInt64?_eq_ok_iff).imp id ?_
    exact fun h => ⟨h.1, n, rfl, h.2⟩

def Numeral.In (n : Numeral) (text : List Char) : Prop :=
  n.digits <+: n.place ∧ n.place <:+ text

variable {n : Numeral} {text more rest : List Char}

theorem Numeral.In.mono (h : n.In text) (within : text <:+ more) : n.In more :=
  ⟨h.1, h.2.trans within⟩

theorem IntegerAt.numeral_in (h : IntegerAt n text rest) : n.In text := by
  obtain ⟨digits⟩ := h
  exact ⟨digits.whole ▸ List.prefix_append _ _, List.suffix_rfl⟩

theorem LineAt.numeral_in (h : LineAt n text rest) : n.In text := by
  rcases h with (digits | digits)
  · exact ⟨digits.whole ▸ List.prefix_append _ _, List.suffix_rfl⟩
  · refine ⟨?_, List.suffix_rfl⟩
    exact (List.prefix_cons_inj '-').2 (digits.whole ▸ List.prefix_append _ _)

theorem Behind.numeral_in {stands : Numeral → List Char → List Char → Prop}
    (h : Behind stands n text rest) (own : ∀ {piece}, stands n piece rest → n.In piece) :
    n.In text := by
  obtain ⟨b, piece, -, here, rfl⟩ := h
  exact (own here).mono (List.suffix_append b piece)

theorem Statement.At.numeral_in {s : Statement} (h : s.At text rest) (hn : s.numeral? = some n) :
    n.In text := by
  rcases h with (quoted | ⟨_, number, named⟩ | ⟨named, number⟩ | ⟨named, quoted, signed⟩ | number | _)
  · cases hn
  · cases hn
    exact (number.numeral_in IntegerAt.numeral_in).mono (List.suffix_append _ _)
  · cases hn
    exact (number.numeral_in IntegerAt.numeral_in).mono
      ((name_takes.rest_behind named).trans (List.suffix_append _ _))
  · cases hn
    exact (signed.numeral_in LineAt.numeral_in).mono (((string_takes.rest_behind quoted).trans
      (name_takes.rest_behind named)).trans (List.suffix_append _ _))
  · cases hn
    exact (number.numeral_in IntegerAt.numeral_in).mono (List.suffix_append _ _)
  · cases hn

theorem OnLine.tail_suffix {found : Option Statement} {tail : List Char}
    (h : OnLine found text tail) : tail <:+ text := by
  cases h with
  | empty => exact List.suffix_append _ _
  | statement _ here =>
    exact (List.suffix_append _ tail).trans (here.rest.trans (List.suffix_append _ _))

theorem OnLine.numeral_in {found : Option Statement} {tail : List Char}
    (h : OnLine found text tail) {s : Statement} (member : s ∈ found.toList)
    (hn : s.numeral? = some n) : n.In text := by
  cases h with
  | empty => cases member
  | statement _ here =>
    obtain rfl := List.mem_singleton.1 member
    exact (here.numeral_in hn).mono (List.suffix_append _ _)

theorem Sentences.numeral_in {all : List Statement} (h : Sentences all text) {s : Statement}
    (member : s ∈ all) (hn : s.numeral? = some n) : n.In text := by
  induction h with
  | last line => exact line.numeral_in member hn
  | @cons found text e rest others line _ _ ih =>
    rcases List.mem_append.1 member with here | below
    · exact line.numeral_in here hn
    · exact (ih below).mono ((List.suffix_append e rest).trans line.tail_suffix)

theorem exists_of_items_error {all : List Statement} {n : Numeral} (h : items all = .error n) :
    ∃ early s late, all = early ++ s :: late ∧ (∀ e ∈ early, e.Fits) ∧ ¬ s.Fits ∧
      s.numeral? = some n := by
  induction all with
  | nil => cases h
  | cons s rest ih =>
    rcases s.item_cases with ⟨fits, i, value⟩ | ⟨beyond, n', here, refused⟩
    · rw [items, value] at h
      dsimp only at h
      split at h
      · next error =>
        cases h
        obtain ⟨early, s', late, rfl, all, beyond, here⟩ := ih error
        refine ⟨s :: early, s', late, rfl, ?_, beyond, here⟩
        exact List.forall_mem_cons.2 ⟨fits, all⟩
      · cases h
    · rw [items, refused] at h
      cases h
      exact ⟨[], s, rest, rfl, by simp, beyond, here⟩

end Numerals

section Messages

theorem append_ne_append {a b : String} (apart : a.toList.head? ≠ b.toList.head?)
    (some : a.toList ≠ [] ∧ b.toList ≠ []) (x y : String) : a ++ x ≠ b ++ y := by
  intro same
  have first := congrArg (fun s => s.toList.head?) same
  simp only [String.toList_append, List.head?_append_of_ne_nil _ some.1,
    List.head?_append_of_ne_nil _ some.2] at first
  exact apart first

theorem message_expected_ne (first : ScriptPart) (others : List ScriptPart) (what : String) :
    (ScriptFault.expected first others).message ≠ "missing " ++ what :=
  append_ne_append (by simp) (by simp) _ _

theorem message_outOfRange_ne (digits what : String) :
    (ScriptFault.outOfRange digits).message ≠ "missing " ++ what := by
  have message : (ScriptFault.outOfRange digits).message =
      "integer `" ++ (digits ++ "` is out of range") := String.append_assoc
  rw [message]
  exact append_ne_append (by simp) (by simp) _ _

theorem message_invalidScript (fault : ScriptFault) (offset length : Nat) :
    (Failure.invalidScript fault offset length).message =
      "invalid trace script: " ++ fault.message := rfl

theorem message_invalidScript_ne {fault : ScriptFault} {what : String}
    (h : fault.message ≠ "missing " ++ what) (offset length : Nat) :
    (Failure.invalidScript fault offset length).message ≠
      "invalid trace script: " ++ ("missing " ++ what) := by
  rw [message_invalidScript, Ne, String.append_right_inj]
  exact h

theorem exists_missingFailure {text before : List Char} {m : Missing}
    (whole : before ++ m.place = text) :
    ∃ first others, missingFailure text m =
      .invalidScript (.expected first others) (byteLength before) 0 := by
  rw [missingFailure, ← whole, offset_append]
  by_cases start : byteLength before = 0
  · exact ⟨_, _, by rw [if_pos start, start]⟩
  · exact ⟨_, _, if_neg start⟩

end Messages

section Pairs

theorem Say.exists_statement {ps : List Pair} {all : List Statement} (h : Say ps all) {p : Pair}
    (mem : p ∈ ps) : ∃ s, p.statement? = .ok (some s) := by
  induction h with
  | nil => cases mem
  | cons value _ ih =>
    rcases List.mem_cons.1 mem with rfl | later
    · exact ⟨_, value⟩
    · exact ih later

/-- Of each pair in a script, the end of its text included, the reader finds all parts. -/
theorem exists_statement_of_pairsOf {text : List Char} {roots : List Pair}
    (read : pairsOf text = .ok roots) {root p : Pair} (hr : root ∈ roots) (hp : p ∈ root.inner) :
    ∃ s, p.statement? = .ok s := by
  obtain ⟨ps, taken, rfl⟩ := exists_of_map read
  obtain ⟨all, say, -⟩ := exists_sentences_of_statements taken
  obtain rfl := List.mem_singleton.1 hr
  rcases List.mem_append.1 hp with here | last
  · obtain ⟨s, value⟩ := say.exists_statement here
    exact ⟨some s, value⟩
  · obtain rfl := List.mem_singleton.1 last
    exact ⟨none, rfl⟩

end Pairs

/-- What is said of a text that is not read. The span begins behind the text `before` and covers
the text `within`, so it lies inside and its ends are ends of characters. Outside the grammar it
is empty. In the grammar it covers a numeral that no value of its field has, sign and all,
while all numerals before it have values. No other message is ever given: the reader of pairs
finds every part that it asks for. -/
theorem ofText_refused {text : String} {failure : Failure}
    (refused : ofText text = .error failure) :
    ∃ (fault : ScriptFault) (before within after : String), text = before ++ within ++ after ∧
      failure = .invalidScript fault before.utf8ByteSize within.utf8ByteSize ∧
      (∀ what, failure.message ≠ "invalid trace script: " ++ ("missing " ++ what)) ∧
      (∀ roots, pairsOf text.toList = .ok roots →
        ∀ root ∈ roots, ∀ p ∈ root.inner, ∃ s, p.statement? = .ok s) ∧
      ((∀ all, ¬ Sentences all text.toList) ∧ within = "" ∧
          (∃ first others, fault = .expected first others) ∨
        ∃ early s late, Sentences (early ++ s :: late) text.toList ∧
          (∀ e ∈ early, e.Fits) ∧ ¬ s.Fits ∧
          s.numeral? = some ⟨within.toList, (within ++ after).toList⟩ ∧
          fault = .outOfRange within ∧
          failure.message =
            "invalid trace script: " ++ s!"integer `{within}` is out of range") := by
  have complete : ∀ roots, pairsOf text.toList = .ok roots →
      ∀ root ∈ roots, ∀ p ∈ root.inner, ∃ s, p.statement? = .ok s :=
    fun _ read _ hr _ hp => exists_statement_of_pairsOf read hr hp
  cases read : statements text.toList with
  | error missing =>
    obtain ⟨before, whole⟩ := place_of_statements read
    obtain ⟨first, others, failed⟩ := exists_missingFailure whole
    rw [ofText, pairsOf, read] at refused
    simp only [Except.map, failed] at refused
    obtain rfl := Except.error.inj refused
    refine ⟨_, String.ofList before, "", String.ofList missing.place, ?_, ?_,
      fun what => message_invalidScript_ne (message_expected_ne _ _ what) _ _, complete,
      .inl ⟨?_, rfl, first, others, rfl⟩⟩
    · rw [← String.ofList_toList (s := text), ← whole, String.ofList_append, String.append_empty]
    · rw [utf8ByteSize_ofList]
      rfl
    · intro all sentences
      obtain ⟨ps, taken, -⟩ := sentences.exists_statements
      rw [read] at taken
      cases taken
  | ok ps =>
    obtain ⟨all, say, sentences⟩ := exists_sentences_of_statements read
    rw [ofText_eq read say] at refused
    cases values : items all with
    | error n =>
      rw [values] at refused
      obtain ⟨early, s, late, rfl, fit, beyond, here⟩ := exists_of_items_error values
      obtain ⟨⟨after, written⟩, before, whole⟩ := sentences.numeral_in (by simp) here
      obtain ⟨digits, place⟩ := n
      dsimp only at written whole
      subst written
      obtain rfl := Except.error.inj refused
      refine ⟨_, String.ofList before, String.ofList digits, String.ofList after, ?_, ?_,
        fun what => message_invalidScript_ne (message_outOfRange_ne _ what) _ _, complete,
        .inr ⟨early, s, late, sentences, fit, beyond, ?_, rfl, rfl⟩⟩
      · rw [← String.ofList_toList (s := text), ← whole, String.ofList_append,
          String.ofList_append, String.append_assoc]
      · rw [utf8ByteSize_ofList, utf8ByteSize_ofList, ← offset_append before (digits ++ after), whole]
        rfl
      · rw [here, ← String.ofList_append, String.toList_ofList, String.toList_ofList]
    | ok its =>
      rw [values] at refused
      cases refused

/-- The bytes of the span are counted, not its characters, and the later numeral, which no
line has, is not looked at. -/
theorem ofText_refused_reduce :
    ofText "file \"é\"\nreduce 18446744073709551616\nshift x \"\" -2147483649" =
      .error (.invalidScript (.outOfRange "18446744073709551616") 17 20) ∧
    ∃ early s late, Sentences (early ++ s :: late)
        "file \"é\"\nreduce 18446744073709551616\nshift x \"\" -2147483649".toList ∧
      (∀ e ∈ early, e.Fits) ∧ ¬ s.Fits := by
  have refused : ofText "file \"é\"\nreduce 18446744073709551616\nshift x \"\" -2147483649" =
      .error (.invalidScript (.outOfRange "18446744073709551616") 17 20) := by decide +kernel
  obtain ⟨fault, before, within, after, -, same, -, -, ⟨-, -, first, others, rfl⟩ |
    ⟨early, s, late, sentences, fit, beyond, -⟩⟩ := ofText_refused refused
  · cases same
  · exact ⟨refused, early, s, late, sentences, fit, beyond⟩

end ParseTrace.Script
