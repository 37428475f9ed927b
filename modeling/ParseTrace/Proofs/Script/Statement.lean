import ParseTrace.Proofs.Script.Sentence

/-!
The statements of a text script, against the texts of their items. A statement whose numeral
has a value stands for an item and its text is one of the item; and a text of an item is that
of a statement, in front of any rest that does not prolong a name or a number.
-/

namespace ParseTrace.Script

section Values

theorem exists_of_map {α β ε : Type} {r : Except ε α} {f : α → β} {b : β}
    (h : r.map f = .ok b) : ∃ a, r = .ok a ∧ f a = b := by
  cases r with
  | error e => cases h
  | ok a => exact ⟨a, rfl, Except.ok.inj h⟩

theorem parse_eq_ok_iff {read : List Char → Option Int} {low high value : Int} {n : Numeral} :
    n.parse read low high = .ok value ↔
      read n.digits = some value ∧ low ≤ value ∧ value ≤ high := by
  unfold Numeral.parse
  constructor
  · intro h
    split at h
    · next value' means =>
      split at h
      · next range =>
        cases h
        exact ⟨means, range⟩
      · cases h
    · cases h
  · rintro ⟨means, range⟩
    simp only [means, if_pos range]

/-- A type whose values are the integers from `low` to `high` takes just what it can hold. -/
theorem map_parse_eq_ok_iff {α : Type} {read : List Char → Option Int} {low high : Int}
    {make : Int → α} (value : α → Int) (bounds : ∀ a, low ≤ value a ∧ value a ≤ high)
    (make_value : ∀ a, make (value a) = a)
    (value_make : ∀ v, low ≤ v → v ≤ high → value (make v) = v) {n : Numeral} {a : α} :
    (n.parse read low high).map make = .ok a ↔ read n.digits = some (value a) := by
  constructor
  · intro h
    obtain ⟨v, parsed, rfl⟩ := exists_of_map h
    obtain ⟨means, above, below⟩ := parse_eq_ok_iff.1 parsed
    rw [means, value_make v above below]
  · intro means
    rw [parse_eq_ok_iff.2 ⟨means, bounds a⟩]
    exact congrArg Except.ok (make_value a)

theorem toUInt32?_eq_ok_iff {n : Numeral} {i : UInt32} :
    n.toUInt32? = .ok i ↔ unsigned? n.digits = some (i.toNat : Int) := by
  have size : UInt32.size = 2 ^ 32 := rfl
  refine map_parse_eq_ok_iff (fun i : UInt32 => (i.toNat : Int)) ?_ ?_ ?_
  · intro a
    have bound := a.toNat_lt
    omega
  · intro a
    rw [Int.toNat_natCast, UInt32.ofNat_toNat]
  · intro v above below
    have small : v.toNat < UInt32.size := by omega
    rw [UInt32.toNat_ofNat_of_lt' small, Int.toNat_of_nonneg above]

theorem toUInt64?_eq_ok_iff {n : Numeral} {i : UInt64} :
    n.toUInt64? = .ok i ↔ unsigned? n.digits = some (i.toNat : Int) := by
  have size : UInt64.size = 2 ^ 64 := rfl
  refine map_parse_eq_ok_iff (fun i : UInt64 => (i.toNat : Int)) ?_ ?_ ?_
  · intro a
    have bound := a.toNat_lt
    omega
  · intro a
    rw [Int.toNat_natCast, UInt64.ofNat_toNat]
  · intro v above below
    have small : v.toNat < UInt64.size := by omega
    rw [UInt64.toNat_ofNat_of_lt' small, Int.toNat_of_nonneg above]

theorem toInt32?_eq_ok_iff {n : Numeral} {i : Int32} :
    n.toInt32? = .ok i ↔ signed? n.digits = some i.toInt := by
  have least : Int32.minValue.toInt = -2 ^ 31 := rfl
  have greatest : Int32.maxValue.toInt = 2 ^ 31 - 1 := rfl
  refine map_parse_eq_ok_iff Int32.toInt ?_ Int32.ofInt_toInt ?_
  · intro a
    have low := a.le_toInt
    have high := a.toInt_lt
    omega
  · intro v above below
    exact Int32.toInt_ofInt_of_le (by omega) (by omega)

end Values

section Numerals

variable {n : Nat} {numeral : Numeral} {t text rest : List Char}

theorem Digits.decimal (h : Digits t text rest) : Decimal (natValue t) t :=
  decimal_natValue h.nonempty h.all

theorem Decimal.digits (h : Decimal n t) (stop : Stops Char.isDigit rest) :
    Digits t (t ++ rest) rest :=
  ⟨h.ne_nil, h.isDigit, stop, rfl⟩

theorem IntegerAt.exists_spelled (h : IntegerAt numeral text rest) :
    ∃ n t, (Piece.nat n).Spelled false t ∧ unsigned? numeral.digits = some (n : Int) ∧
      text = t ++ rest := by
  obtain ⟨digits⟩ := h
  exact ⟨_, _, .nat digits.decimal, digits.decimal.unsigned?, digits.whole⟩

theorem Piece.Spelled.exists_integerAt {bare : Bool} (h : (Piece.nat n).Spelled bare t)
    (stop : Stops Char.isDigit rest) :
    ∃ numeral, IntegerAt numeral (t ++ rest) rest ∧ unsigned? numeral.digits = some (n : Int) := by
  cases h with
  | nat decimal => exact ⟨_, .digits (decimal.digits stop), decimal.unsigned?⟩

theorem LineAt.exists_spelled (h : LineAt numeral text rest) :
    ∃ i t, (Piece.int i).Spelled false t ∧ signed? numeral.digits = some i ∧
      text = t ++ rest := by
  rcases h with (digits | digits)
  · exact ⟨_, _, .int digits.decimal, digits.decimal.signed?, digits.whole⟩
  · exact ⟨_, _, .negative digits.decimal, digits.decimal.signed?_negative,
      congrArg ('-' :: ·) digits.whole⟩

theorem Piece.Spelled.exists_lineAt {i : Int} {bare : Bool} (h : (Piece.int i).Spelled bare t)
    (stop : Stops Char.isDigit rest) :
    ∃ numeral, LineAt numeral (t ++ rest) rest ∧ signed? numeral.digits = some i := by
  cases h with
  | int decimal => exact ⟨_, .digits (decimal.digits stop), decimal.signed?⟩
  | negative decimal => exact ⟨_, .negative (decimal.digits stop), decimal.signed?_negative⟩

end Numerals

section Items

variable {s : Statement} {i : Item} {t text rest : List Char}

theorem Row.exists_cons {bare : Bool} {p : Piece} {rest : List Piece} {text : List Char}
    (h : Row bare (p :: rest) text) :
    ∃ b t bare' row, Blanks b ∧ (bare = true → p.IsNumber → b ≠ []) ∧ p.Spelled bare' t ∧
      Row bare' rest row ∧ text = b ++ t ++ row := by
  cases h with
  | cons blanks apart spelled more => exact ⟨_, _, _, _, blanks, apart, spelled, more, rfl⟩

theorem Row.eq_nil {bare : Bool} {text : List Char} (h : Row bare [] text) : text = [] := by
  cases h
  rfl

theorem Row.first {p : Piece} {ps : List Piece} {bare : Bool} {b t row : List Char}
    (blanks : Blanks b) (spelled : p.Spelled bare t) (more : Row bare ps row) :
    Row false (p :: ps) (b ++ t ++ row) :=
  .cons blanks (fun no => by cases no) spelled more

/-- A bare name that is read to its end leaves blanks before a number. -/
theorem blanks_ne_nil {n : Nat} {b : List Char} (h : (Piece.nat n).Spelled false t)
    (stop : Stops isIdentRest (b ++ (t ++ rest))) : b ≠ [] := by
  rintro rfl
  cases h with
  | nat decimal =>
    cases t with
    | nil => exact decimal.ne_nil rfl
    | cons c t =>
      have prolonged := isIdentRest_of_isDigit c (decimal.isDigit c List.mem_cons_self)
      rw [stop c rfl] at prolonged
      cases prolonged

theorem Statement.At.exists_written (h : s.At text rest) (value : s.item = .ok i) :
    ∃ a, i.Written a ∧ text = a ++ rest := by
  cases h with
  | file quoted =>
    obtain ⟨b, _, blanks, ⟨t, spelled, rfl⟩, rfl⟩ := quoted
    cases value
    exact ⟨_, .row (.first blanks spelled .nil), by
      simp only [Item.keyword, List.append_nil, List.append_assoc]⟩
  | symbol _ number named =>
    obtain ⟨b, _, blanks, number, rfl⟩ := number
    obtain ⟨n, t, digits, counted, rfl⟩ := number.exists_spelled
    obtain ⟨b', _, blanks', ⟨bare, t', spelled, rfl, -⟩, rfl⟩ := named
    obtain ⟨index, fits, rfl⟩ := exists_of_map value
    obtain rfl := Int.ofNat.inj (Option.some.inj (counted.symm.trans (toUInt32?_eq_ok_iff.1 fits)))
    exact ⟨_, .row (.first blanks digits (.first blanks' spelled .nil)), by
      simp only [Item.keyword, List.append_nil, List.append_assoc]⟩
  | rule named number =>
    obtain ⟨b, _, blanks, ⟨bare, t, spelled, rfl, stop⟩, rfl⟩ := named
    obtain ⟨b', _, blanks', number, rfl⟩ := number
    obtain ⟨n, t', digits, counted, rfl⟩ := number.exists_spelled
    obtain ⟨length, fits, rfl⟩ := exists_of_map value
    obtain rfl := Int.ofNat.inj (Option.some.inj (counted.symm.trans (toUInt64?_eq_ok_iff.1 fits)))
    have last := Row.cons blanks' (fun isBare _ => blanks_ne_nil digits (stop isBare)) digits .nil
    exact ⟨_, .row (.first blanks spelled last), by
      simp only [Item.keyword, List.append_nil, List.append_assoc]⟩
  | shift named quoted signed =>
    obtain ⟨b, _, blanks, ⟨bare, t, spelled, rfl, -⟩, rfl⟩ := named
    obtain ⟨b', _, blanks', ⟨t', contents, rfl⟩, rfl⟩ := quoted
    obtain ⟨b'', _, blanks'', number, rfl⟩ := signed
    obtain ⟨n, t'', digits, counted, rfl⟩ := number.exists_spelled
    obtain ⟨line, fits, rfl⟩ := exists_of_map value
    obtain rfl := Option.some.inj (counted.symm.trans (toInt32?_eq_ok_iff.1 fits))
    have last := Row.first blanks'' digits .nil
    exact ⟨_, .row (.first blanks spelled (.cons blanks' (fun _ no => by cases no) contents last)),
      by simp only [Item.keyword, List.append_nil, List.append_assoc]⟩
  | reduce number =>
    obtain ⟨b, _, blanks, number, rfl⟩ := number
    obtain ⟨n, t, digits, counted, rfl⟩ := number.exists_spelled
    obtain ⟨rule, fits, rfl⟩ := exists_of_map value
    obtain rfl := Int.ofNat.inj (Option.some.inj (counted.symm.trans (toUInt64?_eq_ok_iff.1 fits)))
    exact ⟨_, .row (.first blanks digits .nil), by
      simp only [Item.keyword, List.append_nil, List.append_assoc]⟩
  | accept =>
    cases value
    exact ⟨_, .row .nil, by rw [List.append_nil]; rfl⟩

theorem Blanks.behind {α : Type} {stands : α → List Char → List Char → Prop} {a : α}
    {b piece : List Char} (blanks : Blanks b) (here : stands a piece rest) :
    Behind stands a (b ++ piece) rest :=
  ⟨b, piece, blanks, here, rfl⟩

theorem Piece.Spelled.stringAt {string : String} {bare : Bool}
    (h : (Piece.string string).Spelled bare t) (rest : List Char) :
    StringAt string (t ++ rest) rest := by
  cases h with
  | string inside => exact ⟨_, .string inside, rfl⟩

theorem Piece.Spelled.nameAt {name : String} {bare : Bool} (h : (Piece.name name).Spelled bare t)
    (stop : bare = true → Stops isIdentRest rest) : NameAt name (t ++ rest) rest :=
  ⟨bare, t, h, rfl, stop⟩

theorem Item.Written.exists_at (h : i.Written t) (stop : Stops isIdentRest rest) :
    ∃ s : Statement, s.At (t ++ rest) rest ∧ s.item = .ok i := by
  have noDigit := stop.mono isIdentRest_of_isDigit
  obtain ⟨row⟩ := h
  match i with
  | .file name =>
    obtain ⟨b, t, _, _, blanks, -, quoted, last, rfl⟩ := row.exists_cons
    obtain rfl := last.eq_nil
    have here := Statement.At.file (blanks.behind (quoted.stringAt rest))
    exact ⟨_, by simpa only [Item.keyword, List.append_nil, List.append_assoc] using here, rfl⟩
  | .symbol sym =>
    obtain ⟨b, t, _, _, blanks, -, digits, more, rfl⟩ := row.exists_cons
    obtain ⟨b', t', _, _, blanks', -, named, last, rfl⟩ := more.exists_cons
    obtain rfl := last.eq_nil
    -- the digits of the index end at the name
    obtain ⟨n, number, value⟩ := digits.exists_integerAt
      (blanks'.stops_append rfl rfl (named.stops_isDigit rest))
    have here := Statement.At.symbol sym.kind (blanks.behind number)
      (blanks'.behind (named.nameAt fun _ => stop))
    refine ⟨.symbol sym.kind n sym.name, ?_, ?_⟩
    · simpa only [Item.keyword, List.append_nil, List.append_assoc] using here
    · rw [Statement.item, toUInt32?_eq_ok_iff.2 value]
      rfl
  | .rule r =>
    obtain ⟨b, t, bare, _, blanks, -, named, more, rfl⟩ := row.exists_cons
    obtain ⟨b', t', _, _, blanks', apart, digits, last, rfl⟩ := more.exists_cons
    obtain rfl := last.eq_nil
    obtain ⟨n, number, value⟩ := digits.exists_integerAt noDigit
    -- without blanks, a bare name would go on into the digits of the length
    have ended : bare = true → Stops isIdentRest (b' ++ (t' ++ rest)) := fun isBare =>
      blanks'.stops_of_ne_nil (apart isBare trivial) rfl rfl _
    have here := Statement.At.rule (blanks.behind (named.nameAt ended)) (blanks'.behind number)
    refine ⟨.rule r.lhs n, ?_, ?_⟩
    · simpa only [Item.keyword, List.append_nil, List.append_assoc] using here
    · rw [Statement.item, toUInt64?_eq_ok_iff.2 value]
      rfl
  | .event (.shift label lexeme signed) =>
    obtain ⟨b, t, bare, _, blanks, -, named, more, rfl⟩ := row.exists_cons
    obtain ⟨b', t', _, _, blanks', -, quoted, more', rfl⟩ := more.exists_cons
    obtain ⟨b'', t'', _, _, blanks'', -, digits, last, rfl⟩ := more'.exists_cons
    obtain rfl := last.eq_nil
    obtain ⟨n, number, value⟩ := digits.exists_lineAt noDigit
    have contents := blanks'.behind (quoted.stringAt (b'' ++ (t'' ++ rest)))
    have ended := blanks'.stops_append rfl rfl (quoted.stops_isIdentRest (b'' ++ (t'' ++ rest)))
    have here := Statement.At.shift (blanks.behind (named.nameAt fun _ => ended)) contents
      (blanks''.behind number)
    refine ⟨.shift label lexeme n, ?_, ?_⟩
    · simpa only [Item.keyword, List.append_nil, List.append_assoc] using here
    · rw [Statement.item, toInt32?_eq_ok_iff.2 value]
      rfl
  | .event (.reduce production) =>
    obtain ⟨b, t, _, _, blanks, -, digits, last, rfl⟩ := row.exists_cons
    obtain rfl := last.eq_nil
    obtain ⟨n, number, value⟩ := digits.exists_integerAt noDigit
    have here := Statement.At.reduce (blanks.behind number)
    refine ⟨.reduce n, ?_, ?_⟩
    · simpa only [Item.keyword, List.append_nil, List.append_assoc] using here
    · rw [Statement.item, toUInt64?_eq_ok_iff.2 value]
      rfl
  | .event .accept =>
    obtain rfl := row.eq_nil
    exact ⟨_, .accept, rfl⟩

end Items

end ParseTrace.Script
