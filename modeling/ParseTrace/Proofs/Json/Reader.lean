import ParseTrace.Json.Reader

/-!
Readers of tokens against the tokens of what they read. Sequences are read item by item, and a
reader that is given a step for each token never runs short. In a tagged mapping the tag is
judged where it stands, and any other member is kept for later.
-/

namespace ParseTrace.Json

variable {α σ κ : Type}

section Items

/-- These tokens are read as this value, from in front of any rest. -/
structure ReadsBack (r : Reader α) (a : α) (ts : List Token) : Prop where
  begins : ∃ t later, ts = t :: later ∧ t ≠ .closeSeq ∧ t ≠ .comma
  read : ∀ steps rest, ts.length ≤ steps → r steps (ts ++ rest) = .ok (a, rest)

theorem ReadsBack.nextItem_first {r : Reader α} {a : α} {ts : List Token}
    (h : ReadsBack r a ts) (rest : List Token) :
    nextItem true (ts ++ rest) = .ok (some (ts ++ rest)) := by
  obtain ⟨t, later, rfl, close, comma⟩ := h.begins
  cases t <;> first | rfl | contradiction

theorem ReadsBack.nextItem_later {r : Reader α} {a : α} {ts : List Token}
    (h : ReadsBack r a ts) (rest : List Token) :
    nextItem false (.comma :: ts ++ rest) = .ok (some (ts ++ rest)) := by
  obtain ⟨t, later, rfl, close, comma⟩ := h.begins
  cases t <;> first | rfl | contradiction

def laterTokens (write : α → List Token) : List α → List Token
  | [] => []
  | a :: later => .comma :: write a ++ laterTokens write later

def seqTokens (write : α → List Token) : List α → List Token
  | [] => [.openSeq, .closeSeq]
  | a :: later => .openSeq :: write a ++ laterTokens write later ++ [.closeSeq]

variable {β : Type} {item : Reader α} {value : β → α} {write : β → List Token}

theorem laterTokens_map {γ : Type} (f : γ → β) (items : List γ) :
    laterTokens write (items.map f) = laterTokens (write ∘ f) items := by
  induction items with
  | nil => rfl
  | cons a later ih => rw [List.map_cons, laterTokens, laterTokens, ih]; rfl

theorem seqTokens_map {γ : Type} (f : γ → β) (items : List γ) :
    seqTokens write (items.map f) = seqTokens (write ∘ f) items := by
  cases items with
  | nil => rfl
  | cons a later => rw [List.map_cons, seqTokens, seqTokens, laterTokens_map]; rfl

theorem seqTokens_congr {write' : β → List Token} {items : List β}
    (same : items.map write = items.map write') :
    seqTokens write items = seqTokens write' items := by
  have each (w : β → List Token) : seqTokens id (items.map w) = seqTokens w items :=
    seqTokens_map w items
  rw [← each write, ← each write', same]

theorem readItems_later {items : List β}
    (each : ∀ b ∈ items, ReadsBack item (value b) (write b))
    {steps : Nat} (room : (laterTokens write items).length < steps) (rest : List Token) :
    readItems item false steps (laterTokens write items ++ .closeSeq :: rest) =
      .ok (items.map value, rest) := by
  induction items generalizing steps with
  | nil =>
    cases steps with
    | zero => cases room
    | succ steps => rfl
  | cons a later ih =>
    cases steps with
    | zero => cases room
    | succ steps =>
      have first := each a List.mem_cons_self
      simp only [laterTokens, List.length_append, List.length_cons] at room
      have next := first.nextItem_later (laterTokens write later ++ .closeSeq :: rest)
      have read := first.read steps (laterTokens write later ++ .closeSeq :: rest) (by omega)
      have others : readItems item false steps (laterTokens write later ++ .closeSeq :: rest) =
          .ok (later.map value, rest) :=
        ih (fun b h => each b (List.mem_cons_of_mem _ h)) (by omega)
      rw [laterTokens, List.append_assoc, readItems, next]
      simp only [read, others, List.map_cons]

theorem readSeq_seqTokens {items : List β}
    (each : ∀ b ∈ items, ReadsBack item (value b) (write b))
    {steps : Nat} (room : (seqTokens write items).length ≤ steps) (rest : List Token) :
    readSeq item steps (seqTokens write items ++ rest) = .ok (items.map value, rest) := by
  cases items with
  | nil =>
    cases steps with
    | zero => cases room
    | succ steps => rfl
  | cons a later =>
    cases steps with
    | zero => cases room
    | succ steps =>
      have first := each a List.mem_cons_self
      simp only [seqTokens, List.length_append, List.length_cons, List.length_nil] at room
      have next := first.nextItem_first (laterTokens write later ++ .closeSeq :: rest)
      have read := first.read steps (laterTokens write later ++ .closeSeq :: rest) (by omega)
      have others : readItems item false steps (laterTokens write later ++ .closeSeq :: rest) =
          .ok (later.map value, rest) :=
        readItems_later (fun b h => each b (List.mem_cons_of_mem _ h)) (by omega) rest
      simp only [seqTokens, List.cons_append, List.append_assoc, List.nil_append, readSeq,
        readItems, next, read, others, List.map_cons]

end Items

section Tags

inductive Scalar : Datum → Token → Prop
  | text (s : String) : Scalar (.text s) (.text (.ok s))
  | int (n : Int) : Scalar (.int n) (.number (.ok (some n)))

theorem Scalar.readDatum {d : Datum} {t : Token} (h : Scalar d t) (room steps : Nat)
    (rest : List Token) : readDatum room steps (t :: rest) = .ok (d, rest) := by
  cases h <;> cases room <;> rfl

def pairs (fields : List (String × Datum)) : List (Datum × Datum) :=
  fields.map fun (key, d) => (.text key, d)

def putField (s : Option κ × List (Datum × Datum)) (f : String × Datum) :
    Option κ × List (Datum × Datum) :=
  (s.1, (.text f.1, f.2) :: s.2)

def taggedMember (tag : String) (meaning : String → Option κ) (room : Nat) (key : String)
    (s : Option κ × List (Datum × Datum)) : Reader (Option κ × List (Datum × Datum)) :=
  fun steps ts =>
    if key = tag then
      (readOnce (readWord meaning) s.1 steps ts).map fun (found, rest) => ((found, s.2), rest)
    else
      (readValue (readDatum room) steps ts).map fun (d, rest) => (putField s (key, d), rest)

theorem readTagged_openMap (tag : String) (meaning : String → Option κ) (room steps : Nat)
    (rest : List Token) :
    readTagged tag meaning room steps (.openMap :: rest) =
      readMap (taggedMember tag meaning room) (none, []) (fun (found, fields) =>
        match found with
        | some k => .ok (k, .map fields.reverse)
        | none => .error .mismatch) steps rest := rfl

theorem taggedMember_scalar {tag key : String} {meaning : String → Option κ} {room : Nat}
    (other : key ≠ tag) {d : Datum} {t : Token} (scalar : Scalar d t)
    (s : Option κ × List (Datum × Datum)) (steps : Nat) (rest : List Token) :
    taggedMember tag meaning room key s steps (.colon :: t :: rest) =
      .ok (putField s (key, d), rest) := by
  rw [taggedMember, if_neg other, readValue, afterColon]
  simp only [scalar.readDatum, Except.map]

theorem taggedMember_tag {tag word : String} {meaning : String → Option κ} {k : κ}
    (meant : meaning word = some k) {room : Nat} (fields : List (Datum × Datum)) (steps : Nat)
    (rest : List Token) :
    taggedMember tag meaning room tag (none, fields) steps
      (.colon :: .text (.ok word) :: rest) = .ok ((some k, fields), rest) := by
  rw [taggedMember, if_pos rfl, readOnce, readValue, afterColon]
  simp only [readWord, meant, Except.map]

end Tags

end ParseTrace.Json
