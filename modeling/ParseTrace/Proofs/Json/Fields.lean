import ParseTrace.Proofs.Json.Layout

/-!
Readers of mappings, whatever the order of the fields. A reader keeps what it has read of the
declared fields and passes over texts under other names, so behind the last field it keeps
all of the declared ones.
-/

namespace ParseTrace

namespace Json

variable {α σ : Type}

section Readers

theorem readsBack_token {r : Reader α} {a : α} {t : Token} (close : t ≠ .closeSeq)
    (comma : t ≠ .comma) (read : ∀ steps rest, r steps (t :: rest) = .ok (a, rest)) :
    ReadsBack r a [t] :=
  ⟨⟨t, [], rfl, close, comma⟩, fun steps rest _ => read steps rest⟩

theorem readsBack_text (s : String) : ReadsBack readText s (Datum.text s).tokens :=
  readsBack_token (by simp) (by simp) fun _ _ => rfl

theorem readsBack_optionalText_some (s : String) :
    ReadsBack readOptionalText (some s) (Datum.text s).tokens :=
  readsBack_token (by simp) (by simp) fun _ _ => rfl

theorem readsBack_optionalText_none : ReadsBack readOptionalText none Datum.null.tokens :=
  readsBack_token (by simp) (by simp) fun _ _ => rfl

theorem readsBack_integer {meaning : Datum → Option α} {n : Int} {a : α}
    (meant : meaning (.int n) = some a) :
    ReadsBack (readInteger meaning) a (Datum.int n).tokens :=
  readsBack_token (by simp) (by simp) fun _ _ => by simp only [readInteger, meant]

theorem readsBack_seq {item : Reader α} {items : List α} {values : List Datum}
    (each : List.Forall₂ (fun a d => ReadsBack item a d.tokens) items values) :
    ReadsBack (readSeq item) items (Datum.seq values).tokens where
  begins := (Datum.seq values).exists_tokens_eq_cons
  read steps rest room := by
    have lengths := each.length_eq
    have zipped : seqTokens (Datum.tokens ∘ Prod.snd) (items.zip values) =
        (Datum.seq values).tokens := by
      rw [← seqTokens_map, List.map_snd_zip lengths.ge, Datum.tokens_seq]
    have both : ∀ p ∈ items.zip values, ReadsBack item p.1 ((Datum.tokens ∘ Prod.snd) p) :=
      fun p hp => (List.forall₂_iff_zip.1 each).2 hp
    have read := readSeq_seqTokens both (zipped ▸ room) rest
    rwa [zipped, List.map_fst_zip lengths.le] at read

end Readers

section Members

def Takes (member : String → σ → Reader σ) (s : σ) (f : String × Datum) (s' : σ) : Prop :=
  ∀ steps rest, f.2.tokens.length ≤ steps →
    member f.1 s steps (.colon :: f.2.tokens ++ rest) = .ok (s', rest)

/-- Each field takes the reader from the state behind the fields before it to that behind
itself. -/
def TakesAll (member : String → σ → Reader σ) (state : List (String × Datum) → σ)
    (given : List (String × Datum)) : Prop :=
  ∀ before f, before ++ [f] <+: given → Takes member (state before) f (state (before ++ [f]))

variable {member : String → σ → Reader σ} {state : List (String × Datum) → σ}
  {given : List (String × Datum)}

theorem TakesAll.readMembers_later (h : TakesAll member state given)
    {before fields : List (String × Datum)} (whole : before ++ fields = given)
    {steps : Nat} (room : (Datum.memberTokens (pairs fields)).length < steps) (rest : List Token) :
    readMembers member false (state before) steps
        (Datum.memberTokens (pairs fields) ++ .closeMap :: rest) =
      .ok (state given, .closeMap :: rest) := by
  -- on the members that are left; those in `before` have brought the reader to its state
  induction fields generalizing before steps with
  | nil =>
    rw [List.append_nil] at whole
    cases steps with
    | zero => cases room
    | succ steps => rw [← whole]; rfl
  | cons f fields ih =>
    cases steps with
    | zero => cases room
    | succ steps =>
      rw [memberTokens_pairs_cons] at room ⊢
      simp only [List.length_append, List.length_cons] at room
      have first := h before f ⟨fields, by simpa using whole⟩ steps
        (Datum.memberTokens (pairs fields) ++ .closeMap :: rest) (by omega)
      have later : readMembers member false (state (before ++ [f])) steps
          (Datum.memberTokens (pairs fields) ++ .closeMap :: rest) =
            .ok (state given, .closeMap :: rest) := ih (by simpa using whole) (by omega)
      simp only [List.cons_append, List.append_assoc, readMembers, nextKey, nextKey.key,
        Bool.false_eq_true, if_false] at first ⊢
      simp only [first, later]

theorem readMembers_first (s : σ) (steps : Nat) (key : String) (rest : List Token) :
    readMembers member true s steps (.text (.ok key) :: rest) =
      readMembers member false s steps (.comma :: .text (.ok key) :: rest) := by
  cases steps <;> rfl

theorem TakesAll.readMembers (h : TakesAll member state given) {steps : Nat}
    (room : (Datum.map (pairs given)).tokens.length ≤ steps) (rest : List Token) :
    readMembers member true (state []) steps
        ((Datum.memberTokens (pairs given)).tail ++ .closeMap :: rest) =
      .ok (state given, .closeMap :: rest) := by
  rw [Datum.tokens] at room
  simp only [List.length_append, List.length_cons, List.length_tail, List.length_nil] at room
  have enough : (Datum.memberTokens (pairs given)).length < steps := by omega
  have read := h.readMembers_later (List.nil_append given) enough rest
  cases given with
  | nil =>
    cases steps with
    | zero => cases room
    | succ steps => rfl
  | cons f fields =>
    rw [memberTokens_pairs_cons] at read ⊢
    rw [← read]
    exact readMembers_first _ _ _ _

theorem TakesAll.readsBack (h : TakesAll member state given) {finish : σ → Except Fault α}
    {a : α} (finished : finish (state given) = .ok a) {r : Reader α}
    (opens : ∀ steps rest, r steps (.openMap :: rest) =
      readMap member (state []) finish steps rest) :
    ReadsBack r a (Datum.map (pairs given)).tokens where
  begins := (Datum.map (pairs given)).exists_tokens_eq_cons
  read steps rest room := by
    have read := h.readMembers room rest
    rw [Datum.tokens, List.append_assoc, List.cons_append, opens, List.singleton_append, readMap]
    simp only [read, finished, endMap, Except.map]

end Members

section Supplies

/-- The fields that are given: the declared ones in any order, and any texts under names
that are not the reader's. -/
def Supplies (names : List String) (declared given : List (String × Datum)) : Prop :=
  ∃ extra, given.Perm (declared ++ extra) ∧
    ∀ f ∈ extra, f.1 ∉ names ∧ ∃ s, f.2 = .text s

variable {names : List String} {declared given before : List (String × Datum)}
  {f : String × Datum}

theorem supplies_refl (names : List String) (declared : List (String × Datum)) :
    Supplies names declared declared :=
  ⟨[], by rw [List.append_nil], by simp⟩

theorem Supplies.mem (h : Supplies names declared given) (hf : f ∈ declared) : f ∈ given := by
  obtain ⟨extra, perm, -⟩ := h
  exact perm.mem_iff.2 (List.mem_append_left _ hf)

theorem Supplies.cases (h : Supplies names declared given) (hf : f ∈ given) :
    f ∈ declared ∨ (f.1 ∉ names ∧ ∃ s, f.2 = .text s) := by
  obtain ⟨extra, perm, other⟩ := h
  rcases List.mem_append.1 (perm.mem_iff.1 hf) with declared | extra
  · exact .inl declared
  · exact .inr (other f extra)

theorem Supplies.filter_perm (h : Supplies names declared given)
    (named : ∀ f ∈ declared, f.1 ∈ names) : (given.filter (·.1 ∈ names)).Perm declared := by
  obtain ⟨extra, perm, other⟩ := h
  have known : declared.filter (·.1 ∈ names) = declared := by simpa using named
  have unknown : extra.filter (·.1 ∈ names) = [] := by
    simpa using fun name d hf => (other (name, d) hf).1
  have filtered := perm.filter (·.1 ∈ names)
  rwa [List.filter_append, known, unknown, List.append_nil] at filtered

theorem Supplies.fresh (h : Supplies names declared given)
    (named : (declared.map (·.1)).Sublist names) (distinct : names.Nodup)
    (front : before ++ [f] <+: given) (known : f.1 ∈ names) : f.1 ∉ before.map (·.1) := by
  have perm := h.filter_perm fun f hf => named.mem (List.mem_map_of_mem hf)
  have once : ((given.filter (·.1 ∈ names)).map (·.1)).Nodup :=
    (perm.map _).nodup_iff.2 (distinct.sublist named)
  -- texts under other names may repeat, so only the known names up to `f` are told apart
  have sub := ((front.sublist.filter (·.1 ∈ names)).map (·.1)).nodup once
  intro earlier
  obtain ⟨g, hg, same⟩ := List.mem_map.1 earlier
  have inside : f.1 ∈ (before.filter (·.1 ∈ names)).map (·.1) :=
    List.mem_map.2 ⟨g, List.mem_filter.2 ⟨hg, by simpa [same] using known⟩, same⟩
  rw [List.filter_append, List.map_append, List.nodup_append] at sub
  exact sub.2.2 _ inside f.1 (by simp [known]) rfl

end Supplies

section Slots

def seen (name : String) (done : List (String × Datum)) (a : α) : Option α :=
  if name ∈ done.map (·.1) then some a else none

variable {name : String} {done : List (String × Datum)} {a : α} {d : Datum}

theorem seen_append (name : String) (done : List (String × Datum)) (f : String × Datum) (a : α) :
    seen name (done ++ [f]) a = if f.1 = name then some a else seen name done a := by
  unfold seen
  grind

theorem seen_of_mem (h : name ∈ done.map (·.1)) : seen name done a = some a := if_pos h

theorem seen_of_notMem (h : name ∉ done.map (·.1)) : seen name done a = none := if_neg h

variable {member : String → σ → Reader σ} {state : List (String × Datum) → σ}

theorem takes_of_readOnce {s s' : σ} {r : Reader α} (put : Option α → σ)
    (fresh : name ∉ done.map (·.1)) (back : ReadsBack r a d.tokens)
    (reads : ∀ steps ts, member name s steps ts =
      (readOnce r (seen name done a) steps ts).map fun (a, rest) => (put a, rest))
    (kept : put (some a) = s') : Takes member s (name, d) s' := by
  intro steps rest room
  have read := back.read steps rest room
  rw [List.cons_append, reads, seen_of_notMem fresh, ← kept]
  simp only [readOnce, readValue, afterColon, read, Except.map]

theorem takes_of_skipField {s : σ} {f : String × Datum} (text : ∃ t, f.2 = .text t)
    (skips : ∀ steps ts, member f.1 s steps ts = skipField s steps ts) : Takes member s f s := by
  obtain ⟨t, text⟩ := text
  intro steps rest _
  rw [text, List.cons_append, skips]
  simp [skipField, afterColon, skipValue, Datum.tokens, skipInside, skipAfter, Except.map]

/-- A reader that takes each declared field when it is new, and passes over every name it
does not know, takes all that is given. -/
theorem Supplies.takesAll {names : List String} {declared given : List (String × Datum)}
    (h : Supplies names declared given) (named : (declared.map (·.1)).Sublist names)
    (distinct : names.Nodup)
    (keeps : ∀ f ∈ declared, ∀ done : List (String × Datum), f.1 ∉ done.map (·.1) →
      Takes member (state done) f (state (done ++ [f])))
    (ignores : ∀ f : String × Datum, f.1 ∉ names → ∀ done, state (done ++ [f]) = state done)
    (skips : ∀ key, key ∉ names → ∀ s steps ts, member key s steps ts = skipField s steps ts) :
    TakesAll member state given := by
  intro before f front
  rcases h.cases (front.subset (List.mem_append_right before List.mem_cons_self)) with
    declared | ⟨unknown, text⟩
  · have known := named.mem (List.mem_map_of_mem declared)
    exact keeps f declared before (h.fresh named distinct front known)
  · rw [ignores f unknown]
    exact takes_of_skipField text (skips f.1 unknown _)

end Slots

section Tags

variable {κ : Type} {tag word : String} {meaning : String → Option κ} {k : κ}
  {declared given : List (String × Datum)}

theorem Scalar.tokens {d : Datum} {t : Token} (h : Scalar d t) : d.tokens = [t] := by
  cases h <;> rfl

def taggedState (tag : String) (k : κ) (done : List (String × Datum)) :
    Option κ × List (Datum × Datum) :=
  (seen tag done k, (pairs (done.filter (·.1 ≠ tag))).reverse)

theorem taggedState_append (done : List (String × Datum)) (d : Datum) :
    taggedState tag k (done ++ [(tag, d)]) = (some k, (taggedState tag k done).2) := by
  simp [taggedState, seen_append]

theorem taggedState_append_of_ne {f : String × Datum} (other : f.1 ≠ tag)
    (done : List (String × Datum)) :
    taggedState tag k (done ++ [f]) = putField (taggedState tag k done) f := by
  simp [taggedState, seen_append, other, putField, pairs]

theorem Supplies.eq_tag
    (h : Supplies (tag :: declared.map (·.1)) ((tag, .text word) :: declared) given)
    (unnamed : tag ∉ declared.map (·.1)) {f : String × Datum} (hf : f ∈ given)
    (same : f.1 = tag) : f = (tag, .text word) := by
  rcases h.cases hf with found | ⟨unknown, -⟩
  · rcases List.mem_cons.1 found with first | later
    · exact first
    · exact absurd (same ▸ List.mem_map_of_mem later) unnamed
  · exact absurd (by simp [same]) unknown

theorem Supplies.exists_scalar
    (h : Supplies (tag :: declared.map (·.1)) ((tag, .text word) :: declared) given)
    (scalars : ∀ f ∈ declared, ∃ t, Scalar f.2 t) {f : String × Datum} (hf : f ∈ given) :
    ∃ t, Scalar f.2 t := by
  rcases h.cases hf with found | ⟨-, s, text⟩
  · rcases List.mem_cons.1 found with rfl | later
    · exact ⟨_, .text word⟩
    · exact scalars f later
  · exact ⟨_, text ▸ Scalar.text s⟩

theorem Supplies.takesAll_tagged (meant : meaning word = some k)
    (h : Supplies (tag :: declared.map (·.1)) ((tag, .text word) :: declared) given)
    (distinct : (tag :: declared.map (·.1)).Nodup)
    (scalars : ∀ f ∈ declared, ∃ t, Scalar f.2 t) (room : Nat) :
    TakesAll (taggedMember tag meaning room) (taggedState tag k) given := by
  intro before f front steps rest _
  have inside : f ∈ given := front.subset (List.mem_append_right before List.mem_cons_self)
  by_cases same : f.1 = tag
  · have fresh := h.fresh (List.Sublist.refl _) distinct front (by simp [same])
    obtain rfl := h.eq_tag (List.nodup_cons.1 distinct).1 inside same
    rw [taggedState_append, taggedState, seen_of_notMem fresh]
    exact taggedMember_tag meant _ steps rest
  · obtain ⟨t, scalar⟩ := h.exists_scalar scalars inside
    rw [taggedState_append_of_ne same, scalar.tokens]
    exact taggedMember_scalar same scalar _ steps rest

/-- The tag may stand anywhere among the fields, which are texts and integers. -/
theorem readsBack_tagged (meant : meaning word = some k)
    (h : Supplies (tag :: declared.map (·.1)) ((tag, .text word) :: declared) given)
    (distinct : (tag :: declared.map (·.1)).Nodup)
    (scalars : ∀ f ∈ declared, ∃ t, Scalar f.2 t) (room : Nat) :
    ReadsBack (readTagged tag meaning room) (k, .map (pairs (given.filter (·.1 ≠ tag))))
      (Datum.map (pairs given)).tokens := by
  have tagged : seen tag given k = some k :=
    seen_of_mem (List.mem_map_of_mem (h.mem List.mem_cons_self))
  exact (h.takesAll_tagged meant distinct scalars room).readsBack (by simp [taggedState, tagged])
    fun steps rest => readTagged_openMap tag meaning room steps rest

theorem Supplies.untagged {names : List String} {d : Datum} (unnamed : tag ∉ declared.map (·.1))
    (h : Supplies (tag :: names) ((tag, d) :: declared) given) :
    Supplies names declared (given.filter (·.1 ≠ tag)) := by
  obtain ⟨extra, perm, other⟩ := h
  have kept : declared.filter (·.1 ≠ tag) = declared := by
    rw [List.filter_eq_self]
    intro f hf
    simpa using fun same : f.1 = tag => unnamed (same ▸ List.mem_map_of_mem hf)
  refine ⟨extra.filter (·.1 ≠ tag), ?_, fun f hf => ?_⟩
  · have filtered := perm.filter (·.1 ≠ tag)
    rw [List.filter_append, List.filter_cons, kept] at filtered
    simpa using filtered
  · obtain ⟨unknown, text⟩ := other f (List.mem_filter.1 hf).1
    exact ⟨fun known => unknown (List.mem_cons_of_mem _ known), text⟩

end Tags

end Json

namespace Datum

open Json (Supplies pairs supplies_refl)

theorem toUInt32?_int (n : UInt32) : (Datum.int n.toNat).toUInt32? = some n := by
  simp [toUInt32?, within?, n.toNat_lt]

theorem toUInt64?_int {n : Nat} (bounded : n < UInt64.size) :
    (Datum.int n).toUInt64? = some (.ofNat n) := by
  simp [toUInt64?, within?, bounded]

theorem toUInt64?_toNat (n : UInt64) : (Datum.int n.toNat).toUInt64? = some n := by
  rw [toUInt64?_int n.toNat_lt, UInt64.ofNat_toNat]

theorem toInt32?_int (n : Int32) : (Datum.int n.toInt).toInt32? = some n := by
  have inside : Int32.minValue.toInt ≤ n.toInt ∧ n.toInt < Int32.maxValue.toInt + 1 :=
    ⟨n.minValue_le_toInt, Int.lt_add_one_of_le n.toInt_le⟩
  rw [toInt32?, within?, if_pos inside, Option.map_some, Int32.ofInt_toInt]

theorem keyOf?_text (names : List String) (s : String) :
    keyOf? names (.text s) = some (if s ∈ names then some s else none) := by
  rw [keyOf?]
  split
  · next known =>
    cases search : names.find? (· == s) with
    | none => simpa using List.find?_eq_none.1 search s known
    | some name =>
      have same := List.find?_some (p := fun name => name == s) search
      rw [beq_iff_eq.1 same]
  · next unknown =>
    have none : names.find? (· == s) = none := by
      rw [List.find?_eq_none]
      rintro name known same
      exact unknown (beq_iff_eq.1 same ▸ known)
    rw [none]

theorem known?_pairs (names : List String) (fields : List (String × Datum)) :
    known? names (pairs fields) = some (fields.filter (·.1 ∈ names)) := by
  induction fields with
  | nil => rfl
  | cons f fields ih =>
    rw [pairs, List.map_cons, ← pairs, known?, keyOf?_text, ih, List.filter_cons]
    by_cases known : f.1 ∈ names <;> simp [known]

theorem field?_of_mem {fields : List (String × Datum)} (distinct : (fields.map (·.1)).Nodup)
    {f : String × Datum} (hf : f ∈ fields) : field? f.1 fields = some f.2 := by
  have only : fields.filter (·.1 == f.1) = [f] := by
    induction fields with
    | nil => cases hf
    | cons g fields ih =>
      obtain ⟨first, distinct⟩ := List.nodup_cons.1 distinct
      rcases List.mem_cons.1 hf with rfl | hf
      · have none : fields.filter (·.1 == f.1) = [] := by
          rw [List.filter_eq_nil_iff]
          intro g hg same
          exact first (List.mem_map.2 ⟨g, hg, beq_iff_eq.1 same⟩)
        rw [List.filter_cons, if_pos (beq_self_eq_true f.1), none]
      · have other : ¬ (g.1 == f.1) = true := fun same =>
          first (List.mem_map.2 ⟨f, hf, (beq_iff_eq.1 same).symm⟩)
        rw [List.filter_cons, if_neg other, ih distinct hf]
  rw [field?, only]

theorem fields?_supplies {declared given : List (String × Datum)}
    (distinct : (declared.map (·.1)).Nodup) (h : Supplies (declared.map (·.1)) declared given) :
    (Datum.map (pairs given)).fields? (declared.map (·.1)) = some (declared.map (·.2)) := by
  have perm := h.filter_perm fun f hf => List.mem_map_of_mem hf
  generalize known : given.filter (·.1 ∈ declared.map (·.1)) = found at perm
  have every : ∀ asked : List (String × Datum), asked ⊆ declared →
      (asked.map (·.1)).mapM (field? · found) = some (asked.map (·.2)) := by
    intro asked inside
    induction asked with
    | nil => rfl
    | cons f asked ih =>
      have first := field?_of_mem ((perm.map (·.1)).nodup_iff.2 distinct)
        (perm.mem_iff.2 (inside List.mem_cons_self))
      have later := ih fun g hg => inside (List.mem_cons_of_mem _ hg)
      simp only [List.map_cons, List.mapM_cons, first, later]
      rfl
  rw [fields?, known?_pairs, known]
  exact every declared fun f hf => hf

theorem fields?_pairs (fields : List (String × Datum)) (distinct : (fields.map (·.1)).Nodup) :
    (Datum.map (pairs fields)).fields? (fields.map (·.1)) = some (fields.map (·.2)) :=
  fields?_supplies distinct (supplies_refl _ fields)

end Datum

end ParseTrace
