import ParseTrace.Proofs.Description
import ParseTrace.Proofs.Numbering

/-!
Descriptions that list no tree. An interior entry is open if it asks for more subtrees to the
end. One open entry stands within the other, so the last of them is the innermost, and that is
the one that a refusal names. Entries that are not open have become nodes.
-/

namespace ParseTrace

/-- Where the interior entries stand whose subtrees are not all listed. -/
def openPlaces (entries : List Entry) : Set Nat :=
  {place | ∃ symbol name count, entries[place]? = some (.interior symbol name count) ∧
    ¬ Forest.Begins Entry.arity count (entries.drop (place + 1))}

section OpenPlaces

variable {read : List Entry} {place : Nat}

theorem mem_openPlaces : place ∈ openPlaces read ↔
    ∃ e, read[place]? = some e ∧ Forest.Owes Entry.arity e.arity (read.drop (place + 1)) := by
  constructor
  · rintro ⟨symbol, name, count, stands, lacking⟩
    exact ⟨_, stands, Forest.not_begins_iff.1 lacking⟩
  · rintro ⟨e, stands, owes⟩
    cases e with
    | token => exact absurd (owes [] List.nil_prefix) (Nat.lt_irrefl 0)
    | interior symbol name count => exact ⟨symbol, name, count, stands, owes.not_begins⟩

theorem lt_length_of_mem_openPlaces (h : place ∈ openPlaces read) : place < read.length := by
  obtain ⟨e, stands, -⟩ := mem_openPlaces.1 h
  exact (List.getElem?_eq_some_iff.1 stands).1

theorem openPlaces_append {e : Entry} {f : Forest Entry} (counted : f.Counted Entry.arity)
    (short : f.roots.length < e.arity) :
    openPlaces (read ++ e :: f.preorder) = insert read.length (openPlaces read) := by
  have lacking : Forest.Owes Entry.arity 1 (e :: f.preorder) :=
    (Forest.owes_preorder counted short).cons
  ext place
  rw [Set.mem_insert_iff, mem_openPlaces, mem_openPlaces]
  rcases lt_trichotomy place read.length with before | rfl | behind
  · rw [List.getElem?_append_left before, List.drop_append_of_le_length before]
    refine ⟨fun ⟨e', stands, owes⟩ => .inr ⟨e', stands, ?_⟩, ?_⟩
    · exact owes.of_prefix (List.prefix_append _ _)
    · rintro (rfl | ⟨e', stands, owes⟩)
      · exact absurd before (Nat.lt_irrefl _)
      · exact ⟨e', stands, owes.append lacking⟩
  · rw [List.drop_length_add_append, List.getElem?_append_right (Nat.le_refl _), Nat.sub_self]
    exact ⟨fun _ => .inl rfl, fun _ => ⟨e, rfl, Forest.owes_preorder counted short⟩⟩
  · obtain ⟨k, rfl⟩ := Nat.exists_eq_add_of_lt behind
    rw [Nat.add_assoc read.length, Nat.add_assoc read.length (k + 1),
      List.drop_length_add_append, List.getElem?_append_right (Nat.le_add_right _ _),
      Nat.add_sub_cancel_left]
    refine ⟨fun ⟨e', stands, owes⟩ => ?_, ?_⟩
    · exact absurd (Forest.begins_below counted stands) owes.not_begins
    · rintro (again | ⟨e', stands, -⟩)
      · omega
      · have inside := (List.getElem?_eq_some_iff.1 stands).1
        omega

theorem ncard_openPlaces_append {e : Entry} {f : Forest Entry} (counted : f.Counted Entry.arity)
    (short : f.roots.length < e.arity) :
    (openPlaces (read ++ e :: f.preorder)).ncard = (openPlaces read).ncard + 1 := by
  have finite : (openPlaces read).Finite :=
    (Set.finite_Iio read.length).subset fun _ => lt_length_of_mem_openPlaces
  have new : read.length ∉ openPlaces read :=
    fun old => absurd (lt_length_of_mem_openPlaces old) (Nat.lt_irrefl _)
  rw [openPlaces_append counted short, Set.ncard_insert_of_notMem new finite]

theorem isGreatest_openPlaces_append {e : Entry} {f : Forest Entry}
    (counted : f.Counted Entry.arity) (short : f.roots.length < e.arity) :
    IsGreatest (openPlaces (read ++ e :: f.preorder)) read.length := by
  rw [openPlaces_append counted short]
  refine ⟨Set.mem_insert _ _, ?_⟩
  rintro place (rfl | outer)
  · exact Nat.le_refl _
  · exact (lt_length_of_mem_openPlaces outer).le

end OpenPlaces

namespace Rebuild

variable {t : Tree} {pending outer : List Pending} {p : Pending} {f g : Forest Nat}
  {read : List Entry}

theorem Waiting.ncard_openPlaces (h : Waiting t pending f read) (unfolds : t.Unfolds f) :
    (openPlaces read).ncard = pending.length := by
  induction h with
  | nil =>
    have none : openPlaces [] = ∅ :=
      Set.eq_empty_of_forall_notMem fun place h => Nat.not_lt_zero _ (lt_length_of_mem_openPlaces h)
    rw [none, Set.ncard_empty, List.length_nil]
  | @cons p outer f g read _ roots short ih =>
    obtain ⟨before, newest⟩ := Tree.unfolds_append.1 unfolds
    rw [← length_roots_received (t := t) roots] at short
    rw [ncard_openPlaces_append (e := .interior p.symbol p.name p.expected) newest.counted short,
      ih before, List.length_cons]

theorem Waiting.length_read (h : Waiting t pending f read) :
    read.length = f.preorder.length + pending.length := by
  induction h with
  | nil => rfl
  | cons _ _ _ ih =>
    simp only [List.length_append, List.length_cons, Forest.preorder_append, Forest.preorder_map,
      List.length_map, ih]
    omega

theorem Waiting.eq_nil (h : Waiting t [] f read) : f = .nil ∧ read = [] := by
  cases h
  exact ⟨rfl, rfl⟩

/-- Behind the innermost open entry stand the trees that it has received and nothing else. -/
theorem Waiting.innermost (h : Waiting t (p :: outer) f read) (unfolds : t.Unfolds f) :
    ∃ place, IsGreatest (openPlaces read) place ∧
      read[place]? = some (.interior p.symbol p.name p.expected) ∧
      ∃ received : Forest Entry, received.Counted Entry.arity ∧
        received.roots.length = p.received.length ∧
        received.preorder = read.drop (place + 1) := by
  cases h with
  | @cons _ _ f g read _ roots short =>
    obtain ⟨-, newest⟩ := Tree.unfolds_append.1 unfolds
    have received := length_roots_received (t := t) roots
    rw [← received] at short
    refine ⟨read.length, isGreatest_openPlaces_append newest.counted short, ?_, g.map t.label,
      newest.counted, received, ?_⟩
    · rw [List.getElem?_append_right (Nat.le_refl _), Nat.sub_self]
      rfl
    · rw [List.drop_length_add_append]
      rfl

def lack : List Pending → DescriptionFault
  | [] => .empty
  | p :: _ => .truncated p.name p.expected p.received.length

end Rebuild

namespace Description

variable {d : Description} {s : Session} {failure : Failure}

def CompleteTo (d : Description) (p : Nat) : Prop :=
  p < d.entries.length ∧ ∃ tree : OrderedTree Entry,
    tree.forest.Counted Entry.arity ∧ tree.forest.preorder = d.entries.take p

theorem refused_cases (refused : (d.rebuild s).1 = .error failure) :
    (∃ (tree : OrderedTree Entry) (e : Entry) (rest : List Entry),
      tree.forest.Counted Entry.arity ∧ d.entries = tree.forest.preorder ++ e :: rest ∧
      failure = .malformedDescription (.trailing (rest.length + 1)) ∧
      (d.rebuild s).2 =
        { s with nextId := s.nextId + .ofNat tree.forest.preorder.length }) ∨
    ∃ t pending f, Rebuild.Waiting t pending f d.entries ∧ t.Unfolds f ∧
      failure = .malformedDescription (Rebuild.lack pending) ∧
      (d.rebuild s).2 = { s with nextId := s.nextId + .ofNat f.preorder.length } := by
  have edits :=
    (Tree.Numbered.empty s).becomes (Rebuild.becomes_enterAll d.entries { session := s })
  rcases Rebuild.enterAll_holds (Rebuild.holds_start s) d.entries with
    ⟨r, run, holds⟩ | ⟨r, taken, e, rest, split, root, holds, fault⟩
  · rw [run] at edits
    rw [List.nil_append] at holds
    rw [rebuild, run] at refused ⊢
    cases holds with
    | @finished f root closed complete arena listed =>
      simp only [Rebuild.finish, closed, complete, arena.setRoot_ok] at refused
      cases refused
    | @waiting f unfinished arena waiting =>
      refine .inr ⟨r.tree, r.pending, f, waiting, arena.unfolds, ?_, ?_⟩
      · unfold Rebuild.finish at refused
        cases hp : r.pending with
        | nil =>
          simp only [hp, unfinished, Except.error.injEq] at refused
          exact refused.symm
        | cons p outer =>
          simp only [hp, Except.error.injEq] at refused
          exact refused.symm
      · rw [arena.length_preorder]
        exact edits.next
  · rw [fault] at edits
    have next : r.session = _ := edits.next
    rw [rebuild, fault] at refused ⊢
    cases holds with
    | waiting unfinished => rw [unfinished] at root; cases root
    | @finished f i closed complete arena listed =>
      obtain ⟨below, rfl⟩ := Forest.eq_cons_of_roots arena.roots
      refine .inl ⟨⟨r.tree.label i, below.map r.tree.label⟩, e, rest, arena.unfolds.counted, ?_,
        (Except.error.inj refused).symm, ?_⟩
      · rw [split, ← List.nil_append taken, listed]
        rfl
      · have size := arena.length_preorder
        rw [← List.length_map r.tree.label, ← Forest.preorder_map] at size
        exact next.trans (by rw [← size]; rfl)

/-- What is said of a description that is not rebuilt. If fewer than all entries already list
a whole tree, the others are counted, and an identifier is spent on each entry of that tree.
If not, and there are entries, the refusal names the innermost of those that lack subtrees,
which is the last one, and counts the trees that the entries behind it list; an identifier is
spent on each entry that is not open. -/
theorem rebuild_refused (refused : (d.rebuild s).1 = .error failure) :
    (∀ p, d.CompleteTo p →
      failure = .malformedDescription (.trailing (d.entries.length - p)) ∧
      failure.message = "invalid tree description: " ++
        s!"{d.entries.length - p} entries follow the complete tree" ∧
      (d.rebuild s).2 = { s with nextId := s.nextId + .ofNat p }) ∧
    ((∀ p, ¬ d.CompleteTo p) → d.entries = [] →
      failure = .malformedDescription .empty ∧
      failure.message = "invalid tree description: " ++ "the description is empty" ∧
      (d.rebuild s).2 = s) ∧
    ((∀ p, ¬ d.CompleteTo p) → d.entries ≠ [] →
      ∃ (place : Nat) (symbol : UInt32) (name : String) (count given : Nat),
        IsGreatest (openPlaces d.entries) place ∧
        d.entries[place]? = some (.interior symbol name count) ∧
        (∃ received : Forest Entry, received.Counted Entry.arity ∧
          received.roots.length = given ∧ received.preorder = d.entries.drop (place + 1)) ∧
        failure = .malformedDescription (.truncated name count given) ∧
        failure.message = "invalid tree description: " ++
          s!"node `{name}` expects {count} children but the description ends after {given}" ∧
        (d.rebuild s).2 = { s with
          nextId := s.nextId + .ofNat (d.entries.length - (openPlaces d.entries).ncard) }) := by
  rcases refused_cases refused with
    ⟨tree, e, rest, counted, split, rfl, session⟩ |
    ⟨t, pending, f, waiting, unfolds, rfl, session⟩
  · have complete : d.CompleteTo tree.forest.preorder.length :=
      ⟨by rw [split, List.length_append]; simp, tree, counted, by rw [split, List.take_left]⟩
    refine ⟨?_, fun none => absurd complete (none _), fun none => absurd complete (none _)⟩
    rintro p ⟨inside, tree', counted', listed⟩
    -- a list begins with one whole tree at most
    have lists : tree'.forest.preorder ++ d.entries.drop p = tree.forest.preorder ++ e :: rest := by
      rw [listed, List.take_append_drop, split]
    have same := (Forest.eq_of_preorder_append counted' counted rfl lists).1
    have size : p = tree.forest.preorder.length := by
      rw [← same, listed, List.length_take, Nat.min_eq_left inside.le]
    have others : d.entries.length - p = rest.length + 1 := by
      rw [split, List.length_append, size, Nat.add_sub_cancel_left, List.length_cons]
    rw [others, session, size]
    exact ⟨rfl, rfl, rfl⟩
  · have none : ∀ p, ¬ d.CompleteTo p := by
      rintro p ⟨-, tree, counted, listed⟩
      refine (waiting.owes unfolds).not_begins ⟨tree.forest, counted, rfl, ?_⟩
      exact listed ▸ List.take_prefix p d.entries
    refine ⟨fun p complete => absurd complete (none p), ?_⟩
    cases pending with
    | nil =>
      obtain ⟨rfl, nothing⟩ := waiting.eq_nil
      exact ⟨fun _ _ => ⟨rfl, rfl, by simp [session, Forest.preorder]⟩,
        fun _ some => absurd nothing some⟩
    | cons p outer =>
      obtain ⟨place, innermost, stands, received, counted, width, behind⟩ :=
        waiting.innermost unfolds
      have size := waiting.length_read
      have opened := waiting.ncard_openPlaces unfolds
      refine ⟨fun _ empty => ?_, fun _ _ => ⟨place, p.symbol, p.name, p.expected,
        p.received.length, innermost, stands, ⟨received, counted, width, behind⟩, rfl, rfl, ?_⟩⟩
      · rw [empty] at stands
        cases stands
      · rw [session, opened, size, Nat.add_sub_cancel]

theorem rebuild_refused_within_pair :
    ∃ d : Description, d.entries =
        [.interior 9 "list" 2, .token 1 "T" "x" 1, .interior 8 "pair" 3, .token 1 "T" "y" 2,
          .interior 7 "none" 0] ∧
      (d.rebuild ⟨"a.php", 7⟩).1 = .error (.malformedDescription (.truncated "pair" 3 2)) ∧
      IsGreatest (openPlaces d.entries) 2 := by
  refine ⟨⟨_⟩, rfl, rfl, ?_⟩
  obtain ⟨-, -, truncated⟩ := rebuild_refused (s := ⟨"a.php", 7⟩) (d := ⟨[.interior 9 "list" 2,
    .token 1 "T" "x" 1, .interior 8 "pair" 3, .token 1 "T" "y" 2, .interior 7 "none" 0]⟩) rfl
  have owes : Forest.Owes Entry.arity 1 [.interior 9 "list" 2, .token 1 "T" "x" 1,
      .interior 8 "pair" 3, .token 1 "T" "y" 2, .interior 7 "none" 0] := by
    intro read begun
    rw [← List.mem_inits] at begun
    revert read
    decide
  obtain ⟨place, symbol, name, count, given, innermost, stands, -, fault, -⟩ := truncated
    (fun p ⟨_, tree, counted, listed⟩ => owes.not_begins
      ⟨tree.forest, counted, rfl, listed ▸ List.take_prefix p _⟩) (List.cons_ne_nil _ _)
  have same : place = 2 := by
    have inside : place < 5 := (List.getElem?_eq_some_iff.1 stands).1
    injection fault with fault
    injection fault with called asks
    subst called asks
    interval_cases place <;> simp at stands ⊢
  exact same ▸ innermost

end Description

end ParseTrace
