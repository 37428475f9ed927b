import ParseTrace.Proofs.Stacked

/-!
Descriptions as a code for ordered trees. A half rebuilt tree owes every entry it has read
to an open interior node or to a finished tree below one, so the entries run out exactly
when the one tree that they can list is complete.
-/

namespace ParseTrace

namespace Rebuild

/-- Open entries, innermost first, with the finished trees that they have received and
the entries read so far. No entry is open once its trees are all there. -/
inductive Waiting (t : Tree) : List Pending → Forest Nat → List Entry → Prop
  | nil : Waiting t [] .nil []
  | cons {p : Pending} {outer : List Pending} {f g : Forest Nat} {read : List Entry} :
      Waiting t outer f read → g.roots = p.received.reverse →
      p.received.length < p.expected →
      Waiting t (p :: outer) (f ++ g)
        (read ++ .interior p.symbol p.name p.expected :: (g.map t.label).preorder)

theorem Waiting.mono {t u : Tree} {pending : List Pending} {f : Forest Nat}
    {read : List Entry} (h : Waiting t pending f read) (unfolds : t.Unfolds f)
    (grows : t.Grows u) : Waiting u pending f read := by
  induction h with
  | nil => exact .nil
  | cons _ roots short ih =>
    obtain ⟨before, newest⟩ := Tree.unfolds_append.1 unfolds
    rw [← newest.map_label_mono grows]
    exact .cons (ih before) roots short

theorem length_roots_received {t : Tree} {p : Pending} {g : Forest Nat}
    (roots : g.roots = p.received.reverse) :
    (g.map t.label).roots.length = p.received.length := by
  rw [Forest.roots_map, List.length_map, roots, List.length_reverse]

theorem Waiting.owes {t : Tree} {pending : List Pending} {f : Forest Nat} {read : List Entry}
    (h : Waiting t pending f read) (unfolds : t.Unfolds f) :
    Forest.Owes Entry.arity 1 read := by
  induction h with
  | nil => exact fun read begun => by simp [List.prefix_nil.1 begun]
  | @cons p outer f g read _ roots short ih =>
    obtain ⟨before, newest⟩ := Tree.unfolds_append.1 unfolds
    rw [← length_roots_received (t := t) roots] at short
    exact (ih before).append (Forest.owes_preorder newest.counted short).cons

theorem Waiting.length_le {t : Tree} {pending : List Pending} {f : Forest Nat}
    {read : List Entry} (h : Waiting t pending f read) (unfolds : t.Unfolds f) :
    read.length ≤ (read.map Entry.arity).sum :=
  Nat.le_of_lt_succ (h.owes unfolds read List.prefix_rfl)

inductive Holds (r : Rebuild) (read : List Entry) : Prop
  | waiting {f : Forest Nat} (unfinished : r.root = none)
      (arena : r.tree.Stacked f.roots f) (waiting : Waiting r.tree r.pending f read)
  | finished {f : Forest Nat} {root : Nat} (closed : r.pending = []) (finished : r.root = some root)
      (arena : r.tree.Stacked [root] f) (listed : read = (f.map r.tree.label).preorder)

theorem holds_start (s : Session) : Holds { session := s } [] :=
  .waiting (f := .nil) rfl .empty .nil

theorem settle_holds {t : Tree} {pending : List Pending} {f below : Forest Nat}
    {read : List Entry} {i : Nat} (s : Session) (waiting : Waiting t pending f read)
    (arena : t.Stacked (f.roots ++ [i]) (f ++ .cons i below .nil)) :
    ∃ r, settle t s pending i = (.ok (), r) ∧
      r.Holds (read ++ ((Forest.cons i below .nil).map t.label).preorder) := by
  -- one open entry after another; each that is completed is the finished tree of the next
  induction pending generalizing t s f below read i with
  | nil =>
    cases waiting
    exact ⟨_, rfl, .finished rfl rfl arena rfl⟩
  | cons p outer ih =>
    cases waiting with
    | @cons _ _ f g read outside roots short =>
      have family : (g ++ .cons i below .nil).roots = (i :: p.received).reverse := by
        rw [Forest.roots_append, roots, List.reverse_cons]
        rfl
      rw [Forest.append_assoc] at arena
      rw [Forest.roots_append, List.append_assoc, roots, ← List.reverse_cons] at arena
      rw [settle]
      by_cases more : (i :: p.received).length < p.expected
      · refine ⟨_, if_pos more, ?_⟩
        have still := Waiting.cons (p := { p with received := i :: p.received }) outside family
          more
        simp only [Forest.map_append, Forest.preorder_append] at still
        refine .waiting (f := f ++ (g ++ .cons i below .nil)) rfl ?_ ?_
        · rw [Forest.roots_append, family]
          exact arena
        · simpa only [List.append_assoc, List.cons_append] using still
      · -- no entry that waits is complete, so this tree is exactly the last one asked for
        have full : p.expected = (i :: p.received).reverse.length := by
          rw [List.length_reverse, List.length_cons]
          rw [List.length_cons] at more
          omega
        have unfolds := Tree.unfolds_append.1 arena.unfolds
        have grows := t.grows_pushInterior s p.symbol p.name (i :: p.received).reverse
        have closed := arena.pushInterior family s p.symbol p.name
        have kept := outside.mono unfolds.1 grows
        have same := unfolds.2.map_label_mono grows
        have entry : (t.pushInterior s p.symbol p.name (i :: p.received).reverse).2.1.label
            t.nodes.size = .interior p.symbol p.name p.expected := by
          rw [full]
          exact arena.label_pushInterior s p.symbol p.name
        obtain ⟨r, run, holds⟩ := ih s.advance kept closed
        refine ⟨r, ?_, ?_⟩
        · rw [if_neg more]
          rw [arena.pushInterior_ok s p.symbol p.name] at run ⊢
          exact run
        · simpa only [Forest.map, Forest.preorder, entry, same, Forest.map_append,
            Forest.preorder_append, List.append_assoc, List.cons_append, List.append_nil]
            using holds

theorem enter_holds {r : Rebuild} {read : List Entry} (h : r.Holds read)
    (unfinished : r.root = none) (e : Entry) :
    ∃ r', r.enter e = (.ok (), r') ∧ r'.Holds (read ++ [e]) := by
  cases h with
  | finished _ root => rw [unfinished] at root; cases root
  | @waiting f _ arena waiting =>
    cases e with
    | token symbol name lexeme line =>
      have grows := r.tree.grows_pushToken r.session ⟨symbol, name, lexeme, line⟩
      have leaf := arena.pushToken r.session ⟨symbol, name, lexeme, line⟩
      obtain ⟨r', run, holds⟩ :=
        settle_holds r.session.advance (waiting.mono arena.unfolds grows) leaf
      have entry : (r.tree.pushToken r.session ⟨symbol, name, lexeme, line⟩).2.1.label
          r.tree.nodes.size = .token symbol name lexeme line :=
        r.tree.label_pushToken r.session _
      refine ⟨r', run, ?_⟩
      simpa only [Forest.map, Forest.preorder, entry, List.append_nil] using holds
    | interior symbol name children =>
      cases children with
      | zero =>
        have stack : r.tree.Stacked (f.roots ++ []) (f ++ .nil) := by
          rw [List.append_nil, Forest.append_nil]
          exact arena
        have grows := r.tree.grows_pushInterior r.session symbol name []
        have childless := stack.pushInterior rfl r.session symbol name
        obtain ⟨r', run, holds⟩ :=
          settle_holds r.session.advance (waiting.mono arena.unfolds grows) childless
        have entry : (r.tree.pushInterior r.session symbol name []).2.1.label
            r.tree.nodes.size = .interior symbol name 0 :=
          stack.label_pushInterior r.session symbol name
        refine ⟨r', ?_, ?_⟩
        · rw [enter]
          rw [stack.pushInterior_ok r.session symbol name] at run ⊢
          exact run
        · simpa only [Forest.map, Forest.preorder, entry, List.append_nil] using holds
      | succ n =>
        have opened := Waiting.cons (p := ⟨symbol, name, n + 1, []⟩) (g := .nil) waiting rfl
          (Nat.succ_pos n)
        rw [Forest.append_nil] at opened
        exact ⟨_, rfl, .waiting unfinished arena opened⟩

theorem enterAll_holds {r : Rebuild} {read : List Entry} (h : r.Holds read)
    (entries : List Entry) :
    (∃ r', enterAll entries r = (.ok (), r') ∧ r'.Holds (read ++ entries)) ∨
    ∃ r' taken e rest, entries = taken ++ e :: rest ∧ r'.root.isSome ∧
      r'.Holds (read ++ taken) ∧
      enterAll entries r =
        (.error (.malformedDescription (.trailing (rest.length + 1))), r') := by
  induction entries generalizing r read with
  | nil => exact .inl ⟨r, rfl, by rwa [List.append_nil]⟩
  | cons e rest ih =>
    cases hr : r.root with
    | some root =>
      refine .inr ⟨r, [], e, rest, rfl, by rw [hr]; rfl, by rwa [List.append_nil], ?_⟩
      rw [enterAll, hr]
      rfl
    | none =>
      obtain ⟨r₁, step, holds⟩ := enter_holds h hr e
      have run : enterAll (e :: rest) r = enterAll rest r₁ := by
        rw [enterAll, hr]
        simp only [Option.isSome_none, Bool.false_eq_true, if_false, step]
      rw [run]
      rcases ih holds with ⟨r', all, last⟩ | ⟨r', taken, e', rest', split, root, last, fault⟩
      · exact .inl ⟨r', all, by simpa using last⟩
      · exact .inr ⟨r', e :: taken, e', rest', by rw [split]; rfl, root, by simpa using last,
          fault⟩

end Rebuild

namespace Description

theorem entries_inj {d d' : Description} : d.entries = d'.entries ↔ d = d' := by
  cases d
  cases d'
  simp

/-- What a description that is rebuilt says: the whole tree, a tree and more, or a tree
that still lacks parts. -/
theorem rebuild_cases (d : Description) (s : Session) :
    (∃ t root f, (d.rebuild s).1 = .ok t ∧ t.root = some root ∧ t.Stacked [root] f ∧
      (f.map t.label).preorder = d.entries) ∨
    (∃ fault, (d.rebuild s).1 = .error (.malformedDescription fault)) ∧
      ((∃ tree : OrderedTree Entry, ∃ e rest, tree.forest.Counted Entry.arity ∧
        tree.forest.preorder ++ e :: rest = d.entries) ∨
      d.entries.length ≤ (d.entries.map Entry.arity).sum) := by
  rcases Rebuild.enterAll_holds (Rebuild.holds_start s) d.entries with
    ⟨r, run, holds⟩ | ⟨r, taken, e, rest, split, root, holds, fault⟩
  · rw [List.nil_append] at holds
    rw [rebuild, run]
    cases holds with
    | @finished f root closed complete arena listed =>
      left
      refine ⟨{ r.tree with root := some root }, root, f, ?_, rfl, arena.withRoot _, ?_⟩
      · simp only [Rebuild.finish, closed, complete, arena.setRoot_ok]
      · exact listed.symm
    | @waiting f unfinished arena waiting =>
      right
      refine ⟨?_, .inr (waiting.length_le arena.unfolds)⟩
      cases hp : r.pending with
      | nil => exact ⟨.empty, by simp only [Rebuild.finish, hp, unfinished]⟩
      | cons p outer => exact ⟨_, by simp only [Rebuild.finish, hp]; rfl⟩
  · right
    rw [rebuild, fault]
    refine ⟨⟨_, rfl⟩, .inl ?_⟩
    cases holds with
    | waiting unfinished => rw [unfinished] at root; cases root
    | @finished f i closed complete arena listed =>
      obtain ⟨below, rfl⟩ := Forest.eq_cons_of_roots arena.roots
      refine ⟨⟨r.tree.label i, below.map r.tree.label⟩, e, rest, arena.unfolds.counted, ?_⟩
      rw [split, ← List.nil_append taken, listed]
      rfl

theorem rebuild_listing {d : Description} {tree : OrderedTree Entry}
    (counted : tree.forest.Counted Entry.arity) (listed : tree.forest.preorder = d.entries)
    (s : Session) :
    ∃ t root f, (d.rebuild s).1 = .ok t ∧ t.root = some root ∧ t.Stacked [root] f ∧
      f.map t.label = tree.forest := by
  rcases rebuild_cases d s with ⟨t, root, f, built, hroot, arena, same⟩ |
    ⟨-, ⟨first, e, rest, counted', longer⟩ | short⟩
  · refine ⟨t, root, f, built, hroot, arena, ?_⟩
    have width : (f.map t.label).roots.length = tree.forest.roots.length := by
      rw [Forest.roots_map, List.length_map, arena.roots]
      rfl
    have lists := congrArg (· ++ []) (same.trans listed.symm)
    exact (Forest.eq_of_preorder_append arena.unfolds.counted counted width lists).1
  · have lists : first.forest.preorder ++ e :: rest = tree.forest.preorder ++ [] := by
      rw [longer, listed, List.append_nil]
    cases (Forest.eq_of_preorder_append counted' counted rfl lists).2
  · have counts := Forest.length_preorder_of_counted counted
    have one : tree.forest.roots.length = 1 := rfl
    rw [listed] at counts
    omega

/-- A description is rebuilt exactly if it is the pre-order list of one ordered tree whose
tokens are leaves and whose interior entries count their subtrees. The tree has a node for
each entry and describes itself as it was described; any other list is malformed. -/
theorem rebuild_iff_listing (d : Description) (s : Session) :
    ((∃ t, (d.rebuild s).1 = .ok t) ↔
      ∃! tree : OrderedTree Entry,
        tree.forest.Counted Entry.arity ∧ tree.forest.preorder = d.entries) ∧
    (∀ t, (d.rebuild s).1 = .ok t →
      t.nodes.size = d.entries.length ∧ t.describe = some d) ∧
    (∀ failure, (d.rebuild s).1 = .error failure →
      ∃ fault, failure = .malformedDescription fault) := by
  rcases rebuild_cases d s with ⟨t, root, f, built, hroot, arena, listed⟩ | ⟨⟨fault, refused⟩, why⟩
  · obtain ⟨below, rfl⟩ := Forest.eq_cons_of_roots arena.roots
    refine ⟨⟨fun _ => ⟨⟨t.label root, below.map t.label⟩, ⟨arena.unfolds.counted, listed⟩, ?_⟩,
      fun _ => ⟨t, built⟩⟩, ?_, ?_⟩
    · rintro ⟨root', below'⟩ ⟨counted, listed'⟩
      have lists := congrArg (· ++ []) (listed'.trans listed.symm)
      have same := (Forest.eq_of_preorder_append counted arena.unfolds.counted rfl lists).1
      obtain ⟨rfl, rfl, -⟩ := Forest.cons.inj same
      rfl
    · intro t' again
      obtain rfl := Except.ok.inj (built.symm.trans again)
      refine ⟨?_, ?_⟩
      · rw [← listed, Forest.preorder_map, List.length_map, arena.length_preorder]
      · rw [Tree.describe, hroot, Option.map_some, Tree.describeFrom, arena.preorderFrom_eq,
          arena.unfolds.entries_preorder, listed]
    · intro failure refused
      rw [built] at refused
      cases refused
  · refine ⟨⟨?_, ?_⟩, ?_, ?_⟩
    · rintro ⟨t, built⟩
      rw [refused] at built
      cases built
    · rintro ⟨tree, ⟨counted, listed⟩, -⟩
      exfalso
      -- a proper prefix that is complete, or entries that ask for more than there are
      rcases why with ⟨first, e, rest, counted', longer⟩ | short
      · have lists : first.forest.preorder ++ e :: rest = tree.forest.preorder ++ [] := by
          rw [longer, listed, List.append_nil]
        cases (Forest.eq_of_preorder_append counted' counted rfl lists).2
      · have counts := Forest.length_preorder_of_counted counted
        rw [listed] at counts
        have one : tree.forest.roots.length = 1 := rfl
        omega
    · intro t built
      rw [refused] at built
      cases built
    · intro failure refused'
      rw [refused] at refused'
      exact ⟨fault, (Except.error.inj refused').symm⟩

end Description

end ParseTrace
