import ParseTrace.Proofs.LeftmostLine
import ParseTrace.Proofs.Outline.Lines

/-!
Outlines that tell their trees. With one file for all nodes and names that neither break a line
nor begin with a blank, each line shows its depth and all of its node but the children; how many
these are follows from the depths of the lines below. So equal outlines have equal trees.
-/

namespace ParseTrace

open Script (Stops takeWhile_append)

section Suffixes

theorem append_numeral_inj {front front' digits digits' : List Char}
    (h : ∀ c ∈ front.getLast?, isNumeral c = false)
    (h' : ∀ c ∈ front'.getLast?, isNumeral c = false)
    (all : ∀ c ∈ digits, isNumeral c = true) (all' : ∀ c ∈ digits', isNumeral c = true)
    (same : front ++ digits = front' ++ digits') : front = front' ∧ digits = digits' := by
  have split : ∀ {front digits : List Char}, (∀ c ∈ front.getLast?, isNumeral c = false) →
      (∀ c ∈ digits, isNumeral c = true) →
      (front ++ digits).reverse.takeWhile isNumeral = digits.reverse ∧
        (front ++ digits).reverse.dropWhile isNumeral = front.reverse := by
    intro front digits h all
    rw [List.reverse_append]
    apply takeWhile_append
    · simpa using all
    · intro c hc
      exact h c (by rwa [List.head?_reverse] at hc)
  obtain ⟨taken, left⟩ := split h all
  obtain ⟨taken', left'⟩ := split h' all'
  rw [same] at taken left
  exact ⟨List.reverse_inj.1 (left.symm.trans left'), List.reverse_inj.1 (taken.symm.trans taken')⟩

theorem Node.heading_inj {n m : Node} (same : n.heading = m.heading) :
    n.symbol = m.symbol ∧ n.name = m.name := by
  rw [heading, heading, List.append_left_inj] at same
  obtain ⟨names, symbols⟩ := append_numeral_inj (by simp [isNumeral]) (by simp [isNumeral])
    (fun c => isNumeral_of_mem_toDigits) (fun c => isNumeral_of_mem_toDigits) same
  rw [List.append_left_inj, String.toList_inj] at names
  rw [← Nat.toList_repr, ← Nat.toList_repr, String.toList_inj, Nat.repr_inj] at symbols
  exact ⟨UInt32.toNat_inj.1 symbols, names⟩

theorem Node.getLast?_heading (n : Node) : n.heading.getLast? = some ' ' :=
  List.getLast?_concat

end Suffixes

namespace Tree

variable {t u : Tree} {f g : Forest Nat} {i j : Nat} {n m : Node}

theorem lineAt_token_ne_interior {lexeme : String} {line : Int32} {children : List Nat}
    (hn : t.nodes[i]? = some n) (hm : u.nodes[j]? = some m)
    (token : n.payload = .token lexeme line) (interior : m.payload = .interior children) :
    t.lineAt i ≠ u.lineAt j := by
  rw [lineAt_token hn token, lineAt_interior hm interior]
  intro same
  have ends := congrArg List.getLast? same
  rw [List.getLast?_concat, List.getLast?_append] at ends
  cases last : line.toInt.repr.toList.getLast? with
  | none => simp [last] at ends
  | some c =>
    rw [last, Option.some_or] at ends
    obtain rfl := Option.some.inj ends
    exact absurd (isNumeral_of_mem_repr (List.mem_of_getLast? last)) (by decide)

theorem entry_eq_of_lineAt (hn : t.nodes[i]? = some n) (hm : u.nodes[j]? = some m)
    (file : n.fileName = m.fileName) (arity : n.children.length = m.children.length)
    (same : t.lineAt i = u.lineAt j) : n.entry = m.entry := by
  cases hp : n.payload with
  | token lexeme line =>
    cases hq : m.payload with
    | token lexeme' line' =>
      rw [lineAt_token hn hp, lineAt_token hm hq] at same
      obtain ⟨front, lines⟩ := append_numeral_inj (by simp [isNumeral]) (by simp [isNumeral])
        (fun c => isNumeral_of_mem_repr) (fun c => isNumeral_of_mem_repr) same
      rw [List.append_left_inj] at front
      obtain ⟨headings, lexemes⟩ :=
        Text.append_quoted_inj (by simp [n.getLast?_heading]) (by simp [m.getLast?_heading]) front
      obtain ⟨symbol, name⟩ := Node.heading_inj headings
      rw [String.toList_inj, Int.repr_inj, Int32.toInt_inj] at lines
      simp [Node.entry, hp, hq, symbol, name, lexemes, lines]
    | interior children => exact absurd same (lineAt_token_ne_interior hn hm hp hq)
  | interior children =>
    cases hq : m.payload with
    | token lexeme line => exact absurd same.symm (lineAt_token_ne_interior hm hn hq hp)
    | interior children' =>
      rw [lineAt_interior hn hp, lineAt_interior hm hq, List.append_left_inj, file] at same
      obtain ⟨front, -⟩ := append_numeral_inj (by simp [List.getLast?_cons, isNumeral])
        (by simp [List.getLast?_cons, isNumeral])
        (fun c => isNumeral_of_mem_repr) (fun c => isNumeral_of_mem_repr) same
      rw [List.append_left_inj] at front
      obtain ⟨symbol, name⟩ := Node.heading_inj front
      have counts : children.length = children'.length := by
        simpa [Node.children, hp, hq] using arity
      simp [Node.entry, hp, hq, symbol, name, counts]

theorem lineAt_eq_of_entry (hn : t.nodes[i]? = some n) (hm : u.nodes[j]? = some m)
    (file : n.fileName = m.fileName) (entries : n.entry = m.entry)
    (leftmost : t.leftmostLine i = u.leftmostLine j) : t.lineAt i = u.lineAt j := by
  unfold Node.entry at entries
  cases hp : n.payload with
  | token lexeme line =>
    cases hq : m.payload with
    | token lexeme' line' =>
      rw [hp, hq] at entries
      obtain ⟨symbol, name, rfl, rfl⟩ := Entry.token.inj entries
      rw [lineAt_token hn hp, lineAt_token hm hq, Node.heading, Node.heading, symbol, name]
    | interior children => rw [hp, hq] at entries; cases entries
  | interior children =>
    cases hq : m.payload with
    | token lexeme line => rw [hp, hq] at entries; cases entries
    | interior children' =>
      rw [hp, hq] at entries
      obtain ⟨symbol, name, -⟩ := Entry.interior.inj entries
      rw [lineAt_interior hn hp, lineAt_interior hm hq, Node.heading, Node.heading, symbol, name,
        file, leftmost]

theorem Unfolds.map_lineAt_iff (h : t.Arborescent) (h' : u.Arborescent) (ht : t.Unfolds f)
    (hu : u.Unfolds g) {file : String}
    (named : ∀ i ∈ f.preorder, ∀ n, t.nodes[i]? = some n → n.fileName = file)
    (named' : ∀ j ∈ g.preorder, ∀ m, u.nodes[j]? = some m → m.fileName = file) :
    f.map t.lineAt = g.map u.lineAt ↔ f.map t.label = g.map u.label := by
  induction f generalizing g with
  | nil => cases g <;> simp [Forest.map]
  | cons i below beside ih ih' =>
    cases g with
    | nil => simp [Forest.map]
    | cons j below' beside' =>
      have leftmost := ht.map_leftmostLine h h' hu
      obtain ⟨⟨n, hn, children⟩, under, aside⟩ := ht
      obtain ⟨⟨m, hm, children'⟩, under', aside'⟩ := hu
      simp only [Forest.preorder, List.forall_mem_cons, List.forall_mem_append] at named named'
      obtain ⟨own, inner, outer⟩ := named
      obtain ⟨own', inner', outer'⟩ := named'
      have file : n.fileName = m.fileName := (own n hn).trans (own' m hm).symm
      simp only [Forest.map, Forest.cons.injEq, ih under under' inner inner',
        ih' aside aside' outer outer'] at leftmost ⊢
      constructor
      · rintro ⟨line, labels, labels'⟩
        -- the lines do not say how many children there are, the forests below do
        have arity : n.children.length = m.children.length := by
          rw [children, children']
          simpa using congrArg (fun k => k.roots.length) labels
        have entries := entry_eq_of_lineAt hn hm file arity line
        exact ⟨by rw [label_eq hn, label_eq hm, entries], labels, labels'⟩
      · rintro ⟨entries, labels, labels'⟩
        have first := (leftmost ⟨entries, labels, labels'⟩).1
        rw [label_eq hn, label_eq hm] at entries
        exact ⟨lineAt_eq_of_entry hn hm file entries first, labels, labels'⟩

end Tree

section Depths

/-- A line without the blanks for its depth, and that depth. -/
def unindent (line : List Char) : List Char × Nat :=
  let blanks := (line.takeWhile (· == ' ')).length
  (line.drop (2 * (blanks / 2)), blanks / 2)

theorem unindent_replicate {line : List Char}
    (single : (line.takeWhile (· == ' ')).length ≤ 1) (depth : Nat) :
    unindent (List.replicate (2 * depth) ' ' ++ line) = (line, depth) := by
  have blanks : ((List.replicate (2 * depth) ' ' ++ line).takeWhile (· == ' ')).length =
      2 * depth + (line.takeWhile (· == ' ')).length := by
    rw [List.takeWhile_append_of_pos (by simp), List.length_append, List.length_replicate]
  have half : (2 * depth + (line.takeWhile (· == ' ')).length) / 2 = depth := by omega
  rw [unindent, blanks, half, List.drop_left' List.length_replicate]

structure Node.Plain (file : String) (n : Node) : Prop where
  fileName : n.fileName = file
  single : '\n' ∉ n.name.toList
  blank : n.name.toList.head? ≠ some ' '

instance (file : String) (n : Node) : Decidable (n.Plain file) :=
  decidable_of_iff (n.fileName = file ∧ '\n' ∉ n.name.toList ∧ n.name.toList.head? ≠ some ' ')
    ⟨fun ⟨fileName, single, blank⟩ => ⟨fileName, single, blank⟩,
      fun ⟨fileName, single, blank⟩ => ⟨fileName, single, blank⟩⟩

namespace Tree

variable {t u : Tree} {i : Nat} {n : Node} {file : String}

theorem blanks_lineAt (hn : t.nodes[i]? = some n) (plain : n.Plain file) :
    ((t.lineAt i).takeWhile (· == ' ')).length ≤ 1 := by
  have begins : ∀ rest : List Char,
      ((n.heading ++ rest).takeWhile (· == ' ')).length ≤ 1 := by
    intro rest
    have blank := plain.blank
    rw [Node.heading]
    cases name : n.name.toList with
    | nil => simp
    | cons c name =>
      have solid : c ≠ ' ' := by simpa [name] using blank
      simp [solid]
  cases hp : n.payload with
  | token lexeme line =>
    rw [lineAt_token hn hp, List.append_assoc, List.append_assoc]
    exact begins _
  | interior children =>
    rw [lineAt_interior hn hp, List.append_assoc, List.append_assoc]
    exact begins _

variable {r r' : Nat} {below below' : Forest Nat}

theorem Arborescent.forall_plain (h : t.Arborescent) (root : t.root = some r)
    (unfolds : t.Unfolds (.cons r below .nil)) (plain : ∀ n ∈ t.preorderNodes, n.Plain file) :
    ∀ i ∈ (Forest.cons r below .nil).preorder, ∀ n, t.nodes[i]? = some n → n.Plain file := by
  intro i hi n hn
  have visited : i ∈ t.preorder := h.preorder_eq unfolds root ▸ hi
  exact plain n (List.mem_filterMap.2 ⟨i, visited, hn⟩)

theorem Arborescent.unindent_lines_outline (h : t.Arborescent) (root : t.root = some r)
    (unfolds : t.Unfolds (.cons r below .nil)) (whole : '\n' ∉ file.toList)
    (plain : ∀ n ∈ t.preorderNodes, n.Plain file) :
    (Text.lines t.outline.toList).map unindent =
      ((Forest.cons r below .nil).map t.lineAt).levels 0 := by
  have single : ∀ n ∈ t.preorderNodes, n.OneLine := fun n hn =>
    ⟨(plain n hn).single, fun _ => (plain n hn).fileName ▸ whole⟩
  have each : ∀ p ∈ (Forest.cons r below .nil).levels 0,
      unindent (t.indented p) = (t.lineAt p.1, p.2) := by
    rintro ⟨i, depth⟩ hp
    have hi : i ∈ (Forest.cons r below .nil).preorder :=
      Forest.map_fst_levels 0 _ ▸ List.mem_map_of_mem hp
    obtain ⟨n, hn⟩ := unfolds.exists_node hi
    exact unindent_replicate
      (blanks_lineAt hn (h.forall_plain root unfolds plain i hi n hn)) depth
  rw [h.toList_outline root unfolds,
    Text.lines_flatMap ((h.forall_indented_iff root unfolds).2 single), List.map_map,
    Forest.levels_map]
  exact List.map_congr_left each

theorem Arborescent.structurallyEq_iff_label (h : t.Arborescent) (h' : u.Arborescent)
    (root : t.root = some r) (root' : u.root = some r')
    (unfolds : t.Unfolds (.cons r below .nil)) (unfolds' : u.Unfolds (.cons r' below' .nil)) :
    t.structurallyEq u = true ↔
      (Forest.cons r below .nil).map t.label = (Forest.cons r' below' .nil).map u.label := by
  have same := unfolds.isomorphic_roots_iff unfolds'
  simp only [Forest.roots, List.forall₂_cons, List.Forall₂.nil, and_true] at same
  rw [h.structurallyEq_iff h', h.describe_eq_iff h', ← same]
  simp [SameRooted, root, root']

/-- Rooted trees with one file for all nodes, and with names that neither break a line nor
begin with a blank, have the same outline exactly if they are structurally equal. -/
theorem outline_eq_iff (file : String) (edits edits' : List (Session × Edit)) {r r' : Nat}
    (root : (built edits).root = some r) (root' : (built edits').root = some r')
    (whole : '\n' ∉ file.toList) (plain : ∀ n ∈ (built edits).preorderNodes, n.Plain file)
    (plain' : ∀ n ∈ (built edits').preorderNodes, n.Plain file) :
    (built edits).outline = (built edits').outline ↔
      (built edits).structurallyEq (built edits') = true := by
  have h := Arborescent.built edits
  have h' := Arborescent.built edits'
  obtain ⟨below, unfolds⟩ := h.exists_unfolds (h.root_lt root)
  obtain ⟨below', unfolds'⟩ := h'.exists_unfolds (h'.root_lt root')
  have named := fun i hi n hn => (h.forall_plain root unfolds plain i hi n hn).fileName
  have named' := fun i hi n hn => (h'.forall_plain root' unfolds' plain' i hi n hn).fileName
  have lines := unfolds.map_lineAt_iff h h' unfolds' named named'
  rw [h.structurallyEq_iff_label h' root root' unfolds unfolds', ← lines]
  constructor
  · intro same
    have levels := congrArg (fun text => (Text.lines text.toList).map unindent) same
    rw [h.unindent_lines_outline root unfolds whole plain,
      h'.unindent_lines_outline root' unfolds' whole plain'] at levels
    exact Forest.levels_inj.1 levels
  · intro same
    have written : ∀ (v : Tree) (f : Forest Nat), (f.levels 0).map v.indented =
        ((f.map v.lineAt).levels 0).map fun (line, depth) =>
          List.replicate (2 * depth) ' ' ++ line := by
      intro v f
      rw [Forest.levels_map, List.map_map]
      rfl
    apply String.toList_inj.1
    rw [h.toList_outline root unfolds, h'.toList_outline root' unfolds', written, written, same]

theorem outline_eq_iff_nameless :
    let t := built [(⟨"in.php", 0⟩, .token ⟨0, "", "\"\n", 1⟩),
      (⟨"in.php", 1⟩, .token ⟨3, "A #3 \"", "", 2⟩), (⟨"in.php", 2⟩, .interior 1 "" [0, 1]),
      (⟨"in.php", 3⟩, .root 2)]
    let u := built [(⟨"in.php", 7⟩, .token ⟨3, "A #3 \"", "", 2⟩),
      (⟨"in.php", 8⟩, .token ⟨0, "", "\"\n", 1⟩), (⟨"in.php", 9⟩, .interior 1 "" [1, 0]),
      (⟨"in.php", 9⟩, .root 2)]
    t.outline = u.outline ∧ t.structurallyEq u = true := by
  intro t u
  have root : t.root = some 2 := rfl
  have root' : u.root = some 2 := rfl
  have equal : t.structurallyEq u = true := by decide +kernel
  exact ⟨(outline_eq_iff "in.php" _ _ root root' (by decide +kernel) (by decide +kernel)
    (by decide +kernel)).2 equal, equal⟩

end Tree

end Depths

end ParseTrace
