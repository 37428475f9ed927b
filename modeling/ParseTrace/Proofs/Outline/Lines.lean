import ParseTrace.Proofs.Isomorphism
import ParseTrace.Proofs.Text.Quoted
import ParseTrace.Tree.Outline

/-!
The lines of an outline. The walk writes the nodes in pre-order, each behind two blanks for each
level above it and in front of a line feed. These are the lines of the text as long as nothing
that is written for a node breaks its line: lexemes are escaped, names and files are not.
-/

namespace ParseTrace

namespace Text

def lines (text : List Char) : List (List Char) :=
  (text.splitOn '\n').dropLast

theorem lines_append {line : List Char} (whole : '\n' ∉ line) (rest : List Char) :
    lines (line ++ '\n' :: rest) = line :: lines rest := by
  rw [lines, List.splitOn_append_cons_self_of_not_mem whole,
    List.dropLast_cons_of_ne_nil (List.splitOn_ne_nil _ _), lines]

theorem lines_flatMap {ls : List (List Char)} (whole : ∀ l ∈ ls, '\n' ∉ l) :
    lines (ls.flatMap (· ++ ['\n'])) = ls := by
  induction ls with
  | nil => rfl
  | cons l ls ih =>
    have others := ih fun k hk => whole k (List.mem_cons_of_mem _ hk)
    rw [List.flatMap_cons, List.append_assoc, List.singleton_append,
      lines_append (whole l List.mem_cons_self), others]

theorem length_lines (text : List Char) : (lines text).length = text.count '\n' := by
  have pieces : (text.splitOn '\n').length = text.count '\n' + 1 := by
    induction text with
    | nil => rfl
    | cons c text ih =>
      rw [List.splitOn_cons_eq_if_modifyHead, List.count_cons, ← Nat.add_right_comm, ← ih]
      by_cases lf : c = '\n' <;> simp [lf]
  rw [lines, List.length_dropLast, pieces, Nat.add_sub_cancel]

/-- Written pieces are the lines of a text exactly if they are as many as its lines. -/
theorem lines_flatMap_iff (ls : List (List Char)) :
    ((lines (ls.flatMap (· ++ ['\n']))).length = ls.length ↔ ∀ l ∈ ls, '\n' ∉ l) ∧
    (lines (ls.flatMap (· ++ ['\n'])) = ls ↔ ∀ l ∈ ls, '\n' ∉ l) := by
  have total : (ls.flatMap (· ++ ['\n'])).count '\n' =
      ls.length + (ls.map (List.count '\n')).sum := by
    induction ls with
    | nil => rfl
    | cons l ls ih =>
      rw [List.flatMap_cons, List.count_append, ih]
      simp
      omega
  have whole : (lines (ls.flatMap (· ++ ['\n']))).length = ls.length ↔ ∀ l ∈ ls, '\n' ∉ l := by
    rw [length_lines, total, Nat.add_eq_left, List.sum_eq_zero_iff]
    simp [List.count_eq_zero]
  exact ⟨whole, fun same => whole.1 (congrArg List.length same), lines_flatMap⟩

def blanks (count : Nat) : String :=
  String.ofList (List.replicate count ' ')

theorem blanks_add (m n : Nat) : blanks (m + n) = blanks m ++ blanks n := by
  rw [blanks, List.replicate_add, String.ofList_append]
  rfl

@[simp] theorem toList_blanks (count : Nat) : (blanks count).toList = List.replicate count ' ' :=
  String.toList_ofList

@[simp] theorem utf8ByteSize_blanks (count : Nat) : (blanks count).utf8ByteSize = count := by
  induction count with
  | zero => rfl
  | succ count ih =>
    rw [blanks_add, String.utf8ByteSize_append, ih]
    rfl

theorem exists_widened_blanks (count width : Nat) :
    ∃ more, width ≤ more ∧ widened (blanks count) width = blanks more := by
  induction missing : width - count using Nat.strong_induction_on generalizing count with
  | _ _ ih =>
    rw [widened, utf8ByteSize_blanks]
    split
    · next short =>
      have pair : blanks count ++ "  " = blanks (count + 2) := (blanks_add count 2).symm
      rw [pair]
      exact ih (width - (count + 2)) (by omega) (count + 2) rfl
    · next enough => exact ⟨count, Nat.le_of_not_lt enough, rfl⟩

theorem firstBytes?_append (front rest : String) :
    firstBytes? (front ++ rest) front.utf8ByteSize = some front := by
  have valid : (⟨front.utf8ByteSize⟩ : String.Pos.Raw).IsValid (front ++ rest) :=
    String.Pos.Raw.isValid_rawEndPos.append_right rest
  have placed : (front ++ rest).pos? ⟨front.utf8ByteSize⟩ = some ((front ++ rest).pos _ valid) := by
    rw [String.pos?, String.Slice.pos?,
      dif_pos (String.Pos.Raw.isValidForSlice_eq_true_iff.2 valid.toSlice)]
    rfl
  have split : ((front ++ rest).pos _ valid).Splits front rest := ⟨rfl, rfl⟩
  rw [firstBytes?, placed, Option.map_some, split.copy_sliceTo_eq]

theorem firstBytes?_blanks {width count : Nat} (enough : width ≤ count) :
    firstBytes? (blanks count) width = some (blanks width) := by
  obtain ⟨rest, rfl⟩ := Nat.exists_eq_add_of_le enough
  have cut := firstBytes?_append (blanks width) (blanks rest)
  rwa [utf8ByteSize_blanks, ← blanks_add] at cut

end Text

namespace Tree

variable {t : Tree} {f : Forest Nat}

def lineAt (t : Tree) (i : Nat) : List Char :=
  ((t.nodes[i]?.map (t.outlineLine i)).getD "").toList

def indented (t : Tree) : Nat × Nat → List Char
  | (i, depth) => List.replicate (2 * depth) ' ' ++ t.lineAt i

theorem lineAt_eq {i : Nat} {n : Node} (hn : t.nodes[i]? = some n) :
    t.lineAt i = (t.outlineLine i n).toList := by
  rw [lineAt, hn, Option.map_some, Option.getD_some]

/-- A forest of nodes to write stands for its lines in pre-order; what waits behind its roots
is written after them, with the blanks that there are then. -/
theorem outlineFrom_roots (h : t.Unfolds f) (steps depth width : Nat)
    (pending : List (Nat × Nat)) (text : String) :
    ∃ width', t.outlineFrom (f.preorder.length + steps) (f.roots.map (·, depth) ++ pending)
        (Text.blanks width) text =
      t.outlineFrom steps pending (Text.blanks width')
        (text ++ String.ofList ((f.levels depth).flatMap (t.indented · ++ ['\n']))) := by
  induction f generalizing steps depth width pending text with
  | nil => exact ⟨width, by simp [Forest.preorder, Forest.roots, Forest.levels]⟩
  | cons i below beside ih ih' =>
    obtain ⟨⟨n, hn, children⟩, under, aside⟩ := h
    have count : (Forest.cons i below beside).preorder.length + steps =
        (below.preorder.length + (beside.preorder.length + steps)) + 1 := by
      simp only [Forest.preorder, List.length_cons, List.length_append]
      omega
    obtain ⟨wider, enough, widened⟩ := Text.exists_widened_blanks width (2 * depth)
    have indent := Text.firstBytes?_blanks enough
    have turn : t.outlineFrom (below.preorder.length + (beside.preorder.length + steps) + 1)
          ((i, depth) :: (beside.roots.map (·, depth) ++ pending)) (Text.blanks width) text =
        t.outlineFrom (below.preorder.length + (beside.preorder.length + steps))
          (below.roots.map (·, depth + 1) ++ (beside.roots.map (·, depth) ++ pending))
          (Text.blanks wider)
          (text ++ Text.blanks (2 * depth) ++ t.outlineLine i n ++ "\n") := by
      simp only [outlineFrom, hn, children, widened, indent]
    -- the children come in front of the siblings, one level deeper
    obtain ⟨width₁, inner⟩ := ih under (beside.preorder.length + steps) (depth + 1) wider
      (beside.roots.map (·, depth) ++ pending)
      (text ++ Text.blanks (2 * depth) ++ t.outlineLine i n ++ "\n")
    obtain ⟨width₂, outer⟩ := ih' aside steps depth width₁ pending
      (text ++ Text.blanks (2 * depth) ++ t.outlineLine i n ++ "\n" ++
        String.ofList ((below.levels (depth + 1)).flatMap (t.indented · ++ ['\n'])))
    refine ⟨width₂, ?_⟩
    rw [count, Forest.roots, List.map_cons, List.cons_append, turn, inner, outer]
    congr 1
    apply String.toList_inj.1
    simp [Forest.levels, indented, lineAt_eq hn]

theorem outlineFrom_nil (steps : Nat) (blanks text : String) :
    t.outlineFrom steps [] blanks text = some text := by
  cases steps <;> rfl

theorem Arborescent.outline?_eq (h : t.Arborescent) {r : Nat} {below : Forest Nat}
    (root : t.root = some r) (unfolds : t.Unfolds (.cons r below .nil)) :
    t.outline? = some (String.ofList
      (((Forest.cons r below .nil).levels 0).flatMap (t.indented · ++ ['\n']))) := by
  obtain ⟨extra, steps⟩ := Nat.exists_eq_add_of_le (h.length_tree_le unfolds)
  obtain ⟨width, walk⟩ := outlineFrom_roots unfolds extra 0 0 [] ""
  simp only [Forest.roots, List.map_cons, List.map_nil, List.append_nil, outlineFrom_nil,
    String.empty_append] at walk
  rw [outline?, root]
  simp only [steps]
  exact walk

theorem Arborescent.toList_outline (h : t.Arborescent) {r : Nat} {below : Forest Nat}
    (root : t.root = some r) (unfolds : t.Unfolds (.cons r below .nil)) :
    t.outline.toList =
      (((Forest.cons r below .nil).levels 0).map t.indented).flatMap (· ++ ['\n']) := by
  rw [outline, h.outline?_eq root unfolds, Option.getD_some, String.toList_ofList,
    List.flatMap_map]

end Tree

section Captions

def isNumeral (c : Char) : Bool :=
  c.isDigit || c = '-'

theorem isNumeral_of_mem_toDigits {n : Nat} {c : Char} (h : c ∈ Nat.toDigits 10 n) :
    isNumeral c = true := by
  simp [isNumeral, Nat.isDigit_of_mem_toDigits (by omega) (by omega) h]

theorem isNumeral_of_mem_repr {n : Int} {c : Char} (h : c ∈ n.repr.toList) :
    isNumeral c = true := by
  cases n with
  | ofNat n => exact isNumeral_of_mem_toDigits (Nat.toList_repr ▸ h)
  | negSucc n =>
    change c ∈ ("-" ++ Nat.repr (n + 1)).toList at h
    rw [String.toList_append, List.mem_append, Nat.toList_repr] at h
    rcases h with minus | digits
    · have : c = '-' := by simpa using minus
      simp [this, isNumeral]
    · exact isNumeral_of_mem_toDigits digits

def Node.heading (n : Node) : List Char :=
  n.name.toList ++ " #".toList ++ Nat.toDigits 10 n.symbol.toNat ++ [' ']

def Node.OneLine (n : Node) : Prop :=
  '\n' ∉ n.name.toList ∧ (n.isToken = false → '\n' ∉ n.fileName.toList)

instance (n : Node) : Decidable n.OneLine :=
  inferInstanceAs (Decidable (_ ∧ _))

namespace Tree

variable {t : Tree} {i : Nat} {n : Node}

theorem lineAt_token {lexeme : String} {line : Int32} (hn : t.nodes[i]? = some n)
    (token : n.payload = .token lexeme line) :
    t.lineAt i = n.heading ++ (Text.quoted lexeme).toList ++ " line ".toList ++
      line.toInt.repr.toList := by
  rw [lineAt_eq hn, outlineLine, token]
  simp [Node.heading, Text.toString_text]

theorem lineAt_interior {children : List Nat} (hn : t.nodes[i]? = some n)
    (interior : n.payload = .interior children) :
    t.lineAt i = n.heading ++ ('[' :: n.fileName.toList ++ [':']) ++
      (t.leftmostLine i).toInt.repr.toList ++ [']'] := by
  rw [lineAt_eq hn, outlineLine, interior]
  simp [Node.heading, location, hn, Text.toString_text]

theorem lineFeed_notMem_lineAt (hn : t.nodes[i]? = some n) :
    '\n' ∉ t.lineAt i ↔ n.OneLine := by
  have nat : ∀ k : Nat, '\n' ∉ Nat.toDigits 10 k :=
    fun k mem => absurd (isNumeral_of_mem_toDigits mem) (by decide)
  have int : ∀ k : Int, '\n' ∉ k.repr.toList :=
    fun k mem => absurd (isNumeral_of_mem_repr mem) (by decide)
  cases hp : n.payload with
  | token lexeme line =>
    rw [lineAt_token hn hp]
    simp [Node.heading, Node.OneLine, Node.isToken, hp, nat, int, Text.lineFeed_notMem_quoted]
  | interior children =>
    rw [lineAt_interior hn hp]
    simp [Node.heading, Node.OneLine, Node.isToken, hp, nat, int]

theorem Arborescent.forall_indented_iff (h : t.Arborescent) {r : Nat} {below : Forest Nat}
    (root : t.root = some r) (unfolds : t.Unfolds (.cons r below .nil)) :
    (∀ l ∈ ((Forest.cons r below .nil).levels 0).map t.indented, '\n' ∉ l) ↔
      ∀ n ∈ t.preorderNodes, n.OneLine := by
  have reached : t.preorder = ((Forest.cons r below .nil).levels 0).map Prod.fst := by
    rw [h.preorder_eq unfolds root, Forest.map_fst_levels]
  have own : ∀ i depth, '\n' ∉ t.indented (i, depth) ↔ '\n' ∉ t.lineAt i := by
    intro i depth
    simp [indented]
  rw [preorderNodes, reached, List.forall_mem_map]
  constructor
  · intro whole n hn
    obtain ⟨i, hi, found⟩ := List.mem_filterMap.1 hn
    obtain ⟨⟨_, depth⟩, hp, rfl⟩ := List.mem_map.1 hi
    exact (lineFeed_notMem_lineAt found).1 ((own _ depth).1 (whole _ hp))
  · rintro single ⟨i, depth⟩ hp
    have hi : i ∈ ((Forest.cons r below .nil).levels 0).map Prod.fst := List.mem_map_of_mem hp
    obtain ⟨n, hn⟩ := unfolds.exists_node (Forest.map_fst_levels 0 _ ▸ hi)
    exact (own i depth).2
      ((lineFeed_notMem_lineAt hn).2 (single n (List.mem_filterMap.2 ⟨i, hi, hn⟩)))

/-- The outline of a rooted tree writes its nodes in pre-order, each behind two blanks for each
level above it and in front of a line feed. It has as many lines as nodes, and then these very
lines, exactly if no name of a node and no file of an interior node breaks a line. -/
theorem outline_lines (edits : List (Session × Edit)) {r : Nat}
    (root : (built edits).root = some r) :
    ∃ below, (built edits).Unfolds (.cons r below .nil) ∧
      let nodes := (Forest.cons r below .nil).levels 0
      nodes.map Prod.fst = (built edits).preorder ∧
      (built edits).outline.toList = (nodes.map (built edits).indented).flatMap (· ++ ['\n']) ∧
      ((Text.lines (built edits).outline.toList).length = nodes.length ↔
        ∀ n ∈ (built edits).preorderNodes, n.OneLine) ∧
      (Text.lines (built edits).outline.toList = nodes.map (built edits).indented ↔
        ∀ n ∈ (built edits).preorderNodes, n.OneLine) := by
  have h := Arborescent.built edits
  obtain ⟨below, unfolds⟩ := h.exists_unfolds (h.root_lt root)
  have written := h.toList_outline root unfolds
  obtain ⟨count, lines⟩ :=
    Text.lines_flatMap_iff (((Forest.cons r below .nil).levels 0).map (built edits).indented)
  rw [← written, h.forall_indented_iff root unfolds] at count lines
  rw [List.length_map] at count
  refine ⟨below, unfolds, ?_, written, count, lines⟩
  rw [Forest.map_fst_levels, h.preorder_eq unfolds root]

theorem outline_lines_lexeme :
    let t := built [(⟨"in.php", 0⟩, .token ⟨0, "ID", "x\ny", 1⟩),
      (⟨"in.php", 1⟩, .interior 1 "expr" [0]), (⟨"in.php", 2⟩, .root 1)]
    t.root = some 1 ∧ (Text.lines t.outline.toList).length = t.preorder.length := by
  intro t
  obtain ⟨below, -, nodes, -, count, -⟩ :=
    outline_lines [(⟨"in.php", 0⟩, .token ⟨0, "ID", "x\ny", 1⟩),
      (⟨"in.php", 1⟩, .interior 1 "expr" [0]), (⟨"in.php", 2⟩, .root 1)] rfl
  have single : ∀ n ∈ t.preorderNodes, n.OneLine := by decide +kernel
  exact ⟨rfl, by rw [count.2 single, ← nodes, List.length_map]⟩

/-- The name of a single leaf spreads it over two lines. -/
theorem outline_line_broken :
    let t := built [(⟨"in.php", 0⟩, .token ⟨0, "A\nB", "x", 1⟩), (⟨"in.php", 1⟩, .root 0)]
    t.root = some 0 ∧ t.preorder = [0] ∧ t.outline = "A\nB #0 \"x\" line 1\n" ∧
      (Text.lines t.outline.toList).length ≠ t.preorder.length := by
  decide +kernel

end Tree

end Captions

end ParseTrace
