import ParseTrace.Proofs.Description
import ParseTrace.Proofs.Traversal

/-!
Subtrees as slices. While the walk from the root is below a node it meets nothing else, so the
pre-order of the node is a block in that of the tree, and its description the same block of the
description. A node holds the places of its descendants: the blocks of two nodes lie one in the
other if one is above the other, and apart if not.
-/

namespace ParseTrace.Tree

def start (t : Tree) (i : Nat) : Nat :=
  t.preorder.idxOf i

def stop (t : Tree) (i : Nat) : Nat :=
  t.start i + (t.preorderFrom i).length

def span (t : Tree) (i : Nat) : Finset Nat :=
  Finset.Ico (t.start i) (t.stop i)

variable {t : Tree} {f : Forest Nat} {i j k r : Nat}

theorem Unfolds.exists_block (h : t.Unfolds f) (hi : i ∈ f.preorder) :
    ∃ below before behind, t.Unfolds (.cons i below .nil) ∧
      f.preorder = before ++ ((Forest.cons i below .nil).preorder ++ behind) := by
  induction f with
  | nil => cases hi
  | cons j below beside ih ih' =>
    obtain ⟨node, under, aside⟩ := h
    simp only [Forest.preorder, List.mem_cons, List.mem_append] at hi
    rcases hi with rfl | hi | hi
    · exact ⟨below, [], beside.preorder, ⟨node, under, trivial⟩, by simp [Forest.preorder]⟩
    · obtain ⟨inner, before, behind, tree, split⟩ := ih under hi
      exact ⟨inner, j :: before, behind ++ beside.preorder, tree,
        by simp [Forest.preorder, split]⟩
    · obtain ⟨inner, before, behind, tree, split⟩ := ih' aside hi
      exact ⟨inner, j :: (below.preorder ++ before), behind, tree,
        by simp [Forest.preorder, split]⟩

namespace Arborescent

section Rooted

variable (h : t.Arborescent) (root : t.root = some r)
include h root

theorem mem_preorder_iff : i ∈ t.preorder ↔ Relation.ReflTransGen t.Child i r := by
  rw [preorder, root]
  exact h.mem_preorderFrom_iff (h.root_lt root)

theorem nodup_preorder_root : t.preorder.Nodup := by
  rw [preorder, root]
  exact h.nodup_preorderFrom (h.root_lt root)

theorem lt_size_of_reaches (reached : Relation.ReflTransGen t.Child i r) : i < t.nodes.size :=
  Nat.lt_of_le_of_lt (h.le_of_reflTransGen reached) (h.root_lt root)

theorem extract_preorder (reached : Relation.ReflTransGen t.Child i r) :
    t.preorder.extract (t.start i) (t.stop i) = t.preorderFrom i := by
  obtain ⟨below, unfolds⟩ := h.exists_unfolds (h.root_lt root)
  have listed := (h.mem_preorder_iff root).2 reached
  have distinct := h.nodup_preorder_root root
  rw [h.preorder_eq unfolds root] at listed distinct
  obtain ⟨inner, before, behind, tree, split⟩ := unfolds.exists_block listed
  -- the block begins where the node first occurs, since the node occurs once
  have fresh : i ∉ before := by
    intro again
    rw [split] at distinct
    exact (List.nodup_append.1 distinct).2.2 i again i
      (List.mem_append_left _ List.mem_cons_self) rfl
  have place : t.start i = before.length := by
    rw [start, h.preorder_eq unfolds root, split, List.idxOf_append_of_notMem fresh]
    simp [Forest.preorder]
  rw [stop, place, h.preorderFrom_eq tree, h.preorder_eq unfolds root, split,
    List.extract_eq_take_drop, Nat.add_sub_cancel_left, List.drop_left, List.take_left]

theorem getElem?_preorder_start (reached : Relation.ReflTransGen t.Child i r)
    (short : k < (t.preorderFrom i).length) :
    t.preorder[t.start i + k]? = (t.preorderFrom i)[k]? := by
  rw [← h.extract_preorder root reached, List.extract_eq_take_drop, stop, Nat.add_sub_cancel_left,
    List.getElem?_take_of_lt short, List.getElem?_drop]

theorem mem_span_iff (reached : Relation.ReflTransGen t.Child i r) :
    k ∈ t.span i ↔ ∃ j, t.preorder[k]? = some j ∧ Relation.ReflTransGen t.Child j i := by
  have inside := h.lt_size_of_reaches root reached
  rw [span, Finset.mem_Ico, stop]
  constructor
  · rintro ⟨above, below⟩
    obtain ⟨l, rfl⟩ := Nat.exists_eq_add_of_le above
    have short : l < (t.preorderFrom i).length := Nat.lt_of_add_lt_add_left below
    refine ⟨(t.preorderFrom i)[l], ?_, (h.mem_preorderFrom_iff inside).1 (List.getElem_mem short)⟩
    rw [h.getElem?_preorder_start root reached short, List.getElem?_eq_getElem short]
  · rintro ⟨j, place, path⟩
    obtain ⟨l, short, found⟩ := List.getElem_of_mem ((h.mem_preorderFrom_iff inside).2 path)
    have same : t.preorder[t.start i + l]? = t.preorder[k]? := by
      rw [h.getElem?_preorder_start root reached short, List.getElem?_eq_getElem short, found,
        place]
    have bound : t.start i + l < t.preorder.length := by
      by_contra beyond
      rw [List.getElem?_eq_none (Nat.le_of_not_lt beyond), place] at same
      cases same
    have equal := (List.getElem?_inj bound (h.nodup_preorder_root root)).1 same
    omega

theorem span_subset_iff (reached : Relation.ReflTransGen t.Child i r)
    (reached' : Relation.ReflTransGen t.Child j r) :
    t.span i ⊆ t.span j ↔ Relation.ReflTransGen t.Child i j := by
  constructor
  · intro inner
    have listed := (h.mem_preorder_iff root).2 reached
    have place : t.preorder[t.start i]? = some i := List.getElem?_idxOf listed
    have own : t.start i ∈ t.span i := (h.mem_span_iff root reached).2 ⟨i, place, .refl⟩
    obtain ⟨k, same, path⟩ := (h.mem_span_iff root reached').1 (inner own)
    obtain rfl := Option.some.inj (place.symm.trans same)
    exact path
  · intro path k hk
    obtain ⟨l, place, path'⟩ := (h.mem_span_iff root reached).1 hk
    exact (h.mem_span_iff root reached').2 ⟨l, place, path'.trans path⟩

/-- A place shared by two nodes is that of a descendant of both, and its parents pass through
one of them on the way to the other. -/
theorem disjoint_or_nested (reached : Relation.ReflTransGen t.Child i r)
    (reached' : Relation.ReflTransGen t.Child j r) :
    Disjoint (t.span i) (t.span j) ∨ t.span i ⊆ t.span j ∨ t.span j ⊆ t.span i := by
  rw [h.span_subset_iff root reached reached', h.span_subset_iff root reached' reached]
  by_cases apart : Disjoint (t.span i) (t.span j)
  · exact .inl apart
  · right
    obtain ⟨k, hk, hk'⟩ := Finset.not_disjoint_iff.1 apart
    obtain ⟨l, place, path⟩ := (h.mem_span_iff root reached).1 hk
    obtain ⟨l', place', path'⟩ := (h.mem_span_iff root reached').1 hk'
    obtain rfl := Option.some.inj (place.symm.trans place')
    exact Relation.ReflTransGen.total_of_right_unique (fun _ _ _ => h.child_unique) path path'

theorem extract_describe (reached : Relation.ReflTransGen t.Child i r) :
    (t.describeFrom r).entries.extract (t.start i) (t.stop i) = (t.describeFrom i).entries := by
  have whole : t.preorder = t.preorderFrom r := by rw [preorder, root]
  rw [h.entries_describeFrom_eq (h.lt_size_of_reaches root reached),
    h.entries_describeFrom_eq (h.root_lt root), ← h.extract_preorder root reached, ← whole,
    List.extract_eq_take_drop, List.extract_eq_take_drop, List.map_take, List.map_drop]

end Rooted

theorem exists_rebuild_describeFrom (h : t.Arborescent) (inside : i < t.nodes.size)
    (s : Session) :
    ∃ u, ((t.describeFrom i).rebuild s).1 = .ok u ∧ u.describe = some (t.describeFrom i) := by
  obtain ⟨below, unfolds⟩ := h.exists_unfolds inside
  let tree : OrderedTree Entry := ⟨t.label i, below.map t.label⟩
  have counted : tree.forest.Counted Entry.arity := unfolds.counted
  have listed := h.entries_describeFrom unfolds
  obtain ⟨u, root, f, built, marked, arena, labels⟩ :=
    Description.rebuild_listing counted listed.symm s
  refine ⟨u, built, ?_⟩
  rw [arena.describe_eq marked, labels]
  exact congrArg some (congrArg Description.mk listed.symm)

end Arborescent

/-- Below every node that the root reaches, the pre-order of the node is a block of that of the
tree, with the node at its head, and the description of the node is the same block of the
description of the tree; by itself it is rebuilt, into a tree that it describes. Two such blocks
lie one in the other or apart from each other, as one of the nodes is above the other or none
is. -/
theorem preorderFrom_slice (edits : List (Session × Edit)) {r : Nat}
    (root : (built edits).root = some r) :
    let t := built edits
    ∃ d, t.describe = some d ∧
      (∀ i, Relation.ReflTransGen t.Child i r →
        t.preorder.extract (t.start i) (t.stop i) = t.preorderFrom i ∧
        (t.preorderFrom i).head? = some i ∧
        d.entries.extract (t.start i) (t.stop i) = (t.describeFrom i).entries ∧
        ∀ s, ∃ u, ((t.describeFrom i).rebuild s).1 = .ok u ∧
          u.describe = some (t.describeFrom i)) ∧
      ∀ i j, Relation.ReflTransGen t.Child i r → Relation.ReflTransGen t.Child j r →
        (t.span i ⊆ t.span j ↔ Relation.ReflTransGen t.Child i j) ∧
        (Disjoint (t.span i) (t.span j) ∨ t.span i ⊆ t.span j ∨ t.span j ⊆ t.span i) := by
  intro t
  have h := Arborescent.built edits
  refine ⟨t.describeFrom r, by rw [describe, root, Option.map_some], fun i reached => ?_,
    fun i j reached reached' => ⟨h.span_subset_iff root reached reached',
      h.disjoint_or_nested root reached reached'⟩⟩
  have inside := h.lt_size_of_reaches root reached
  refine ⟨h.extract_preorder root reached, ?_, h.extract_describe root reached,
    h.exists_rebuild_describeFrom inside⟩
  rw [h.preorderFrom_cons inside (Array.getElem?_eq_getElem inside), List.head?_cons]

theorem preorderFrom_slice_pair :
    let s : Session := ⟨"in.php", 5⟩
    let t := built [(s, .token ⟨0, "ID", "x", 1⟩), (s, .token ⟨0, "ID", "y", 2⟩),
      (s, .interior 3 "opt" []), (s, .interior 2 "pair" [1, 2]), (s, .interior 1 "expr" [3, 0]),
      (s, .token ⟨0, "ID", "z", 3⟩), (s, .root 4)]
    t.root = some 4 ∧
      (∃ d u, t.describe = some d ∧ d.entries.extract 1 4 = (t.describeFrom 3).entries ∧
        (Description.rebuild ⟨d.entries.extract 1 4⟩ s).1 = .ok u) ∧
      t.span 1 ⊆ t.span 3 ∧ t.span 3 = {1, 2, 3} ∧ t.span 0 = {4} := by
  intro s t
  have root : t.root = some 4 := by decide +kernel
  have order : t.preorder = [4, 3, 1, 2, 0] := by decide +kernel
  have reached : ∀ i ∈ t.preorder, Relation.ReflTransGen t.Child i 4 :=
    fun i hi => ((Arborescent.built _).mem_preorder_iff root).1 hi
  obtain ⟨d, described, slice, nested⟩ := preorderFrom_slice _ root
  obtain ⟨-, -, same, rebuilt⟩ := slice 3 (reached 3 (by rw [order]; decide))
  obtain ⟨u, built, -⟩ := rebuilt s
  have start : t.start 3 = 1 := by decide +kernel
  have stop : t.stop 3 = 4 := by decide +kernel
  rw [start, stop] at same
  have parent : Relation.ReflTransGen t.Child 1 3 := by
    rw [← (Arborescent.built _).mem_preorderFrom_iff (by decide +kernel)]
    decide +kernel
  have inner := (nested 1 3 (reached 1 (by rw [order]; decide))
    (reached 3 (by rw [order]; decide))).1.2 parent
  have alone : Description.mk (d.entries.extract 1 4) = t.describeFrom 3 :=
    Description.entries_inj.1 same
  refine ⟨root, ⟨d, u, described, same, ?_⟩, inner, by decide +kernel, by decide +kernel⟩
  rw [alone, built]

end ParseTrace.Tree
