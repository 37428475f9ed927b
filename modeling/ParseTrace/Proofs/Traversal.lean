import ParseTrace.Proofs.Calls
import ParseTrace.Proofs.Unfolding

/-!
The walk through an arena against the recursion on it. The walk keeps a list of nodes to visit
and knows nothing of levels; the recursion goes through the children of a node one after
another. From any node both meet the same, in the same order: the node and all from which
parents lead to it, each of them once.
-/

namespace ParseTrace.Tree

/-- A node and then, from left to right, what the recursion meets from its children. A child
comes before its parent. -/
def recursivePreorder (t : Tree) (i : Nat) : List Nat :=
  match t.nodes[i]? with
  | none => []
  | some n => i :: n.children.flatMap fun c => if c < i then recursivePreorder t c else []
termination_by i

variable {t : Tree} {f : Forest Nat} {i : Nat} {n : Node}

namespace Arborescent

theorem recursivePreorder_eq (h : t.Arborescent) (hn : t.nodes[i]? = some n) :
    t.recursivePreorder i = i :: n.children.flatMap t.recursivePreorder := by
  rw [recursivePreorder, hn]
  refine congrArg (List.cons i) (List.flatMap_congr fun c hc => ?_)
  have older : c < i := h.older ⟨n, hn, hc⟩
  rw [if_pos older]

theorem flatMap_recursivePreorder (h : t.Arborescent) (unfolds : t.Unfolds f) :
    f.roots.flatMap t.recursivePreorder = f.preorder := by
  induction f with
  | nil => rfl
  | cons i below beside ih ih' =>
    obtain ⟨⟨n, hn, children⟩, under, aside⟩ := unfolds
    rw [Forest.roots, List.flatMap_cons, h.recursivePreorder_eq hn, children, ih under, ih' aside]
    rfl

theorem recursivePreorder_root (h : t.Arborescent) {below : Forest Nat}
    (unfolds : t.Unfolds (.cons i below .nil)) :
    t.recursivePreorder i = (Forest.cons i below .nil).preorder := by
  rw [← h.flatMap_recursivePreorder unfolds, Forest.roots, Forest.roots, List.flatMap_singleton]

section Inside

variable (h : t.Arborescent) (inside : i < t.nodes.size)
include h inside

theorem preorderFrom_eq_recursivePreorder : t.preorderFrom i = t.recursivePreorder i := by
  obtain ⟨below, unfolds⟩ := h.exists_unfolds inside
  rw [h.preorderFrom_eq unfolds, h.recursivePreorder_root unfolds]

theorem preorderFrom_cons (hn : t.nodes[i]? = some n) :
    t.preorderFrom i = i :: n.children.flatMap t.preorderFrom := by
  rw [h.preorderFrom_eq_recursivePreorder inside, h.recursivePreorder_eq hn]
  refine congrArg (List.cons i) (List.flatMap_congr fun c hc => ?_)
  have older : c < i := h.older ⟨n, hn, hc⟩
  rw [h.preorderFrom_eq_recursivePreorder (older.trans inside)]

theorem meets_recursivePreorder : t.Meets [i] (t.recursivePreorder i) [] := by
  obtain ⟨below, unfolds⟩ := h.exists_unfolds inside
  rw [h.recursivePreorder_root unfolds]
  exact unfolds.meets []

theorem nodup_preorderFrom : (t.preorderFrom i).Nodup := by
  obtain ⟨below, unfolds⟩ := h.exists_unfolds inside
  rw [h.preorderFrom_eq unfolds]
  exact h.nodup_tree unfolds

theorem mem_preorderFrom_iff {j : Nat} :
    j ∈ t.preorderFrom i ↔ Relation.ReflTransGen t.Child j i := by
  obtain ⟨below, unfolds⟩ := h.exists_unfolds inside
  rw [h.preorderFrom_eq unfolds, unfolds.mem_preorder_iff]
  simp [Forest.roots]

theorem exists_node_of_mem {j : Nat} (hj : j ∈ t.preorderFrom i) : ∃ n, t.nodes[j]? = some n := by
  obtain ⟨below, unfolds⟩ := h.exists_unfolds inside
  rw [h.preorderFrom_eq unfolds] at hj
  exact unfolds.exists_node hj

theorem entries_describeFrom_eq : (t.describeFrom i).entries = (t.preorderFrom i).map t.label := by
  obtain ⟨below, unfolds⟩ := h.exists_unfolds inside
  rw [h.entries_describeFrom unfolds, h.preorderFrom_eq unfolds, Forest.preorder_map]

end Inside

theorem hasParent_eq_child (h : t.Arborescent) : t.HasParent = t.Child := by
  funext c p
  exact propext h.parent_iff

end Arborescent

theorem Stacked.preorder_perm_range {root : Nat} (h : t.Stacked [root] f)
    (marked : t.root = some root) : t.preorder.Perm (List.range t.nodes.size) := by
  rw [preorder, marked]
  exact h.preorderFrom_perm

/-- From every node of an arena the walk comes to an end, after having met what the recursion
through the children meets, in the same order. These are the node and those from which parents
lead to it, and none is met twice. In the tree of a builder the walk from the root meets every
node of the arena once. -/
theorem preorderFrom_recursive :
    (∀ (edits : List (Session × Edit)) (i : Nat) (n : Node), (built edits).nodes[i]? = some n →
      let t := built edits
      t.recursivePreorder i = i :: n.children.flatMap t.recursivePreorder ∧
      t.Meets [i] (t.recursivePreorder i) [] ∧
      t.preorderFrom i = t.recursivePreorder i ∧
      (t.preorderFrom i).Nodup ∧
      ∀ j, j ∈ t.preorderFrom i ↔ Relation.ReflTransGen t.HasParent j i) ∧
    ∀ (b b' : Builder) (t : Tree), b.Reached → b.accept = (.ok t, b') →
      t.preorder.Perm (List.range t.nodes.size) := by
  constructor
  · intro edits i n hn t
    have h := Arborescent.built edits
    have inside := (Array.getElem?_eq_some_iff.1 hn).1
    refine ⟨h.recursivePreorder_eq hn, h.meets_recursivePreorder inside,
      h.preorderFrom_eq_recursivePreorder inside, h.nodup_preorderFrom inside, fun j => ?_⟩
    rw [h.hasParent_eq_child]
    exact h.mem_preorderFrom_iff inside
  · intro b b' t reached accepted
    obtain ⟨root, f, marked, arena⟩ := reached.stacked_of_accept accepted
    exact arena.preorder_perm_range marked

theorem preorderFrom_recursive_nested :
    (let s : Session := ⟨"in.php", 5⟩
      let t := built [(s, .token ⟨0, "ID", "x", 1⟩), (s, .token ⟨0, "ID", "y", 2⟩),
        (s, .interior 3 "opt" []), (s, .interior 2 "pair" [1, 2]), (s, .interior 1 "expr" [3, 0]),
        (s, .token ⟨0, "ID", "z", 3⟩)]
      t.Meets [4] [4, 3, 1, 2, 0] [] ∧ ¬ Relation.ReflTransGen t.HasParent 5 4) ∧
    ∃ t b, (Builder.run ⟨"in.php", 7⟩ [.shift ⟨0, "ID", "x", 1⟩, .reduce ⟨3, "opt", 0⟩,
        .reduce ⟨2, "pair", 2⟩]).accept = (.ok t, b) ∧
      t.preorder.Perm (List.range t.nodes.size) := by
  constructor
  · intro s t
    obtain ⟨n, hn⟩ : ∃ n, t.nodes[4]? = some n :=
      Option.isSome_iff_exists.1 (by decide +kernel)
    have order : t.preorderFrom 4 = [4, 3, 1, 2, 0] := by decide +kernel
    obtain ⟨-, walk, same, -, reached⟩ := preorderFrom_recursive.1 _ 4 n hn
    rw [← same, order] at walk
    refine ⟨walk, ?_⟩
    rw [← reached, order]
    decide
  · exact ⟨_, _, rfl, preorderFrom_recursive.2 _ _ _ (Builder.reached_run ⟨"in.php", 7⟩
      [.shift ⟨0, "ID", "x", 1⟩, .reduce ⟨3, "opt", 0⟩, .reduce ⟨2, "pair", 2⟩]) rfl⟩

end ParseTrace.Tree
