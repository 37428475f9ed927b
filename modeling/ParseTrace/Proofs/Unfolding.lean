import ParseTrace.Proofs.Arborescence

/-!
The forest below a node of an arborescence. Child lists name older nodes, so every node
unfolds into a finite tree; that tree holds what reaches the node along parents, and since
parents are unique it holds nothing twice. The walk in pre-order therefore sees all of it.
-/

namespace ParseTrace.Tree

variable {t : Tree} {f : Forest Nat}

theorem Unfolds.mem_of_child (h : t.Unfolds f) {c p : Nat} (hp : p ∈ f.preorder)
    (child : t.Child c p) : c ∈ f.preorder := by
  induction f with
  | nil => cases hp
  | cons i below beside ih ih' =>
    obtain ⟨⟨n, hn, children⟩, hb, hr⟩ := h
    simp only [Forest.preorder, List.mem_cons, List.mem_append] at hp ⊢
    rcases hp with rfl | hp | hp
    · obtain ⟨m, hm, listed⟩ := child
      obtain rfl := Option.some.inj (hn.symm.trans hm)
      rw [children] at listed
      exact .inr (.inl (below.roots_subset_preorder listed))
    · exact .inr (.inl (ih hb hp))
    · exact .inr (.inr (ih' hr hp))

theorem Unfolds.mem_preorder_iff (h : t.Unfolds f) (i : Nat) :
    i ∈ f.preorder ↔ ∃ r ∈ f.roots, Relation.ReflTransGen t.Child i r := by
  constructor
  · intro hi
    induction f with
    | nil => cases hi
    | cons j below beside ih ih' =>
      obtain ⟨⟨n, hn, children⟩, hb, hr⟩ := h
      simp only [Forest.preorder, List.mem_cons, List.mem_append] at hi
      rcases hi with rfl | hi | hi
      · exact ⟨i, List.mem_cons_self, .refl⟩
      · obtain ⟨r, hr, path⟩ := ih hb hi
        exact ⟨j, List.mem_cons_self, path.tail ⟨n, hn, by rwa [children]⟩⟩
      · obtain ⟨r, hr, path⟩ := ih' hr hi
        exact ⟨r, List.mem_cons_of_mem _ hr, path⟩
  · rintro ⟨r, hr, path⟩
    induction path using Relation.ReflTransGen.head_induction_on with
    | refl => exact f.roots_subset_preorder hr
    | head step _ ih => exact h.mem_of_child ih step

namespace Arborescent

theorem le_of_reflTransGen (h : t.Arborescent) {c p : Nat}
    (path : Relation.ReflTransGen t.Child c p) : c ≤ p := by
  rcases Relation.reflTransGen_iff_eq_or_transGen.1 path with rfl | proper
  · exact Nat.le_refl _
  · exact Nat.le_of_lt (h.lt_of_transGen proper)

theorem nodup_preorder (h : t.Arborescent) (unfolds : t.Unfolds f) (distinct : f.roots.Nodup)
    (apart : ∀ r ∈ f.roots, ∀ r' ∈ f.roots, ¬ Relation.TransGen t.Child r r') :
    f.preorder.Nodup := by
  induction f with
  | nil => exact List.nodup_nil
  | cons i below beside ih ih' =>
    obtain ⟨⟨n, hn, children⟩, under, aside⟩ := unfolds
    obtain ⟨fresh, distinct⟩ := List.nodup_cons.1 distinct
    have child : ∀ r ∈ below.roots, t.Child r i := fun r hr => ⟨n, hn, by rwa [children]⟩
    have up : ∀ x ∈ below.preorder, Relation.TransGen t.Child x i := by
      intro x hx
      obtain ⟨r, hr, path⟩ := (under.mem_preorder_iff x).1 hx
      exact Relation.TransGen.tail' path (child r hr)
    -- parents are unique, so what reaches `i` and another root makes one reach the other
    have outside : ∀ x, Relation.ReflTransGen t.Child x i → x ∉ beside.preorder := by
      intro x path hx
      obtain ⟨r, hr, path'⟩ := (aside.mem_preorder_iff x).1 hx
      have different : i ≠ r := fun same => fresh (same ▸ hr)
      have unique : Relator.RightUnique t.Child := fun _ _ _ => h.child_unique
      rcases Relation.ReflTransGen.total_of_right_unique unique path path' with one | other
      · rcases Relation.reflTransGen_iff_eq_or_transGen.1 one with same | proper
        · exact different same.symm
        · exact apart i List.mem_cons_self r (List.mem_cons_of_mem _ hr) proper
      · rcases Relation.reflTransGen_iff_eq_or_transGen.1 other with same | proper
        · exact different same
        · exact apart r (List.mem_cons_of_mem _ hr) i List.mem_cons_self proper
    refine List.nodup_cons.2 ⟨?_, List.nodup_append.2 ⟨?_, ?_, ?_⟩⟩
    · intro again
      rcases List.mem_append.1 again with hi | hi
      · exact Nat.lt_irrefl i (h.lt_of_transGen (up i hi))
      · exact outside i .refl hi
    · refine ih under (children ▸ h.nodup hn) ?_
      intro r hr r' hr' path
      -- a path from one child to another would pass through their common parent
      obtain ⟨p, step, rest⟩ := Relation.TransGen.head'_iff.1 path
      obtain rfl := h.child_unique step (child r hr)
      exact Nat.lt_irrefl p
        (Nat.lt_of_le_of_lt (h.le_of_reflTransGen rest) (h.older (child r' hr')))
    · exact ih' aside distinct fun r hr r' hr' =>
        apart r (List.mem_cons_of_mem _ hr) r' (List.mem_cons_of_mem _ hr')
    · rintro x hx y hy rfl
      exact outside x (up x hx).to_reflTransGen hy

theorem exists_unfolds_of_roots {roots : List Nat}
    (each : ∀ r ∈ roots, ∃ below, t.Unfolds (.cons r below .nil)) :
    ∃ f : Forest Nat, f.roots = roots ∧ t.Unfolds f := by
  induction roots with
  | nil => exact ⟨.nil, rfl, trivial⟩
  | cons r rest ih =>
    obtain ⟨below, first⟩ := each r List.mem_cons_self
    obtain ⟨f, rfl, others⟩ := ih fun r' hr' => each r' (List.mem_cons_of_mem _ hr')
    exact ⟨.cons r below f, rfl, first.1, first.2.1, others⟩

theorem exists_unfolds (h : t.Arborescent) {i : Nat} (inside : i < t.nodes.size) :
    ∃ below, t.Unfolds (.cons i below .nil) := by
  -- children are older than their parent
  induction i using Nat.strong_induction_on with
  | _ i ih =>
    have hn := Array.getElem?_eq_getElem inside
    have each : ∀ c ∈ t.nodes[i].children, ∃ below, t.Unfolds (.cons c below .nil) := by
      intro c hc
      have older := h.older ⟨_, hn, hc⟩
      exact ih c older (older.trans inside)
    obtain ⟨below, roots, unfolds⟩ := exists_unfolds_of_roots each
    exact ⟨below, ⟨_, hn, roots.symm⟩, unfolds, trivial⟩

section Tree

variable (h : t.Arborescent) {i : Nat} {below : Forest Nat}
  (unfolds : t.Unfolds (.cons i below .nil))
include h unfolds

theorem nodup_tree : (Forest.cons i below .nil).preorder.Nodup := by
  refine h.nodup_preorder unfolds (List.nodup_singleton i) ?_
  intro r hr r' hr' path
  rw [List.mem_singleton.1 hr, List.mem_singleton.1 hr'] at path
  exact Nat.lt_irrefl i (h.lt_of_transGen path)

theorem length_tree_le : (Forest.cons i below .nil).preorder.length ≤ t.nodes.size := by
  have inside : (Forest.cons i below .nil).preorder ⊆ List.range t.nodes.size := by
    intro j hj
    obtain ⟨n, hn⟩ := unfolds.exists_node hj
    exact List.mem_range.2 (Array.getElem?_eq_some_iff.1 hn).1
  have counted := ((h.nodup_tree unfolds).subperm inside).length_le
  rwa [List.length_range] at counted

theorem preorderFrom_eq : t.preorderFrom i = (Forest.cons i below .nil).preorder :=
  Tree.preorderFrom_eq unfolds (h.length_tree_le unfolds)

theorem preorder_eq (root : t.root = some i) :
    t.preorder = (Forest.cons i below .nil).preorder := by
  rw [preorder, root]
  exact h.preorderFrom_eq unfolds

theorem entries_describeFrom :
    (t.describeFrom i).entries = ((Forest.cons i below .nil).map t.label).preorder := by
  rw [describeFrom, h.preorderFrom_eq unfolds]
  exact unfolds.entries_preorder

end Tree

end Arborescent

end ParseTrace.Tree
