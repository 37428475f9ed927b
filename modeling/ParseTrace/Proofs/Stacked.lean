import ParseTrace.Proofs.Arena

/-!
Arenas that grow bottom up. A stack holds the nodes without a parent, oldest first; each
entry owns the block of nodes that ends with it, in post-order, and the blocks together
are the whole arena. Pushing a token opens a block of its own, and pushing an interior node
over the newest entries joins their blocks into one.
-/

namespace ParseTrace.Tree

/-- An arena whose parentless nodes are these, and whose creation order is the post-order
of the forest below them. -/
structure Stacked (t : Tree) (stack : List Nat) (f : Forest Nat) : Prop where
  unfolds : t.Unfolds f
  roots : f.roots = stack
  postorder : f.postorder = List.range t.nodes.size
  detached : ∀ (i : Nat) (n : Node), t.nodes[i]? = some n → (n.parent = none ↔ i ∈ stack)

def entries (t : Tree) : List Entry :=
  t.nodes.toList.map Node.entry

@[simp] theorem length_entries (t : Tree) : t.entries.length = t.nodes.size := by
  rw [entries, List.length_map, Array.length_toList]

theorem label_range (t : Tree) : (List.range t.nodes.size).map t.label = t.entries := by
  apply List.ext_getElem?
  intro i
  have same : t.nodes.toList[i]? = t.nodes[i]? := Array.getElem?_toList
  rw [entries, List.getElem?_map, List.getElem?_map, same]
  by_cases inside : i < t.nodes.size
  · have hn := Array.getElem?_eq_getElem inside
    rw [hn, List.getElem?_range inside, Option.map_some, Option.map_some, label_eq hn]
  · have beyond := Nat.le_of_not_lt inside
    rw [Array.getElem?_eq_none beyond,
      List.getElem?_eq_none (by rwa [List.length_range])]
    rfl

theorem map_adopt {β : Type} {view : Node → β}
    (blind : ∀ n parent, view { n with parent } = view n) (parent : Nat) (children : List Nat)
    (nodes : Array Node) :
    (adopt parent children nodes).toList.map view = nodes.toList.map view := by
  apply List.ext_getElem?
  intro i
  rw [List.getElem?_map, List.getElem?_map, Array.getElem?_toList, Array.getElem?_toList,
    getElem?_adopt, Option.map_map]
  congr 1
  funext n
  rw [Function.comp_apply]
  split
  · exact blind n (some parent)
  · rfl

theorem entries_pushToken (t : Tree) (s : Session) (token : Token) :
    (t.pushToken s token).2.1.entries =
      t.entries ++ [.token token.symbol token.name token.lexeme token.line] := by
  simp only [entries, pushToken, Array.toList_push, List.map_append, List.map_cons,
    List.map_nil]
  rfl

theorem label_pushToken (t : Tree) (s : Session) (token : Token) :
    (t.pushToken s token).2.1.label t.nodes.size =
      .token token.symbol token.name token.lexeme token.line :=
  (label_eq Array.getElem?_push_size).trans rfl

theorem childFault?_eq_none_iff {t : Tree} {seen children : List Nat} :
    t.childFault? seen children = none ↔ children.Nodup ∧
      ∀ i ∈ children, i ∉ seen ∧ ∃ n, t.nodes[i]? = some n ∧ n.parent = none := by
  induction children generalizing seen with
  | nil => simp [childFault?]
  | cons i rest ih =>
    rw [childFault?]
    cases hn : t.nodes[i]? with
    | none => simp [hn]
    | some n =>
      by_cases fault : n.parent.isSome ∨ i ∈ seen
      · have refused : (n.parent.isSome || seen.contains i) = true := by simpa using fault
        simp only [refused, if_true, reduceCtorEq, false_iff, not_and]
        intro _ sound
        obtain ⟨fresh, m, hm, free⟩ := sound i List.mem_cons_self
        obtain rfl := Option.some.inj (hn.symm.trans hm)
        simp [free, fresh] at fault
      · have passed : (n.parent.isSome || seen.contains i) = false := by simpa using fault
        simp only [passed, Bool.false_eq_true, if_false, ih, List.nodup_cons,
          List.mem_cons, not_or, forall_eq_or_imp]
        simp only [not_or, Bool.not_eq_true, Option.isSome_eq_false_iff,
          Option.isNone_iff_eq_none] at fault
        constructor
        · rintro ⟨distinct, sound⟩
          refine ⟨⟨fun again => (sound i again).1.1 rfl, distinct⟩,
            ⟨fault.2, n, hn, fault.1⟩, fun j hj => ⟨(sound j hj).1.2, (sound j hj).2⟩⟩
        · rintro ⟨⟨fresh, distinct⟩, _, sound⟩
          refine ⟨distinct, fun j hj => ⟨⟨?_, (sound j hj).1⟩, (sound j hj).2⟩⟩
          rintro rfl
          exact fresh hj

def interior (s : Session) (symbol : UInt32) (name : String) (children : List Nat) : Node :=
  ⟨s.nextId, symbol, name, s.fileName, none, .interior children⟩

theorem pushInterior_eq {t : Tree} {children : List Nat} (s : Session) (symbol : UInt32)
    (name : String) (distinct : children.Nodup)
    (free : ∀ i ∈ children, ∃ n, t.nodes[i]? = some n ∧ n.parent = none) :
    t.pushInterior s symbol name children =
      (.ok t.nodes.size,
        { t with nodes :=
          (adopt t.nodes.size children t.nodes).push (interior s symbol name children) },
        s.advance) := by
  have sound : t.childFault? [] children = none :=
    childFault?_eq_none_iff.2 ⟨distinct, fun i hi => ⟨List.not_mem_nil, free i hi⟩⟩
  simp only [pushInterior, sound]
  rfl

namespace Stacked

variable {t : Tree} {f g : Forest Nat} {stack kept children : List Nat}

theorem empty : Stacked {} [] .nil where
  unfolds := trivial
  roots := rfl
  postorder := rfl
  detached := fun _ _ h => by simp at h

theorem lt_size (h : t.Stacked stack f) {i : Nat} (hi : i ∈ stack) : i < t.nodes.size := by
  rw [← h.roots] at hi
  have listed := f.roots_sublist_postorder.subset hi
  rw [h.postorder] at listed
  exact List.mem_range.1 listed

theorem nodup (h : t.Stacked stack f) : stack.Nodup := by
  have blocks := f.roots_sublist_postorder
  rw [h.roots, h.postorder] at blocks
  exact blocks.nodup List.nodup_range

theorem free (h : t.Stacked stack f) {i : Nat} (hi : i ∈ stack) :
    ∃ n, t.nodes[i]? = some n ∧ n.parent = none := by
  have inside := h.lt_size hi
  have hn := Array.getElem?_eq_getElem inside
  exact ⟨_, hn, (h.detached i _ hn).2 hi⟩

theorem length_preorder (h : t.Stacked stack f) : f.preorder.length = t.nodes.size := by
  rw [f.preorder_perm_postorder.length_eq, h.postorder, List.length_range]

theorem pushToken (h : t.Stacked stack f) (s : Session) (token : Token) :
    (t.pushToken s token).2.1.Stacked (stack ++ [t.nodes.size])
      (f ++ .cons t.nodes.size .nil .nil) where
  unfolds := by
    refine unfolds_append.2 ⟨h.unfolds.mono (t.grows_pushToken s token), ?_⟩
    exact ⟨⟨_, Array.getElem?_push_size, rfl⟩, trivial, trivial⟩
  roots := by rw [Forest.roots_append, h.roots]; rfl
  postorder := by
    have size : (t.pushToken s token).2.1.nodes.size = t.nodes.size + 1 := Array.size_push ..
    rw [Forest.postorder_append, h.postorder, size, List.range_succ]
    rfl
  detached := by
    intro i n hn
    simp only [Tree.pushToken, Array.getElem?_push] at hn
    split at hn
    · next new =>
      cases hn
      simp [new]
    · next old =>
      rw [h.detached i n hn]
      simp [old]

/-- The newest entries of the stack always take a parent. -/
theorem pushInterior_ok (h : t.Stacked (kept ++ children) f) (s : Session) (symbol : UInt32)
    (name : String) :
    t.pushInterior s symbol name children =
      (.ok t.nodes.size,
        { t with nodes :=
          (adopt t.nodes.size children t.nodes).push (interior s symbol name children) },
        s.advance) := by
  refine pushInterior_eq s symbol name ?_ fun i hi => h.free (List.mem_append_right _ hi)
  exact h.nodup.sublist (List.sublist_append_right _ _)

theorem entries_pushInterior (h : t.Stacked (kept ++ children) f) (s : Session)
    (symbol : UInt32) (name : String) :
    (t.pushInterior s symbol name children).2.1.entries =
      t.entries ++ [.interior symbol name children.length] := by
  rw [h.pushInterior_ok s symbol name]
  simp only [entries, Array.toList_push, List.map_append, List.map_cons, List.map_nil]
  rw [map_adopt fun _ _ => rfl]
  rfl

theorem label_pushInterior (h : t.Stacked (kept ++ children) f) (s : Session)
    (symbol : UInt32) (name : String) :
    (t.pushInterior s symbol name children).2.1.label t.nodes.size =
      .interior symbol name children.length := by
  have placed : (t.pushInterior s symbol name children).2.1.nodes[t.nodes.size]? =
      some (interior s symbol name children) := by
    simp only [h.pushInterior_ok s symbol name, Array.getElem?_push, size_adopt, if_true]
  exact (label_eq placed).trans rfl

theorem pushInterior (h : t.Stacked (kept ++ children) (f ++ g)) (roots : g.roots = children)
    (s : Session) (symbol : UInt32) (name : String) :
    (t.pushInterior s symbol name children).2.1.Stacked (kept ++ [t.nodes.size])
      (f ++ .cons t.nodes.size g .nil) where
  unfolds := by
    -- the new node stands over `g`; all old nodes keep their children
    have old := h.unfolds.mono (t.grows_pushInterior s symbol name children)
    refine unfolds_append.2 ⟨(unfolds_append.1 old).1, ?_⟩
    refine ⟨⟨interior s symbol name children, ?_, roots.symm⟩, (unfolds_append.1 old).2, trivial⟩
    simp only [h.pushInterior_ok s symbol name, Array.getElem?_push, size_adopt, if_true]
  roots := by
    have split : f.roots ++ g.roots = kept ++ children := by
      rw [← Forest.roots_append, h.roots]
    rw [roots] at split
    rw [Forest.roots_append, List.append_cancel_right split]
    rfl
  postorder := by
    -- the blocks of `f` and `g` fill the old arena, and the new node comes last
    have blocks : f.postorder ++ g.postorder = List.range t.nodes.size := by
      rw [← Forest.postorder_append, h.postorder]
    have size : (t.pushInterior s symbol name children).2.1.nodes.size = t.nodes.size + 1 := by
      rw [h.pushInterior_ok s symbol name, Array.size_push, size_adopt]
    rw [Forest.postorder_append, size, List.range_succ, ← blocks, List.append_assoc]
    rfl
  detached := by
    intro i n hn
    rw [h.pushInterior_ok s symbol name] at hn
    simp only [Array.getElem?_push, size_adopt, getElem?_adopt] at hn
    split at hn
    · next new =>
      cases hn
      simp [new, interior]
    · next old =>
      obtain ⟨m, hm, rfl⟩ := Option.map_eq_some_iff.1 hn
      have before := h.detached i m hm
      by_cases taken : i ∈ children
      · have gone : i ∉ kept := fun kept => (List.nodup_append.1 h.nodup).2.2 i kept i taken rfl
        simp [taken, gone, old]
      · simp only [taken, if_false, before, List.mem_append, or_false, List.mem_singleton, old]

theorem postorder_labels (h : t.Stacked stack f) : (f.map t.label).postorder = t.entries := by
  rw [Forest.postorder_map, h.postorder, label_range]

theorem setRoot_ok {root : Nat} (h : t.Stacked [root] f) :
    t.setRoot root = (.ok (), { t with root := some root }) := by
  obtain ⟨n, hn, free⟩ := h.free List.mem_cons_self
  simp only [setRoot, hn, free, Option.isSome_none, Bool.false_eq_true, if_false]

theorem withRoot (h : t.Stacked stack f) (root : Option Nat) :
    Stacked { t with root } stack f where
  unfolds := h.unfolds.mono fun _ n hn => ⟨n.parent, hn⟩
  roots := h.roots
  postorder := h.postorder
  detached := h.detached

theorem preorderFrom_eq {root : Nat} (h : t.Stacked [root] f) :
    t.preorderFrom root = f.preorder := by
  obtain ⟨below, rfl⟩ := Forest.eq_cons_of_roots h.roots
  exact Tree.preorderFrom_eq h.unfolds (Nat.le_of_eq h.length_preorder)

theorem preorderFrom_perm {root : Nat} (h : t.Stacked [root] f) :
    (t.preorderFrom root).Perm (List.range t.nodes.size) := by
  rw [h.preorderFrom_eq, ← h.postorder]
  exact f.preorder_perm_postorder

theorem describe_eq {root : Nat} (h : t.Stacked [root] f) (marked : t.root = some root) :
    t.describe = some ⟨(f.map t.label).preorder⟩ := by
  rw [describe, marked, Option.map_some, describeFrom, h.preorderFrom_eq,
    h.unfolds.entries_preorder]

end Stacked

end ParseTrace.Tree
