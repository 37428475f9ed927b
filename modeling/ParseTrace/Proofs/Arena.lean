import ParseTrace.Proofs.Forest
import ParseTrace.Tree.Description

/-!
Arenas as forests of node numbers. A forest unfolds an arena when what stands below each
number are the children of that node. Of an old node a push may change the parent alone,
which keeps every unfolding; and the walk with a list of nodes to visit meets them in the
recursive pre-order.
-/

namespace ParseTrace

def Entry.arity : Entry → Nat
  | .token .. => 0
  | .interior _ _ children => children

theorem Node.arity_entry (n : Node) : n.entry.arity = n.children.length := by
  unfold Node.entry Node.children
  cases n.payload <;> rfl

namespace Tree

/-- Every node stays where it is, and only its parent may have changed. -/
def Grows (t u : Tree) : Prop :=
  ∀ (i : Nat) (n : Node), t.nodes[i]? = some n →
    ∃ parent, u.nodes[i]? = some { n with parent }

namespace Grows

theorem refl (t : Tree) : t.Grows t := fun _ n h => ⟨n.parent, h⟩

theorem trans {t u v : Tree} (first : t.Grows u) (second : u.Grows v) : t.Grows v := by
  intro i n h
  obtain ⟨_, hu⟩ := first i n h
  obtain ⟨parent, hv⟩ := second i _ hu
  exact ⟨parent, hv⟩

end Grows

theorem getElem?_adopt (parent : Nat) (children : List Nat) (nodes : Array Node) (i : Nat) :
    (adopt parent children nodes)[i]? =
      nodes[i]?.map fun n => if i ∈ children then { n with parent := some parent } else n := by
  induction children generalizing nodes with
  | nil => simp [adopt]
  | cons c rest ih =>
    have step : adopt parent (c :: rest) nodes =
        adopt parent rest (nodes.modify c fun n => { n with parent := some parent }) := rfl
    rw [step, ih, Array.getElem?_modify]
    cases hn : nodes[i]? with
    | none => simp
    | some n =>
      by_cases here : c = i
      · subst here
        by_cases again : c ∈ rest <;> simp [again]
      · simp [here, Ne.symm here]

@[simp] theorem size_adopt (parent : Nat) (children : List Nat) (nodes : Array Node) :
    (adopt parent children nodes).size = nodes.size := by
  induction children generalizing nodes with
  | nil => rfl
  | cons c rest ih =>
    exact (ih (nodes.modify c fun n => { n with parent := some parent })).trans
      Array.size_modify

theorem grows_push (t : Tree) (n : Node) : t.Grows { t with nodes := t.nodes.push n } := by
  intro i m h
  have inside : i < t.nodes.size := (Array.getElem?_eq_some_iff.1 h).1
  exact ⟨m.parent, by rw [Array.getElem?_push_lt inside, ← h]; simp [inside]⟩

theorem grows_adopt (t : Tree) (parent : Nat) (children : List Nat) :
    t.Grows { t with nodes := adopt parent children t.nodes } := by
  intro i n h
  refine ⟨if i ∈ children then some parent else n.parent, ?_⟩
  rw [getElem?_adopt, h, Option.map_some]
  split <;> rfl

theorem grows_pushToken (t : Tree) (s : Session) (token : Token) :
    t.Grows (t.pushToken s token).2.1 :=
  t.grows_push _

theorem grows_pushInterior (t : Tree) (s : Session) (symbol : UInt32) (name : String)
    (children : List Nat) : t.Grows (t.pushInterior s symbol name children).2.1 := by
  unfold pushInterior
  split
  · exact .refl t
  · exact (t.grows_adopt _ children).trans (grows_push _ _)

/-- What stands below each number are the children of that node. -/
def Unfolds (t : Tree) : Forest Nat → Prop
  | .nil => True
  | .cons i below beside =>
    (∃ n, t.nodes[i]? = some n ∧ n.children = below.roots) ∧ t.Unfolds below ∧ t.Unfolds beside

variable {t u : Tree} {f g : Forest Nat}

theorem unfolds_append : t.Unfolds (f ++ g) ↔ t.Unfolds f ∧ t.Unfolds g := by
  induction f with
  | nil => simp [Unfolds]
  | cons i below beside _ ih => simp only [Forest.cons_append, Unfolds, ih, and_assoc]

theorem Unfolds.mono (h : t.Unfolds f) (grows : t.Grows u) : u.Unfolds f := by
  induction f with
  | nil => trivial
  | cons i below beside ih ih' =>
    obtain ⟨⟨n, hn, children⟩, hb, hr⟩ := h
    obtain ⟨parent, hu⟩ := grows i n hn
    exact ⟨⟨_, hu, children⟩, ih hb, ih' hr⟩

theorem Unfolds.exists_node (h : t.Unfolds f) {i : Nat} (hi : i ∈ f.preorder) :
    ∃ n, t.nodes[i]? = some n := by
  induction f with
  | nil => cases hi
  | cons j below beside ih ih' =>
    obtain ⟨⟨n, hn, _⟩, hb, hr⟩ := h
    simp only [Forest.preorder, List.mem_cons, List.mem_append] at hi
    rcases hi with rfl | hi | hi
    · exact ⟨n, hn⟩
    · exact ih hb hi
    · exact ih' hr hi

def next? (t : Tree) : List Nat → Option (Nat × List Nat)
  | [] => none
  | i :: pending => t.nodes[i]?.map fun n => (i, n.children ++ pending)

/-- A walk with the first nodes to visit meets the second, one after the other, and then has
the last to visit. -/
inductive Meets (t : Tree) : List Nat → List Nat → List Nat → Prop
  | refl (pending : List Nat) : Meets t pending [] pending
  | step {pending rest met left : List Nat} {i : Nat} : t.next? pending = some (i, rest) →
      Meets t rest met left → Meets t pending (i :: met) left

theorem Meets.trans {pending rest left met met' : List Nat} (first : t.Meets pending met rest)
    (second : t.Meets rest met' left) : t.Meets pending (met ++ met') left := by
  induction first with
  | refl => exact second
  | step next _ ih => exact .step next (ih second)

/-- From its roots a forest is met in pre-order; what waits behind the roots is not touched
meanwhile. -/
theorem Unfolds.meets (h : t.Unfolds f) (pending : List Nat) :
    t.Meets (f.roots ++ pending) f.preorder pending := by
  induction f generalizing pending with
  | nil => exact .refl pending
  | cons i below beside ih ih' =>
    obtain ⟨⟨n, hn, children⟩, under, aside⟩ := h
    -- first all that stands below, with the rest of the roots put behind the children
    refine .step ?_ ((ih under (beside.roots ++ pending)).trans (ih' aside pending))
    rw [Forest.roots, List.cons_append, next?, hn, Option.map_some, children]

theorem Meets.visit {pending met left : List Nat} (h : t.Meets pending met left) (steps : Nat)
    (seen : Array Nat) :
    t.visit (met.length + steps) pending seen = t.visit steps left (seen ++ met) := by
  induction h generalizing seen with
  | refl => simp
  | @step pending rest met left i next _ ih =>
    cases pending with
    | nil => cases next
    | cons j pending =>
      obtain ⟨n, hn, same⟩ := Option.map_eq_some_iff.1 next
      obtain ⟨rfl, rfl⟩ := Prod.mk.inj same
      have turn : t.visit ((j :: met).length + steps) (j :: pending) seen =
          t.visit (met.length + steps) (n.children ++ pending) (seen.push j) := by
        rw [List.length_cons, Nat.add_right_comm, Tree.visit, hn]
      rw [turn, ih, Array.appendList_cons]

theorem visit_nil (steps : Nat) (seen : Array Nat) : t.visit steps [] seen = seen := by
  cases steps <;> rfl

theorem preorderFrom_eq {i : Nat} {below : Forest Nat} (h : t.Unfolds (.cons i below .nil))
    (room : (Forest.cons i below .nil).preorder.length ≤ t.nodes.size) :
    t.preorderFrom i = (Forest.cons i below .nil).preorder := by
  obtain ⟨extra, steps⟩ := Nat.exists_eq_add_of_le room
  have walk := (h.meets []).visit extra #[]
  rw [preorderFrom, steps]
  simpa only [Forest.roots, List.append_nil, visit_nil, Array.toList_appendList,
    List.nil_append] using congrArg Array.toList walk

instance : Inhabited Entry := ⟨.interior 0 "" 0⟩

def label (t : Tree) (i : Nat) : Entry :=
  (t.nodes[i]?.map Node.entry).getD default

theorem label_eq {i : Nat} {n : Node} (h : t.nodes[i]? = some n) : t.label i = n.entry := by
  rw [label, h, Option.map_some, Option.getD_some]

theorem label_mono (grows : t.Grows u) {i : Nat} {n : Node} (h : t.nodes[i]? = some n) :
    u.label i = t.label i := by
  obtain ⟨parent, hu⟩ := grows i n h
  rw [label_eq h, label_eq hu]
  rfl

theorem Unfolds.map_label_mono (h : t.Unfolds f) (grows : t.Grows u) :
    f.map u.label = f.map t.label := by
  induction f with
  | nil => rfl
  | cons i below beside ih ih' =>
    obtain ⟨⟨n, hn, _⟩, hb, hr⟩ := h
    simp only [Forest.map, ih hb, ih' hr, label_mono grows hn]

theorem Unfolds.counted (h : t.Unfolds f) : (f.map t.label).Counted Entry.arity := by
  induction f with
  | nil => trivial
  | cons i below beside ih ih' =>
    obtain ⟨⟨n, hn, children⟩, hb, hr⟩ := h
    refine ⟨?_, ih hb, ih' hr⟩
    rw [label_eq hn, Node.arity_entry, children, Forest.roots_map, List.length_map]

theorem Unfolds.entries_preorder (h : t.Unfolds f) :
    (f.preorder.filterMap fun i => t.nodes[i]?.map Node.entry) = (f.map t.label).preorder := by
  have labelled : ∀ i ∈ f.preorder, t.nodes[i]?.map Node.entry = some (t.label i) := by
    intro i hi
    obtain ⟨n, hn⟩ := h.exists_node hi
    rw [label_eq hn, hn, Option.map_some]
  rw [List.filterMap_congr labelled, List.filterMap_eq_map', Forest.preorder_map]

end Tree

end ParseTrace
