import ParseTrace.Proofs.Stacked

/-!
Arenas as arborescences. Whatever is asked of an arena, in whatever order and with whatever
answer, its child lists name older nodes only, no node stands in two places, and the parent
that a node records is the node in whose list it stands.
-/

namespace ParseTrace

inductive Edit where
  | token (token : Token)
  | interior (symbol : UInt32) (name : String) (children : List Nat)
  | root (i : Nat)

namespace Tree

def edit (t : Tree) (s : Session) : Edit → Tree × Session
  | .token token => (t.pushToken s token).2
  | .interior symbol name children => (t.pushInterior s symbol name children).2
  | .root i => ((t.setRoot i).2, s)

/-- What becomes of an empty arena; each edit comes with a session of its own choice. -/
def built (edits : List (Session × Edit)) : Tree :=
  edits.foldl (fun t (s, e) => (t.edit s e).1) {}

def Child (t : Tree) (c p : Nat) : Prop :=
  ∃ n, t.nodes[p]? = some n ∧ c ∈ n.children

def HasParent (t : Tree) (c p : Nat) : Prop :=
  ∃ n, t.nodes[c]? = some n ∧ n.parent = some p

structure Arborescent (t : Tree) : Prop where
  older : ∀ {c p : Nat}, t.Child c p → c < p
  nodup : ∀ {p : Nat} {n : Node}, t.nodes[p]? = some n → n.children.Nodup
  parent_iff : ∀ {c p : Nat}, t.HasParent c p ↔ t.Child c p
  root_lt : ∀ {r : Nat}, t.root = some r → r < t.nodes.size

variable {t : Tree}

theorem child_push (t : Tree) (n : Node) (c p : Nat) :
    Child { t with nodes := t.nodes.push n } c p ↔
      t.Child c p ∨ p = t.nodes.size ∧ c ∈ n.children := by
  by_cases new : p = t.nodes.size
  · subst new
    simp [Child]
  · simp [Child, Array.getElem?_push, new]

theorem hasParent_push (t : Tree) (n : Node) (c p : Nat) :
    HasParent { t with nodes := t.nodes.push n } c p ↔
      t.HasParent c p ∨ c = t.nodes.size ∧ n.parent = some p := by
  by_cases new : c = t.nodes.size
  · subst new
    simp [HasParent]
  · simp [HasParent, Array.getElem?_push, new]

theorem child_adopt (t : Tree) (q : Nat) (children : List Nat) (c p : Nat) :
    Child { t with nodes := adopt q children t.nodes } c p ↔ t.Child c p := by
  simp only [Child, getElem?_adopt, Option.map_eq_some_iff]
  constructor
  · rintro ⟨_, ⟨n, hn, rfl⟩, member⟩
    refine ⟨n, hn, ?_⟩
    split at member <;> exact member
  · rintro ⟨n, hn, member⟩
    refine ⟨_, ⟨n, hn, rfl⟩, ?_⟩
    split <;> exact member

theorem hasParent_adopt (t : Tree) (q : Nat) (children : List Nat) (c p : Nat) :
    HasParent { t with nodes := adopt q children t.nodes } c p ↔
      if c ∈ children then p = q ∧ c < t.nodes.size else t.HasParent c p := by
  simp only [HasParent, getElem?_adopt, Option.map_eq_some_iff]
  by_cases taken : c ∈ children
  · simp only [taken, if_true]
    constructor
    · rintro ⟨_, ⟨n, hn, rfl⟩, parent⟩
      exact ⟨(Option.some.inj parent).symm, (Array.getElem?_eq_some_iff.1 hn).1⟩
    · rintro ⟨rfl, inside⟩
      exact ⟨_, ⟨_, Array.getElem?_eq_getElem inside, rfl⟩, rfl⟩
  · simp [taken]

/-- A push over these children is granted exactly if the list repeats none and each is a
detached node; a refusal changes nothing. -/
theorem pushInterior_cases (t : Tree) (s : Session) (symbol : UInt32) (name : String)
    (children : List Nat) :
    (∃ failure, t.pushInterior s symbol name children = (.error failure, t, s)) ∨
    children.Nodup ∧ (∀ i ∈ children, ∃ n, t.nodes[i]? = some n ∧ n.parent = none) ∧
      t.pushInterior s symbol name children =
        (.ok t.nodes.size,
          { t with nodes :=
            (adopt t.nodes.size children t.nodes).push (interior s symbol name children) },
          s.advance) := by
  cases fault : t.childFault? [] children with
  | some failure => exact .inl ⟨failure, by simp only [pushInterior, fault]⟩
  | none =>
    obtain ⟨distinct, sound⟩ := childFault?_eq_none_iff.1 fault
    have free : ∀ i ∈ children, ∃ n, t.nodes[i]? = some n ∧ n.parent = none :=
      fun i hi => (sound i hi).2
    exact .inr ⟨distinct, free, pushInterior_eq s symbol name distinct free⟩

theorem adopt_push_cases {nodes : Array Node} {q i : Nat} {children : List Nat} {new n : Node}
    (hn : ((adopt q children nodes).push new)[i]? = some n) :
    i = nodes.size ∧ n = new ∨
      ∃ m parent, nodes[i]? = some m ∧ n = { m with parent } := by
  simp only [Array.getElem?_push, size_adopt, getElem?_adopt] at hn
  split at hn
  · next last => exact .inl ⟨last, (Option.some.inj hn).symm⟩
  · obtain ⟨m, hm, rfl⟩ := Option.map_eq_some_iff.1 hn
    right
    split
    · exact ⟨m, some q, hm, rfl⟩
    · exact ⟨m, m.parent, hm, rfl⟩

theorem setRoot_cases (t : Tree) (i : Nat) :
    (t.setRoot i).2 = t ∨ i < t.nodes.size ∧ (t.setRoot i).2 = { t with root := some i } := by
  unfold setRoot
  split
  · exact .inl rfl
  · next n hn =>
    split
    · exact .inl rfl
    · exact .inr ⟨(Array.getElem?_eq_some_iff.1 hn).1, rfl⟩

namespace Arborescent

theorem empty : Arborescent {} where
  older := by rintro c p ⟨n, hn, -⟩; simp at hn
  nodup := by intro p n hn; simp at hn
  parent_iff := by simp [HasParent, Child]
  root_lt := by intro r hr; cases hr

theorem pushToken (h : t.Arborescent) (s : Session) (token : Token) :
    (t.pushToken s token).2.1.Arborescent where
  older := by
    intro c p child
    rcases (child_push t _ c p).1 child with old | ⟨-, none⟩
    · exact h.older old
    · cases none
  nodup := by
    intro p n hn
    simp only [Tree.pushToken, Array.getElem?_push] at hn
    split at hn
    · cases hn
      exact List.nodup_nil
    · exact h.nodup hn
  parent_iff := by
    intro c p
    refine (hasParent_push t _ c p).trans (.trans ?_ (child_push t _ c p).symm)
    simp [h.parent_iff, Node.children]
  root_lt := by
    intro r hr
    have inside := h.root_lt hr
    simp only [Tree.pushToken, Array.size_push]
    omega

theorem pushInterior (h : t.Arborescent) (s : Session) (symbol : UInt32) (name : String)
    (children : List Nat) : (t.pushInterior s symbol name children).2.1.Arborescent := by
  rcases t.pushInterior_cases s symbol name children with
    ⟨failure, refused⟩ | ⟨distinct, free, granted⟩
  · rw [refused]
    exact h
  rw [granted]
  -- the child lists are the old ones and that of the new node
  have child : ∀ c p, Child { t with nodes :=
      (adopt t.nodes.size children t.nodes).push (interior s symbol name children) } c p ↔
      t.Child c p ∨ p = t.nodes.size ∧ c ∈ children := by
    intro c p
    have pushed := child_push { t with nodes := adopt t.nodes.size children t.nodes }
      (interior s symbol name children) c p
    simp only [child_adopt, size_adopt] at pushed
    exact pushed
  have inside : ∀ c ∈ children, c < t.nodes.size := by
    intro c hc
    obtain ⟨n, hn, -⟩ := free c hc
    exact (Array.getElem?_eq_some_iff.1 hn).1
  refine ⟨?_, ?_, ?_, ?_⟩
  · intro c p hc
    rcases (child c p).1 hc with old | ⟨rfl, listed⟩
    · exact h.older old
    · exact inside c listed
  · intro p n hn
    rcases adopt_push_cases hn with ⟨-, rfl⟩ | ⟨m, parent, hm, rfl⟩
    · exact distinct
    · have old : m.children.Nodup := h.nodup hm
      exact old
  · intro c p
    have pushed := hasParent_push { t with nodes := adopt t.nodes.size children t.nodes }
      (interior s symbol name children) c p
    rw [hasParent_adopt, size_adopt] at pushed
    refine pushed.trans (.trans ?_ (child c p).symm)
    by_cases taken : c ∈ children
    · -- a child of the new node had no parent, so no old list named it
      have orphan : ¬ t.Child c p := by
        rw [← h.parent_iff]
        rintro ⟨n, hn, parent⟩
        obtain ⟨m, hm, none⟩ := free c taken
        obtain rfl := Option.some.inj (hn.symm.trans hm)
        rw [none] at parent
        cases parent
      simp [taken, inside c taken, orphan, interior]
    · simp [taken, h.parent_iff, interior]
  · intro r hr
    have below := h.root_lt hr
    simp only [Array.size_push, size_adopt]
    omega

theorem setRoot (h : t.Arborescent) (i : Nat) : (t.setRoot i).2.Arborescent := by
  rcases t.setRoot_cases i with same | ⟨inside, changed⟩
  · rw [same]
    exact h
  · rw [changed]
    refine ⟨h.older, h.nodup, h.parent_iff, ?_⟩
    rintro r ⟨⟩
    exact inside

theorem edit (h : t.Arborescent) (s : Session) (e : Edit) : (t.edit s e).1.Arborescent := by
  cases e with
  | token token => exact h.pushToken s token
  | interior symbol name children => exact h.pushInterior s symbol name children
  | root i => exact h.setRoot i

theorem foldl (h : t.Arborescent) (edits : List (Session × Edit)) :
    (edits.foldl (fun t (s, e) => (t.edit s e).1) t).Arborescent := by
  induction edits generalizing t with
  | nil => exact h
  | cons e rest ih => exact ih (h.edit e.1 e.2)

theorem built (edits : List (Session × Edit)) : (built edits).Arborescent :=
  empty.foldl edits

theorem child_unique (h : t.Arborescent) {c p q : Nat} (hp : t.Child c p) (hq : t.Child c q) :
    p = q := by
  obtain ⟨n, hn, parent⟩ := h.parent_iff.2 hp
  obtain ⟨m, hm, parent'⟩ := h.parent_iff.2 hq
  obtain rfl := Option.some.inj (hn.symm.trans hm)
  exact Option.some.inj (parent.symm.trans parent')

theorem lt_of_transGen (h : t.Arborescent) {c p : Nat} (path : Relation.TransGen t.Child c p) :
    c < p := by
  induction path with
  | single step => exact h.older step
  | tail _ step ih => exact ih.trans (h.older step)

end Arborescent

/-- Every arena that edits can make, granted or refused, is an arborescence: lists name
older nodes, parents and lists agree, no node is listed twice, the root is a node. So no
path along children or along parents comes back to where it began. -/
theorem built_arborescence (edits : List (Session × Edit)) :
    (∀ c p, (built edits).Child c p → c < p) ∧
    (∀ c p, (built edits).HasParent c p ↔ (built edits).Child c p) ∧
    (∀ (p : Nat) (n : Node), (built edits).nodes[p]? = some n → n.children.Nodup) ∧
    (∀ c p q, (built edits).Child c p → (built edits).Child c q → p = q) ∧
    (∀ r, (built edits).root = some r → r < (built edits).nodes.size) ∧
    (∀ i, ¬ Relation.TransGen (built edits).Child i i) ∧
    (∀ i, ¬ Relation.TransGen (built edits).HasParent i i) := by
  have h := Arborescent.built edits
  have acyclic : ∀ i, ¬ Relation.TransGen (built edits).Child i i :=
    fun i path => Nat.lt_irrefl i (h.lt_of_transGen path)
  have upward : (built edits).HasParent = (built edits).Child := by
    funext c p
    exact propext h.parent_iff
  exact ⟨fun c p => h.older, fun c p => h.parent_iff, fun p n => h.nodup,
    fun c p q => h.child_unique, fun r => h.root_lt, acyclic, upward ▸ acyclic⟩

end Tree

end ParseTrace
