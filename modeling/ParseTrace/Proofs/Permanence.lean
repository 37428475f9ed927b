import ParseTrace.Proofs.LeftmostLine
import ParseTrace.Proofs.RootMark

/-!
What of a node can still change. Whatever is asked of an arena after the node was made, it stays
in its slot with all that it shows; it can get a parent, but only once. As its children were made
before it and keep theirs too, all that stands below it is fixed as well.
-/

namespace ParseTrace.Tree

def parent? (t : Tree) (i : Nat) : Option Nat :=
  t.nodes[i]?.bind Node.parent

variable {t u : Tree} {i p : Nat}

theorem parent?_eq_some_iff : t.parent? i = some p ↔ t.HasParent i p :=
  Option.bind_eq_some_iff

theorem grows_edit (t : Tree) (s : Session) (e : Edit) : t.Grows (t.edit s e).1 := by
  cases e with
  | token token => exact t.grows_pushToken s token
  | interior symbol name children => exact t.grows_pushInterior s symbol name children
  | root r =>
    rcases t.setRoot_cases r with same | ⟨-, changed⟩
    · rw [edit, same]
      exact .refl t
    · rw [edit, changed]
      exact fun _ n hn => ⟨n.parent, hn⟩

theorem grows_built_append (before after : List (Session × Edit)) :
    (built before).Grows (built (before ++ after)) := by
  induction after using List.reverseRecOn with
  | nil =>
    rw [List.append_nil]
    exact .refl _
  | append_singleton after e ih =>
    rw [← List.append_assoc, built_concat]
    exact ih.trans (grows_edit _ e.1 e.2)

theorem Arborescent.describeFrom_grows (h : t.Arborescent) (h' : u.Arborescent)
    (grows : t.Grows u) (inside : i < t.nodes.size) : u.describeFrom i = t.describeFrom i := by
  obtain ⟨below, unfolds⟩ := h.exists_unfolds inside
  refine Description.entries_inj.1 ?_
  rw [h.entries_describeFrom unfolds, h'.entries_describeFrom (unfolds.mono grows),
    unfolds.map_label_mono grows]

section Run

variable (edits : List (Session × Edit)) {k l : Nat}

theorem take_eq_append (later : k ≤ l) :
    ∃ between, edits.take l = edits.take k ++ between := by
  refine ⟨(edits.drop k).take (l - k), ?_⟩
  rw [← List.take_add, Nat.add_sub_cancel' later]

theorem parent?_later (later : k ≤ l) (parent : (built (edits.take k)).parent? i = some p) :
    (built (edits.take l)).parent? i = some p := by
  obtain ⟨between, split⟩ := take_eq_append edits later
  rw [parent?_eq_some_iff] at parent ⊢
  rw [split]
  exact parent.built_append between

/-- Once an edit has changed the parent of a node, no later one does. -/
theorem parent?_settled
    (changed : (built (edits.take (k + 1))).parent? i ≠ (built (edits.take k)).parent? i)
    (later : k < l) :
    (built (edits.take l)).parent? i = (built (edits.take (k + 1))).parent? i := by
  cases before : (built (edits.take k)).parent? i with
  | some p =>
    rw [before, parent?_later edits (Nat.le_succ k) before] at changed
    exact absurd rfl changed
  | none =>
    cases after : (built (edits.take (k + 1))).parent? i with
    | none =>
      rw [before, after] at changed
      exact absurd rfl changed
    | some p => exact parent?_later edits later after

end Run

/-- From one moment of a run to any later one, a node stays in its slot and shows the same, with
the same parent if it had one; its description and its leftmost line are what they were. At most
one edit of the run changes the parent of a node. -/
theorem nodes_permanent (edits : List (Session × Edit)) :
    (∀ k l i n, k ≤ l → (built (edits.take k)).nodes[i]? = some n →
      let t := built (edits.take k)
      let u := built (edits.take l)
      (∃ parent, u.nodes[i]? = some { n with parent } ∧
        ∀ p, n.parent = some p → parent = some p) ∧
      u.describeFrom i = t.describeFrom i ∧
      u.leftmostLine i = t.leftmostLine i) ∧
    ∀ i, {k | (built (edits.take (k + 1))).parent? i ≠
      (built (edits.take k)).parent? i}.Subsingleton := by
  constructor
  · intro k l i n later hn t u
    obtain ⟨between, split⟩ := take_eq_append edits later
    have grows : t.Grows u := by
      have grown := grows_built_append (edits.take k) between
      rwa [← split] at grown
    have h : t.Arborescent := .built _
    have h' : u.Arborescent := .built _
    have inside := (Array.getElem?_eq_some_iff.1 hn).1
    have described := h.describeFrom_grows h' grows inside
    obtain ⟨parent, hu⟩ := grows i n hn
    refine ⟨⟨parent, hu, fun p had => ?_⟩, described, ?_⟩
    · have kept : u.parent? i = some p :=
        parent?_later edits later (parent?_eq_some_iff.2 ⟨n, hn, had⟩)
      rwa [parent?, hu] at kept
    · exact h'.leftmostLine_congr (Array.getElem?_eq_some_iff.1 hu).1 h inside
        (congrArg Description.entries described)
  · intro i k changed l changed'
    rcases Nat.lt_trichotomy k l with earlier | same | later
    · have settled := parent?_settled edits changed earlier
      exact absurd ((parent?_settled edits changed (earlier.trans l.lt_succ_self)).trans
        settled.symm) changed'
    · exact same
    · have settled := parent?_settled edits changed' later
      exact absurd ((parent?_settled edits changed' (later.trans k.lt_succ_self)).trans
        settled.symm) changed

theorem nodes_permanent_pair :
    let s : Session := ⟨"in.php", 5⟩
    let edits : List (Session × Edit) := [(s, .token ⟨0, "ID", "x", 1⟩),
      (s, .token ⟨0, "ID", "y", 2⟩), (s, .interior 2 "pair" [1, 0]), (s, .interior 3 "list" [1]),
      (s, .root 2), (s, .interior 1 "expr" [2])]
    (built (edits.take 3)).parent? 2 = none ∧ (built edits).parent? 2 = some 3 ∧
      (built edits).leftmostLine 2 = (built (edits.take 3)).leftmostLine 2 ∧
      (built edits).describeFrom 2 = (built (edits.take 3)).describeFrom 2 ∧
      (built (edits.take 4)).parent? 1 = (built (edits.take 3)).parent? 1 := by
  intro s edits
  obtain ⟨kept, once⟩ := nodes_permanent edits
  obtain ⟨n, hn⟩ : ∃ n, (built (edits.take 3)).nodes[2]? = some n :=
    Option.isSome_iff_exists.1 (by decide +kernel)
  obtain ⟨-, described, line⟩ := kept 3 6 2 n (by decide) hn
  have taken : (built (edits.take 3)).parent? 1 ≠ (built (edits.take 2)).parent? 1 := by
    decide +kernel
  refine ⟨by decide +kernel, by decide +kernel, line, described, ?_⟩
  by_contra again
  have same : 2 = 3 := once 1 taken again
  cases same

end ParseTrace.Tree
