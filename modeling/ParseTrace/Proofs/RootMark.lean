import ParseTrace.Proofs.Calls
import ParseTrace.Proofs.Description

/-!
The mark of the root against the parent links. Marking asks for a detached node, but the
marked node stays free for later pushes: one that lists it gives the root a parent. This is
the only way, and neither a builder nor a rebuilt description goes it.
-/

namespace ParseTrace

namespace Tree

def RootAttached (t : Tree) : Prop :=
  ∃ r p, t.root = some r ∧ t.HasParent r p

variable {t : Tree} {c p : Nat}

theorem hasParent_pushInterior {s : Session} {symbol : UInt32} {name : String}
    {children : List Nat} {q : Nat}
    (granted : (t.pushInterior s symbol name children).1 = .ok q) (c p : Nat) :
    (t.pushInterior s symbol name children).2.1.HasParent c p ↔
      if c ∈ children then p = q else t.HasParent c p := by
  rcases t.pushInterior_cases s symbol name children with
    ⟨failure, refused⟩ | ⟨-, free, pushed⟩
  · rw [refused] at granted
    cases granted
  rw [pushed] at granted ⊢
  obtain rfl := Except.ok.inj granted
  refine (hasParent_push { t with nodes := adopt t.nodes.size children t.nodes }
    (interior s symbol name children) c p).trans ?_
  rw [hasParent_adopt]
  by_cases listed : c ∈ children
  · obtain ⟨n, hn, -⟩ := free c listed
    have inside := (Array.getElem?_eq_some_iff.1 hn).1
    simp [listed, inside, interior]
  · simp [listed, interior]

theorem HasParent.edit (h : t.HasParent c p) (s : Session) (e : Edit) :
    (t.edit s e).1.HasParent c p := by
  cases e with
  | token token => exact (hasParent_push t _ c p).2 (.inl h)
  | root i =>
    rcases t.setRoot_cases i with same | ⟨-, changed⟩
    · rwa [Tree.edit, same]
    · rw [Tree.edit, changed]
      exact h
  | interior symbol name children =>
    rcases t.pushInterior_cases s symbol name children with
      ⟨failure, refused⟩ | ⟨-, free, pushed⟩
    · rwa [Tree.edit, refused]
    · have granted : (t.pushInterior s symbol name children).1 = .ok t.nodes.size := by
        rw [pushed]
      -- what is listed was detached, so it is not `c`
      have unlisted : c ∉ children := by
        intro listed
        obtain ⟨n, hn, parent⟩ := h
        obtain ⟨m, hm, none⟩ := free c listed
        obtain rfl := Option.some.inj (hn.symm.trans hm)
        rw [none] at parent
        cases parent
      rw [Tree.edit, hasParent_pushInterior granted, if_neg unlisted]
      exact h

theorem hasParent_edit_cases {s : Session} {e : Edit} (h : (t.edit s e).1.HasParent c p) :
    t.HasParent c p ∨ ∃ symbol name children, e = .interior symbol name children ∧
      c ∈ children ∧ (t.pushInterior s symbol name children).1 = .ok p := by
  cases e with
  | token token =>
    rcases (hasParent_push t _ c p).1 h with old | ⟨-, none⟩
    · exact .inl old
    · cases none
  | root i =>
    left
    rcases t.setRoot_cases i with same | ⟨-, changed⟩
    · rwa [Tree.edit, same] at h
    · rw [Tree.edit, changed] at h
      exact h
  | interior symbol name children =>
    cases answer : (t.pushInterior s symbol name children).1 with
    | error failure =>
      left
      rcases t.pushInterior_cases s symbol name children with
        ⟨failure, refused⟩ | ⟨-, -, pushed⟩
      · rwa [Tree.edit, refused] at h
      · rw [pushed] at answer
        cases answer
    | ok q =>
      rw [Tree.edit, hasParent_pushInterior answer] at h
      split at h
      · next listed =>
        subst h
        exact .inr ⟨symbol, name, children, rfl, listed, answer⟩
      · exact .inl h

theorem root_edit_cases (t : Tree) (s : Session) (e : Edit) :
    (t.edit s e).1.root = t.root ∨
      ∃ i, (t.edit s e).1.root = some i ∧ ∀ p, ¬ (t.edit s e).1.HasParent i p := by
  cases e with
  | token token => exact .inl rfl
  | interior symbol name children =>
    left
    rcases t.pushInterior_cases s symbol name children with
      ⟨failure, refused⟩ | ⟨-, -, pushed⟩
    · rw [Tree.edit, refused]
    · rw [Tree.edit, pushed]
  | root i =>
    rw [Tree.edit, setRoot]
    split
    · exact .inl rfl
    · next n hn =>
      split
      · exact .inl rfl
      · next free =>
        right
        refine ⟨i, rfl, ?_⟩
        rintro p ⟨m, hm, parent⟩
        obtain rfl := Option.some.inj (hn.symm.trans hm)
        simp [parent] at free

theorem built_concat (edits : List (Session × Edit)) (s : Session) (e : Edit) :
    built (edits ++ [(s, e)]) = ((built edits).edit s e).1 := by
  rw [built, List.foldl_append]
  rfl

theorem HasParent.built_append {before : List (Session × Edit)}
    (h : (built before).HasParent c p) (after : List (Session × Edit)) :
    (built (before ++ after)).HasParent c p := by
  induction after using List.reverseRecOn with
  | nil => rwa [List.append_nil]
  | append_singleton after e ih =>
    rw [← List.append_assoc, built_concat]
    exact ih.edit e.1 e.2

/-- The root of an arena has a parent exactly if a granted push listed the root of its time
and no other node has been marked since. -/
theorem rootAttached_iff (edits : List (Session × Edit)) :
    (built edits).RootAttached ↔
      ∃ before s symbol name children after r p,
        edits = before ++ (s, .interior symbol name children) :: after ∧
        (built before).root = some r ∧ r ∈ children ∧
        ((built before).pushInterior s symbol name children).1 = .ok p ∧
        (built edits).root = some r := by
  constructor
  · rintro ⟨r, p, marked, attached⟩
    induction edits using List.reverseRecOn with
    | nil => cases marked
    | append_singleton edits last ih =>
      obtain ⟨s, e⟩ := last
      have marked' := marked
      rw [built_concat] at marked attached
      rcases (built edits).root_edit_cases s e with kept | ⟨i, marks, free⟩
      · rw [kept] at marked
        rcases hasParent_edit_cases attached with
          old | ⟨symbol, name, children, rfl, listed, granted⟩
        · obtain ⟨before, s', symbol, name, children, after, r', p', rfl, root, listed, granted,
            final⟩ := ih marked old
          obtain rfl := Option.some.inj (marked.symm.trans final)
          exact ⟨before, s', symbol, name, children, after ++ [(s, e)], r, p', by simp, root,
            listed, granted, marked'⟩
        · exact ⟨edits, s, symbol, name, children, [], r, p, rfl, marked, listed, granted,
            marked'⟩
      · -- a node that was just marked has no parent
        obtain rfl := Option.some.inj (marks.symm.trans marked)
        exact absurd attached (free p)
  · rintro ⟨before, s, symbol, name, children, after, r, p, rfl, -, listed, granted, final⟩
    refine ⟨r, p, final, ?_⟩
    have taken : (built (before ++ [(s, .interior symbol name children)])).HasParent r p := by
      rw [built_concat]
      exact (hasParent_pushInterior granted r p).2 (by rw [if_pos listed])
    simpa using taken.built_append after

theorem rootAttached_marked_leaf :
    (built [(⟨"in.php", 0⟩, .token ⟨0, "ID", "x", 1⟩), (⟨"in.php", 1⟩, .root 0),
      (⟨"in.php", 1⟩, .interior 1 "expr" [0])]).RootAttached :=
  ⟨0, 1, rfl, _, rfl, rfl⟩

theorem Stacked.not_rootAttached {f : Forest Nat} {root : Nat} (h : t.Stacked [root] f)
    (marked : t.root = some root) : ¬ t.RootAttached := by
  rintro ⟨r, p, marked', n, hn, parent⟩
  obtain rfl := Option.some.inj (marked.symm.trans marked')
  rw [(h.detached _ n hn).2 List.mem_cons_self] at parent
  cases parent

end Tree

/-- A builder marks its root last. -/
theorem Builder.Reached.not_rootAttached {b b' : Builder} (h : b.Reached) {t : Tree}
    (accepted : b.accept = (.ok t, b')) : ¬ t.RootAttached := by
  obtain ⟨root, f, marked, arena⟩ := h.stacked_of_accept accepted
  exact arena.not_rootAttached marked

theorem Description.not_rootAttached {d : Description} {s : Session} {t : Tree}
    (built : (d.rebuild s).1 = .ok t) : ¬ t.RootAttached := by
  rcases d.rebuild_cases s with ⟨u, root, f, same, marked, arena, -⟩ | ⟨⟨fault, refused⟩, -⟩
  · obtain rfl := Except.ok.inj (built.symm.trans same)
    exact arena.not_rootAttached marked
  · rw [refused] at built
    cases built

end ParseTrace
