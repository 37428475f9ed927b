import ParseTrace.Proofs.Arborescence
import ParseTrace.Tree.Description

/-!
Edits that draw on one session. It gives each granted push the next identifier, so the
identifiers of an arena are consecutive in creation order, and all nodes carry its file.
Rebuilding a description is such a sequence of edits.
-/

namespace ParseTrace

section Draws

def drawn (first : UInt64) (count : Nat) : List UInt64 :=
  (List.range count).map fun k => first + .ofNat k

variable {first : UInt64} {count : Nat}

theorem toNat_draw (first : UInt64) (k : Nat) :
    (first + .ofNat k).toNat = (first.toNat + k) % 2 ^ 64 := by
  rw [UInt64.toNat_add, UInt64.toNat_ofNat', Nat.add_mod_mod]

theorem nodup_drawn (few : count ≤ 2 ^ 64) : (drawn first count).Nodup := by
  refine List.nodup_range.map_on fun k below l below' same => ?_
  rw [List.mem_range] at below below'
  have same := congrArg UInt64.toNat ((UInt64.add_right_inj first).1 same)
  rwa [UInt64.toNat_ofNat_of_lt' (Nat.lt_of_lt_of_le below few),
    UInt64.toNat_ofNat_of_lt' (Nat.lt_of_lt_of_le below' few)] at same

theorem pairwise_drawn_iff :
    (drawn first count).Pairwise (· < ·) ↔ first.toNat + count ≤ 2 ^ 64 := by
  rw [drawn, List.pairwise_map]
  constructor
  · intro increasing
    by_contra round
    -- the draw that comes round is zero, and some draw stands before it
    have below : first.toNat < 2 ^ 64 := first.toNat_lt
    have step := List.pairwise_iff_getElem.1 increasing 0 (2 ^ 64 - first.toNat)
      (by rw [List.length_range]; omega) (by rw [List.length_range]; omega) (by omega)
    rw [List.getElem_range, List.getElem_range, UInt64.lt_iff_toNat_lt, toNat_draw first 0,
      toNat_draw, Nat.add_sub_cancel' below.le, Nat.mod_self] at step
    exact Nat.not_lt_zero _ step
  · intro few
    refine List.pairwise_lt_range.imp_of_mem fun {k l} earlier later before => ?_
    rw [List.mem_range] at earlier later
    rw [UInt64.lt_iff_toNat_lt, toNat_draw, toNat_draw, Nat.mod_eq_of_lt (by omega),
      Nat.mod_eq_of_lt (by omega)]
    exact Nat.add_lt_add_left before _

end Draws

namespace Tree

def EditStep (before after : Tree × Session) : Prop :=
  ∃ e, before.1.edit before.2 e = after

/-- The session that an edit leaves serves the next one. -/
abbrev Becomes : Tree × Session → Tree × Session → Prop :=
  Relation.ReflTransGen EditStep

theorem Becomes.keeps {P : Tree → Session → Prop}
    (edit : ∀ t s e, P t s → P (t.edit s e).1 (t.edit s e).2) {before after : Tree × Session}
    (path : Becomes before after) (h : P before.1 before.2) : P after.1 after.2 := by
  induction path with
  | refl => exact h
  | tail _ step ih =>
    obtain ⟨e, rfl⟩ := step
    exact edit _ _ e ih

theorem Arborescent.becomes {t u : Tree} {s s' : Session} (h : t.Arborescent)
    (path : Becomes (t, s) (u, s')) : u.Arborescent := by
  have keeps := path.keeps (P := fun t _ => t.Arborescent) fun _ s e h => h.edit s e
  exact keeps h

/-- The identifiers count on from those that the session was to give first. -/
structure Numbered (first : Session) (t : Tree) (s : Session) : Prop where
  next : s = { first with nextId := first.nextId + .ofNat t.nodes.size }
  node : ∀ {i : Nat} {n : Node}, t.nodes[i]? = some n →
    n.id = first.nextId + .ofNat i ∧ n.fileName = first.fileName

namespace Numbered

variable {t : Tree} {s first : Session}

theorem empty (s : Session) : Numbered s {} s where
  next := by simp
  node := by intro i n hn; simp at hn

theorem advance (h : Numbered first t s) {nodes : Array Node}
    (grown : nodes.size = t.nodes.size + 1) :
    s.advance = { first with nextId := first.nextId + .ofNat nodes.size } := by
  rw [grown, h.next, Session.advance, UInt64.ofNat_add, ← UInt64.add_assoc]
  rfl

theorem pushToken (h : Numbered first t s) (token : Token) :
    Numbered first (t.pushToken s token).2.1 (t.pushToken s token).2.2 where
  next := h.advance (Array.size_push _)
  node := by
    intro i n hn
    simp only [Tree.pushToken, Array.getElem?_push] at hn
    split at hn
    · next new =>
      cases hn
      rw [h.next, new]
      exact ⟨rfl, rfl⟩
    · exact h.node hn

theorem pushInterior (h : Numbered first t s) (symbol : UInt32) (name : String)
    (children : List Nat) :
    Numbered first (t.pushInterior s symbol name children).2.1
      (t.pushInterior s symbol name children).2.2 := by
  rcases t.pushInterior_cases s symbol name children with
    ⟨failure, refused⟩ | ⟨distinct, free, granted⟩
  · rw [refused]
    exact h
  rw [granted]
  refine ⟨h.advance (by rw [Array.size_push, size_adopt]), ?_⟩
  intro i n hn
  rcases adopt_push_cases hn with ⟨rfl, rfl⟩ | ⟨m, parent, hm, rfl⟩
  · rw [interior, h.next]
    exact ⟨rfl, rfl⟩
  · have old := h.node hm
    exact old

theorem setRoot (h : Numbered first t s) (i : Nat) : Numbered first (t.setRoot i).2 s := by
  rcases t.setRoot_cases i with same | ⟨-, changed⟩
  · rw [same]
    exact h
  · rw [changed]
    exact ⟨h.next, h.node⟩

theorem edit (h : Numbered first t s) (e : Edit) :
    Numbered first (t.edit s e).1 (t.edit s e).2 := by
  cases e with
  | token token => exact h.pushToken token
  | interior symbol name children => exact h.pushInterior symbol name children
  | root i => exact h.setRoot i

theorem becomes (h : Numbered first t s) {u : Tree} {s' : Session}
    (path : Becomes (t, s) (u, s')) : Numbered first u s' :=
  path.keeps (P := Numbered first) (fun _ _ e h => h.edit e) h

end Numbered

end Tree

namespace Rebuild

theorem becomes_pushInterior (t : Tree) (s : Session) (symbol : UInt32) (name : String)
    (children : List Nat) :
    Tree.Becomes (t, s) (t.pushInterior s symbol name children).2 :=
  .single ⟨.interior symbol name children, rfl⟩

theorem becomes_settle (t : Tree) (s : Session) (pending : List Pending) (i : Nat) :
    Tree.Becomes (t, s) ((settle t s pending i).2.tree, (settle t s pending i).2.session) := by
  induction pending generalizing t s i with
  | nil => exact .refl
  | cons p outer ih =>
    rw [settle]
    split
    · exact .refl
    · have step := becomes_pushInterior t s p.symbol p.name (i :: p.received).reverse
      split
      · next closed u s' push =>
        rw [push] at step
        exact step.trans (ih u s' closed)
      · next failure u s' push =>
        rw [push] at step
        exact step

theorem becomes_enter (r : Rebuild) (e : Entry) :
    Tree.Becomes (r.tree, r.session) ((r.enter e).2.tree, (r.enter e).2.session) := by
  cases e with
  | token symbol name lexeme line =>
    have leaf : Tree.Becomes (r.tree, r.session)
        (r.tree.pushToken r.session ⟨symbol, name, lexeme, line⟩).2 :=
      .single ⟨.token ⟨symbol, name, lexeme, line⟩, rfl⟩
    exact leaf.trans (becomes_settle _ _ r.pending _)
  | interior symbol name children =>
    cases children with
    | succ n => exact .refl
    | zero =>
      have step := becomes_pushInterior r.tree r.session symbol name []
      rw [enter]
      split
      · next childless u s' push =>
        rw [push] at step
        exact step.trans (becomes_settle u s' r.pending childless)
      · next failure u s' push =>
        rw [push] at step
        exact step

theorem becomes_enterAll (entries : List Entry) (r : Rebuild) :
    Tree.Becomes (r.tree, r.session)
      ((enterAll entries r).2.tree, (enterAll entries r).2.session) := by
  induction entries generalizing r with
  | nil => exact .refl
  | cons e rest ih =>
    rw [enterAll]
    split
    · exact .refl
    · have step := becomes_enter r e
      split
      · next r' entered =>
        rw [entered] at step
        exact step.trans (ih r')
      · next failure r' entered =>
        rw [entered] at step
        exact step

end Rebuild

theorem Description.becomes_rebuild {d : Description} {s : Session} {t : Tree}
    (built : (d.rebuild s).1 = .ok t) : Tree.Becomes ({}, s) (t, (d.rebuild s).2) := by
  have pushes := Rebuild.becomes_enterAll d.entries { session := s }
  revert built
  rw [rebuild]
  split
  · next r entered =>
    rw [entered] at pushes
    intro finished
    unfold Rebuild.finish at finished
    split at finished
    · cases finished
    · cases finished
    · next root closed complete =>
      have last : Tree.EditStep (r.tree, r.session) ((r.tree.setRoot root).2, r.session) :=
        ⟨.root root, rfl⟩
      split at finished
      · next tree marked =>
        obtain rfl := Except.ok.inj finished
        rw [marked] at last
        exact pushes.tail last
      · cases finished
  · rintro ⟨⟩

end ParseTrace
