import Mathlib

/-!
Items of a list, each with what stands before it. A list is gone through from its head when
something is looked for, and grows at its end when a history goes on; for both there is what the
one item more brings in. Two lists that correspond item by item are here as well.
-/

namespace ParseTrace

variable {α β : Type} {x : α} {xs : List α}

theorem exists_occurrence_cons_iff {P : List α → α → Prop} :
    (∃ before y after, x :: xs = before ++ y :: after ∧ P before y) ↔
      P [] x ∨ ∃ before y after, xs = before ++ y :: after ∧ P (x :: before) y := by
  constructor
  · rintro ⟨before, y, after, split, holds⟩
    cases before with
    | nil =>
      obtain ⟨rfl, -⟩ := List.cons.inj split
      exact .inl holds
    | cons first before =>
      obtain ⟨rfl, rfl⟩ := List.cons.inj split
      exact .inr ⟨before, y, after, rfl, holds⟩
  · rintro (holds | ⟨before, y, after, rfl, holds⟩)
    · exact ⟨[], x, xs, rfl, holds⟩
    · exact ⟨x :: before, y, after, rfl, holds⟩

theorem exists_occurrence_concat_iff {P : List α → α → Prop} :
    (∃ before y after, xs ++ [x] = before ++ y :: after ∧ P before y) ↔
      (∃ before y after, xs = before ++ y :: after ∧ P before y) ∨ P xs x := by
  constructor
  · rintro ⟨before, y, after, split, holds⟩
    rcases List.eq_nil_or_concat after with rfl | ⟨after, last, rfl⟩
    · obtain ⟨rfl, same⟩ := List.append_inj' split rfl
      obtain rfl := List.singleton_inj.1 same
      exact .inr holds
    · rw [List.concat_eq_append, ← List.cons_append, ← List.append_assoc] at split
      obtain ⟨rfl, -⟩ := List.append_inj' split rfl
      exact .inl ⟨before, y, after, rfl, holds⟩
  · rintro (⟨before, y, after, rfl, holds⟩ | holds)
    · exact ⟨before, y, after ++ [x], by simp, holds⟩
    · exact ⟨xs, x, [], rfl, holds⟩

theorem exists_first_cons_iff {sound fails : α → Prop} :
    (∃ before y after, x :: xs = before ++ y :: after ∧ (∀ z ∈ before, sound z) ∧ fails y) ↔
      fails x ∨ sound x ∧
        ∃ before y after, xs = before ++ y :: after ∧ (∀ z ∈ before, sound z) ∧ fails y := by
  refine exists_occurrence_cons_iff.trans (or_congr (by simp) ?_)
  simp only [List.forall_mem_cons]
  constructor
  · rintro ⟨before, y, after, rfl, ⟨head, tail⟩, failed⟩
    exact ⟨head, before, y, after, rfl, tail, failed⟩
  · rintro ⟨head, before, y, after, rfl, tail, failed⟩
    exact ⟨before, y, after, rfl, ⟨head, tail⟩, failed⟩

theorem exists_of_mem_right {R : α → β → Prop} {ys : List β} (h : List.Forall₂ R xs ys) {y : β}
    (hy : y ∈ ys) : ∃ x ∈ xs, R x y := by
  induction h with
  | nil => cases hy
  | cons made _ ih =>
    rcases List.mem_cons.1 hy with rfl | hy
    · exact ⟨_, List.mem_cons_self, made⟩
    · obtain ⟨x, hx, made⟩ := ih hy
      exact ⟨x, List.mem_cons_of_mem _ hx, made⟩

end ParseTrace
