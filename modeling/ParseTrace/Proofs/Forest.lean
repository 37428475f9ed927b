import Mathlib

/-!
Ordered forests and the orders in which their labels are listed. Where every label says
how many trees stand below it, the pre-order list is a prefix code: it fixes the forest,
and no proper prefix of it lists a forest of as many trees. Any list begins with the listing
of so many trees, or it asks for more however far it is read.
-/

namespace ParseTrace

/-- A first tree, given by its root and the forest below it, and the trees beside it. -/
inductive Forest (α : Type) where
  | nil
  | cons (root : α) (below beside : Forest α)

namespace Forest

variable {α β : Type}

def roots : Forest α → List α
  | nil => []
  | cons a _ beside => a :: beside.roots

def preorder : Forest α → List α
  | nil => []
  | cons a below beside => a :: (below.preorder ++ beside.preorder)

def postorder : Forest α → List α
  | nil => []
  | cons a below beside => below.postorder ++ a :: beside.postorder

def append : Forest α → Forest α → Forest α
  | nil, g => g
  | cons a below beside, g => cons a below (beside.append g)

instance : Append (Forest α) := ⟨append⟩

def map (h : α → β) : Forest α → Forest β
  | nil => nil
  | cons a below beside => cons (h a) (below.map h) (beside.map h)

@[simp] theorem nil_append (g : Forest α) : nil ++ g = g := rfl

@[simp] theorem cons_append (a : α) (below beside g : Forest α) :
    cons a below beside ++ g = cons a below (beside ++ g) := rfl

@[simp] theorem append_nil (f : Forest α) : f ++ nil = f := by
  induction f with
  | nil => rfl
  | cons a below beside _ ih => rw [cons_append, ih]

theorem append_assoc (f g h : Forest α) : f ++ g ++ h = f ++ (g ++ h) := by
  induction f with
  | nil => rfl
  | cons a below beside _ ih => simp only [cons_append, ih]

@[simp] theorem roots_append (f g : Forest α) : (f ++ g).roots = f.roots ++ g.roots := by
  induction f with
  | nil => rfl
  | cons a below beside _ ih => simp only [cons_append, roots, ih, List.cons_append]

@[simp] theorem preorder_append (f g : Forest α) :
    (f ++ g).preorder = f.preorder ++ g.preorder := by
  induction f with
  | nil => rfl
  | cons a below beside _ ih =>
    simp only [cons_append, preorder, ih, List.cons_append, List.append_assoc]

@[simp] theorem postorder_append (f g : Forest α) :
    (f ++ g).postorder = f.postorder ++ g.postorder := by
  induction f with
  | nil => rfl
  | cons a below beside _ ih =>
    simp only [cons_append, postorder, ih, List.cons_append, List.append_assoc]

@[simp] theorem map_append (h : α → β) (f g : Forest α) :
    (f ++ g).map h = f.map h ++ g.map h := by
  induction f with
  | nil => rfl
  | cons a below beside _ ih => simp only [cons_append, map, ih]

@[simp] theorem roots_map (h : α → β) (f : Forest α) : (f.map h).roots = f.roots.map h := by
  induction f with
  | nil => rfl
  | cons a below beside _ ih => simp only [map, roots, ih, List.map_cons]

@[simp] theorem preorder_map (h : α → β) (f : Forest α) :
    (f.map h).preorder = f.preorder.map h := by
  induction f with
  | nil => rfl
  | cons a below beside ih ih' =>
    simp only [map, preorder, ih, ih', List.map_cons, List.map_append]

@[simp] theorem postorder_map (h : α → β) (f : Forest α) :
    (f.map h).postorder = f.postorder.map h := by
  induction f with
  | nil => rfl
  | cons a below beside ih ih' =>
    simp only [map, postorder, ih, ih', List.map_append, List.map_cons]

theorem map_map {γ : Type} (k : β → γ) (h : α → β) (f : Forest α) :
    (f.map h).map k = f.map (k ∘ h) := by
  induction f with
  | nil => rfl
  | cons a below beside ih ih' => simp only [map, ih, ih', Function.comp_apply]

theorem eq_of_map_eq {h k : α → β} {f : Forest α} (same : f.map h = f.map k) {a : α}
    (ha : a ∈ f.preorder) : h a = k a := by
  have lists := congrArg preorder same
  rw [preorder_map, preorder_map] at lists
  exact List.map_inj_left.1 lists a ha

theorem eq_map_of_postorder {γ : Type} {f : Forest α} {g : Forest β} {a : α → γ} {b : β → γ}
    {place : α → β} (shape : f.map a = g.map b) (order : g.postorder = f.postorder.map place) :
    g = f.map place := by
  induction f generalizing g with
  | nil =>
    cases g with
    | nil => rfl
    | cons j below' beside' => cases shape
  | cons i below beside ih ih' =>
    cases g with
    | nil => cases shape
    | cons j below' beside' =>
      obtain ⟨-, under, aside⟩ := Forest.cons.inj shape
      have sizes : below'.postorder.length = (below.postorder.map place).length := by
        have counts := congrArg (fun f => f.postorder.length) under
        simpa only [postorder_map, List.length_map] using counts.symm
      simp only [postorder, List.map_append, List.map_cons] at order
      obtain ⟨inner, outer⟩ := List.append_inj order sizes
      obtain ⟨rfl, last⟩ := List.cons.inj outer
      rw [map, ih under inner, ih' aside last]

theorem eq_nil_of_roots {f : Forest α} (h : f.roots = []) : f = nil := by
  cases f with
  | nil => rfl
  | cons a below beside => cases h

theorem eq_cons_of_roots {f : Forest α} {a : α} (h : f.roots = [a]) :
    ∃ below, f = cons a below nil := by
  cases f with
  | nil => cases h
  | cons b below beside =>
    obtain ⟨rfl, hb⟩ := List.cons.inj h
    exact ⟨below, by rw [eq_nil_of_roots hb]⟩

theorem preorder_perm_postorder (f : Forest α) : f.preorder.Perm f.postorder := by
  induction f with
  | nil => exact .refl _
  | cons a below beside ih ih' =>
    exact ((ih.append ih').cons a).trans List.perm_middle.symm

theorem roots_sublist_postorder (f : Forest α) : f.roots.Sublist f.postorder := by
  induction f with
  | nil => exact .refl _
  | cons a below beside _ ih => exact (ih.cons_cons a).trans (List.sublist_append_right _ _)

theorem roots_subset_preorder (f : Forest α) : f.roots ⊆ f.preorder :=
  fun _ h => f.preorder_perm_postorder.mem_iff.2 (f.roots_sublist_postorder.subset h)

theorem exists_append_of_roots {f : Forest α} {xs ys : List α} (h : f.roots = xs ++ ys) :
    ∃ g k, f = g ++ k ∧ g.roots = xs ∧ k.roots = ys := by
  induction xs generalizing f with
  | nil => exact ⟨nil, f, rfl, rfl, h⟩
  | cons x xs ih =>
    cases f with
    | nil => cases h
    | cons a below beside =>
      obtain ⟨rfl, hb⟩ := List.cons.inj h
      obtain ⟨g, k, rfl, hg, hk⟩ := ih hb
      exact ⟨cons a below g, k, rfl, by rw [roots, hg], hk⟩

def ShownByLeaves (show? : α → Option β) : Forest α → Prop
  | nil => True
  | cons a below beside =>
    (below = nil ∨ show? a = none) ∧ below.ShownByLeaves show? ∧ beside.ShownByLeaves show?

theorem filterMap_preorder_eq_postorder {show? : α → Option β} {f : Forest α}
    (h : f.ShownByLeaves show?) :
    f.preorder.filterMap show? = f.postorder.filterMap show? := by
  induction f with
  | nil => rfl
  | cons a below beside ih ih' =>
    obtain ⟨leaf | hidden, hb, hr⟩ := h
    · subst leaf
      simp only [preorder, postorder, List.nil_append, List.filterMap_cons, ih' hr]
    · simp only [preorder, postorder, List.filterMap_append, List.filterMap_cons, hidden,
        ih hb, ih' hr]

def levels (depth : Nat) : Forest α → List (α × Nat)
  | nil => []
  | cons a below beside => (a, depth) :: (below.levels (depth + 1) ++ beside.levels depth)

@[simp] theorem levels_map (h : α → β) (depth : Nat) (f : Forest α) :
    (f.map h).levels depth = (f.levels depth).map fun (a, d) => (h a, d) := by
  induction f generalizing depth with
  | nil => rfl
  | cons a below beside ih ih' =>
    simp only [map, levels, ih, ih', List.map_cons, List.map_append]

@[simp] theorem map_fst_levels (depth : Nat) (f : Forest α) :
    (f.levels depth).map Prod.fst = f.preorder := by
  induction f generalizing depth with
  | nil => rfl
  | cons a below beside ih ih' =>
    simp only [levels, preorder, ih, ih', List.map_cons, List.map_append]

/-- The depths alone tell where a forest ends in a list that goes on less deep. -/
theorem eq_of_levels_append {f g : Forest α} {depth : Nat} {xs ys : List (α × Nat)}
    (hx : ∀ x ∈ xs.head?, x.2 < depth) (hy : ∀ y ∈ ys.head?, y.2 < depth)
    (h : f.levels depth ++ xs = g.levels depth ++ ys) : f = g ∧ xs = ys := by
  induction f generalizing g depth xs ys with
  | nil =>
    cases g with
    | nil => exact ⟨rfl, h⟩
    | cons b below beside =>
      simp only [levels, List.nil_append, List.cons_append] at h
      simp [h] at hx
  | cons a below beside ih ih' =>
    cases g with
    | nil =>
      simp only [levels, List.nil_append, List.cons_append] at h
      simp [← h] at hy
    | cons b below' beside' =>
      simp only [levels, List.cons_append, List.append_assoc, List.cons.injEq, Prod.mk.injEq,
        and_true] at h
      obtain ⟨rfl, lists⟩ := h
      -- what stands beside is less deep than what stands below
      have shallow : ∀ (k : Forest α) (zs : List (α × Nat)), (∀ z ∈ zs.head?, z.2 < depth) →
          ∀ z ∈ (k.levels depth ++ zs).head?, z.2 < depth + 1 := by
        intro k zs hz z head
        cases k with
        | nil => exact Nat.lt_succ_of_lt (hz z head)
        | cons c _ _ =>
          obtain rfl := Option.some.inj head
          exact Nat.lt_succ_self depth
      obtain ⟨rfl, behind⟩ := ih (shallow beside xs hx) (shallow beside' ys hy) lists
      obtain ⟨rfl, rest⟩ := ih' hx hy behind
      exact ⟨rfl, rest⟩

theorem levels_inj {f g : Forest α} {depth : Nat} : f.levels depth = g.levels depth ↔ f = g := by
  refine ⟨fun same => ?_, fun same => same ▸ rfl⟩
  have padded : f.levels depth ++ [] = g.levels depth ++ [] := congrArg (· ++ []) same
  exact (eq_of_levels_append (by simp) (by simp) padded).1

def Counted (arity : α → Nat) : Forest α → Prop
  | nil => True
  | cons a below beside =>
    below.roots.length = arity a ∧ below.Counted arity ∧ beside.Counted arity

variable {arity : α → Nat}

/-- A list begins with the labels of at most one counted forest of each width. -/
theorem eq_of_preorder_append {f g : Forest α} (hf : f.Counted arity) (hg : g.Counted arity)
    (width : f.roots.length = g.roots.length) {xs ys : List α}
    (h : f.preorder ++ xs = g.preorder ++ ys) : f = g ∧ xs = ys := by
  induction f generalizing g xs ys with
  | nil =>
    have : g = nil := eq_nil_of_roots (List.length_eq_zero_iff.1 width.symm)
    subst this
    exact ⟨rfl, h⟩
  | cons a below beside ih ih' =>
    cases g with
    | nil => cases width
    | cons b below' beside' =>
      obtain ⟨count, hb, hr⟩ := hf
      obtain ⟨count', hb', hr'⟩ := hg
      simp only [preorder, List.cons_append, List.append_assoc, List.cons.injEq] at h
      obtain ⟨rfl, lists⟩ := h
      -- equal labels ask for equally many subtrees, which tells where their lists end
      obtain ⟨rfl, behind⟩ := ih hb hb' (count.trans count'.symm) lists
      obtain ⟨rfl, rest⟩ := ih' hr hr' (Nat.succ.inj width) behind
      exact ⟨rfl, rest⟩

theorem length_preorder_of_counted {f : Forest α} (h : f.Counted arity) :
    f.preorder.length = (f.preorder.map arity).sum + f.roots.length := by
  induction f with
  | nil => rfl
  | cons a below beside ih ih' =>
    obtain ⟨count, hb, hr⟩ := h
    simp only [preorder, roots, List.length_cons, List.length_append, List.map_cons,
      List.map_append, List.sum_cons, List.sum_append, ih hb, ih' hr]
    omega

section Prefixes

variable {f g : Forest α} {xs ys : List α} {count : Nat}

@[simp] theorem counted_append : (f ++ g).Counted arity ↔ f.Counted arity ∧ g.Counted arity := by
  induction f with
  | nil => simp [Counted]
  | cons a below beside _ ih => simp only [cons_append, Counted, ih, and_assoc]

def Begins (arity : α → Nat) (count : Nat) (xs : List α) : Prop :=
  ∃ f : Forest α, f.Counted arity ∧ f.roots.length = count ∧ f.preorder <+: xs

/-- However far the list is read, it asks for more trees than it has listed. -/
def Owes (arity : α → Nat) (count : Nat) (xs : List α) : Prop :=
  ∀ read, read <+: xs → read.length < (read.map arity).sum + count

theorem Begins.mono (h : Begins arity count xs) (more : xs <+: ys) : Begins arity count ys := by
  obtain ⟨f, counted, width, listed⟩ := h
  exact ⟨f, counted, width, listed.trans more⟩

theorem Owes.of_prefix (h : Owes arity count ys) (less : xs <+: ys) : Owes arity count xs :=
  fun read begun => h read (begun.trans less)

theorem Owes.append (h : Owes arity count xs) (behind : Owes arity 1 ys) :
    Owes arity count (xs ++ ys) := by
  intro read begun
  have whole := List.prefix_append xs ys
  rcases List.prefix_or_prefix_of_prefix begun whole with within | ⟨more, rfl⟩
  · exact h read within
  · have first := h xs List.prefix_rfl
    have second := behind more ((List.prefix_append_right_inj xs).1 begun)
    simp only [List.length_append, List.map_append, List.sum_append]
    omega

theorem Owes.cons {a : α} (h : Owes arity (arity a + count) xs) :
    Owes arity (count + 1) (a :: xs) := by
  intro read begun
  cases read with
  | nil => simp
  | cons b read =>
    obtain ⟨rfl, behind⟩ := List.cons_prefix_cons.1 begun
    have rest := h read behind
    simp only [List.length_cons, List.map_cons, List.sum_cons]
    omega

theorem Owes.not_begins (h : Owes arity count xs) : ¬ Begins arity count xs := by
  rintro ⟨f, counted, rfl, listed⟩
  exact absurd (length_preorder_of_counted counted) (h f.preorder listed).ne

theorem begins_or_owes (xs : List α) (count : Nat) :
    Begins arity count xs ∨ Owes arity count xs := by
  induction xs generalizing count with
  | nil =>
    cases count with
    | zero => exact .inl ⟨nil, trivial, rfl, List.prefix_rfl⟩
    | succ count =>
      refine .inr fun read begun => ?_
      rw [List.prefix_nil.1 begun]
      simp
  | cons a xs ih =>
    cases count with
    | zero => exact .inl ⟨nil, trivial, rfl, List.nil_prefix⟩
    | succ count =>
      refine (ih (arity a + count)).imp ?_ Owes.cons
      -- the first trees of those that follow are the subtrees of `a`, the others stand beside it
      rintro ⟨f, counted, width, listed⟩
      have split := List.take_append_drop (arity a) f.roots
      obtain ⟨below, beside, rfl, under, aside⟩ := exists_append_of_roots split.symm
      obtain ⟨hb, hr⟩ := counted_append.1 counted
      refine ⟨cons a below beside, ⟨?_, hb, hr⟩, ?_, ?_⟩
      · rw [under, List.length_take, width]
        exact Nat.min_eq_left (Nat.le_add_right _ _)
      · rw [roots, List.length_cons, aside, List.length_drop, width, Nat.add_sub_cancel_left]
      · rwa [preorder, ← preorder_append, List.cons_prefix_cons, eq_self_iff_true, true_and]

theorem not_begins_iff : ¬ Begins arity count xs ↔ Owes arity count xs :=
  ⟨(begins_or_owes xs count).resolve_left, Owes.not_begins⟩

theorem owes_preorder (counted : f.Counted arity) (short : f.roots.length < count) :
    Owes arity count f.preorder := by
  rw [← not_begins_iff]
  rintro ⟨g, counted', rfl, rest, listed⟩
  have split := List.take_append_drop f.roots.length g.roots
  obtain ⟨same, more, rfl, first, others⟩ := exists_append_of_roots split.symm
  have width : f.roots.length = same.roots.length := by
    rw [first, List.length_take, Nat.min_eq_left short.le]
  have lists : f.preorder ++ [] = same.preorder ++ (more.preorder ++ rest) := by
    rw [List.append_nil, ← listed, preorder_append, List.append_assoc]
  obtain ⟨rfl, none⟩ :=
    eq_of_preorder_append counted (counted_append.1 counted').1 width lists
  cases more with
  | nil => simp at short
  | cons a below beside => cases none

theorem begins_below (counted : f.Counted arity) {k : Nat} {a : α}
    (place : f.preorder[k]? = some a) : Begins arity (arity a) (f.preorder.drop (k + 1)) := by
  induction f generalizing k with
  | nil => simp [preorder] at place
  | cons b below beside ih ih' =>
    obtain ⟨count, hb, hr⟩ := counted
    rw [preorder, List.drop_succ_cons] at *
    cases k with
    | zero =>
      obtain rfl := Option.some.inj place
      exact ⟨below, hb, count, List.prefix_append _ _⟩
    | succ k =>
      rw [List.getElem?_cons_succ] at place
      by_cases inside : k < below.preorder.length
      · rw [List.getElem?_append_left inside] at place
        rw [List.drop_append_of_le_length inside]
        exact (ih hb place).mono (List.prefix_append _ _)
      · obtain ⟨l, rfl⟩ := Nat.exists_eq_add_of_le (Nat.le_of_not_lt inside)
        rw [List.getElem?_append_right (Nat.le_add_right _ _), Nat.add_sub_cancel_left] at place
        rw [Nat.add_assoc, List.drop_length_add_append]
        exact ih' hr place

end Prefixes

end Forest

structure OrderedTree (α : Type) where
  root : α
  below : Forest α

def OrderedTree.forest {α : Type} (t : OrderedTree α) : Forest α :=
  .cons t.root t.below .nil

end ParseTrace
