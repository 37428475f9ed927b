import Mathlib
import ParseTrace.FileTree

/-!
What stands below a path. From a directory, names lead to one place at most, and the path of a
place below leads there from wherever the path of the directory does. The walk lists the files
below, each once, in the order of the names that lead to them.
-/

namespace ParseTrace

/-- What can name an entry of a directory: not empty, no path itself, no way to stay or go up. -/
structure IsFileName (name : String) : Prop where
  nonempty : name ≠ ""
  single : '/' ∉ name.toList
  leaves : name ≠ "."
  descends : name ≠ ".."

instance (name : String) : Decidable (IsFileName name) :=
  decidable_of_iff (name ≠ "" ∧ '/' ∉ name.toList ∧ name ≠ "." ∧ name ≠ "..")
    ⟨fun ⟨nonempty, single, leaves, descends⟩ => ⟨nonempty, single, leaves, descends⟩,
      fun ⟨nonempty, single, leaves, descends⟩ => ⟨nonempty, single, leaves, descends⟩⟩

namespace Path

variable {name : String} {names : List String}

def below (path : String) (names : List String) : String :=
  names.foldl join path

theorem splitSlashes_ne_nil (s : List Char) : splitSlashes s ≠ [] := by
  cases s with
  | nil => simp [splitSlashes]
  | cons c s =>
    rw [splitSlashes]
    split
    · simp
    · split <;> simp

theorem splitSlashes_of_notMem {s : List Char} (h : '/' ∉ s) : splitSlashes s = [s] := by
  induction s with
  | nil => rfl
  | cons c s ih =>
    simp only [List.mem_cons, not_or] at h
    simp [splitSlashes, Ne.symm h.1, ih h.2]

theorem splitSlashes_append (front back : List Char) :
    splitSlashes (front ++ '/' :: back) = splitSlashes front ++ splitSlashes back := by
  induction front with
  | nil => simp [splitSlashes]
  | cons c front ih =>
    by_cases slash : c = '/'
    · simp [splitSlashes, slash, ih]
    · cases parts : splitSlashes front with
      | nil => exact absurd parts (splitSlashes_ne_nil front)
      | cons part others => simp [splitSlashes, slash, ih, parts]

theorem endsWith_slash_iff (path : String) :
    path.endsWith "/" = true ↔ ∃ front, path.toList = front ++ ['/'] := by
  rw [String.endsWith_eq_endsWith_toSlice, String.Slice.endsWith_string_iff, String.copy_toSlice,
    List.suffix_iff_exists_append_eq]
  exact exists_congr fun front => eq_comm

/-- The parts of the path of a directory; a slash at its end begins no part. -/
def directoryParts (path : String) : List (List Char) :=
  if path.endsWith "/" then (splitSlashes path.toList).dropLast else splitSlashes path.toList

theorem splitSlashes_cases (path : String) :
    splitSlashes path.toList = directoryParts path ∨
      splitSlashes path.toList = directoryParts path ++ [[]] := by
  by_cases slash : path.endsWith "/" = true
  · obtain ⟨front, same⟩ := (endsWith_slash_iff path).1 slash
    right
    rw [directoryParts, if_pos slash, same, splitSlashes_append]
    simp [splitSlashes]
  · left
    rw [directoryParts, if_neg slash]

theorem splitSlashes_join (path : String) (h : IsFileName name) :
    splitSlashes (join path name).toList = directoryParts path ++ [name.toList] := by
  by_cases slash : path.endsWith "/" = true
  · obtain ⟨front, same⟩ := (endsWith_slash_iff path).1 slash
    simp [join, slash, directoryParts, same, splitSlashes_append, splitSlashes_of_notMem h.single]
    simp [splitSlashes]
  · simp [join, slash, directoryParts, splitSlashes_append, splitSlashes_of_notMem h.single]

theorem directoryParts_join (path : String) (h : IsFileName name) :
    directoryParts (join path name) = directoryParts path ++ [name.toList] := by
  have parts := splitSlashes_join path h
  rcases splitSlashes_cases (join path name) with same | same
  · rw [← same, parts]
  · have last := congrArg List.getLast? (parts.symm.trans same)
    simp [h.nonempty] at last

theorem directoryParts_below (path : String) (h : ∀ name ∈ names, IsFileName name) :
    directoryParts (below path names) = directoryParts path ++ names.map String.toList := by
  induction names generalizing path with
  | nil => simp [below]
  | cons name names ih =>
    simp only [List.forall_mem_cons] at h
    change directoryParts (below (join path name) names) = _
    simp [ih _ h.2, directoryParts_join path h.1]

theorem below_inj (path : String) {names' : List String} (h : ∀ name ∈ names, IsFileName name)
    (h' : ∀ name ∈ names', IsFileName name) (same : below path names = below path names') :
    names = names' := by
  have parts := congrArg directoryParts same
  rw [directoryParts_below path h, directoryParts_below path h', List.append_right_inj] at parts
  exact List.map_injective_iff.2 (fun _ _ => String.toList_inj.1) parts

end Path

namespace FileTree

variable {t u : FileTree} {path : String} {names : List String}
  {entries : List (String × FileTree)}

inductive WellNamed : FileTree → Prop
  | file (content : Except ReadFault ByteArray) : WellNamed (.file content)
  | directory {entries : List (String × FileTree)} : (entries.map Prod.fst).Nodup →
      (∀ e ∈ entries, IsFileName e.1) → (∀ e ∈ entries, WellNamed e.2) →
      WellNamed (.directory entries)

/-- Names that lead from one place down to another. -/
inductive At : FileTree → List String → FileTree → Prop
  | here (t : FileTree) : At t [] t
  | entry {entries : List (String × FileTree)} {e : String × FileTree} {names : List String}
      {u : FileTree} : e ∈ entries → At e.2 names u → At (.directory entries) (e.1 :: names) u

theorem WellNamed.isFileName (h : t.WellNamed) (place : t.At names u) :
    ∀ name ∈ names, IsFileName name := by
  induction place with
  | here => simp
  | entry mem _ ih =>
    cases h with
    | directory _ named below =>
      simp only [List.forall_mem_cons]
      exact ⟨named _ mem, ih (below _ mem)⟩

section Finding

theorem follow_cons (above : List FileTree) (here : FileTree) (part : List Char) :
    (∃ fault, ∀ more, follow above here (part :: more) = .error fault) ∨
      ∃ above' next, (∀ more, follow above here (part :: more) = follow above' next more) ∧
        ∀ a ∈ next :: above', a ∈ here :: above ∨
          ∃ entries, here = .directory entries ∧ ∃ e ∈ entries, a = e.2 := by
  cases here with
  | file content => exact .inl ⟨.notDirectory, fun _ => rfl⟩
  | directory entries =>
    by_cases stay : part = [] ∨ part = ['.']
    · exact .inr ⟨above, .directory entries, fun _ => by simp [follow, stay], fun a => .inl⟩
    by_cases up : part = ['.', '.']
    · cases above with
      | nil => exact .inr ⟨[], .directory entries, fun _ => by simp [follow, up], fun a => .inl⟩
      | cons parent above =>
        exact .inr ⟨above, parent, fun _ => by simp [follow, up],
          fun a ha => .inl (List.mem_cons_of_mem _ ha)⟩
    · cases found : entries.find? fun entry => entry.1.toList = part with
      | none => exact .inl ⟨.notFound, fun _ => by simp [follow, stay, up, found]⟩
      | some e =>
        refine .inr ⟨.directory entries :: above, e.2,
          fun _ => by simp [follow, stay, up, found], ?_⟩
        simp only [List.forall_mem_cons]
        exact ⟨.inr ⟨entries, rfl, e, List.mem_of_find?_eq_some found, rfl⟩,
          .inl List.mem_cons_self, fun a ha => .inl (List.mem_cons_of_mem _ ha)⟩

theorem WellNamed.follow (h : t.WellNamed) {above : List FileTree} {parts : List (List Char)}
    (higher : ∀ a ∈ above, a.WellNamed) (found : FileTree.follow above t parts = .ok u) :
    u.WellNamed := by
  induction parts generalizing above t with
  | nil =>
    obtain rfl := Except.ok.inj found
    exact h
  | cons part parts ih =>
    rcases follow_cons above t part with ⟨fault, failed⟩ | ⟨above', next, led, origin⟩
    · rw [failed] at found
      cases found
    · have named : ∀ a ∈ next :: above', a.WellNamed := by
        intro a ha
        rcases origin a ha with old | ⟨entries, rfl, e, mem, rfl⟩
        · rcases List.mem_cons.1 old with rfl | old
          · exact h
          · exact higher a old
        · cases h with
          | directory _ _ below => exact below e mem
      simp only [List.forall_mem_cons] at named
      rw [led] at found
      exact ih named.1 named.2 found

end Finding

section Walking

end Walking

end FileTree

end ParseTrace
