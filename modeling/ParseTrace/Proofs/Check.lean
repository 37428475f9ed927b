import ParseTrace.Command
import ParseTrace.Proofs.FileTree
import ParseTrace.Proofs.Script.Failures

/-!
The verdicts of a check. No script sees which identifiers the scripts before it have used up, so
a check says of each what a build of it alone says; and since a check takes the scripts by the
extensions that loading knows, it never asks for an unknown form.
-/

namespace ParseTrace

namespace Check

section Names

end Names

variable {words : Wording}

def verdict (words : Wording) (path : String) (content : Except ReadFault ByteArray) :
    Except Failure Nat :=
  match Script.load words path content with
  | .error failure => .error failure
  | .ok script => (script.run { fileName := script.fileName }).1.map fun t => t.nodes.size

structure Listed (found : Except ReadFault FileTree) (path : String)
    (scripts : List (List String × Except ReadFault ByteArray)) : Prop where
  ordered : scripts.Pairwise fun a b => a.1 < b.1
  mem_iff : ∀ s, s ∈ scripts ↔ (∃ there, found = .ok there ∧ there.At s.1 (.file s.2)) ∧
    ∃ extension, Path.extension? (Path.below path s.1) = some extension ∧
      extension.toLower ∈ ["trace", "json", "yaml", "yml"]

section Listed

variable {found : Except ReadFault FileTree} {path : String}
  {scripts scripts' : List (List String × Except ReadFault ByteArray)}

theorem Listed.eq (h : Listed found path scripts) (h' : Listed found path scripts') :
    scripts = scripts' := by
  have distinct {l : List (List String × Except ReadFault ByteArray)}
      (ordered : l.Pairwise fun a b => a.1 < b.1) : l.Nodup := by
    refine ordered.imp ?_
    rintro a _ before rfl
    exact lt_irrefl _ before
  have perm : scripts.Perm scripts' := by
    rw [List.perm_ext_iff_of_nodup (distinct h.ordered) (distinct h'.ordered)]
    intro s
    rw [h.mem_iff, h'.mem_iff]
  exact perm.eq_of_pairwise (fun _ _ _ _ before after => (lt_asymm before after).elim) h.ordered
    h'.ordered

theorem Listed.nodup (named : ∀ t, found = .ok t → t.WellNamed) (h : Listed found path scripts) :
    (scripts.map fun s => Path.below path s.1).Nodup := by
  have names : ∀ s ∈ scripts, ∀ name ∈ s.1, IsFileName name := by
    intro s hs
    obtain ⟨⟨there, rfl, place⟩, -⟩ := (h.mem_iff s).1 hs
    exact (named there rfl).isFileName place
  rw [List.Nodup, List.pairwise_map]
  refine h.ordered.imp_of_mem fun {a b} ha hb before same => ?_
  have equal := Path.below_inj path (names a ha) (names b hb) same
  exact lt_irrefl _ (equal ▸ before)

end Listed

end Check

section Requests

variable {words : Wording} {find : String → Except ReadFault FileTree}
  {env : String → Option String} {args : List String} {path : String}

end Requests

end ParseTrace
