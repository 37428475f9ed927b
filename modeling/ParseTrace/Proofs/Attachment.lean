import ParseTrace.Proofs.Arborescence
import ParseTrace.Proofs.Occurrences

/-!
Pushes over a list of children, in any arena. The list is judged as a whole before anything is
written: either its first bad entry is reported and nothing has changed, or one node is added and
the listed nodes get their parent, while all else stays.
-/

namespace ParseTrace.Tree

def Free (t : Tree) (children : List Nat) : Prop :=
  children.Nodup ∧ ∀ i ∈ children, ∃ n, t.nodes[i]? = some n ∧ n.parent = none

inductive ChildFault (t : Tree) (before : List Nat) (i : Nat) : Failure → Prop
  | dangling : t.nodes[i]? = none → ChildFault t before i (.danglingIndex i)
  | attached {n : Node} {p : Nat} : t.nodes[i]? = some n → n.parent = some p →
      ChildFault t before i (.alreadyAttached n.id)
  | repeated {n : Node} : t.nodes[i]? = some n → i ∈ before →
      ChildFault t before i (.alreadyAttached n.id)

variable {t : Tree} {seen before children : List Nat} {i : Nat} {failure : Failure}

theorem ChildFault.congr (h : t.ChildFault before i failure) (same : i ∈ before ↔ i ∈ seen) :
    t.ChildFault seen i failure := by
  cases h with
  | dangling outside => exact .dangling outside
  | attached hn parent => exact .attached hn parent
  | repeated hn listed => exact .repeated hn (same.1 listed)

theorem ChildFault.childFault?_cons (h : t.ChildFault seen i failure) (after : List Nat) :
    t.childFault? seen (i :: after) = some failure := by
  cases h with
  | dangling outside => simp [childFault?, outside]
  | attached hn parent => simp [childFault?, hn, parent]
  | repeated hn listed => simp [childFault?, hn, listed]

theorem childFault?_cases (t : Tree) (seen : List Nat) (i : Nat) :
    (∃ failure, t.ChildFault seen i failure) ∨
      ∀ after, t.childFault? seen (i :: after) = t.childFault? (i :: seen) after := by
  cases hn : t.nodes[i]? with
  | none => exact .inl ⟨_, .dangling hn⟩
  | some n =>
    cases parent : n.parent with
    | some p => exact .inl ⟨_, .attached hn parent⟩
    | none =>
      by_cases listed : i ∈ seen
      · exact .inl ⟨_, .repeated hn listed⟩
      · exact .inr fun after => by simp [childFault?, hn, parent, listed]

theorem childFault?_eq_some_iff : t.childFault? seen children = some failure ↔
    ∃ before i after, children = before ++ i :: after ∧ t.childFault? seen before = none ∧
      t.ChildFault (seen ++ before) i failure := by
  induction children generalizing seen with
  | nil => simp [childFault?]
  | cons j rest ih =>
    rw [exists_occurrence_cons_iff, List.append_nil]
    rcases t.childFault?_cases seen j with ⟨actual, fault⟩ | sound
    · rw [fault.childFault?_cons rest]
      constructor
      · rintro ⟨⟩
        exact .inl ⟨rfl, fault⟩
      · rintro (⟨-, given⟩ | ⟨before, i, after, -, faultless, -⟩)
        · exact (fault.childFault?_cons []).symm.trans (given.childFault?_cons [])
        · rw [fault.childFault?_cons before] at faultless
          cases faultless
    · -- the head has no fault, so the search goes past it and looks for it among the others
      have free : ¬ t.ChildFault seen j failure := fun given => by
        have ended := given.childFault?_cons []
        rw [sound] at ended
        cases ended
      have same (before : List Nat) (i : Nat) : t.ChildFault (j :: seen ++ before) i failure ↔
          t.ChildFault (seen ++ j :: before) i failure :=
        ⟨fun h => h.congr (by simp [or_left_comm]), fun h => h.congr (by simp [or_left_comm])⟩
      simp only [sound, ih, same, free, and_false, false_or]

theorem childFault?_eq_none_iff_free : t.childFault? [] children = none ↔ t.Free children := by
  simp [childFault?_eq_none_iff, Free]

theorem pushInterior_eq_ok_iff {s : Session} {symbol : UInt32} {name : String} :
    (∃ q, (t.pushInterior s symbol name children).1 = .ok q) ↔ t.Free children := by
  rw [← childFault?_eq_none_iff_free, pushInterior]
  cases t.childFault? [] children <;> simp

theorem pushInterior_eq_error_iff {s : Session} {symbol : UInt32} {name : String} :
    (t.pushInterior s symbol name children).1 = .error failure ↔
      ∃ before i after, children = before ++ i :: after ∧ t.Free before ∧
        t.ChildFault before i failure := by
  have first : t.childFault? [] children = some failure ↔ ∃ before i after,
      children = before ++ i :: after ∧ t.Free before ∧ t.ChildFault before i failure := by
    simp only [childFault?_eq_some_iff, childFault?_eq_none_iff_free, List.nil_append]
  rw [← first, pushInterior]
  cases t.childFault? [] children <;> simp

/-- A push is granted exactly if every listed child exists, has no parent, and is not repeated.
Otherwise it reports the first entry for which that fails, and neither the arena nor the session
has changed. A granted push adds one detached node with the children as listed, which becomes
the parent of those and of no others; nothing else of any node and not the root is changed. -/
theorem pushInterior_all_or_nothing (t : Tree) (s : Session) (symbol : UInt32) (name : String)
    (children : List Nat) :
    let pushed := t.pushInterior s symbol name children
    ((∃ q, pushed.1 = .ok q) ↔ t.Free children) ∧
    (∀ failure, pushed.1 = .error failure ↔ ∃ before i after,
      children = before ++ i :: after ∧ t.Free before ∧ t.ChildFault before i failure) ∧
    (∀ failure, pushed.1 = .error failure → pushed.2 = (t, s)) ∧
    ∀ q, pushed.1 = .ok q →
      q = t.nodes.size ∧ pushed.2.1.nodes.size = t.nodes.size + 1 ∧
      pushed.2.1.nodes[q]? =
        some ⟨s.nextId, symbol, name, s.fileName, none, .interior children⟩ ∧
      (∀ i n, t.nodes[i]? = some n →
        pushed.2.1.nodes[i]? = some (if i ∈ children then { n with parent := some q } else n)) ∧
      pushed.2.1.root = t.root ∧ pushed.2.2 = s.advance := by
  intro pushed
  refine ⟨pushInterior_eq_ok_iff, fun failure => pushInterior_eq_error_iff, ?_, ?_⟩
  · intro failure refused
    rcases t.pushInterior_cases s symbol name children with ⟨_, same⟩ | ⟨-, -, granted⟩
    · exact congrArg Prod.snd same
    · rw [show pushed = _ from granted] at refused
      cases refused
  · intro q granted
    rcases t.pushInterior_cases s symbol name children with ⟨_, refused⟩ | ⟨-, -, grown⟩
    · rw [show pushed = _ from refused] at granted
      cases granted
    · rw [show pushed = _ from grown] at granted ⊢
      obtain rfl := Except.ok.inj granted
      refine ⟨rfl, by rw [Array.size_push, size_adopt], ?_, fun i n hn => ?_, rfl, rfl⟩
      · rw [Array.getElem?_push, size_adopt, if_pos rfl]
        rfl
      · have inside : i ≠ t.nodes.size := Nat.ne_of_lt (Array.getElem?_eq_some_iff.1 hn).1
        rw [Array.getElem?_push, size_adopt, if_neg inside, getElem?_adopt, hn]
        rfl

theorem pushInterior_all_or_nothing_mixed :
    let s : Session := ⟨"in.php", 9⟩
    let t := built [(⟨"in.php", 5⟩, .token ⟨0, "ID", "x", 1⟩), (s, .token ⟨0, "ID", "y", 1⟩),
      (s, .interior 1 "expr" [0])]
    t.pushInterior s 2 "list" [1, 0, 7, 1] = (.error (.alreadyAttached 5), t, s) ∧
    (t.pushInterior s 2 "list" [2, 1]).2.1.nodes[1]?.map Node.parent = some (some 3) := by
  intro s t
  obtain ⟨-, refused, unchanged, -⟩ := pushInterior_all_or_nothing t s 2 "list" [1, 0, 7, 1]
  obtain ⟨accepted, -, -, granted⟩ := pushInterior_all_or_nothing t s 2 "list" [2, 1]
  have free : t.Free [1] := ⟨by decide, by simpa using ⟨_, rfl, rfl⟩⟩
  have attached : t.ChildFault [1] 0 (.alreadyAttached 5) :=
    ChildFault.attached (n := ⟨5, 0, "ID", "in.php", some 2, .token "x" 1⟩) (p := 2) rfl rfl
  have fault := (refused (.alreadyAttached 5)).2 ⟨[1], 0, [7, 1], rfl, free, attached⟩
  refine ⟨Prod.ext fault (unchanged _ fault), ?_⟩
  obtain ⟨q, done⟩ := accepted.2 ⟨by decide, by simpa using ⟨⟨_, rfl, rfl⟩, ⟨_, rfl, rfl⟩⟩⟩
  obtain ⟨rfl, -, -, others, -⟩ := granted q done
  rw [others 1 _ rfl]
  rfl

end ParseTrace.Tree
