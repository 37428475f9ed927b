import ParseTrace.SymbolTable

/-!
A symbol table together with its productions. A production is only what a tree
builder needs of a rule: its left-hand side and how many entries it consumes.
-/

namespace ParseTrace

structure Production where
  lhs : UInt32
  lhsName : String
  length : Nat
  deriving DecidableEq

namespace Production

def isEpsilon (p : Production) : Bool :=
  p.length == 0

def text (p : Production) : String :=
  s!"{p.lhsName}#{p.lhs.toNat} /{p.length}"

def fewer {α : Type} : List α → Nat → Bool
  | _, 0 => false
  | [], _ + 1 => true
  | _ :: rest, n + 1 => fewer rest n

theorem fewer_iff {α : Type} (xs : List α) (n : Nat) :
    fewer xs n = true ↔ xs.length < n := by
  induction xs generalizing n with
  | nil => cases n <;> simp [fewer]
  | cons x rest ih => cases n <;> simp [fewer, ih]

def overdraws {α : Type} (p : Production) (stack : List α) : Bool :=
  fewer stack p.length

theorem overdraws_iff {α : Type} (p : Production) (stack : List α) :
    p.overdraws stack = true ↔ stack.length < p.length :=
  fewer_iff stack p.length

end Production

structure Grammar where
  table : SymbolTable := {}
  productions : Array Production := #[]
  deriving DecidableEq

namespace Grammar

def register (g : Grammar) (s : Symbol) : Except Failure UInt32 × Grammar :=
  let (result, table) := g.table.register s
  (result, { g with table })

def addRule (g : Grammar) (lhs : String) (length : Nat) : Except Failure Nat × Grammar :=
  match g.table.expect lhs .nonterminal with
  | .error failure => (.error failure, g)
  | .ok s =>
    (.ok g.productions.size,
      { g with productions := g.productions.push ⟨s.index, s.name, length⟩ })

def production (g : Grammar) (rule : Nat) : Except Failure Production :=
  match g.productions[rule]? with
  | some p => .ok p
  | none => .error (.unknownProduction rule)

end Grammar

end ParseTrace
