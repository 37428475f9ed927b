import ParseTrace.Failure

/-!
All symbols of one grammar, found by index and by name. A registration that would
give an index or a name a second meaning is refused and changes nothing.
-/

namespace ParseTrace

/-- Symbols in ascending order of their indices, and the index that each name stands for. -/
structure SymbolTable where
  symbols : List Symbol := []
  numbers : List (String × UInt32) := []
  deriving DecidableEq

namespace SymbolTable

def get? (t : SymbolTable) (index : UInt32) : Option Symbol :=
  t.symbols.find? fun s => s.index == index

def lookup? (t : SymbolTable) (name : String) : Option Symbol :=
  (t.numbers.lookup name).bind t.get?

def place (s : Symbol) : List Symbol → List Symbol
  | [] => [s]
  | r :: rest => if s.index < r.index then s :: r :: rest else r :: place s rest

def insert (t : SymbolTable) (s : Symbol) : SymbolTable :=
  ⟨place s t.symbols, (s.name, s.index) :: t.numbers⟩

/-- The index is looked at first, so a symbol that clashes twice reports its index. -/
def register (t : SymbolTable) (s : Symbol) : Except Failure UInt32 × SymbolTable :=
  match t.get? s.index with
  | some holder => (.error (.duplicateIndex s.index holder.name), t)
  | none =>
    match t.numbers.lookup s.name with
    | some existing => (.error (.duplicateName s.name existing), t)
    | none => (.ok s.index, t.insert s)

def terminal (t : SymbolTable) (index : UInt32) (name : String) :
    Except Failure UInt32 × SymbolTable :=
  t.register ⟨index, name, .terminal⟩

def nonterminal (t : SymbolTable) (index : UInt32) (name : String) :
    Except Failure UInt32 × SymbolTable :=
  t.register ⟨index, name, .nonterminal⟩

def expect (t : SymbolTable) (name : String) (kind : SymbolKind) : Except Failure Symbol :=
  match t.lookup? name with
  | none => .error (.unknownSymbol name)
  | some s => if s.kind = kind then .ok s else .error (.wrongSymbolKind name kind)

def terminals (t : SymbolTable) : List Symbol :=
  t.symbols.filter Symbol.isTerminal

def nonterminals (t : SymbolTable) : List Symbol :=
  t.symbols.filter fun s => !s.isTerminal

def countsFrom : Nat → List Symbol → Bool
  | _, [] => true
  | n, s :: rest => s.index.toNat == n && countsFrom (n + 1) rest

def isDense (t : SymbolTable) : Bool :=
  countsFrom 0 t.symbols

end SymbolTable

end ParseTrace
