/-!
Grammar symbols. Terminals and nonterminals are numbered in one space of 32-bit
indices, so an index alone says which symbol a node stands for.
-/

namespace ParseTrace

inductive SymbolKind where
  | terminal
  | nonterminal
  deriving DecidableEq

def SymbolKind.name : SymbolKind → String
  | .terminal => "terminal"
  | .nonterminal => "nonterminal"

structure Symbol where
  index : UInt32
  name : String
  kind : SymbolKind
  deriving DecidableEq

def Symbol.isTerminal (s : Symbol) : Bool :=
  s.kind = .terminal

end ParseTrace
