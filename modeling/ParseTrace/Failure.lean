import ParseTrace.Symbol
import ParseTrace.Json.Fault

/-!
Everything that can go wrong, as causes. Each failure has a category, a stable
diagnostic code, a message and sometimes a hint; all four are read off the cause.
-/

namespace ParseTrace

inductive NodeKind where
  | token
  | interior
  deriving DecidableEq

def NodeKind.name : NodeKind → String
  | .token => "token"
  | .interior => "interior"

inductive Accessor where
  | childAt
  | lexeme
  | line
  deriving DecidableEq

def Accessor.name : Accessor → String
  | .childAt => "child_at"
  | .lexeme => "lexeme"
  | .line => "line"

inductive Decision where
  | shift
  | reduce
  | accept
  deriving DecidableEq

def Decision.name : Decision → String
  | .shift => "shift"
  | .reduce => "reduce"
  | .accept => "accept"

/-- The rules of the grammar of text scripts, in the order in which missing ones are listed. -/
inductive ScriptPart where
  | endOfInput
  | script
  | fileDecl
  | terminal
  | nonterminal
  | rule
  | shift
  | reduce
  | accept
  | ident
  | integer
  | line
  | string
  | inner
  deriving DecidableEq

def ScriptPart.name : ScriptPart → String
  | .endOfInput => "EOI"
  | .script => "script"
  | .fileDecl => "file_decl"
  | .terminal => "terminal"
  | .nonterminal => "nonterminal"
  | .rule => "rule"
  | .shift => "shift"
  | .reduce => "reduce"
  | .accept => "accept"
  | .ident => "ident"
  | .integer => "integer"
  | .line => "line"
  | .string => "string"
  | .inner => "inner"

inductive ScriptFault where
  | expected (first : ScriptPart) (others : List ScriptPart)
  | missing (what : String)
  | outOfRange (digits : String)
  deriving DecidableEq

def alternatives (first : String) : List String → String
  | [] => first
  | [second] => first ++ " or " ++ second
  | others =>
    String.intercalate ", " (first :: others.dropLast) ++ ", or " ++ others.getLastD ""

def ScriptFault.message : ScriptFault → String
  | .expected first others =>
    "expected " ++ alternatives first.name (others.map ScriptPart.name)
  | .missing what => "missing " ++ what
  | .outOfRange digits => s!"integer `{digits}` is out of range"

inductive DescriptionFault where
  | trailing (count : Nat)
  | truncated (name : String) (expected received : Nat)
  | empty
  deriving DecidableEq

def DescriptionFault.message : DescriptionFault → String
  | .trailing count => s!"{count} entries follow the complete tree"
  | .truncated name expected received =>
    s!"node `{name}` expects {expected} children but the description ends after {received}"
  | .empty => "the description is empty"

inductive ReadFault where
  | notFound
  | notDirectory
  | isDirectory
  | notText
  /-- Any other error of the system, with its own text. -/
  | other (message : String)
  deriving DecidableEq

def ReadFault.message : ReadFault → String
  | .notFound => "No such file or directory (os error 2)"
  | .notDirectory => "Not a directory (os error 20)"
  | .isDirectory => "Is a directory (os error 21)"
  | .notText => "stream did not contain valid UTF-8"
  | .other message => message

/-- What the libraries that read structured texts say of a text that they refuse: the text that
their errors display. -/
structure Wording where
  scriptJson : String → String
  scriptYaml : String → String
  descriptionJson : String → String
  deriving Inhabited

inductive Failure where
  | unsupportedOperation (operation : Accessor) (kind : NodeKind) (name : String)
  | childOutOfRange (index len : Nat) (name : String)
  | alreadyAttached (child : UInt64)
  | danglingIndex (index : Nat)
  | stackUnderflow (lhs : String) (needed available : Nat)
  | acceptCount (count : Nat)
  | missingGoto (state : Nat) (symbol : UInt32)
  | builderFinished (event : Decision)
  | duplicateIndex (index : UInt32) (existing : String)
  | duplicateName (name : String) (existing : UInt32)
  | unknownSymbol (name : String)
  | wrongSymbolKind (name : String) (expected : SymbolKind)
  | unknownProduction (rule : Nat)
  | unexpectedToken (location found : String)
  | unexpectedEnd (file : String)
  /-- The span is in bytes of the text's UTF-8 form. -/
  | invalidScript (fault : ScriptFault) (offset length : Nat)
  | missingAccept
  | malformedDescription (fault : DescriptionFault)
  | unsupportedFormat (extension : String)
  | unreadable (fault : ReadFault)
  | invalidJson (fault : Json.Fault) (message : String)
  | invalidYaml (message : String)
  deriving DecidableEq

inductive Category where
  | usage
  | internal
  | grammar
  | source
  | input
  deriving DecidableEq

def Category.name : Category → String
  | .usage => "usage"
  | .internal => "internal"
  | .grammar => "grammar"
  | .source => "syntax"
  | .input => "input"

namespace Failure

def category : Failure → Category
  | .unsupportedOperation .. | .childOutOfRange .. | .alreadyAttached _
  | .danglingIndex _ => .usage
  | .stackUnderflow .. | .acceptCount _ | .missingGoto .. | .builderFinished _ => .internal
  | .duplicateIndex .. | .duplicateName .. | .unknownSymbol _ | .wrongSymbolKind ..
  | .unknownProduction _ => .grammar
  | .unexpectedToken .. | .unexpectedEnd _ => .source
  | .invalidScript .. | .missingAccept | .malformedDescription _ | .unsupportedFormat _
  | .unreadable _ | .invalidJson .. | .invalidYaml _ => .input

def isInternal (f : Failure) : Bool :=
  f.category = .internal

def label : Failure → String
  | .unsupportedOperation .. => "unsupported_operation"
  | .childOutOfRange .. => "child_out_of_range"
  | .alreadyAttached _ => "already_attached"
  | .danglingIndex _ => "dangling_index"
  | .stackUnderflow .. => "stack_underflow"
  | .acceptCount _ => "accept_count"
  | .missingGoto .. => "missing_goto"
  | .builderFinished _ => "finished"
  | .duplicateIndex .. => "duplicate_index"
  | .duplicateName .. => "duplicate_name"
  | .unknownSymbol _ => "unknown_symbol"
  | .wrongSymbolKind .. => "wrong_symbol_kind"
  | .unknownProduction _ => "unknown_production"
  | .unexpectedToken .. => "unexpected_token"
  | .unexpectedEnd _ => "unexpected_eof"
  | .invalidScript .. => "script"
  | .missingAccept => "no_accept"
  | .malformedDescription _ => "description"
  | .unsupportedFormat _ => "format"
  | .unreadable _ => "io"
  | .invalidJson .. => "json"
  | .invalidYaml _ => "yaml"

def code (f : Failure) : String :=
  "lrtree::" ++ f.category.name ++ "::" ++ f.label

def help : Failure → Option String
  | .unsupportedOperation .. => some "check `is_token()` before calling kind-specific accessors"
  | .stackUnderflow .. | .acceptCount _ =>
    some ("the driver and the generated tables disagree; " ++
      "this is a bug in the parser backend, not in the parsed source")
  | .missingGoto .. => some "the parse table is inconsistent with the grammar's productions"
  | .duplicateIndex .. => some "terminals and nonterminals share one numbering space"
  | .missingAccept => some "a complete trace finishes with `accept`"
  | .malformedDescription _ =>
    some ("descriptions list nodes in pre-order; " ++
      "each interior entry is followed by its `children` subtrees")
  | .unsupportedFormat _ => some "use .trace, .json, .yaml or .yml"
  | .childOutOfRange .. | .alreadyAttached _ | .danglingIndex _ | .builderFinished _
  | .duplicateName .. | .unknownSymbol _ | .wrongSymbolKind .. | .unknownProduction _
  | .unexpectedToken .. | .unexpectedEnd _ | .invalidScript .. | .unreadable _
  | .invalidJson .. | .invalidYaml _ => none

def message : Failure → String
  | .unsupportedOperation operation kind name =>
    s!"operation `{operation.name}` is not supported on {kind.name} node `{name}`"
  | .childOutOfRange index len name =>
    s!"child index {index} is out of range for node `{name}` with {len} children"
  | .alreadyAttached child =>
    s!"node #{child.toNat} already has a parent and cannot be attached again"
  | .danglingIndex index => s!"no node with index {index} exists in this tree"
  | .stackUnderflow lhs needed available =>
    s!"reduce by `{lhs}` needs {needed} stack entries but only {available} are available"
  | .acceptCount count =>
    s!"accept expects exactly one entry on the results stack, found {count}"
  | .missingGoto state symbol =>
    s!"parse table has no goto from state {state} on symbol {symbol.toNat}"
  | .builderFinished event => s!"tree builder received `{event.name}` after accept"
  | .duplicateIndex index existing =>
    s!"symbol index {index.toNat} is already registered as `{existing}`"
  | .duplicateName name existing =>
    s!"symbol name `{name}` is already registered with index {existing.toNat}"
  | .unknownSymbol name => s!"unknown symbol `{name}`"
  | .wrongSymbolKind name expected => s!"symbol `{name}` is not a {expected.name}"
  | .unknownProduction rule => s!"unknown production {rule}"
  | .unexpectedToken location found => s!"{location}: syntax error at `{found}`"
  | .unexpectedEnd file => s!"{file}: unexpected end of input"
  | .invalidScript fault _ _ => "invalid trace script: " ++ fault.message
  | .missingAccept => "trace script ended without an `accept` event"
  | .malformedDescription fault => "invalid tree description: " ++ fault.message
  | .unsupportedFormat extension => s!"unsupported script format `{extension}`"
  | .unreadable fault => fault.message
  | .invalidJson _ message | .invalidYaml message => message

end Failure

end ParseTrace
