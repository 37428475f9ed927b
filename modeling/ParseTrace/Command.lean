import ParseTrace.Check
import ParseTrace.Tree.Graph
import ParseTrace.Tree.Outline
import ParseTrace.Tree.Record

/-!
The command line: what its arguments ask for, and the answer to it.
-/

namespace ParseTrace

inductive OutputFormat where
  | tree
  | json
  | dot
  deriving DecidableEq

def OutputFormat.ofName? (s : String) : Option OutputFormat :=
  if s = "tree" then some .tree
  else if s = "json" then some .json
  else if s = "dot" then some .dot
  else none

def Tree.render (t : Tree) : OutputFormat → String
  | .tree => t.outline
  | .json => t.record
  | .dot => t.graph

inductive ColorMode where
  | auto
  | always
  | never
  deriving DecidableEq

def ColorMode.ofName? (s : String) : Option ColorMode :=
  if s = "auto" then some .auto
  else if s = "always" then some .always
  else if s = "never" then some .never
  else none

inductive Command where
  | build (path : String) (format : OutputFormat) (fileName : Option String)
  | rebuild (path : String) (format : OutputFormat) (fileName : Option String)
  | check (path : String) (color : ColorMode)
  deriving DecidableEq

inductive Request where
  | run (c : Command)
  | version
  | help
  deriving DecidableEq

namespace Request

inductive Verb where
  | build
  | rebuild
  | check
  deriving DecidableEq

def Verb.ofName? (s : String) : Option Verb :=
  if s = "build" then some .build
  else if s = "rebuild" then some .rebuild
  else if s = "check" then some .check
  else none

inductive Setting where
  | logLevel
  | color
  | format
  | fileName
  deriving DecidableEq

def Setting.ofName? (verb : Option Verb) (s : String) : Option Setting :=
  if s = "--log-level" then some .logLevel
  else if s = "--color" then some .color
  else if verb = some .build ∨ verb = some .rebuild then
    if s = "--format" then some .format
    else if s = "--file-name" then some .fileName
    else none
  else none

structure Given where
  logLevel : Option String := none
  color : Option ColorMode := none
  format : Option OutputFormat := none
  fileName : Option String := none
  path : Option String := none

/-- Takes a setting that was not given before and that has such values. -/
def Given.set (g : Given) (s : Setting) (value : String) : Option Given :=
  match s with
  | .logLevel => if g.logLevel.isSome then none else some { g with logLevel := some value }
  | .color =>
    match g.color, ColorMode.ofName? value with
    | none, some color => some { g with color := some color }
    | _, _ => none
  | .format =>
    match g.format, OutputFormat.ofName? value with
    | none, some format => some { g with format := some format }
    | _, _ => none
  | .fileName => if g.fileName.isSome then none else some { g with fileName := some value }

def Given.addPath (g : Given) (path : String) : Option Given :=
  if path = "" ∨ g.path.isSome then none else some { g with path := some path }

def assignment? (arg : String) : Option (String × String) :=
  let cs := arg.toList
  match cs.dropWhile (· != '=') with
  | _ :: value => some (String.ofList (cs.takeWhile (· != '=')), String.ofList value)
  | [] => none

def isOption (arg : String) : Bool :=
  arg.startsWith "-" && arg != "-"

inductive Argument where
  | dashes
  | setting (s : Setting) (value : Option String)
  | version
  | help
  | plain
  | unknown

def Argument.of (verb : Option Verb) (arg : String) : Argument :=
  if arg = "--" then .dashes
  else if !isOption arg then .plain
  else if arg.startsWith "--" then
    match Setting.ofName? verb arg with
    | some s => .setting s none
    | none =>
      if arg = "--help" then .help
      else if arg = "--version" && verb.isNone then .version
      else
        match assignment? arg with
        | some (name, value) =>
          match Setting.ofName? verb name with
          | some s => .setting s (some value)
          | none => .unknown
        | none => .unknown
  else if arg.startsWith "-h" then .help
  else if arg.startsWith "-V" && verb.isNone then .version
  else .unknown

inductive Progress where
  | given (g : Given)
  | help
  | wrong

def ofArguments (verb : Verb) (g : Given) : List String → Progress
  | [] => .given g
  | arg :: rest =>
    match Argument.of (some verb) arg with
    | .dashes =>
      match rest.foldlM Given.addPath g with
      | some g => .given g
      | none => .wrong
    | .help => .help
    | .plain =>
      match g.addPath arg with
      | some g => ofArguments verb g rest
      | none => .wrong
    | .setting s (some value) =>
      match g.set s value with
      | some g => ofArguments verb g rest
      | none => .wrong
    | .setting s none =>
      match rest with
      | [] => .wrong
      | value :: rest =>
        if isOption value then .wrong
        else
          match g.set s value with
          | some g => ofArguments verb g rest
          | none => .wrong
    | .version | .unknown => .wrong

/-- The request of a verb. A colour given after the verb counts before one given ahead. -/
def ofGiven (verb : Verb) (ahead g : Given) : Option Request :=
  let format := g.format.getD .tree
  let color := (g.color.or ahead.color).getD .auto
  match verb, g.path with
  | .build, some path => some (.run (.build path format g.fileName))
  | .rebuild, some path => some (.run (.rebuild path format g.fileName))
  | .check, path => some (.run (.check (path.getD ".") color))
  | _, none => none

/-- The request that the arguments make, given what stood ahead of them; `none` if they
make no sense. -/
def parseFrom (ahead : Given) : List String → Option Request
  | [] => none
  | arg :: rest =>
    match Argument.of none arg with
    | .version => some .version
    | .help => some .help
    | .plain =>
      match Verb.ofName? arg with
      | none => if arg = "help" then some .help else none
      | some verb =>
        match ofArguments verb {} rest with
        | .given g => ofGiven verb ahead g
        | .help => some .help
        | .wrong => none
    | .setting s (some value) =>
      match ahead.set s value with
      | some ahead => parseFrom ahead rest
      | none => none
    | .setting s none =>
      match rest with
      | [] => none
      | value :: rest =>
        if isOption value then none
        else
          match ahead.set s value with
          | some ahead => parseFrom ahead rest
          | none => none
    | .dashes | .unknown => none

def parse (args : List String) : Option Request :=
  parseFrom {} args

end Request

structure Response where
  status : Nat
  printed : String := ""
  failure : Option Failure := none

namespace Command

def path : Command → String
  | .build path .. | .rebuild path .. | .check path _ => path

def built (format : OutputFormat) (result : Except Failure Tree) : Response :=
  match result with
  | .ok t => { status := 0, printed := t.render format }
  | .error failure => { status := 1, failure := some failure }

/-- Without a choice, colours are for a terminal that is not dumb, unless the
environment asks for none. -/
def wantsColours (color : ColorMode) (env : String → Option String) : Bool :=
  match color with
  | .always => true
  | .never => false
  | .auto =>
    match env "TERM" with
    | none => false
    | some terminal => terminal != "dumb" && (env "NO_COLOR").isNone

def execute (words : Wording) (found : Except ReadFault FileTree)
    (env : String → Option String) : Command → Response
  | .build path format fileName =>
    built format do
      let s ← Script.load words path (found.bind FileTree.contents)
      (s.run { fileName := fileName.getD s.fileName }).1
  | .rebuild path format fileName =>
    built format do
      let text ← ((found.bind FileTree.contents).bind Script.decode).mapError .unreadable
      let d ← Description.ofJson words text
      (d.rebuild { fileName := fileName.getD path }).1
  | .check path color =>
    let outcomes := Check.outcomes words path found
    { status := if outcomes.all CheckOutcome.passed then 0 else 1
      printed := Check.report (wantsColours color env) outcomes }

end Command

def usage : String :=
  "Usage: lrtree [--log-level LEVEL] [--color auto|always|never] COMMAND\n\n" ++
    "Commands:\n" ++
    "  build FILE [--format tree|json|dot] [--file-name NAME]\n" ++
    "  rebuild FILE [--format tree|json|dot] [--file-name NAME]\n" ++
    "  check [PATH]\n"

def respond (words : Wording) (find : String → Except ReadFault FileTree)
    (env : String → Option String) (args : List String) : Response :=
  match Request.parse args with
  | none => { status := 2 }
  | some .version => { status := 0, printed := "lrtree 0.1.0\n" }
  | some .help => { status := 0, printed := usage }
  | some (.run c) => c.execute words (find c.path) env

end ParseTrace
