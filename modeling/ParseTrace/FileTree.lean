import ParseTrace.Failure
import ParseTrace.Path

/-!
What stands at a path: a file or a directory, and the way along a path from one to
another. A walk meets every file once, depth first, the entries of a directory in the
order of their names.
-/

namespace ParseTrace

/-- A file that cannot be read has the error in place of its bytes. -/
inductive FileTree where
  | file (content : Except ReadFault ByteArray)
  | directory (entries : List (String × FileTree))

namespace FileTree

def contents : FileTree → Except ReadFault ByteArray
  | .file content => content
  | .directory _ => .error .isDirectory

/-- Goes on along the parts of a path; `above` are the directories passed, nearest
first. -/
def follow (above : List FileTree) (here : FileTree) :
    List (List Char) → Except ReadFault FileTree
  | [] => .ok here
  | part :: rest =>
    match here with
    | .file _ => .error .notDirectory
    | .directory entries =>
      if part = [] ∨ part = ['.'] then follow above here rest
      else if part = ['.', '.'] then
        match above with
        | [] => follow [] here rest
        | parent :: above => follow above parent rest
      else
        match entries.find? fun entry => entry.1.toList = part with
        | some (_, next) => follow (here :: above) next rest
        | none => .error .notFound

def find (t : FileTree) (path : String) : Except ReadFault FileTree :=
  follow [] t (Path.splitSlashes path.toList)

mutual

def walk (path : String) : FileTree → List (String × Except ReadFault ByteArray)
  | .file content => [(path, content)]
  | .directory entries =>
    ((walkEntries path entries).mergeSort fun a b => decide (a.1 ≤ b.1)).flatMap Prod.snd

def walkEntries (path : String) :
    List (String × FileTree) → List (String × List (String × Except ReadFault ByteArray))
  | [] => []
  | (name, t) :: rest => (name, walk (Path.join path name) t) :: walkEntries path rest

end

end FileTree

end ParseTrace
