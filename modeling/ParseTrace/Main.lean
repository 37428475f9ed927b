import ParseTrace.Command

/-!
The program: reads the file or the directory that a command needs, prints the answer
and ends with its status.
-/

namespace ParseTrace

/-- The system's text for an error, with the number of the error. -/
def systemText : IO.Error → String
  | .permissionDenied _ code details | .resourceExhausted _ code details
  | .invalidArgument _ code details | .noFileOrDirectory _ code details
  | .inappropriateType _ code details | .noSuchThing _ code details
  | .otherError code details | .hardwareFault code details | .resourceBusy code details
  | .unsupportedOperation code details => s!"{details} (os error {code})"
  | failure => toString failure

/-- What stands at a path. Below a directory only files and directories count, and what cannot be
looked at counts as a file that cannot be read. A directory that cannot be listed has no entries. -/
partial def readTree (path : String) : IO (Except ReadFault FileTree) := do
  let location := (← IO.currentDir) / path
  if !(← location.pathExists) then
    return .error .notFound
  if ← location.isDir then
    let mut entries := #[]
    for entry in ← (location.readDir <|> pure #[]) do
      let found ← try
          if (← entry.path.symlinkMetadata).type matches .file | .dir then
            readTree (Path.join path entry.fileName)
          else pure (.error .notFound)
        catch failure => pure (.ok (.file (.error (.other (systemText failure)))))
      if let .ok t := found then
        entries := entries.push (entry.fileName, t)
    return .ok (.directory entries.toList)
  try
    return .ok (.file (.ok (← IO.FS.readBinFile location)))
  catch failure =>
    return .ok (.file (.error (.other (systemText failure))))

/-- The readers of this program know of a refused text only that they refuse it. -/
def plainly : Wording where
  scriptJson _ := "not the JSON of a script"
  scriptYaml _ := "not the YAML of a script"
  descriptionJson _ := "not the JSON of a description"

end ParseTrace

open ParseTrace in
def main (args : List String) : IO UInt32 := do
  let found ← match Request.parse args with
    | some (.run c) => readTree c.path
    | _ => pure (.error .notFound)
  let names := ["TERM", "NO_COLOR"]
  let values ← names.mapM fun name => return (name, ← IO.getEnv name)
  let env := fun name => (values.lookup name).join
  let response := respond plainly (fun _ => found) env args
  IO.print response.printed
  match response.failure with
  | some failure => IO.eprintln s!"{failure.code}\n{failure.message}"
  | none => if response.status = 2 then IO.eprint usage
  return .ofNat response.status
