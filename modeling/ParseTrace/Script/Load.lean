import ParseTrace.Path
import ParseTrace.Script.Item
import ParseTrace.Script.Json
import ParseTrace.Script.Yaml

/-!
Scripts from files. The extension of the path picks the form, but a file that cannot
be read is reported as such, whatever its extension.
-/

namespace ParseTrace.Script

def extensions : List String :=
  ["trace", "json", "yaml", "yml"]

inductive Format where
  | text
  | json
  | yaml
  deriving DecidableEq

def Format.ofExtension? (e : String) : Option Format :=
  if e = "trace" then some .text
  else if e = "json" then some .json
  else if e = "yaml" || e = "yml" then some .yaml
  else none

def parse (words : Wording) : Format → String → Except Failure Script
  | .text, text => ofText text
  | .json, text => ofJson words text
  | .yaml, text => ofYaml words text

def decode (bytes : ByteArray) : Except ReadFault String :=
  match String.fromUTF8? bytes with
  | some text => .ok text
  | none => .error .notText

def load (words : Wording) (path : String) (content : Except ReadFault ByteArray) :
    Except Failure Script :=
  let extension := ((Path.extension? path).getD "").toLower
  match content.bind decode with
  | .error fault => .error (.unreadable fault)
  | .ok text =>
    match Format.ofExtension? extension with
    | some format => parse words format text
    | none => .error (.unsupportedFormat extension)

end ParseTrace.Script
