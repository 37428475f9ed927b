import ParseTrace.Datum
import ParseTrace.Json.Token

/-!
Readers of typed values from the tokens of a JSON text. A text is read from its start
on, and the first problem met decides what is reported. Readers of sequences and
mappings are given the number of tokens as a bound on their steps; each step takes a
token at least, so the bound is never reached.
-/

namespace ParseTrace.Json

abbrev Reader (α : Type) := Nat → List Token → Except Fault (α × List Token)

/-- What is wrong with a token that begins no value of the wanted type. A value that
could have been read as another type has to be sound for this to be a mismatch. -/
def Token.refused : Token → Fault
  | .text (.error fault) | .number (.error fault) => fault
  | .text (.ok _) | .number (.ok _) | .null | .bool _ | .openSeq | .openMap => .mismatch
  | .brokenText reading _ | .broken reading _ => reading
  | .closeSeq | .closeMap | .comma | .colon => .malformed

def refuse {α : Type} : List Token → Except Fault (α × List Token)
  | [] => .error .ended
  | t :: _ => .error t.refused

def readText : Reader String
  | _, .text (.ok s) :: rest => .ok (s, rest)
  | _, ts => refuse ts

def readWord {α : Type} (meaning : String → Option α) : Reader α
  | _, .text (.ok s) :: rest =>
    match meaning s with
    | some a => .ok (a, rest)
    | none => .error .mismatch
  | _, ts => refuse ts

def readOptionalText : Reader (Option String)
  | _, .null :: rest => .ok (none, rest)
  | steps, ts => (readText steps ts).map fun (s, rest) => (some s, rest)

def readInteger {α : Type} (meaning : Datum → Option α) : Reader α
  | _, .number (.ok (some n)) :: rest =>
    match meaning (.int n) with
    | some a => .ok (a, rest)
    | none => .error .mismatch
  | _, ts => refuse ts

mutual

/-- Passes over a value inside the open brackets, `true` for those of a mapping. -/
def skipInside (inside : List Bool) : List Token → Except Fault (List Token)
  | [] => .error .ended
  | .openSeq :: .closeSeq :: rest => skipAfter inside rest
  | .openSeq :: rest => skipInside (false :: inside) rest
  | .openMap :: .closeMap :: rest => skipAfter inside rest
  | .openMap :: rest => skipMember inside rest
  | .text _ :: rest | .number _ :: rest | .null :: rest | .bool _ :: rest =>
    skipAfter inside rest
  | .brokenText _ skipping :: _ | .broken _ skipping :: _ => .error skipping
  | _ :: _ => .error .malformed

def skipMember (inside : List Bool) : List Token → Except Fault (List Token)
  | [] => .error .ended
  | [.text _] => .error .ended
  | .text _ :: .colon :: rest => skipInside (true :: inside) rest
  | .brokenText _ skipping :: _ => .error skipping
  | _ :: _ => .error .malformed

def skipAfter : List Bool → List Token → Except Fault (List Token)
  | [], ts => .ok ts
  | _ :: _, [] => .error .ended
  | true :: inside, .comma :: rest => skipMember inside rest
  | false :: inside, .comma :: rest => skipInside (false :: inside) rest
  | true :: inside, .closeMap :: rest => skipAfter inside rest
  | false :: inside, .closeSeq :: rest => skipAfter inside rest
  | _ :: _, _ :: _ => .error .malformed

end

def skipValue : List Token → Except Fault (List Token) :=
  skipInside []

def nextItem (first : Bool) : List Token → Except Fault (Option (List Token))
  | [] => .error .ended
  | .closeSeq :: _ => .ok none
  | .comma :: rest =>
    if first then .ok (some (.comma :: rest))
    else
      match rest with
      | [] => .error .ended
      | .closeSeq :: _ => .error .malformed
      | _ => .ok (some rest)
  | ts => if first then .ok (some ts) else .error .malformed

def endSeq : List Token → Except Fault (List Token)
  | [] => .error .ended
  | .closeSeq :: rest => .ok rest
  | _ :: _ => .error .malformed

def readItems {α : Type} (item : Reader α) (first : Bool) : Reader (List α)
  | 0, _ => .error .ended
  | steps + 1, ts =>
    match nextItem first ts with
    | .error fault => .error fault
    | .ok none => (endSeq ts).map fun rest => ([], rest)
    | .ok (some ts) =>
      match item steps ts with
      | .error fault => .error fault
      | .ok (a, ts) =>
        match readItems item false steps ts with
        | .error fault => .error fault
        | .ok (items, rest) => .ok (a :: items, rest)

def readSeq {α : Type} (item : Reader α) : Reader (List α)
  | steps, .openSeq :: rest => readItems item true steps rest
  | _, ts => refuse ts

def nextKey (first : Bool) : List Token → Except Fault (Option String × List Token)
  | [] => .error .ended
  | .closeMap :: rest => .ok (none, .closeMap :: rest)
  | .comma :: rest => if first then .error .malformed else key rest
  | ts => if first then key ts else .error .malformed
where
  key : List Token → Except Fault (Option String × List Token)
    | [] => .error .ended
    | .text (.ok k) :: rest => .ok (some k, rest)
    | .text (.error fault) :: _ => .error fault
    | .brokenText reading _ :: _ => .error reading
    | _ :: _ => .error .malformed

def afterColon : List Token → Except Fault (List Token)
  | [] => .error .ended
  | .colon :: rest => .ok rest
  | _ :: _ => .error .malformed

def endMap : List Token → Except Fault (List Token)
  | [] => .error .ended
  | .closeMap :: rest => .ok rest
  | _ :: _ => .error .malformed

def readValue {α : Type} (r : Reader α) : Reader α :=
  fun steps ts =>
    match afterColon ts with
    | .error fault => .error fault
    | .ok ts => r steps ts

def skipField {σ : Type} (s : σ) : Reader σ :=
  fun _ ts =>
    match afterColon ts with
    | .error fault => .error fault
    | .ok ts => (skipValue ts).map fun rest => (s, rest)

def readOnce {α : Type} (r : Reader α) (before : Option α) : Reader (Option α) :=
  fun steps ts =>
    match before with
    | some _ => .error .mismatch
    | none => (readValue r steps ts).map fun (a, rest) => (some a, rest)

def readMembers {σ : Type} (member : String → σ → Reader σ) (first : Bool) (s : σ) : Reader σ
  | 0, _ => .error .ended
  | steps + 1, ts =>
    match nextKey first ts with
    | .error fault => .error fault
    | .ok (none, ts) => .ok (s, ts)
    | .ok (some k, ts) =>
      match member k s steps ts with
      | .error fault => .error fault
      | .ok (s, ts) => readMembers member false s steps ts

def readMap {σ α : Type} (member : String → σ → Reader σ) (s : σ)
    (finish : σ → Except Fault α) : Reader α :=
  fun steps ts =>
    match readMembers member true s steps ts with
    | .error fault => .error fault
    | .ok (s, ts) =>
      match finish s with
      | .error fault => .error fault
      | .ok a => (endMap ts).map fun rest => (a, rest)

def readItemOr {α : Type} (missing : Except Fault α) (first : Bool) (r : Reader α) : Reader α :=
  fun steps ts =>
    match nextItem first ts with
    | .error fault => .error fault
    | .ok none => missing.map fun a => (a, ts)
    | .ok (some ts) => r steps ts

def readAny (inner : Option (Reader Datum)) : Reader Datum
  | _, .null :: rest => .ok (.null, rest)
  | _, .bool b :: rest => .ok (.bool b, rest)
  | _, .text (.ok s) :: rest => .ok (.text s, rest)
  | _, .number (.ok (some n)) :: rest => .ok (.int n, rest)
  | _, .number (.ok none) :: rest => .ok (.real, rest)
  | steps, .openSeq :: rest =>
    match inner with
    | none => .error .malformed
    | some item => (readItems item true steps rest).map fun (items, rest) => (.seq items, rest)
  | steps, .openMap :: rest =>
    match inner with
    | none => .error .malformed
    | some item =>
      readMap (fun k fields steps ts =>
          (readValue item steps ts).map fun (d, rest) => ((.text k, d) :: fields, rest))
        [] (fun fields => .ok (.map fields.reverse)) steps rest
  | _, ts => refuse ts

def readDatum : Nat → Reader Datum
  | 0 => readAny none
  | room + 1 => readAny (some (readDatum room))

/-- How many brackets may be open at a time in a text, values passed over aside. -/
def depthLimit : Nat := 127

/-- A value with a tag among its fields: the meaning of the tag and all else. The tag
is judged where it stands, the other fields once they are all read. In a sequence the
tag comes first. -/
def readTagged {κ : Type} (tag : String) (meaning : String → Option κ) (room : Nat) :
    Reader (κ × Datum)
  | steps, .openMap :: rest =>
    readMap (fun k (found, fields) steps ts =>
        if k = tag then
          (readOnce (readWord meaning) found steps ts).map fun (found, rest) =>
            ((found, fields), rest)
        else
          (readValue (readDatum room) steps ts).map fun (d, rest) =>
            ((found, (.text k, d) :: fields), rest))
      (none, []) (fun (found, fields) =>
        match found with
        | some k => .ok (k, .map fields.reverse)
        | none => .error .mismatch) steps rest
  | steps, .openSeq :: rest =>
    match readItemOr (.error .mismatch) true (readWord meaning) steps rest with
    | .error fault => .error fault
    | .ok (k, ts) =>
      (readItems (readDatum room) false steps ts).map fun (items, rest) =>
        ((k, .seq items), rest)
  | _, ts => refuse ts

def readAll {α : Type} (r : Reader α) (text : String) : Except Fault α :=
  let ts := tokens text.toList
  match r (ts.length + 1) ts with
  | .error fault => .error fault
  | .ok (a, []) => .ok a
  | .ok (_, _ :: _) => .error .malformed

end ParseTrace.Json
