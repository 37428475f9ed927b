import ParseTrace.Json.Fault

/-!
Strings of JSON: the escapes that a writer uses and all those that a reader
understands. A reader that only passes over a string does not look at what its
escapes stand for, so it accepts halves of surrogate pairs that a reader of its
contents refuses.
-/

namespace ParseTrace.Json

def hexChar (n : Nat) : Char :=
  Nat.digitChar n

def escapedChar (c : Char) : List Char :=
  if c = '"' then ['\\', '"']
  else if c = '\\' then ['\\', '\\']
  else if c = '\x08' then ['\\', 'b']
  else if c = '\x0c' then ['\\', 'f']
  else if c = '\n' then ['\\', 'n']
  else if c = '\r' then ['\\', 'r']
  else if c = '\t' then ['\\', 't']
  else if c.toNat < 0x20 then
    ['\\', 'u', '0', '0', hexChar (c.toNat / 16), hexChar (c.toNat % 16)]
  else [c]

def escaped (s : List Char) : List Char :=
  '"' :: s.flatMap escapedChar ++ ['"']

def unescape? (c : Char) : Option Char :=
  if c = '"' || c = '\\' || c = '/' then some c
  else if c = 'b' then some '\x08'
  else if c = 'f' then some '\x0c'
  else if c = 'n' then some '\n'
  else if c = 'r' then some '\r'
  else if c = 't' then some '\t'
  else none

def hexValue? (c : Char) : Option Nat :=
  if '0' ≤ c ∧ c ≤ '9' then some (c.toNat - '0'.toNat)
  else if 'a' ≤ c ∧ c ≤ 'f' then some (c.toNat - 'a'.toNat + 10)
  else if 'A' ≤ c ∧ c ≤ 'F' then some (c.toNat - 'A'.toNat + 10)
  else none

def isSurrogate (n : Nat) : Bool :=
  0xd800 ≤ n && n < 0xe000

def isHighSurrogate (n : Nat) : Bool :=
  0xd800 ≤ n && n < 0xdc00

def isLowSurrogate (n : Nat) : Bool :=
  0xdc00 ≤ n && n < 0xe000

def pairedChar (high low : Nat) : Char :=
  .ofNat (0x10000 + (high - 0xd800) * 0x400 + (low - 0xdc00))

def nearlyEnded (text : List Char) : Bool :=
  (text.take 4).foldl (fun n c => n + c.utf8Size) 0 < 4

def codeUnit (text : List Char) : Except Fault (Nat × List Char) :=
  match text with
  | a :: b :: c :: d :: rest =>
    match hexValue? a, hexValue? b, hexValue? c, hexValue? d with
    | some a, some b, some c, some d => .ok (((a * 16 + b) * 16 + c) * 16 + d, rest)
    | _, _, _, _ => .error .malformed
  | short => .error (if nearlyEnded short then .ended else .malformed)

theorem length_codeUnit_lt {text rest : List Char} {n : Nat} (h : codeUnit text = .ok (n, rest)) :
    rest.length < text.length := by
  unfold codeUnit at h
  split at h
  · split at h
    · cases h
      simp only [List.length_cons]
      omega
    · cases h
  · cases h

def skipString (text : List Char) : Except Fault (List Char) :=
  match text with
  | [] => .error .ended
  | c :: rest =>
    if c = '"' then .ok rest
    else if c.toNat < 0x20 then .error .malformed
    else if c = '\\' then
      match rest with
      | [] => .error .ended
      | e :: rest =>
        if (unescape? e).isSome then skipString rest
        else if e = 'u' then
          match h : codeUnit rest with
          | .error fault => .error fault
          | .ok (_, rest') =>
            have : rest'.length < rest.length := length_codeUnit_lt h
            skipString rest'
        else .error .malformed
    else skipString rest
termination_by text.length

inductive Quoted where
  | closed (contents : Except Fault (List Char)) (rest : List Char)
  /-- The string has no end, for one who reads it and for one who passes over it. -/
  | broken (reading skipping : Fault)

def Quoted.cons (c : Char) : Quoted → Quoted
  | .closed (.ok s) rest => .closed (.ok (c :: s)) rest
  | other => other

def unreadable (text : List Char) : Quoted :=
  match skipString text with
  | .ok rest => .closed (.error .malformed) rest
  | .error fault => .broken .malformed fault

inductive SecondHalf where
  | paired (c : Char) (rest : List Char)
  | missing
  | broken (fault : Fault)

def secondHalf (high : Nat) (text : List Char) : SecondHalf :=
  match text with
  | [] => .broken .ended
  | c :: rest =>
    if c = '\\' then
      match rest with
      | [] => .broken .ended
      | e :: rest =>
        if e = 'u' then
          match codeUnit rest with
          | .error fault => .broken fault
          | .ok (low, rest) =>
            if isLowSurrogate low then .paired (pairedChar high low) rest else .missing
        else .missing
    else .missing

theorem length_secondHalf_lt {high : Nat} {text rest : List Char} {c : Char}
    (h : secondHalf high text = .paired c rest) : rest.length < text.length := by
  fun_cases secondHalf high text with
  | case1 => simp [secondHalf] at h
  | case2 => simp_all [secondHalf]
  | case3 => simp_all [secondHalf]
  | case4 _ _ _ hu hl =>
    have shorter := length_codeUnit_lt hu
    simp [secondHalf, hu, hl] at h
    rw [← h.2]
    simp only [List.length_cons]
    omega
  | case5 => simp_all [secondHalf]
  | case6 => simp_all [secondHalf]
  | case7 => simp_all [secondHalf]

def readString (text : List Char) : Quoted :=
  match text with
  | [] => .broken .ended .ended
  | c :: rest =>
    if c = '"' then .closed (.ok []) rest
    else if c.toNat < 0x20 then .broken .malformed .malformed
    else if c = '\\' then
      match rest with
      | [] => .broken .ended .ended
      | e :: rest =>
        match unescape? e with
        | some c => (readString rest).cons c
        | none =>
          if e = 'u' then
            match h : codeUnit rest with
            | .error fault => .broken fault fault
            | .ok (n, rest') =>
              have : rest'.length < rest.length := length_codeUnit_lt h
              if isHighSurrogate n then
                match h' : secondHalf n rest' with
                | .broken fault => .broken fault fault
                | .missing => unreadable rest'
                | .paired c rest'' =>
                  have : rest''.length < rest'.length := length_secondHalf_lt h'
                  (readString rest'').cons c
              else if isLowSurrogate n then unreadable rest'
              else (readString rest').cons (.ofNat n)
          else .broken .malformed .malformed
    else (readString rest).cons c
termination_by text.length

theorem length_skipString_le {text rest : List Char} (h : skipString text = .ok rest) :
    rest.length ≤ text.length := by
  fun_induction skipString text with
  | case1 => cases h
  | case2 => cases h; simp only [List.length_cons]; omega
  | case3 => cases h
  | case4 => cases h
  | case5 _ _ _ _ _ ih => have := ih h; simp only [List.length_cons]; omega
  | case6 => cases h
  | case7 _ _ _ _ _ _ _ _ ih => have := ih h; simp only [List.length_cons]; omega
  | case8 => cases h
  | case9 _ _ _ _ _ ih => have := ih h; simp only [List.length_cons]; omega

theorem length_unreadable_le {text rest : List Char} {s : Except Fault (List Char)}
    (h : unreadable text = .closed s rest) : rest.length ≤ text.length := by
  unfold unreadable at h
  split at h
  · next hs =>
    cases h
    exact length_skipString_le hs
  · cases h

theorem Quoted.cons_closed {c : Char} {q : Quoted} {s : Except Fault (List Char)}
    {rest : List Char} (h : q.cons c = .closed s rest) : ∃ s', q = .closed s' rest := by
  unfold Quoted.cons at h
  split at h
  · cases h
    exact ⟨_, rfl⟩
  · exact ⟨_, h⟩

theorem length_readString_le {text rest : List Char} {s : Except Fault (List Char)}
    (h : readString text = .closed s rest) : rest.length ≤ text.length := by
  fun_induction readString text generalizing s with
  | case1 => cases h
  | case2 => cases h; simp only [List.length_cons]; omega
  | case3 => cases h
  | case4 => cases h
  | case5 _ _ _ _ _ _ ih =>
    obtain ⟨s', h'⟩ := Quoted.cons_closed h
    have := ih h'
    simp only [List.length_cons]
    omega
  | case6 => cases h
  | case7 => cases h
  | case8 =>
    have := length_unreadable_le h
    simp only [List.length_cons]
    omega
  | case9 _ _ _ _ _ _ _ _ _ _ _ _ _ ih =>
    obtain ⟨s', h'⟩ := Quoted.cons_closed h
    have := ih h'
    simp only [List.length_cons]
    omega
  | case10 =>
    have := length_unreadable_le h
    simp only [List.length_cons]
    omega
  | case11 _ _ _ _ _ _ _ _ _ _ ih =>
    obtain ⟨s', h'⟩ := Quoted.cons_closed h
    have := ih h'
    simp only [List.length_cons]
    omega
  | case12 => cases h
  | case13 _ _ _ _ _ ih =>
    obtain ⟨s', h'⟩ := Quoted.cons_closed h
    have := ih h'
    simp only [List.length_cons]
    omega

end ParseTrace.Json
