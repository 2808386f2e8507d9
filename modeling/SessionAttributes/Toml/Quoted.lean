import SessionAttributes.Bytes
import SessionAttributes.Toml.Basic

namespace SessionAttributes.Toml

/-- Characters that may stand for themselves in a comment and, but for the quotes and the backslash,
in strings. -/
def isPlain (c : Char) : Bool := c == '\t' || (0x20 ≤ c.toNat && c.toNat != 0x7F)

def isBlank (c : Char) : Bool := c == ' ' || c == '\t'

def skipBlanks (cs : List Char) : List Char := cs.dropWhile isBlank

def newline : List Char → Option (List Char)
  | '\n' :: rest => some rest
  | '\r' :: '\n' :: rest => some rest
  | _ => none

theorem newline_length {cs rest : List Char} (h : newline cs = some rest) :
    rest.length < cs.length := by
  unfold newline at h
  split at h
  · cases h; simp
  · cases h; simp only [List.length_cons]; omega
  · cases h

def trimNewline (cs : List Char) : List Char := (newline cs).getD cs

def skipLines : List Char → List Char
  | [] => []
  | '\n' :: rest => skipLines rest
  | '\r' :: '\n' :: rest => skipLines rest
  | c :: rest => if isBlank c then skipLines rest else c :: rest

theorem skipLines_length (cs : List Char) : (skipLines cs).length ≤ cs.length := by
  fun_induction skipLines cs <;> grind

theorem skipBlanks_length (cs : List Char) : (skipBlanks cs).length ≤ cs.length :=
  (List.dropWhile_suffix isBlank).length_le

def escapes : List (Char × Char) :=
  [('b', '\x08'), ('t', '\t'), ('n', '\n'), ('f', '\x0c'), ('r', '\r'), ('"', '"'), ('\\', '\\')]

def hexNumber (digits : List Char) : Option Nat :=
  digits.foldlM (fun n c => (Bytes.hexValue c).map (16 * n + ·)) 0

/-- The character of a number of exactly `width` hexadecimal digits. -/
def codePoint (width : Nat) (cs : List Char) : Option (Char × List Char) := do
  guard (width ≤ cs.length)
  let n ← hexNumber (cs.take width)
  guard n.isValidChar
  return (Char.ofNat n, cs.drop width)

/-- What an escape stands for, read after its backslash. -/
def escape : Reader Char
  | [] => none
  | 'u' :: rest => codePoint 4 rest
  | 'U' :: rest => codePoint 8 rest
  | c :: rest => (escapes.lookup c).map fun e => (e, rest)

theorem codePoint_length {width : Nat} {cs rest : List Char} {c : Char}
    (h : codePoint width cs = some (c, rest)) : rest.length ≤ cs.length := by
  unfold codePoint at h
  obtain ⟨_, -, h⟩ := Option.bind_eq_some_iff.mp h
  obtain ⟨_, -, h⟩ := Option.bind_eq_some_iff.mp h
  obtain ⟨_, -, h⟩ := Option.bind_eq_some_iff.mp h
  cases h
  rw [List.length_drop]
  exact Nat.sub_le ..

theorem escape_length {cs rest : List Char} {c : Char} (h : escape cs = some (c, rest)) :
    rest.length < cs.length := by
  unfold escape at h
  split at h
  · cases h
  · exact Nat.lt_succ_of_le (codePoint_length h)
  · exact Nat.lt_succ_of_le (codePoint_length h)
  · obtain ⟨e, _, he⟩ := Option.map_eq_some_iff.1 h
    cases he
    simp

/-- The line break and all blanks and line breaks after it that a backslash at the end of a line
drops, read after the backslash. -/
def lineEscape (cs : List Char) : Option (List Char) :=
  (newline (skipBlanks cs)).map skipLines

theorem lineEscape_length {cs rest : List Char} (h : lineEscape cs = some rest) :
    rest.length < cs.length := by
  obtain ⟨r, hr, rfl⟩ := Option.map_eq_some_iff.1 h
  exact Nat.lt_of_le_of_lt (skipLines_length r)
    (Nat.lt_of_lt_of_le (newline_length hr) (skipBlanks_length cs))

def readBasic (cs : List Char) : Option (List Char × List Char) :=
  match cs with
  | [] => none
  | '"' :: rest => some ([], rest)
  | '\\' :: rest =>
    match h : escape rest with
    | none => none
    | some (c, rest') =>
      have := escape_length h
      (readBasic rest').map fun (s, rest) => (c :: s, rest)
  | c :: rest =>
    if isPlain c then (readBasic rest).map fun (s, rest) => (c :: s, rest) else none
termination_by cs.length

/-- The end of a text in three quotes: the quotes that belong to the text, at most two, and what
follows the closing ones. -/
def tripleEnd (quote : Char) : List Char → Option (List Char × List Char)
  | a :: b :: c :: rest =>
    if a = quote ∧ b = quote ∧ c = quote then
      match rest with
      | d :: e :: rest' =>
        if d = quote ∧ e = quote then some ([quote, quote], rest')
        else if d = quote then some ([quote], e :: rest')
        else some ([], rest)
      | [d] => if d = quote then some ([quote], []) else some ([], rest)
      | [] => some ([], [])
    else none
  | _ => none

def readBasicLines (cs : List Char) : Option (List Char × List Char) :=
  match cs with
  | [] => none
  | '\n' :: rest => (readBasicLines rest).map fun (s, rest) => ('\n' :: s, rest)
  | '\r' :: '\n' :: rest => (readBasicLines rest).map fun (s, rest) => ('\n' :: s, rest)
  | '\\' :: rest =>
    match h : lineEscape rest with
    | some rest' =>
      have := lineEscape_length h
      readBasicLines rest'
    | none =>
      match h : escape rest with
      | none => none
      | some (c, rest') =>
        have := escape_length h
        (readBasicLines rest').map fun (s, rest) => (c :: s, rest)
  | c :: rest =>
    match tripleEnd '"' (c :: rest) with
    | some found => some found
    | none => if isPlain c then (readBasicLines rest).map fun (s, rest) => (c :: s, rest) else none
termination_by cs.length

def readLiteral : List Char → Option (List Char × List Char)
  | [] => none
  | '\'' :: rest => some ([], rest)
  | c :: rest => if isPlain c then (readLiteral rest).map fun (s, rest) => (c :: s, rest) else none

def readLiteralLines : List Char → Option (List Char × List Char)
  | [] => none
  | '\n' :: rest => (readLiteralLines rest).map fun (s, rest) => ('\n' :: s, rest)
  | '\r' :: '\n' :: rest => (readLiteralLines rest).map fun (s, rest) => ('\n' :: s, rest)
  | c :: rest =>
    match tripleEnd '\'' (c :: rest) with
    | some found => some found
    | none =>
      if isPlain c then (readLiteralLines rest).map fun (s, rest) => (c :: s, rest) else none

def readString : Reader String
  | '"' :: '"' :: '"' :: rest =>
    (readBasicLines (trimNewline rest)).map fun (s, rest) => (String.ofList s, rest)
  | '"' :: rest => (readBasic rest).map fun (s, rest) => (String.ofList s, rest)
  | '\'' :: '\'' :: '\'' :: rest =>
    (readLiteralLines (trimNewline rest)).map fun (s, rest) => (String.ofList s, rest)
  | '\'' :: rest => (readLiteral rest).map fun (s, rest) => (String.ofList s, rest)
  | _ => none

end SessionAttributes.Toml
