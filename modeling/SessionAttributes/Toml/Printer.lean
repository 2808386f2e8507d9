import SessionAttributes.Toml.Quoted

namespace SessionAttributes.Toml

/-- Characters that only an escape can show. -/
def isControl (c : Char) : Bool := !isPlain c && c != '\n'

def longestRun (mark : Char) : Nat → List Char → Nat
  | run, [] => run
  | run, c :: cs =>
    if c = mark then longestRun mark (run + 1) cs else max run (longestRun mark 0 cs)

inductive Form where
  | basic
  | literal
  | basicLines
  | literalLines
deriving DecidableEq, Repr

def Form.isLines : Form → Bool
  | .basic | .literal => false
  | .basicLines | .literalLines => true

def Form.isLiteral : Form → Bool
  | .literal | .literalLines => true
  | .basic | .basicLines => false

def Form.delimiter : Form → List Char
  | .basic => ['"']
  | .literal => ['\'']
  | .basicLines => ['"', '"', '"']
  | .literalLines => ['\'', '\'', '\'']

def form (cs : List Char) : Form :=
  let controls := cs.any isControl
  let breaks := cs.contains '\n'
  let backslashes := cs.contains '\\'
  let doubles := longestRun '"' 0 cs
  let singles := longestRun '\'' 0 cs
  if !controls && !backslashes && doubles == 0 && !breaks then .basic
  else if !controls && singles == 0 && !breaks then .literal
  else if !controls && !backslashes && doubles ≤ 2 then .basicLines
  else if !controls && singles ≤ 2 then .literalLines
  else if breaks then .basicLines
  else .basic

def hex4 (n : Nat) : List Char :=
  [n / 4096, n / 256, n / 16, n].map fun d => (Nat.digitChar (d % 16)).toUpper

/-- A character between double quotes, other than a double quote. -/
def escaped (lines : Bool) (c : Char) : List Char :=
  if c = '\x08' then ['\\', 'b']
  else if c = '\t' then ['\\', 't']
  else if c = '\n' then if lines then [c] else ['\\', 'n']
  else if c = '\x0c' then ['\\', 'f']
  else if c = '\r' then ['\\', 'r']
  else if c = '\\' then ['\\', '\\']
  else if isControl c then '\\' :: 'u' :: hex4 c.toNat
  else [c]

/-- Text between double quotes. Of several lines, up to two double quotes in a row stand for
themselves; `run` of them stand before the text. -/
def escapeBody (lines : Bool) : Nat → List Char → List Char
  | _, [] => []
  | run, c :: cs =>
    if c = '"' then
      if lines ∧ run < 2 then c :: escapeBody lines (run + 1) cs
      else '\\' :: c :: escapeBody lines 0 cs
    else escaped lines c ++ escapeBody lines 0 cs

/-- A string. Of several lines, a line break goes before a text that has one. -/
def writeString (s : String) : String :=
  let cs := s.toList
  let f := form cs
  let start := if f.isLines ∧ cs.contains '\n' then ['\n'] else []
  let body := if f.isLiteral then cs else escapeBody f.isLines 0 cs
  String.ofList (f.delimiter ++ start ++ body ++ f.delimiter)

/-- The lines of a table: its header and its entries, each with its written value. -/
def writeTable (path : List String) (entries : List (String × String)) : String :=
  "[" ++ ".".intercalate path ++ "]\n" ++
    "".intercalate (entries.map fun e => e.1 ++ " = " ++ e.2 ++ "\n")

def writeTables (tables : List String) : String := "\n".intercalate tables

end SessionAttributes.Toml
