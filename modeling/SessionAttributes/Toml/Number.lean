import SessionAttributes.Bytes
import SessionAttributes.Toml.Basic

namespace SessionAttributes.Toml

def digit (base : Nat) (c : Char) : Option Nat := (Bytes.hexValue c).filter (· < base)

/-- The digits at the front. An underscore may stand between two of them. -/
def digits (base : Nat) : List Char → List Nat × List Char
  | [] => ([], [])
  | '_' :: c :: rest =>
    match digit base c with
    | none => ([], '_' :: c :: rest)
    | some d =>
      let (ds, rest) := digits base rest
      (d :: ds, rest)
  | c :: rest =>
    match digit base c with
    | none => ([], c :: rest)
    | some d =>
      let (ds, rest) := digits base rest
      (d :: ds, rest)

def digitRun (base : Nat) (cs : List Char) : Option (List Nat × List Char) :=
  match cs with
  | [] => none
  | c :: rest => do
    let d ← digit base c
    let (ds, rest) := digits base rest
    return (d :: ds, rest)

def ofDigits (base : Nat) (ds : List Nat) : Nat := ds.foldl (fun n d => base * n + d) 0

/-- A sign, if there is one, and whether it is a minus. -/
def sign : List Char → Option Bool × List Char
  | '+' :: rest => (some false, rest)
  | '-' :: rest => (some true, rest)
  | cs => (none, cs)

/-- The digits before a point: a single zero, or digits that do not start with zero. -/
def wholeRun : List Char → Option (List Nat × List Char)
  | '0' :: rest => some ([0], rest)
  | cs => digitRun 10 cs

def inRange (n : Int) : Option Int := if least ≤ n ∧ n ≤ greatest then some n else none

/-- An integer in base ten with or without a sign, or in another base after its mark. A number that
goes on in a way its form does not allow is read up to there, and what is left then fits nowhere. -/
def readInteger : Reader Int
  | '0' :: 'x' :: rest => based 16 rest
  | '0' :: 'o' :: rest => based 8 rest
  | '0' :: 'b' :: rest => based 2 rest
  | cs => do
    let (minus, rest) := sign cs
    let (ds, rest) ← wholeRun rest
    let n : Int := ofDigits 10 ds
    return (← inRange (if minus = some true then -n else n), rest)
where
  based (base : Nat) (cs : List Char) : Option (Int × List Char) := do
    let (ds, rest) ← digitRun base cs
    return (← inRange (ofDigits base ds), rest)

def exponent : Reader Int
  | c :: cs =>
    if c = 'e' ∨ c = 'E' then do
      let (minus, rest) := sign cs
      let (ds, rest) ← digitRun 10 rest
      let n : Int := ofDigits 10 ds
      return (if minus = some true then -n else n, rest)
    else none
  | [] => none

def fraction : List Char → Option (List Nat × List Char)
  | '.' :: rest => digitRun 10 rest
  | _ => none

/-- Too large a number is refused; one too far below zero is the negative infinity. -/
def ofParts (negative : Bool) (whole fraction : List Nat) (exponent : Int) : Option Binary64 :=
  let x := Binary64.nearest negative (ofDigits 10 (whole ++ fraction)) (exponent - fraction.length)
  if x.isInfinite && !negative then none else some x

def readDecimal (cs : List Char) : Option (Binary64 × List Char) := do
  let (minus, rest) := sign cs
  let negative := minus = some true
  let (whole, rest) ← wholeRun rest
  match fraction rest with
  | some (ds, rest) =>
    match exponent rest with
    | some (e, rest) => return (← ofParts negative whole ds e, rest)
    | none => return (← ofParts negative whole ds 0, rest)
  | none =>
    let (e, rest) ← exponent rest
    return (← ofParts negative whole [] e, rest)

def readSpecial (cs : List Char) : Option (Binary64 × List Char) :=
  let (minus, rest) := sign cs
  match rest with
  | 'i' :: 'n' :: 'f' :: rest => some (⟨minus = some true, Binary64.infinite⟩, rest)
  | 'n' :: 'a' :: 'n' :: rest => some (⟨minus = some true, Binary64.infinite + 1⟩, rest)
  | _ => none

def readReal : Reader Binary64 := fun cs => (readDecimal cs).or (readSpecial cs)

/-- A number of exactly `width` digits from `low` to `high`. -/
def numberOf (width low high : Nat) (cs : List Char) : Option (Nat × List Char) := do
  guard (width ≤ cs.length)
  let ds ← (cs.take width).mapM (digit 10)
  let n := ofDigits 10 ds
  guard (low ≤ n ∧ n ≤ high)
  return (n, cs.drop width)

def mark (c : Char) : List Char → Option (List Char)
  | d :: rest => if d = c then some rest else none
  | [] => none

def isLeapYear (year : Nat) : Bool := year % 4 == 0 && (year % 100 != 0 || year % 400 == 0)

def daysIn (year month : Nat) : Nat :=
  if month = 2 then if isLeapYear year then 29 else 28
  else if month ∈ [4, 6, 9, 11] then 30
  else 31

def skipDate (cs : List Char) : Option (List Char) := do
  let (year, rest) ← numberOf 4 0 9999 cs
  let (month, rest) ← numberOf 2 1 12 (← mark '-' rest)
  let (_, rest) ← numberOf 2 1 (daysIn year month) (← mark '-' rest)
  return rest

def skipHourAndMinute (cs : List Char) : Option (List Char) := do
  let (_, rest) ← numberOf 2 0 23 cs
  let (_, rest) ← numberOf 2 0 59 (← mark ':' rest)
  return rest

/-- What follows a time of day. Seconds may have a fraction. -/
def skipTime (cs : List Char) : Option (List Char) := do
  let (_, rest) ← numberOf 2 0 60 (← mark ':' (← skipHourAndMinute cs))
  match rest with
  | '.' :: c :: more => if c.isDigit then return more.dropWhile Char.isDigit else return rest
  | _ => return rest

def skipOffset : List Char → Option (List Char)
  | c :: rest =>
    if c = 'Z' ∨ c = 'z' then some rest
    else if c = '+' ∨ c = '-' then skipHourAndMinute rest
    else none
  | [] => none

/-- What follows the time of day that belongs to a date. -/
def skipTimeOfDate : List Char → Option (List Char)
  | c :: rest =>
    if c = 'T' ∨ c = 't' ∨ c = ' ' then do
      let rest ← skipTime rest
      return (skipOffset rest).getD rest
    else none
  | [] => none

def skipMoment (cs : List Char) : Option (List Char) :=
  match skipDate cs with
  | some rest => some ((skipTimeOfDate rest).getD rest)
  | none => skipTime cs

def readMoment : Reader String := fun cs => do
  let rest ← skipMoment cs
  return (String.ofList (cs.take (cs.length - rest.length)), rest)

end SessionAttributes.Toml
