import SessionAttributes.Bytes
import SessionAttributes.Json.Basic
import SessionAttributes.Json.Fault

namespace SessionAttributes.Json

/-- The scanner takes one byte at a time. A text that breaks off or breaks a rule inside a token
ends in a broken token, so that the reader meets faults in the order of the text. -/
inductive Token where
  | openArray
  | closeArray
  | openObject
  | closeObject
  | comma
  | colon
  | null
  | bool (b : Bool)
  | number (n : Number)
  | text (s : String)
  | broken (inText : Bool) (fault : Fault)

/-- How many bytes of the text were read when the first byte of a token had been seen, and when the
token was done. -/
structure Span where
  seen : Nat
  done : Nat

/-- A decimal number as far as it was read: `significand * 10 ^ exponent`. -/
structure Draft where
  negative : Bool
  significand : Nat
  exponent : Int

namespace Draft

def limit : Nat := 0xFFFFFFFFFFFFFFFF

def keeps (d : Draft) (digit : Nat) : Bool := d.significand * 10 + digit ≤ limit

def fraction (d : Draft) (digit : Nat) : Draft :=
  { d with significand := d.significand * 10 + digit, exponent := d.exponent - 1 }

def number (d : Draft) : Except Fault Number :=
  match Binary64.ofDecimal d.negative d.significand d.exponent with
  | some x => .ok (.real x)
  | none => .error .numberOutOfRange

end Draft

/-- A whole number of at most 64 bits. A minus before zero, or before more than `2 ^ 63`, makes it a
double precision number. -/
def Number.ofWhole (negative : Bool) (n : Nat) : Number :=
  if negative then
    if n = 0 ∨ 0x8000000000000000 < n then .real ⟨true, Binary64.ofRatio n 1⟩
    else .negSucc (n - 1)
  else .ofNat n

inductive NumberScan where
  | sign
  | zero (negative : Bool)
  | whole (negative : Bool) (n : Nat)
  /-- Further digits of a whole number whose significand is full. -/
  | long (d : Draft)
  | point (d : Draft)
  | fraction (d : Draft)
  /-- Further digits of a fraction whose significand is full. -/
  | dropped (d : Draft)
  | mark (d : Draft)
  | signed (d : Draft) (down : Bool)
  | power (d : Draft) (down : Bool) (e : Nat)
  /-- An exponent past counting of a number that is zero whatever follows. -/
  | vanished (negative : Bool)

def digit? (b : UInt8) : Option Nat :=
  if 0x30 ≤ b ∧ b ≤ 0x39 then some (b.toNat - 0x30) else none

def isPoint (b : UInt8) : Bool := b == 0x2E

def isExponentMark (b : UInt8) : Bool := b == 0x65 || b == 0x45

namespace NumberScan

def largestPower : Nat := 0x7FFFFFFF

def addFraction (d : Draft) (digit : Nat) : NumberScan :=
  if d.keeps digit then .fraction (d.fraction digit) else .dropped d

def addPower (d : Draft) (down : Bool) (e digit : Nat) : Except Fault NumberScan :=
  if e * 10 + digit ≤ largestPower then .ok (.power d down (e * 10 + digit))
  else if d.significand ≠ 0 ∧ !down then .error .numberOutOfRange
  else .ok (.vanished d.negative)

def advance (scan : NumberScan) (b : UInt8) : Option (Except Fault NumberScan) :=
  match scan, digit? b with
  | .sign, some d => some (.ok (if d = 0 then .zero true else .whole true d))
  | .zero _, some _ => some (.error .invalidNumber)
  | .whole negative n, some d =>
    let draft : Draft := ⟨negative, n, 0⟩
    some (.ok (if draft.keeps d then .whole negative (n * 10 + d)
      else .long { draft with exponent := 1 }))
  | .long draft, some _ => some (.ok (.long { draft with exponent := draft.exponent + 1 }))
  | .point draft, some d => some (.ok (addFraction draft d))
  | .fraction draft, some d => some (.ok (addFraction draft d))
  | .dropped draft, some _ => some (.ok (.dropped draft))
  | .mark draft, some d => some (.ok (.power draft false d))
  | .signed draft down, some d => some (.ok (.power draft down d))
  | .power draft down e, some d => some (addPower draft down e d)
  | .vanished negative, some _ => some (.ok (.vanished negative))
  | .zero negative, none =>
    if isPoint b then some (.ok (.point ⟨negative, 0, 0⟩))
    else if isExponentMark b then some (.ok (.mark ⟨negative, 0, 0⟩)) else none
  | .whole negative n, none =>
    if isPoint b then some (.ok (.point ⟨negative, n, 0⟩))
    else if isExponentMark b then some (.ok (.mark ⟨negative, n, 0⟩)) else none
  | .long draft, none =>
    if isPoint b then some (.ok (.point draft))
    else if isExponentMark b then some (.ok (.mark draft)) else none
  | .fraction draft, none | .dropped draft, none =>
    if isExponentMark b then some (.ok (.mark draft)) else none
  | .mark draft, none =>
    if b = 0x2B then some (.ok (.signed draft false))
    else if b = 0x2D then some (.ok (.signed draft true)) else none
  | .sign, none | .point _, none | .signed _ _, none | .power _ _ _, none | .vanished _, none =>
    none

def finish (fault : Fault) : NumberScan → Except Fault Number
  | .sign | .point _ | .mark _ | .signed _ _ => .error fault
  | .zero negative => .ok (Number.ofWhole negative 0)
  | .whole negative n => .ok (Number.ofWhole negative n)
  | .long d | .fraction d | .dropped d => d.number
  | .power d down e =>
    Draft.number { d with exponent := if down then d.exponent - e else d.exponent + e }
  | .vanished negative => .ok (.real ⟨negative, 0⟩)

end NumberScan

/-- Where in the text the scanner stands. The bytes of a string are kept in reverse. -/
inductive Scan where
  | between
  | word (rest : Bytes) (token : Token)
  | number (scan : NumberScan)
  | string (done : Bytes)
  | escape (done : Bytes)
  /-- Inside the four digits of an escaped code unit, which may follow a leading surrogate. -/
  | codeUnit (done : Bytes) (lead : Option Nat) (count : Nat) (value : Option Nat)
  /-- A trailing surrogate must follow. -/
  | pair (done : Bytes) (lead : Nat)
  | pairMark (done : Bytes) (lead : Nat)

namespace Scan

/-- Tokens that are complete, and where the scanner goes on. Nothing follows a broken token. -/
abbrev Result := List Token × Option Scan

def fail (inText : Bool) (fault : Fault) : Result := ([.broken inText fault], none)

def proceed (scan : Scan) : Result := ([], some scan)

def emit (token : Token) : Result := ([token], some .between)

def isBlank (b : UInt8) : Bool := b == 0x20 || b == 0x0A || b == 0x09 || b == 0x0D

def start (b : UInt8) : Result :=
  if isBlank b then proceed .between
  else if b = 0x5B then emit .openArray
  else if b = 0x5D then emit .closeArray
  else if b = 0x7B then emit .openObject
  else if b = 0x7D then emit .closeObject
  else if b = 0x2C then emit .comma
  else if b = 0x3A then emit .colon
  else if b = 0x22 then proceed (.string [])
  else if b = 0x6E then proceed (.word [0x75, 0x6C, 0x6C] .null)
  else if b = 0x74 then proceed (.word [0x72, 0x75, 0x65] (.bool true))
  else if b = 0x66 then proceed (.word [0x61, 0x6C, 0x73, 0x65] (.bool false))
  else if b = 0x2D then proceed (.number .sign)
  else if b = 0x30 then proceed (.number (.zero false))
  else match digit? b with
    | some d => proceed (.number (.whole false d))
    | none => fail false .expectedValue

def numberToken (fault : Fault) (scan : NumberScan) : Token :=
  match scan.finish fault with
  | .ok n => .number n
  | .error e => .broken false e

def closeString (done : Bytes) : Result :=
  match Bytes.toText? done.reverse with
  | some s => emit (.text s)
  | none => fail true .invalidCodePoint

def escaped? (b : UInt8) : Option UInt8 :=
  if b = 0x22 ∨ b = 0x5C ∨ b = 0x2F then some b
  else if b = 0x62 then some 0x08
  else if b = 0x66 then some 0x0C
  else if b = 0x6E then some 0x0A
  else if b = 0x72 then some 0x0D
  else if b = 0x74 then some 0x09
  else none

def hexDigit? (b : UInt8) : Option Nat :=
  match digit? b with
  | some d => some d
  | none =>
    if 0x61 ≤ b ∧ b ≤ 0x66 then some (b.toNat - 0x57)
    else if 0x41 ≤ b ∧ b ≤ 0x46 then some (b.toNat - 0x37)
    else none

def addHex (value : Option Nat) (b : UInt8) : Option Nat := do
  let v ← value
  let d ← hexDigit? b
  return 16 * v + d

def isLeading (unit : Nat) : Bool := 0xD800 ≤ unit && unit < 0xDC00

def isTrailing (unit : Nat) : Bool := 0xDC00 ≤ unit && unit < 0xE000

def push (done : Bytes) (codePoint : Nat) : Bytes :=
  (Bytes.ofString (Char.ofNat codePoint).toString).reverse ++ done

def closeUnit (done : Bytes) (lead : Option Nat) (unit : Nat) : Result :=
  match lead with
  | some high =>
    if isTrailing unit then
      proceed (.string (push done (0x10000 + (high - 0xD800) * 0x400 + (unit - 0xDC00))))
    else fail true .loneSurrogate
  | none =>
    if isTrailing unit then fail true .loneSurrogate
    else if isLeading unit then proceed (.pair done unit)
    else proceed (.string (push done unit))

def step (scan : Scan) (b : UInt8) : Result :=
  match scan with
  | .between => start b
  | .word [] token => let (tokens, next) := start b; (token :: tokens, next)
  | .word (c :: rest) token =>
    if b = c then if rest.isEmpty then emit token else proceed (.word rest token)
    else fail false .expectedIdent
  | .number n =>
    match n.advance b with
    | some (.ok m) => proceed (.number m)
    | some (.error e) => fail false e
    | none =>
      match n.finish .invalidNumber with
      | .ok value => let (tokens, next) := start b; (.number value :: tokens, next)
      | .error e => fail false e
  | .string done =>
    if b = 0x22 then closeString done
    else if b = 0x5C then proceed (.escape done)
    else if b < 0x20 then fail true .controlCharacter
    else proceed (.string (b :: done))
  | .escape done =>
    if b = 0x75 then proceed (.codeUnit done none 0 (some 0))
    else match escaped? b with
      | some c => proceed (.string (c :: done))
      | none => fail true .invalidEscape
  | .codeUnit done lead count value =>
    if count < 3 then proceed (.codeUnit done lead (count + 1) (addHex value b))
    else match addHex value b with
      | some v => closeUnit done lead v
      | none => fail true .invalidEscape
  | .pair done lead => if b = 0x5C then proceed (.pairMark done lead) else fail true .hexEscapeEnd
  | .pairMark done lead =>
    if b = 0x75 then proceed (.codeUnit done (some lead) 0 (some 0)) else fail true .hexEscapeEnd

def finish : Scan → List Token
  | .between => []
  | .word _ _ => [.broken false .eofInValue]
  | .number n => [numberToken .eofInValue n]
  | .string _ | .escape _ | .codeUnit _ _ _ _ | .pair _ _ | .pairMark _ _ =>
    [.broken true .eofInString]

def tokens : Scan → Bytes → List Token
  | scan, [] => scan.finish
  | scan, b :: rest =>
    match scan.step b with
    | (ready, none) => ready
    | (ready, some next) => ready ++ tokens next rest

def isOpen : Scan → Bool
  | .between => false
  | _ => true

/-- Whether the open token ends in front of a byte. A number out of range does, but not one that
lacks digits: there the byte is what breaks the rule. -/
def endsAt : Scan → UInt8 → Bool
  | .word [] _, _ => true
  | .number n, b =>
    match n.advance b, n.finish .invalidNumber with
    | none, .error .invalidNumber => false
    | none, _ => true
    | some _, _ => false
  | _, _ => false

/-- The spans of the tokens from here to the end. `read` bytes were read before, and `seen` of them
when the open token began. -/
def spans : Scan → Nat → Nat → Bytes → List Span
  | scan, seen, read, [] => scan.finish.map fun _ => ⟨seen, read⟩
  | scan, seen, read, b :: rest =>
    let goesOn := scan.isOpen && !scan.endsAt b
    let here : Span := ⟨if goesOn then seen else read + 1, read + 1⟩
    let (ready, next) := scan.step b
    let found := (List.range ready.length).map fun i =>
      if i = 0 && scan.endsAt b then ⟨seen, read⟩ else here
    found ++ (next.map fun next => spans next here.seen (read + 1) rest).getD []

end Scan

def tokens (bytes : Bytes) : List Token := Scan.between.tokens bytes

/-- Whether a fault is met as soon as a token begins, whatever becomes of it. -/
def Fault.isSeen : Fault → Bool
  | .expectedColon | .expectedListEnd | .expectedObjectEnd | .keyNotString | .trailingComma
  | .trailingCharacters | .tooDeep => true
  | _ => false

/-- How many bytes were read when a token was refused. Containers are refused before they are
opened, and an unknown or repeated field after the blanks behind its name. -/
def Fault.reach (token : Token) (span : Span) : Fault → Nat
  | .mismatch (.unknownField _ _) | .mismatch (.duplicateField _) =>
    match token with
    | .closeObject => span.done
    | _ => span.seen - 1
  | .mismatch _ =>
    match token with
    | .openArray | .openObject => span.seen - 1
    | _ => span.done
  | fault => if fault.isSeen then span.seen else span.done

/-- The refusal of a text of which some tokens were taken. -/
def refuse (bytes : Bytes) (taken : Nat) (fault : Fault) : Refusal :=
  let place := match (tokens bytes)[taken]?, (Scan.between.spans 0 0 bytes)[taken]? with
    | some token, some span => fault.reach token span
    | _, _ => bytes.length
  ⟨fault, .after (bytes.take place)⟩

end SessionAttributes.Json
