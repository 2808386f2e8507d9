import SessionAttributes.Decimal.Binary64

namespace SessionAttributes.Decimal

structure Digits where
  digits : Nat
  power : Int
deriving DecidableEq, Repr

/-- The numbers that round to a magnitude `m * 2 ^ e`, measured in quarters of `2 ^ e` and brought
to whole numbers: the lower end, the value and the upper end over `unit`, for the grid of step
`10 ^ power`. -/
structure Interval where
  lower : Nat
  value : Nat
  upper : Nat
  unit : Nat
  closed : Bool

def interval (magnitude : Nat) (power : Int) : Interval :=
  let (m, e) := Binary64.parts magnitude
  let below := if m = Nat.pow 2 52 ∧ magnitude / Nat.pow 2 52 ≠ 1 then 1 else 2
  let quarter := e - 2
  let up := (if quarter < 0 then 1 else Nat.pow 2 quarter.natAbs) *
    (if power < 0 then Nat.pow 10 power.natAbs else 1)
  let down := (if quarter < 0 then Nat.pow 2 quarter.natAbs else 1) *
    (if power < 0 then 1 else Nat.pow 10 power.natAbs)
  ⟨(4 * m - below) * up, 4 * m * up, (4 * m + 2) * up, down, m % 2 = 0⟩

def Interval.holds (i : Interval) (k : Nat) : Bool :=
  if i.closed then i.lower ≤ k * i.unit && k * i.unit ≤ i.upper
  else i.lower < k * i.unit && k * i.unit < i.upper

/-- Of the two grid points next to the value one that rounds to it: the nearer if both do, the even
one if they are equally near. -/
def Interval.pick (i : Interval) : Option Nat :=
  let k := i.value / i.unit
  let rest := 2 * (i.value % i.unit)
  match i.holds k, i.holds (k + 1) with
  | true, true => some (if rest < i.unit ∨ (rest = i.unit ∧ k % 2 = 0) then k else k + 1)
  | true, false => some k
  | false, true => some (k + 1)
  | false, false => none

def search (magnitude : Nat) : Nat → Int → Digits
  | 0, power => ⟨0, power⟩
  | grids + 1, power =>
    match (interval magnitude power).pick with
    | some k => ⟨k, power⟩
    | none => search magnitude grids (power - 1)

def startPower (magnitude : Nat) : Int :=
  let (m, e) := Binary64.parts magnitude
  (Int.ofNat (Nat.log2 m) + 1 + e) * 30103 / 100000 + 2

/-- The fewest digits that read back as a finite magnitude other than zero, and of those the
nearest. Seventeen digits always do. -/
def shortest (magnitude : Nat) : Digits := search magnitude 24 (startPower magnitude)

/-- How a format writes numbers: the decimal exponents whose digits are written in full, and the
texts of what is no number and of an infinity. -/
structure Style where
  least : Int
  most : Int
  nan : String
  infinity : String

def zeros (n : Nat) : String := String.ofList (List.replicate n '0')

/-- All digits written in full. `point` digits stand before the point. -/
def positional (digits : String) (point : Int) : String :=
  if point ≤ 0 then "0." ++ zeros point.natAbs ++ digits
  else if Int.ofNat digits.length ≤ point then
    digits ++ zeros (point.toNat - digits.length) ++ ".0"
  else
    String.ofList (digits.toList.take point.toNat) ++ "." ++
      String.ofList (digits.toList.drop point.toNat)

def scientific (digits : String) (exponent : Int) : String :=
  let sign := if exponent < 0 then "-" else "+"
  let mantissa := match digits.toList with
    | [] => ""
    | [d] => String.ofList [d]
    | d :: ds => String.ofList (d :: '.' :: ds)
  mantissa ++ "e" ++ sign ++ toString exponent.natAbs

def writeMagnitude (style : Style) (magnitude : Nat) : String :=
  if magnitude = 0 then "0.0"
  else
    let d := shortest magnitude
    let digits := toString d.digits
    let point := Int.ofNat digits.length + d.power
    if style.least ≤ point - 1 ∧ point - 1 ≤ style.most then positional digits point
    else scientific digits (point - 1)

def write (style : Style) (x : Binary64) : String :=
  if x.isNan then style.nan
  else
    let sign := if x.negative then "-" else ""
    sign ++ if x.isInfinite then style.infinity else writeMagnitude style x.magnitude

end SessionAttributes.Decimal
