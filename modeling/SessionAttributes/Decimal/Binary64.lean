namespace SessionAttributes

/-- A double precision number by its bits. All arithmetic is exact on natural numbers and rounds
once, to the nearest number and to the even one on a tie. -/
structure Binary64 where
  negative : Bool
  /-- The bits below the sign: eleven of the exponent and fifty-two of the fraction. -/
  magnitude : Nat
deriving DecidableEq, Repr, Inhabited

namespace Binary64

def infinite : Nat := 2047 * Nat.pow 2 52

def zero : Binary64 := ⟨false, 0⟩

def isInfinite (x : Binary64) : Bool := x.magnitude == infinite

def isNan (x : Binary64) : Bool := infinite < x.magnitude

def isZero (x : Binary64) : Bool := x.magnitude == 0

/-- Numeric equality: the two zeros are equal and a NaN differs from itself. -/
def equal (x y : Binary64) : Bool :=
  !x.isNan && !y.isNan && (x == y || (x.isZero && y.isZero))

/-- The significand and the power of two of a finite magnitude. -/
def parts (magnitude : Nat) : Nat × Int :=
  let field := magnitude / Nat.pow 2 52
  let fraction := magnitude % Nat.pow 2 52
  if field = 0 then (fraction, -1074) else (Nat.pow 2 52 + fraction, Int.ofNat field - 1075)

/-- Divides and rounds to the nearest whole number, to the even one on a tie. -/
def roundDiv (num den : Nat) : Nat :=
  let q := num / den
  let twice := 2 * (num % den)
  if den < twice ∨ (twice = den ∧ q % 2 = 1) then q + 1 else q

/-- The magnitude bits of `num / den * 2 ^ (-e)` in units of `2 ^ e`, as a pair of a dividend and a
divisor. -/
def scaled (num den : Nat) (e : Int) : Nat × Nat :=
  if e < 0 then (num * Nat.pow 2 e.natAbs, den) else (num, den * Nat.pow 2 e.natAbs)

/-- The exponent that gives a quotient its fifty-three significant bits, or the least exponent. -/
def unitExponent (num den : Nat) : Int :=
  let guess : Int := Int.ofNat (Nat.log2 num) - Int.ofNat (Nat.log2 den) - 52
  let (n, d) := scaled num den guess
  max (if n / d < Nat.pow 2 52 then guess - 1 else guess) (-1074)

/-- The magnitude bits nearest to a quotient, those of an infinity if it is too large. -/
def ofRatio (num den : Nat) : Nat :=
  if num = 0 then 0
  else
    let e := unitExponent num den
    let (n, d) := scaled num den e
    min ((e + 1074).toNat * Nat.pow 2 52 + roundDiv n d) infinite

def ofNat (n : Nat) : Binary64 := ⟨false, ofRatio n 1⟩

def ratio (m : Nat) (e : Int) : Nat × Nat :=
  if e < 0 then (m, Nat.pow 2 e.natAbs) else (m * Nat.pow 2 e.natAbs, 1)

/-- The magnitude of a product of two finite magnitudes. -/
def mulMagnitude (x y : Nat) : Nat :=
  let (m, e) := parts x
  let (n, f) := parts y
  let (num, den) := ratio (m * n) (e + f)
  ofRatio num den

/-- The magnitude of a quotient of two finite magnitudes, the second not zero. -/
def divMagnitude (x y : Nat) : Nat :=
  let (m, e) := parts x
  let (n, f) := parts y
  let (num, den) := ratio m (e - f)
  ofRatio num (den * n)

def tenTo (k : Nat) : Nat := ofRatio (Nat.pow 10 k) 1

/-- Divides a magnitude by a power of ten, by at most 308 places at a time. -/
def shrink : Nat → Nat → Nat → Nat
  | 0, x, _ => x
  | rounds + 1, x, places =>
    if places ≤ 308 then divMagnitude x (tenTo places)
    else if x = 0 then 0
    else shrink rounds (divMagnitude x (tenTo 308)) (places - 308)

/-- `significand * 10 ^ exponent` by one multiplication or division of rounded numbers, so not
always the nearest number. Absent when the result would be infinite. A significand below `2 ^ 64`
is zero after three full divisions. -/
def ofDecimal (negative : Bool) (significand : Nat) (exponent : Int) : Option Binary64 :=
  let f := ofRatio significand 1
  if exponent < 0 then some ⟨negative, shrink 4 f exponent.natAbs⟩
  else if f = 0 then some ⟨negative, 0⟩
  else if 308 < exponent then none
  else
    let r := mulMagnitude f (tenTo exponent.natAbs)
    if r = infinite then none else some ⟨negative, r⟩

/-- The number nearest to a decimal, infinite if it is too large. Decimals out of reach of every
number are settled by their size. -/
def nearest (negative : Bool) (significand : Nat) (exponent : Int) : Binary64 :=
  if significand = 0 ∨ exponent + 1 + Nat.log2 significand < -400 then ⟨negative, 0⟩
  else if 400 < exponent then ⟨negative, infinite⟩
  else if exponent < 0 then ⟨negative, ofRatio significand (Nat.pow 10 exponent.natAbs)⟩
  else ⟨negative, ofRatio (significand * Nat.pow 10 exponent.natAbs) 1⟩

end Binary64
end SessionAttributes
