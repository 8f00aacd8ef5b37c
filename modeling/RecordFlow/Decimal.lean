import RecordFlow.Double

/-! Decimal numbers: the shortest one that reads back as a given binary number, its positional text,
and the nearest binary64 number to a decimal. -/

namespace RecordFlow

/-- The number `digits · 10 ^ exponent`, negated if `negative`. -/
structure Decimal where
  negative : Bool
  digits : Nat
  exponent : Int
  deriving DecidableEq, Repr

namespace Decimal

/-- A positive fraction `num / den`, here a bound of the numbers that round to one value. -/
structure Ratio where
  num : Nat
  den : Nat

/-- `m · 2 ^ e`. -/
def Ratio.scaled (m : Nat) (e : Int) : Ratio :=
  if 0 ≤ e then ⟨m * Nat.pow 2 e.toNat, 1⟩ else ⟨m, Nat.pow 2 (-e).toNat⟩

/-- A binary format: the stored bits of a significand and the exponent of the least number. -/
structure Format where
  fraction : Nat
  least : Int

def Format.binary64 : Format := ⟨52, -1074⟩

def Format.binary32 : Format := ⟨23, -149⟩

/-- The least significand that is normal. -/
def Format.unit (f : Format) : Nat := Nat.pow 2 f.fraction

/-- A magnitude as a whole number times a power of two. -/
def Format.parts (f : Format) (magnitude : Nat) : Nat × Int :=
  let field : Nat := magnitude / f.unit
  let rest : Nat := magnitude % f.unit
  if field = 0 then (rest, f.least) else (rest + f.unit, (field : Int) - 1 + f.least)

/-- The numbers that round to one positive value. -/
structure Interval where
  low : Ratio
  value : Ratio
  high : Ratio
  closed : Bool

/-- The bounds lie halfway to the neighbours; below a power of two the lower neighbour is twice as
near. An even significand keeps the bounds themselves. -/
def Interval.around (f : Format) (magnitude : Nat) : Interval :=
  let (m, e) := f.parts magnitude
  let below := if m = f.unit ∧ f.least < e then 4 * m - 1 else 4 * m - 2
  ⟨.scaled below (e - 2), .scaled (4 * m) (e - 2), .scaled (4 * m + 2) (e - 2), m % 2 = 0⟩

/-- Compares `digits · 10 ^ exponent` with a ratio. -/
def compareTo (digits : Nat) (exponent : Int) (r : Ratio) : Ordering :=
  compare (digits * Nat.pow 10 exponent.toNat * r.den) (r.num * Nat.pow 10 (-exponent).toNat)

def Interval.contains (i : Interval) (digits : Nat) (exponent : Int) : Bool :=
  let low := compareTo digits exponent i.low
  let high := compareTo digits exponent i.high
  (low == .gt || (i.closed && low == .eq)) && (high == .lt || (i.closed && high == .eq))

/-- The multiple of `10 ^ exponent` next below the value. -/
def Interval.floorAt (i : Interval) (exponent : Int) : Nat :=
  i.value.num * Nat.pow 10 (-exponent).toNat / (i.value.den * Nat.pow 10 exponent.toNat)

/-- The multiple of `10 ^ exponent` that lies in the interval and nearest to the value; of two
equally near ones the larger one. -/
def Interval.nearestAt (i : Interval) (exponent : Int) : Option Nat :=
  let below := i.floorAt exponent
  let above := below + 1
  match i.contains below exponent, i.contains above exponent with
  | true, false => some below
  | false, true => some above
  | false, false => none
  | true, true =>
    -- twice the value against the sum of the two candidates
    match compareTo (below + above) exponent ⟨2 * i.value.num, i.value.den⟩ with
    | .gt => some below
    | .lt | .eq => some above

/-- Tries the powers of ten downward from `exponent`, the coarsest first. -/
def Interval.search (i : Interval) : Nat → Int → Nat × Int
  | 0, exponent => (i.floorAt exponent, exponent)
  | fuel + 1, exponent =>
    match i.nearestAt exponent with
    | some digits => (digits, exponent)
    | none => i.search fuel (exponent - 1)

/-- The decimal with the fewest digits that reads back as a finite number of a format, and of those
the nearest to it. -/
def shortestIn (f : Format) (negative : Bool) (magnitude : Nat) : Decimal :=
  if magnitude = 0 then ⟨negative, 0, 0⟩
  else
    let (digits, exponent) := (Interval.around f magnitude).search 650 309
    ⟨negative, digits, exponent⟩

def shortest (x : Double) : Decimal := shortestIn .binary64 x.isNegative x.magnitude

/-- The shortest decimal for the nearest number of single precision. -/
def shortestSingle (x : Double) : Decimal :=
  let bits := x.toFloat.toFloat32.toBits.toNat
  shortestIn .binary32 (0x80000000 ≤ bits) (bits % 0x80000000)

/-- The digits of a number in base ten. -/
def numeral (n : Nat) : String := String.ofList (Nat.toDigits 10 n)

def zeros (n : Nat) : String := String.ofList (List.replicate n '0')

/-- All places before the point written out, no point without places after it. -/
def positional (d : Decimal) : String :=
  let sign := if d.negative then "-" else ""
  let text := numeral d.digits
  let places := (-d.exponent).toNat
  if 0 ≤ d.exponent then sign ++ text ++ (if d.digits = 0 then "" else zeros d.exponent.toNat)
  else
    let padded := zeros (places + 1 - text.length) ++ text
    let whole := padded.length - places
    sign ++ String.ofList (padded.toList.take whole) ++ "." ++
      String.ofList (padded.toList.drop whole)

/-- The nearest binary64 number, infinite beyond the largest one. -/
def toDouble (d : Decimal) : Double :=
  let width : Int := (numeral d.digits).length
  let size : Float :=
    if d.digits = 0 then 0
    else if 310 < width + d.exponent then Float.ofScientific 1 false 310
    else if width + d.exponent < -330 then 0
    else Float.ofScientific d.digits (d.exponent < 0) d.exponent.natAbs
  .ofFloat (if d.negative then -size else size)

end Decimal

/-- Positional text with the fewest digits that read back. -/
def Double.text (x : Double) : String :=
  if x.isNaN then "NaN"
  else if x.isFinite then (Decimal.shortest x).positional
  else if x.isNegative then "-inf" else "inf"

end RecordFlow
